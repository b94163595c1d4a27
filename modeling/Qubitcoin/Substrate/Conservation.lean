import Qubitcoin.Substrate.Governance

/-! Runs with fresh txids: their log is linear, their value is conserved and their
caches are exact. -/

namespace Qubitcoin.Substrate

open Utxo (Movement)
open WriteLog (Write)

section Audit

variable {host : Host} {g : GenesisConfig}

/-- What a run keeps true of its state and of its mints so far.  `issued` traces
every txid of the log back; the last four fields say why no mint can repeat. -/
structure Audited (host : Host) (g : GenesisConfig) (s : State) (ms : List Mint) : Prop where
  logged : s.utxo.Logged
  issued : ∀ w ∈ s.utxo.writes,
    (∃ u ∈ g.genesisUtxos, u.txid = w.key.1) ∨ ∃ m ∈ ms, m.txid host = w.key.1
  inputs_ne_nil : ∀ inputs outputs, Mint.transaction inputs outputs ∈ ms → inputs ≠ []
  inputs_nodup : (ms.flatMap Mint.inputKeys).Nodup
  inputs_removed : ∀ k ∈ ms.flatMap Mint.inputKeys, ∃ u, Write.remove k u ∈ s.utxo.writes
  heights : ∀ h parent reward, Mint.coinbase h parent reward ∈ ms → h ≤ s.utxo.currentHeight
  executed : ∀ id h, Mint.reversal id h ∈ ms →
    ∃ r, s.reversibility.reversalRequests.lookup id = some r ∧ r.status = .executed

/-! ## Genesis -/

theorem genesis_ledger (us : List Utxo) :
    (Utxo.genesisBuild us).toLedger = Ledger.empty.putAll us := by
  rw [Utxo.genesisBuild, Utxo.foldl_putUtxo]

theorem genesis_entry {g : GenesisConfig} {k : OutPoint} {u : Utxo}
    (h : g.build.utxo.utxoSet.lookup k = some u) : u ∈ g.genesisUtxos ∧ u.key = k := by
  change (Utxo.genesisBuild g.genesisUtxos).toLedger.utxoSet.lookup k = some u at h
  rw [genesis_ledger] at h
  cases Ledger.lookup_putAll h with
  | inl hnew => exact hnew
  | inr hold => exact absurd ((Finmap.lookup_empty k).symm.trans hold.1) (by simp)

theorem logged_empty : Ledger.empty.Logged := ⟨.nil, rfl⟩

theorem logged_genesis (us : List Utxo) : (Ledger.empty.putAll us).Logged := by
  induction us using List.reverseRecOn with
  | nil => exact logged_empty
  | append_singleton us u ih =>
    have hput : Ledger.empty.putAll (us ++ [u]) = (Ledger.empty.putAll us).put u := by
      simp [Ledger.putAll]
    rw [hput]
    apply ih.put
    intro v hmem
    rw [Ledger.writes_putAll] at hmem
    simp [Ledger.empty] at hmem

theorem audited_genesis (host : Host) (g : GenesisConfig) : Audited host g g.build [] where
  logged := by
    change (Utxo.genesisBuild g.genesisUtxos).toLedger.Logged
    rw [genesis_ledger]
    exact logged_genesis g.genesisUtxos
  issued := by
    intro w hw
    change w ∈ (Utxo.genesisBuild g.genesisUtxos).toLedger.writes at hw
    rw [genesis_ledger, Ledger.writes_putAll] at hw
    obtain ⟨u, hu, rfl⟩ := List.mem_map.mp hw
    exact Or.inl ⟨u, hu, rfl⟩
  inputs_ne_nil _ _ h := absurd h List.not_mem_nil
  inputs_nodup := List.nodup_nil
  inputs_removed _ h := absurd h List.not_mem_nil
  heights _ _ _ h := absurd h List.not_mem_nil
  executed _ _ h := absurd h List.not_mem_nil

/-! ## A mint is new -/

section Step

variable {s : State} {ms : List Mint}

/-- A mint that differs in its preimage from all earlier ones of its kind makes
outputs under keys the log has never seen. -/
theorem Audited.fresh (ha : Audited host g s ms) {m : Mint} {made : List Utxo}
    (hfresh : FreshTxids host g.genesisUtxos (ms ++ [m]))
    (hmade : ∀ u ∈ made, u.txid = m.txid host) (hnodup : (made.map Utxo.key).Nodup)
    (hnew : ∀ m' ∈ ms, m'.kind = m.kind → m'.preimage ≠ m.preimage) : s.utxo.Fresh made where
  nodup := hnodup
  unwritten := by
    intro u hu w hw hkey
    have htxid : w.key.1 = m.txid host := by
      rw [hkey, ← hmade u hu]
      rfl
    have hlast : m ∈ ms ++ [m] := by simp
    obtain ⟨v, hv, heq⟩ | ⟨m', hm', heq⟩ := ha.issued w hw
    · exact hfresh.genesisApart m hlast v hv (by rw [heq, htxid])
    · have hold : m' ∈ ms ++ [m] := List.mem_append_left _ hm'
      have hsame : m'.txid host = m.txid host := by rw [heq, htxid]
      exact hnew m' hm' (hfresh.kindsApart m' hold m hlast hsame)
        (hfresh.collisionFree m' hold m hlast hsame)

/-- A transaction spends an entry of the set, and no earlier one with the same
first input has left it there. -/
theorem Audited.transaction_new (ha : Audited host g s ms) {inputs : List TransactionInput}
    {outputs : List TransactionOutput} {spent : List Utxo}
    (h : Utxo.Accepted (s.utxoConfig host) s.utxo inputs outputs spent) :
    ∀ m ∈ ms, m.kind = .transaction → m.preimage ≠ (Mint.transaction inputs outputs).preimage := by
  intro m hm hkind hpreimage
  cases m with
  | coinbase _ _ _ => cases hkind
  | reversal _ _ => cases hkind
  | transaction inputs' outputs' =>
    obtain ⟨i, is, rfl⟩ := List.exists_cons_of_ne_nil h.inputs_ne_nil
    obtain ⟨i', is', rfl⟩ :=
      List.exists_cons_of_ne_nil (ha.inputs_ne_nil inputs' outputs' hm)
    have hfirst := Utxo.head_eq_of_txidPreimage hpreimage
    have hlisted : i.key ∈ ms.flatMap Mint.inputKeys :=
      List.mem_flatMap.mpr ⟨_, hm, by rw [← hfirst]; exact List.mem_cons_self⟩
    obtain ⟨u, hremoved⟩ := ha.inputs_removed i.key hlisted
    obtain ⟨v, hv⟩ := h.exists_spent (List.mem_cons_self : i.key ∈ _)
    have habsent := ha.logged.lookup_of_removed hremoved
    have hpresent := h.holds.lookup _ hv
    rw [habsent] at hpresent
    cases hpresent

/-- Coinbases are made at ever greater heights. -/
theorem Audited.coinbase_new (ha : Audited host g s ms) (parent : H256) (reward : QbcBalance) :
    ∀ m ∈ ms, m.kind = .coinbase →
      m.preimage ≠ (Mint.coinbase (s.utxo.currentHeight + 1) parent reward).preimage := by
  intro m hm hkind hpreimage
  cases m with
  | transaction _ _ => cases hkind
  | reversal _ _ => cases hkind
  | coinbase h parent' reward' =>
    have hle := ha.heights h parent' reward' hm
    rw [Consensus.height_eq_of_coinbasePreimage hpreimage] at hle
    exact Nat.not_succ_le_self _ hle

/-- A request is executed once. -/
theorem Audited.reversal_new (ha : Audited host g s ms) {requestId : H256}
    {request : Reversibility.ReversalRequest}
    (hlookup : s.reversibility.reversalRequests.lookup requestId = some request)
    (hpending : request.status = .pending) (height : BlockHeight) :
    ∀ m ∈ ms, m.kind = .reversal → m.preimage ≠ (Mint.reversal requestId height).preimage := by
  intro m hm hkind hpreimage
  cases m with
  | transaction _ _ => cases hkind
  | coinbase _ _ _ => cases hkind
  | reversal id h =>
    have hid := Reversibility.requestId_eq_of_reversalPreimage hpreimage
    obtain ⟨r, hr, hstatus⟩ := ha.executed id h hm
    rw [hid, hlookup] at hr
    cases hr
    rw [hpending] at hstatus
    cases hstatus

/-- A step as a movement of funds whose new outputs are fresh. -/
structure FreshMove (host : Host) (s s' : State) (ms : List Mint)
    (spent : List (OutPoint × Utxo)) (made : List Utxo) : Prop where
  moved : Movement s.utxo s'.utxo spent made (ms.map Mint.reward).sum
  fresh : s.utxo.Fresh made
  issued : ∀ u ∈ made, ∃ m ∈ ms, m.txid host = u.txid
  inputs : ∀ k ∈ ms.flatMap Mint.inputKeys, ∃ u, (k, u) ∈ spent

theorem Effect.freshMove {s' : State} {ms' : List Mint} (ha : Audited host g s ms)
    (hfresh : FreshTxids host g.genesisUtxos (ms ++ ms')) (h : Effect host s s' ms') :
    ∃ spent made, FreshMove host s s' ms' spent made := by
  cases h with
  | still moved =>
    refine ⟨[], [], moved, ⟨List.nodup_nil, ?_⟩, ?_, ?_⟩
    · exact fun _ h => absurd h List.not_mem_nil
    · exact fun _ h => absurd h List.not_mem_nil
    · exact fun _ h => absurd h List.not_mem_nil
  | @transaction inputs outputs spent accepted moved =>
    have hmade : ∀ u ∈ Utxo.madeOutputs (s.utxoConfig host) inputs outputs s.utxo.currentHeight,
        u.txid = (Mint.transaction inputs outputs).txid host := by
      intro u hu
      obtain ⟨i, hi, rfl⟩ := List.mem_mapIdx.mp hu
      rfl
    refine ⟨_, _, moved, ?_, ?_, ?_⟩
    · exact ha.fresh hfresh hmade moved.nodup (ha.transaction_new accepted)
    · intro u hu
      exact ⟨_, List.mem_singleton_self _, (hmade u hu).symm⟩
    · intro k hk
      apply accepted.exists_spent
      simpa [Mint.inputKeys] using hk
  | @coinbase miner moved height =>
    have hmade : ∀ u ∈ [Consensus.coinbaseUtxo host s.block s.pallets miner],
        u.txid = (Mint.coinbase (s.utxo.currentHeight + 1) s.block.parentHash
          (Consensus.blockReward s.pallets)).txid host := by
      intro u hu
      rw [List.mem_singleton.mp hu]
      rfl
    refine ⟨_, _, moved, ?_, ?_, ?_⟩
    · exact ha.fresh hfresh hmade moved.nodup (ha.coinbase_new _ _)
    · intro u hu
      exact ⟨_, List.mem_singleton_self _, (hmade u hu).symm⟩
    · exact fun _ h => absurd h List.not_mem_nil
  | @reversal requestId request spent amount lookup pending targets moved executed =>
    have hmade : ∀ u ∈ Reversibility.madeReversal host requestId request amount
        s.utxo.currentHeight,
        u.txid = (Mint.reversal requestId s.utxo.currentHeight).txid host := by
      intro u hu
      rw [Reversibility.eq_of_mem_madeReversal hu]
      rfl
    refine ⟨_, _, moved, ?_, ?_, ?_⟩
    · exact ha.fresh hfresh hmade moved.nodup (ha.reversal_new lookup pending _)
    · intro u hu
      exact ⟨_, List.mem_singleton_self _, (hmade u hu).symm⟩
    · exact fun _ h => absurd h List.not_mem_nil

/-! ## Steps and runs -/

theorem FreshMove.written {s s' : State} {ms' : List Mint} {spent : List (OutPoint × Utxo)}
    {made : List Utxo} (h : FreshMove host s s' ms' spent made) :
    s'.utxo.writes = s.utxo.writes ++ (spent.map fun p => .remove p.1 p.2) ++
      made.map fun u => .insert u.key u := by
  rw [← Ledger.writes_transfer, ← h.moved.ledger]

theorem Audited.issued_step (ha : Audited host g s ms) {s' : State} {ms' : List Mint}
    {spent : List (OutPoint × Utxo)} {made : List Utxo}
    (h : FreshMove host s s' ms' spent made) :
    ∀ w ∈ s'.utxo.writes,
      (∃ u ∈ g.genesisUtxos, u.txid = w.key.1) ∨ ∃ m ∈ ms ++ ms', m.txid host = w.key.1 := by
  have hold : ∀ w ∈ s.utxo.writes, (∃ u ∈ g.genesisUtxos, u.txid = w.key.1) ∨
      ∃ m ∈ ms ++ ms', m.txid host = w.key.1 := by
    intro w hw
    apply (ha.issued w hw).imp_right
    rintro ⟨m, hm, heq⟩
    exact ⟨m, List.mem_append_left _ hm, heq⟩
  intro w hw
  rw [h.written, List.mem_append, List.mem_append] at hw
  obtain (hw | hw) | hw := hw
  · exact hold w hw
  · obtain ⟨p, hp, rfl⟩ := List.mem_map.mp hw
    obtain ⟨w', hw', hkey⟩ := ha.logged.written (h.moved.holds.lookup p hp)
    have := hold w' hw'
    rw [hkey] at this
    exact this
  · obtain ⟨u, hu, rfl⟩ := List.mem_map.mp hw
    obtain ⟨m, hm, heq⟩ := h.issued u hu
    exact Or.inr ⟨m, List.mem_append_right _ hm, heq⟩

/-- The inputs of a step are in the set, and those of earlier steps are not. -/
theorem Audited.inputs_nodup_step (ha : Audited host g s ms) {s' : State} {ms' : List Mint}
    {spent : List (OutPoint × Utxo)} {made : List Utxo}
    (h : FreshMove host s s' ms' spent made)
    (hnodup : (ms'.flatMap Mint.inputKeys).Nodup) :
    ((ms ++ ms').flatMap Mint.inputKeys).Nodup := by
  rw [List.flatMap_append]
  apply List.Nodup.append ha.inputs_nodup hnodup
  intro k hold hnew
  obtain ⟨u, hremoved⟩ := ha.inputs_removed k hold
  obtain ⟨v, hv⟩ := h.inputs k hnew
  have hpresent := h.moved.holds.lookup _ hv
  rw [ha.logged.lookup_of_removed hremoved] at hpresent
  cases hpresent

theorem Effect.mint_facts {s' : State} {ms' : List Mint} (h : Effect host s s' ms') :
    (∀ inputs outputs, Mint.transaction inputs outputs ∈ ms' → inputs ≠ []) ∧
    (ms'.flatMap Mint.inputKeys).Nodup ∧
    (∀ h parent reward, Mint.coinbase h parent reward ∈ ms' → h ≤ s'.utxo.currentHeight) ∧
    (∀ id h, Mint.reversal id h ∈ ms' →
      ∃ r, s'.reversibility.reversalRequests.lookup id = some r ∧ r.status = .executed) := by
  cases h with
  | still moved => simp
  | transaction accepted moved =>
    have hnodup := accepted.nodup
    have hne := accepted.inputs_ne_nil
    simpa [Mint.inputKeys] using ⟨hne, hnodup⟩
  | coinbase moved height =>
    refine ⟨by simp, by simp [Mint.inputKeys], ?_, by simp⟩
    intro h parent reward hm
    cases List.mem_singleton.mp hm
    exact height.ge
  | reversal lookup pending targets moved executed => simpa [Mint.inputKeys] using executed

theorem Audited.step (ha : Audited host g s ms) (i : Step)
    (hfresh : FreshTxids host g.genesisUtxos (ms ++ minted host s i)) :
    Audited host g (step host s i) (ms ++ minted host s i) := by
  have heffect := step_effect host s i
  obtain ⟨spent, made, h⟩ := heffect.freshMove ha hfresh
  obtain ⟨hinputs, hnodup, hheights, hexecuted⟩ := heffect.mint_facts
  constructor
  · rw [h.moved.ledger]
    exact ha.logged.transfer h.moved.holds h.fresh
  · exact ha.issued_step h
  · intro inputs outputs hm
    cases List.mem_append.mp hm with
    | inl hm => exact ha.inputs_ne_nil inputs outputs hm
    | inr hm => exact hinputs inputs outputs hm
  · exact ha.inputs_nodup_step h hnodup
  · intro k hk
    rw [h.written]
    rw [List.flatMap_append] at hk
    cases List.mem_append.mp hk with
    | inl hk =>
      obtain ⟨u, hu⟩ := ha.inputs_removed k hk
      exact ⟨u, by simp [hu]⟩
    | inr hk =>
      obtain ⟨u, hu⟩ := h.inputs k hk
      refine ⟨u, List.mem_append_left _ (List.mem_append_right _ ?_)⟩
      exact List.mem_map.mpr ⟨_, hu, rfl⟩
  · intro height parent reward hm
    cases List.mem_append.mp hm with
    | inl hm => exact (ha.heights height parent reward hm).trans (step_height_le host s i)
    | inr hm => exact hheights height parent reward hm
  · intro id height hm
    cases List.mem_append.mp hm with
    | inl hm => exact step_executed host s i (ha.executed id height hm)
    | inr hm => exact hexecuted id height hm

end Step

theorem audited_run (host : Host) (g : GenesisConfig) (steps : List Step)
    (hfresh : FreshTxids host g.genesisUtxos (mints host g steps)) :
    Audited host g (run host g steps) (mints host g steps) :=
  Machine.history_induction (fun _ _ h => h.of_append) (fun _ _ i ha hf => ha.step i hf)
    (audited_genesis host g) steps hfresh

end Audit

/-! ## A sample run

A block in which a reversal is requested, a proof is mined and the request is
approved.  The digests are those of SHA-256, the signatures those of the Ed25519 key
with seed `07…07`, the energies those of a proof whose parameters are all zero. -/

namespace Sample

def alice : AccountId := ⟨0x0101010101010101010101010101010101010101010101010101010101010101⟩

def aliceAddress : Address :=
  ⟨0x72cd6e8422c407fb6d098690f1130b7ded7ec2f7f5e1d30bd9d521f015363793⟩

def bob : AccountId := ⟨0x0303030303030303030303030303030303030303030303030303030303030303⟩

def bobAddress : Address :=
  ⟨0x648aa5c579fb30f38af744d97d6ec840c7a91277a499a0d780f3e7314eca090b⟩

def carol : AccountId := ⟨0x0404040404040404040404040404040404040404040404040404040404040404⟩

def carolAddress : Address :=
  ⟨0x9f4fb68f3e1dac82202f9aa581ce0bbf1f765df0e9ac3c8c57e20f685abab8ed⟩

def parentHash : H256 := 0x0202020202020202020202020202020202020202020202020202020202020202

def targetTxid : TxId := 0x1111111111111111111111111111111111111111111111111111111111111111

def requestId : H256 := 0x2163fef1050bf9f69b89d383b3b20e52d936f654dfe36e1939e74093dffe4ea9

def minerKey : H256 := 0xea4a6c63e29c520abef5507b132ec5f9954776aebebe7b92421eea691446d22c

def minerAddress : Address :=
  ⟨0xfe812c12f3ab4ce6ac5db69ac352f906cb1b11ef43fb33e252ef7ff552263889⟩

def zeroParams : BoundedVec U64 32 := ⟨List.replicate 12 0, by decide⟩

def firstProof : VqeProof where
  params := zeroParams
  energy := 291747695380
  hamiltonianSeed := 0xc5b15ed9f3b32fa92c7790ddd4185addd5a9835cde10c7f5d6e78746cc9b11e5
  nQubits := 4

def firstSignature : Bytes :=
  h256Code.encode 0x4433897c6a3f1e38fc27d375da6231a73b459015d5a8122dfbc056cc530d524f
    ++ h256Code.encode 0x80c0f5b53b430995bbae32bf563a12752600ad2a40448161c7cbef8e38c73004

def secondProof : VqeProof where
  params := zeroParams
  energy := 276850631820
  hamiltonianSeed := 0x6d3640e71a88687a3e3d4091e34b98ee8f70592825490e11cdb281af841b16fd
  nQubits := 4

def secondSignature : Bytes :=
  h256Code.encode 0x09c25a303c743817f275e39a69e7686c5f8c8b073d05fbe699dc6febf1b712e9
    ++ h256Code.encode 0xd8b7a95df843fbf5ea27b24d70a898b942c80c31458909d0e5fd741a27d2bf09

def digests : List (Bytes × H256) :=
  [(h256Code.encode alice.bytes, aliceAddress.bytes),
    (h256Code.encode bob.bytes, bobAddress.bytes),
    (h256Code.encode carol.bytes, carolAddress.bytes),
    (h256Code.encode minerKey, minerAddress.bytes),
    (Reversibility.requestPreimage targetTxid 80005, requestId),
    (Reversibility.reversalPreimage requestId 80006,
      0x7a2a9be8ac709627fc757f42c5beb2e300b5a1d6d99199ed9b8fc9e3260ee3b5),
    (Consensus.seedPreimage parentHash 80006, firstProof.hamiltonianSeed),
    (Consensus.seedPreimage parentHash 80007, secondProof.hamiltonianSeed),
    (Consensus.proofPreimage firstProof minerAddress 80006,
      0x1b0298b589417b1e2dd819cad1d7d3990bab884dceb23503b3567de586b3d2eb),
    (Consensus.proofPreimage secondProof minerAddress 80007,
      0x4fef424ed6930c26511c7c0e40ede2d3044a35d03a4a94a0f7ca46b29d8e5bb5),
    (Consensus.coinbasePreimage 80006 parentHash,
      0x43894a2c66bf0b0857d991f84268c54407d47b2b6d3763d05048c03a5f5369d0),
    (Consensus.coinbasePreimage 80007 parentHash,
      0x7b9c37cec23facc9e78dd3d9579408881fb9e24e2e0709f43c554f150b72da13)]

def host : Host :=
  .ofTables digests
    [(firstSignature, Consensus.miningProofSigningMessage firstProof, h256Code.encode minerKey),
      (secondSignature, Consensus.miningProofSigningMessage secondProof,
        h256Code.encode minerKey)]
    [((firstProof.hamiltonianSeed, zeroParams.val, 0), 291747695380),
      ((secondProof.hamiltonianSeed, zeroParams.val, thetaAdvancePerBlock), 276850631820)]
    [(zeroParams.val, 808153652155)]

def target : Utxo := ⟨targetTxid, 0, ⟨7⟩, 1000, 5, false⟩

def genesis : GenesisConfig where
  genesisUtxos := [target]
  initialEmitted := 1000
  initialDifficulty := initialDifficulty
  governors := ⟨[aliceAddress], by decide⟩
  reversalWindow := 80000
  approvalThreshold := 1

def request : Step := .extrinsic (.signed alice) (.submitReversalRequest targetTxid ⟨8⟩ .empty)

def mineFirst : Origin × Call := (.none, .submitMiningProof firstProof minerKey firstSignature)

def mineSecond : Origin × Call :=
  (.none, .submitMiningProof secondProof minerKey secondSignature)

def approvalBy (governor : AccountId) : Step :=
  .extrinsic (.signed governor) (.approveReversal requestId)

def steps : List Step :=
  [.newBlock parentHash 0, request, .extrinsic mineFirst.1 mineFirst.2, approvalBy alice]

end Sample

variable {host : Host} {g : GenesisConfig}

/-! ## Value -/

/-- The block rewards of the accepted proofs. -/
def rewards (ms : List Mint) : Nat := (ms.map Mint.reward).sum

theorem rewards_append (ms ms' : List Mint) : rewards (ms ++ ms') = rewards ms + rewards ms' := by
  simp [rewards]

theorem fresh_genesis {us : List Utxo} (hdistinct : (us.map Utxo.key).Nodup) :
    Ledger.empty.Fresh us :=
  ⟨hdistinct, fun _ _ _ hw => absurd hw List.not_mem_nil⟩

theorem supply_genesis (hdistinct : (g.genesisUtxos.map Utxo.key).Nodup) :
    g.build.utxo.supply = Ledger.worth g.genesisUtxos := by
  have htotal := Ledger.total_putAll logged_empty (fresh_genesis hdistinct)
  have hsupply : g.build.utxo.supply = (Ledger.empty.putAll g.genesisUtxos).total := by
    rw [← genesis_ledger]
    simp only [Utxo.Storage.supply, GenesisConfig.build, Utxo.genesisBuild, Utxo.foldl_putUtxo]
    rfl
  rw [hsupply, htotal]
  exact Nat.zero_add _

/-- An accounted run: its txids are fresh and its worth fits a `u128`. -/
structure Accounted (host : Host) (g : GenesisConfig) (ms : List Mint) : Prop where
  fresh : FreshTxids host g.genesisUtxos ms
  fits : Ledger.worth g.genesisUtxos + rewards ms < 2 ^ 128

theorem Accounted.of_append {ms ms' : List Mint} (h : Accounted host g (ms ++ ms')) :
    Accounted host g ms where
  fresh := h.fresh.of_append
  fits := by
    have hfits := h.fits
    rw [rewards_append] at hfits
    omega

theorem supply_run (hdistinct : (g.genesisUtxos.map Utxo.key).Nodup) (steps : List Step)
    (h : Accounted host g (mints host g steps)) :
    Audited host g (run host g steps) (mints host g steps) ∧
      (run host g steps).utxo.supply =
        Ledger.worth g.genesisUtxos + rewards (mints host g steps) := by
  refine Machine.history_induction
    (P := fun s ms => Audited host g s ms ∧
      s.utxo.supply = Ledger.worth g.genesisUtxos + rewards ms)
    (fun _ _ h => h.of_append) ?_ ⟨audited_genesis host g, supply_genesis hdistinct⟩ steps h
  intro s ms i hs haccounted
  obtain ⟨ha, hsupply⟩ := hs
  obtain ⟨spent, made, hmove⟩ := (step_effect host s i).freshMove ha haccounted.fresh
  have hfits := haccounted.fits
  rw [rewards_append] at hfits ⊢
  refine ⟨ha.step i haccounted.fresh, ?_⟩
  rw [hmove.moved.supply_eq ha.logged hmove.fresh]
  · rw [hsupply]
    exact Nat.add_assoc _ _ _
  · rw [hsupply, Nat.add_assoc]
    exact hfits

/-- Unspent outputs, waiting fees and burned fees add up to what genesis held and
what the accepted proofs were rewarded with. -/
theorem value_conserved (host : Host) (g : GenesisConfig) (steps : List Step)
    (hdistinct : (g.genesisUtxos.map Utxo.key).Nodup)
    (hfresh : FreshTxids host g.genesisUtxos (mints host g steps))
    (hfits : Ledger.worth g.genesisUtxos + rewards (mints host g steps) < 2 ^ 128) :
    (run host g steps).utxo.total + (run host g steps).utxo.accumulatedFees.toNat +
        (run host g steps).utxo.totalFeesBurned.toNat =
      Ledger.worth g.genesisUtxos + rewards (mints host g steps) :=
  (supply_run hdistinct steps ⟨hfresh, hfits⟩).2

theorem value_conserved_sample :
    (run Sample.host Sample.genesis Sample.steps).utxo.total +
        (run Sample.host Sample.genesis Sample.steps).utxo.accumulatedFees.toNat +
        (run Sample.host Sample.genesis Sample.steps).utxo.totalFeesBurned.toNat =
      Ledger.worth Sample.genesis.genesisUtxos +
        rewards (mints Sample.host Sample.genesis Sample.steps) :=
  value_conserved Sample.host Sample.genesis Sample.steps (by decide +kernel)
    (by decide +kernel) (by decide +kernel)

/-! ## Outpoints -/

/-- The log tells how the UTXO set came about, nothing is written at an outpoint
after its removal, and no outpoint is an input twice. -/
theorem outpoint_spent_once (host : Host) (g : GenesisConfig) (steps : List Step)
    (hfresh : FreshTxids host g.genesisUtxos (mints host g steps)) :
    WriteLog.replay (run host g steps).utxo.writes = (run host g steps).utxo.utxoSet ∧
    (∀ before after k u,
      (run host g steps).utxo.writes = before ++ Write.remove k u :: after →
        ∀ w ∈ after, w.key ≠ k) ∧
    ((mints host g steps).flatMap Mint.inputKeys).Nodup := by
  have ha := audited_run host g steps hfresh
  refine ⟨ha.logged.replay_writes, ?_, ha.inputs_nodup⟩
  intro before after k u heq
  exact ha.logged.linear.removed_last heq

theorem outpoint_spent_once_sample :
    ((mints Sample.host Sample.genesis Sample.steps).flatMap Mint.inputKeys).Nodup :=
  (outpoint_spent_once Sample.host Sample.genesis Sample.steps (by decide +kernel)).2.2

/-! ## Caches -/

theorem exact_empty : Ledger.empty.Exact := ⟨fun _ => rfl, rfl⟩

theorem exact_run (hdistinct : (g.genesisUtxos.map Utxo.key).Nodup) (steps : List Step)
    (h : Accounted host g (mints host g steps))
    (hcount : ∀ before, before <+: steps → (run host g before).utxo.entryCount < 2 ^ 64) :
    (run host g steps).utxo.Exact := by
  induction steps using List.reverseRecOn with
  | nil =>
    have hfits := h.fits
    have hentries := hcount [] (List.prefix_refl [])
    change (Utxo.genesisBuild g.genesisUtxos).toLedger.Exact
    change (Utxo.genesisBuild g.genesisUtxos).toLedger.entryCount < _ at hentries
    rw [genesis_ledger] at hentries ⊢
    have htotal := Ledger.total_putAll logged_empty (fresh_genesis hdistinct)
    apply exact_empty.putAll logged_empty (fresh_genesis hdistinct) _ hentries
    rw [htotal]
    change 0 + _ < _
    omega
  | append_singleton steps i ih =>
    have hbefore := h
    rw [mints_snoc] at hbefore
    obtain ⟨ha, -⟩ := supply_run hdistinct steps hbefore.of_append
    obtain ⟨spent, made, hmove⟩ := (step_effect host (run host g steps) i).freshMove ha
      hbefore.fresh
    have hexact := ih hbefore.of_append fun before hle =>
      hcount before (hle.trans (List.prefix_append _ _))
    have hentries := hcount (steps ++ [i]) (List.prefix_refl _)
    obtain ⟨-, hsupply⟩ := supply_run hdistinct (steps ++ [i]) h
    have hfits := h.fits
    rw [run_snoc] at hentries hsupply ⊢
    rw [← hsupply, Utxo.Storage.supply] at hfits
    rw [hmove.moved.ledger] at hentries hfits ⊢
    exact Ledger.Exact.transfer ha.logged hmove.moved.holds hmove.fresh hexact (by omega) hentries

/-- Every balance is the sum of the amounts its address holds, and the count is the
number of entries. -/
theorem caches_exact (host : Host) (g : GenesisConfig) (steps : List Step)
    (hdistinct : (g.genesisUtxos.map Utxo.key).Nodup)
    (hfresh : FreshTxids host g.genesisUtxos (mints host g steps))
    (hfits : Ledger.worth g.genesisUtxos + rewards (mints host g steps) < 2 ^ 128)
    (hcount : ∀ before, before <+: steps → (run host g before).utxo.entryCount < 2 ^ 64) :
    (∀ a, ((run host g steps).utxo.balanceOf a).toNat = (run host g steps).utxo.holdings a) ∧
      (run host g steps).utxo.utxoCount.toNat = (run host g steps).utxo.entryCount := by
  have h := exact_run hdistinct steps ⟨hfresh, hfits⟩ hcount
  exact ⟨h.balance, h.count⟩

theorem caches_exact_sample :
    (run Sample.host Sample.genesis Sample.steps).utxo.utxoCount.toNat =
      (run Sample.host Sample.genesis Sample.steps).utxo.entryCount := by
  have hcount : ∀ before ∈ Sample.steps.inits,
      (run Sample.host Sample.genesis before).utxo.entryCount < 2 ^ 64 := by decide +kernel
  exact (caches_exact Sample.host Sample.genesis Sample.steps (by decide +kernel)
    (by decide +kernel) (by decide +kernel)
    fun before h => hcount before ((List.mem_inits _ _).mpr h)).2

end Qubitcoin.Substrate
