import Qubitcoin.Substrate.RateLimit

/-! The hashes of accepted mining proofs: how many are kept, counted and recognised. -/

namespace Qubitcoin.Substrate

namespace Consensus

theorem pruneProofHashes_succ (host : Host) (fuel : ℕ) (s : Storage)
    (h : 1000 < s.recentProofHashCount.toNat) :
    ∃ removed : U32, pruneProofHashes host (fuel + 1) s =
      if removed = 0 then
        { s with
          recentProofHashes := s.recentProofHashes.erase s.proofHashOldestBlock
          recentProofHashCount := s.recentProofHashCount.saturatingSub removed
          proofHashOldestBlock := s.proofHashOldestBlock + 1 }
      else
        pruneProofHashes host fuel { s with
          recentProofHashes := s.recentProofHashes.erase s.proofHashOldestBlock
          recentProofHashCount := s.recentProofHashCount.saturatingSub removed
          proofHashOldestBlock := s.proofHashOldestBlock + 1 } := by
  constructor
  rw [pruneProofHashes, if_neg]
  rw [BitVec.le_def, not_le]
  exact h

theorem pruneProofHashes_below (host : Host) (fuel : ℕ) (s : Storage)
    (h : s.recentProofHashCount.toNat ≤ 1000) : pruneProofHashes host fuel s = s := by
  cases fuel with
  | zero => rfl
  | succ fuel =>
    rw [pruneProofHashes, if_pos]
    rw [BitVec.le_def]
    exact h

/-- One past the maximum the loop looks at height zero, where no proof has been; and whatever the
host reports of the empty prefix, it stops there. -/
theorem pruneProofHashes_full (host : Host) (fuel : ℕ) (s : Storage)
    (h : s.recentProofHashCount.toNat = 1001) (hcursor : s.proofHashOldestBlock = 0)
    (hnone : 0 ∉ s.recentProofHashes) :
    (pruneProofHashes host (fuel + 1) s).recentProofHashes = s.recentProofHashes := by
  obtain ⟨removed, hround⟩ := pruneProofHashes_succ host fuel s (by omega)
  rw [hround, hcursor]
  split
  · exact StorageMap.erase_of_notMem hnone
  · next hremoved =>
    rw [pruneProofHashes_below]
    · exact StorageMap.erase_of_notMem hnone
    · have hpos : removed.toNat ≠ 0 := fun hzero => hremoved (BitVec.eq_of_toNat_eq hzero)
      rw [BitVec.toNat_saturatingSub, h]
      omega

/-- The hash is entered and counted. -/
def enterProofHash (s : Storage) (blockHeight : BlockHeight) (proofHash : H256) : Storage :=
  { s with
    recentProofHashes := s.recentProofHashes.insert blockHeight
      (insert proofHash (s.recentProofHashes.value ∅ blockHeight))
    recentProofHashCount := s.recentProofHashCount.saturatingAdd 1 }

theorem toNat_count_enterProofHash (s : Storage) (blockHeight : BlockHeight) (proofHash : H256)
    (h : s.recentProofHashCount.toNat ≤ 1000) :
    (enterProofHash s blockHeight proofHash).recentProofHashCount.toNat =
      s.recentProofHashCount.toNat + 1 := by
  apply BitVec.toNat_saturatingAdd_of_lt
  change s.recentProofHashCount.toNat + 1 < 2 ^ 32
  omega

theorem storeProofHash_eq (host : Host) (s : Storage) (blockHeight : BlockHeight)
    (proofHash : H256) (h : s.recentProofHashCount.toNat ≤ 1000) :
    storeProofHash host s blockHeight proofHash =
      pruneProofHashes host (s.recentProofHashCount.toNat + 1)
        (enterProofHash s blockHeight proofHash) := by
  rw [← toNat_count_enterProofHash s blockHeight proofHash h]
  rfl

/-- The three items of the storage that remember the hashes. -/
structure SameHashes (s t : Storage) : Prop where
  hashes : s.recentProofHashes = t.recentProofHashes
  count : s.recentProofHashCount = t.recentProofHashCount
  cursor : s.proofHashOldestBlock = t.proofHashOldestBlock

theorem recordProof_sameHashes (host : Host) (block : BlockContext) (s : Storage)
    (proof : VqeProof) (energy : Int) (miner : Address) (blockHeight : BlockHeight) :
    ∃ t, SameHashes t s ∧
      SameHashes (recordProof host block s proof energy miner blockHeight)
        (storeProofHash host t blockHeight (computeProofHash host proof miner blockHeight)) := by
  refine ⟨_, ?_, ⟨rfl, rfl, rfl⟩⟩
  simp only [storeSolution, adjustDifficulty]
  split
  · exact ⟨rfl, rfl, rfl⟩
  · exact ⟨rfl, rfl, rfl⟩

end Consensus

variable (host : Host)

/-- The preimage of the hash of a proof, if the step is its acceptance. -/
def acceptedProof (s : State) : Step → List Bytes
  | .extrinsic origin (.submitMiningProof proof pubkey signature) =>
    match dispatch host s origin (.submitMiningProof proof pubkey signature) with
    | .ok _ =>
      [Consensus.proofPreimage proof (Consensus.pubkeyToAddress host pubkey)
        (s.utxo.currentHeight + 1)]
    | .error _ => []
  | _ => []

def acceptedProofs (g : GenesisConfig) (steps : List Step) : List Bytes :=
  Machine.history (step host) (acceptedProof host) g.build steps

/-- How many hashes are kept. -/
def retained (s : State) : ℕ :=
  StorageMap.weigh (fun _ hashes => hashes.card) s.consensus.recentProofHashes

/-- The height, counting the one migration that is still to come. -/
def migratedHeight (s : State) : ℕ :=
  s.utxo.currentHeight + if s.utxo.heightMigrationDone then 0 else Utxo.heightOffset

/-- What a step does to the hashes that are kept. -/
inductive Keeps (host : Host) (s s' : State) : List Bytes → Prop
  | none (same : Consensus.SameHashes s'.consensus s.consensus)
      (height : s.utxo.currentHeight ≤ s'.utxo.currentHeight)
      (migrated : migratedHeight s' = migratedHeight s) : Keeps host s s' []
  | one {t : Consensus.Storage} {proof : VqeProof} {miner : Address}
      (before : Consensus.SameHashes t s.consensus)
      (after : Consensus.SameHashes s'.consensus
        (Consensus.storeProofHash host t (s.utxo.currentHeight + 1)
          (Consensus.computeProofHash host proof miner (s.utxo.currentHeight + 1))))
      (height : s'.utxo.currentHeight = s.utxo.currentHeight + 1)
      (migrated : migratedHeight s' = migratedHeight s + 1) :
      Keeps host s s' [Consensus.proofPreimage proof miner (s.utxo.currentHeight + 1)]

theorem payMiner_migrated (block : Consensus.BlockContext) (p : Consensus.Pallets)
    (miner : Address) :
    (Consensus.payMiner host block p miner).2.heightMigrationDone = p.utxo.heightMigrationDone := by
  change (Utxo.finalizeFeesWithBurn p.utxo).2.heightMigrationDone = _
  unfold Utxo.finalizeFeesWithBurn
  split
  · rfl
  · rfl

theorem sweep_migrated (targetTxid : TxId) (vouts : List ℕ) (sweep : Reversibility.Sweep) :
    (vouts.foldl (Reversibility.sweepOutput targetTxid) sweep).utxos.heightMigrationDone =
      sweep.utxos.heightMigrationDone := by
  induction vouts generalizing sweep with
  | nil => rfl
  | cons vout vouts ih =>
    rw [List.foldl_cons, ih, Reversibility.sweepOutput]
    split
    · rfl
    · split
      · rfl
      · split
        · rfl
        · rfl

theorem returnFunds_migrated (utxos : Utxo.Storage) (request : Reversibility.ReversalRequest)
    (reversalTxid : TxId) (amount : QbcBalance) :
    (Reversibility.returnFunds utxos request reversalTxid amount).heightMigrationDone =
      utxos.heightMigrationDone := by
  unfold Reversibility.returnFunds
  split
  · rfl
  · rfl

theorem approveReversal_migrated {u u' : Utxo.Storage} {r r' : Reversibility.Storage}
    {a : AccountId} {requestId : H256}
    (h : Reversibility.approveReversal host u r a requestId = .ok (u', r')) :
    u'.heightMigrationDone = u.heightMigrationDone := by
  obtain ⟨vote, _, h⟩ := Checked.bind_eq_ok.mp h
  have hsettled := congrArg (fun p => p.1.heightMigrationDone) (Except.ok.inj h)
  rw [← hsettled]
  cases vote with
  | expired r => rfl
  | counted r => rfl
  | approved r request =>
    have hsweep :
        (Reversibility.sweepTarget u r request.targetTxid).utxos.heightMigrationDone =
          u.heightMigrationDone := by
      rw [Reversibility.sweepTarget, sweep_migrated]
    simp only [Reversibility.settle]
    rw [Reversibility.executeReversal_utxos, returnFunds_migrated, hsweep]

theorem step_keeps (s : State) (i : Step) : Keeps host s (step host s i) (acceptedProof host s i) := by
  cases i with
  | extrinsic origin call =>
    cases hdispatch : dispatch host s origin call with
    | error e =>
      have hnone : acceptedProof host s (.extrinsic origin call) = [] := by
        unfold acceptedProof
        split
        · next heq =>
          cases heq
          rw [hdispatch]
        · rfl
      rw [hnone, step, hdispatch]
      exact .none ⟨rfl, rfl, rfl⟩ le_rfl rfl
    | ok s' =>
      rw [step, hdispatch]
      cases dispatch_ok hdispatch with
      | @submitMiningProof proof pubkey signature p h =>
        obtain ⟨_, _, energy, _, rfl⟩ := Consensus.submitMiningProof_eq_ok.mp h
        obtain ⟨t, hbefore, hafter⟩ := Consensus.recordProof_sameHashes host s.block s.consensus
          proof energy (Consensus.pubkeyToAddress host pubkey) (s.utxo.currentHeight + 1)
        rw [acceptedProof, hdispatch]
        refine .one hbefore hafter rfl ?_
        change s.utxo.currentHeight + 1 + ite
          ((Consensus.payMiner host s.block s.pallets _).2.heightMigrationDone = true) _ _ = _
        rw [payMiner_migrated]
        exact Nat.add_right_comm _ _ _
      | submitTransaction h =>
        obtain ⟨_, _, _, _, _, rfl⟩ := Utxo.submitTransaction_ok h
        exact .none ⟨rfl, rfl, rfl⟩ le_rfl rfl
      | approveReversal h =>
        have hheight := approveReversal_height h
        refine .none ⟨rfl, rfl, rfl⟩ hheight.ge ?_
        simp only [migratedHeight, hheight, approveReversal_migrated host h]
      | _ => exact .none ⟨rfl, rfl, rfl⟩ le_rfl rfl
  | newBlock parentHash now =>
    refine .none ⟨rfl, rfl, rfl⟩ (step_height_le host s (.newBlock parentHash now)) ?_
    simp only [migratedHeight, step, Utxo.onInitialize]
    split
    · rfl
    · simp [*]
  | runtimeUpgrade => exact .none ⟨rfl, rfl, rfl⟩ le_rfl rfl

/-- What is kept while no more than the maximum has been accepted.  The cursor has not moved. -/
structure Remembered (g : GenesisConfig) (s : State) (accepted : List Bytes) : Prop where
  count : s.consensus.recentProofHashCount.toNat = accepted.length
  size : retained s = accepted.length
  cursor : s.consensus.proofHashOldestBlock = 0
  height : migratedHeight s = migratedHeight g.build + accepted.length
  risen : g.build.utxo.currentHeight ≤ s.utxo.currentHeight
  heights : ∀ h ∈ s.consensus.recentProofHashes,
    g.build.utxo.currentHeight < h ∧ h ≤ s.utxo.currentHeight
  hashes : ∀ h, ∀ hash ∈ s.consensus.recentProofHashes.value ∅ h, ∃ proof miner,
    Consensus.proofPreimage proof miner h ∈ accepted ∧
      hash = Consensus.computeProofHash host proof miner h

variable {host : Host} {g : GenesisConfig}

theorem remembered_genesis : Remembered host g g.build [] where
  count := rfl
  size := rfl
  cursor := rfl
  height := rfl
  risen := le_rfl
  heights h hmem := absurd hmem Finmap.notMem_empty
  hashes h hash hmem := by
    have hempty : hash ∈ StorageMap.value (∅ : Finset H256) ∅ h := hmem
    rw [StorageMap.value_empty] at hempty
    exact absurd hempty (Finset.notMem_empty hash)

theorem Remembered.still {s s' : State} {accepted : List Bytes} (h : Remembered host g s accepted)
    (hkeeps : Keeps host s s' []) : Remembered host g s' accepted := by
  cases hkeeps with
  | none same height migrated =>
    constructor
    · rw [same.count, h.count]
    · rw [retained, same.hashes]
      exact h.size
    · rw [same.cursor, h.cursor]
    · rw [migrated, h.height]
    · exact h.risen.trans height
    · intro k hk
      rw [same.hashes] at hk
      exact ⟨(h.heights k hk).1, (h.heights k hk).2.trans height⟩
    · intro k hash hhash
      rw [same.hashes] at hhash
      exact h.hashes k hash hhash

/-- The height of a proof is new. -/
theorem Remembered.notMem {s : State} {accepted : List Bytes} (h : Remembered host g s accepted) :
    s.utxo.currentHeight + 1 ∉ s.consensus.recentProofHashes := by
  intro hmem
  exact absurd (h.heights _ hmem).2 (Nat.not_succ_le_self _)

theorem Remembered.retained_insert {s : State} {accepted : List Bytes}
    (h : Remembered host g s accepted) (hash : H256) :
    StorageMap.weigh (fun _ hashes => hashes.card)
      (s.consensus.recentProofHashes.insert (s.utxo.currentHeight + 1)
        (insert hash (s.consensus.recentProofHashes.value ∅ (s.utxo.currentHeight + 1)))) =
      accepted.length + 1 := by
  have hvalue : s.consensus.recentProofHashes.value ∅ (s.utxo.currentHeight + 1) = ∅ := by
    rw [StorageMap.value, Finmap.lookup_eq_none.mpr h.notMem]
    rfl
  rw [StorageMap.weigh_insert _ _ h.notMem, hvalue]
  exact congrArg (· + 1) h.size

theorem Remembered.enter {s s' : State} {accepted : List Bytes} {preimage : Bytes}
    (h : Remembered host g s accepted) (hroom : accepted.length < 1000)
    (hkeeps : Keeps host s s' [preimage]) :
    Remembered host g s' (accepted ++ [preimage]) := by
  cases hkeeps with
  | @one t proof miner before after height migrated =>
    have hcount : t.recentProofHashCount.toNat = accepted.length := by rw [before.count, h.count]
    have hentered := Consensus.toNat_count_enterProofHash t (s.utxo.currentHeight + 1)
      (Consensus.computeProofHash host proof miner (s.utxo.currentHeight + 1)) (by omega)
    rw [Consensus.storeProofHash_eq host t _ _ (by omega),
      Consensus.pruneProofHashes_below _ _ _ (by omega)] at after
    have hhashes : s'.consensus.recentProofHashes =
        s.consensus.recentProofHashes.insert (s.utxo.currentHeight + 1)
          (insert (Consensus.computeProofHash host proof miner (s.utxo.currentHeight + 1))
            (s.consensus.recentProofHashes.value ∅ (s.utxo.currentHeight + 1))) := by
      rw [after.hashes, ← before.hashes]
      rfl
    have hlength : (accepted ++ [Consensus.proofPreimage proof miner
        (s.utxo.currentHeight + 1)]).length = accepted.length + 1 := List.length_append
    constructor
    · rw [after.count, hentered, hcount, hlength]
    · rw [retained, hhashes, h.retained_insert, hlength]
    · rw [after.cursor]
      exact before.cursor.trans h.cursor
    · rw [migrated, h.height, hlength]
      rfl
    · exact h.risen.trans (height ▸ Nat.le_succ _)
    · intro k hk
      rw [hhashes, Finmap.mem_insert] at hk
      rw [height]
      rcases hk with rfl | hk
      · exact ⟨Nat.lt_succ_of_le h.risen, le_rfl⟩
      · exact ⟨(h.heights k hk).1, Nat.le_succ_of_le (h.heights k hk).2⟩
    · intro k hash hhash
      rw [hhashes, StorageMap.value_insert_eq] at hhash
      have hold : hash ∈ s.consensus.recentProofHashes.value ∅ k → ∃ proof' miner',
          Consensus.proofPreimage proof' miner' k ∈ accepted ++
            [Consensus.proofPreimage proof miner (s.utxo.currentHeight + 1)] ∧
          hash = Consensus.computeProofHash host proof' miner' k := by
        intro hmem
        obtain ⟨proof', miner', haccepted, heq⟩ := h.hashes k hash hmem
        exact ⟨proof', miner', List.mem_append_left _ haccepted, heq⟩
      split at hhash
      · next heq =>
        rcases Finset.mem_insert.mp hhash with hnew | hmem
        · subst heq
          exact ⟨proof, miner, List.mem_append_right _ List.mem_cons_self, hnew⟩
        · exact hold (heq ▸ hmem)
      · exact hold hhash

/-- The next proof is one too many: nothing goes for it. -/
theorem Remembered.overflow {s s' : State} {accepted : List Bytes} {preimage : Bytes}
    (h : Remembered host g s accepted) (hfull : accepted.length = 1000)
    (hkeeps : Keeps host s s' [preimage]) : retained s' = 1001 := by
  cases hkeeps with
  | @one t proof miner before after height migrated =>
    have hcount : t.recentProofHashCount.toNat = 1000 := by rw [before.count, h.count, hfull]
    have hentered := Consensus.toNat_count_enterProofHash t (s.utxo.currentHeight + 1)
      (Consensus.computeProofHash host proof miner (s.utxo.currentHeight + 1)) hcount.le
    have hnone : 0 ∉ (Consensus.enterProofHash t (s.utxo.currentHeight + 1)
        (Consensus.computeProofHash host proof miner
          (s.utxo.currentHeight + 1))).recentProofHashes := by
      intro hmem
      rcases Finmap.mem_insert.mp hmem with hzero | hmem
      · exact absurd hzero (Nat.zero_ne_add_one _)
      · rw [before.hashes] at hmem
        exact Nat.not_lt_zero _ (h.heights 0 hmem).1
    rw [Consensus.storeProofHash_eq host t _ _ hcount.le] at after
    rw [hcount] at hentered
    rw [retained, after.hashes, Consensus.pruneProofHashes_full host _
      (Consensus.enterProofHash t _ _) hentered (before.cursor.trans h.cursor) hnone,
      Consensus.enterProofHash, before.hashes, h.retained_insert, hfull]

/-- What the acceptance of a proof is to leave behind, and what it is to meet: no more hashes than
the maximum, all counted, and this one not among them. -/
structure Remembers (host : Host) (s : State) (i : Step) : Prop where
  bounded : retained (step host s i) ≤ Consensus.maxRecentProofHashes.toNat
  counted : (step host s i).consensus.recentProofHashCount.toNat = retained (step host s i)
  fresh : ∀ preimage ∈ acceptedProof host s i, ∀ h,
    host.sha2_256 preimage ∉ s.consensus.recentProofHashes.value ∅ h

theorem acceptedProof_cases (host : Host) (s : State) (i : Step) :
    acceptedProof host s i = [] ∨ ∃ preimage, acceptedProof host s i = [preimage] := by
  have hkeeps := step_keeps host s i
  generalize acceptedProof host s i = accepted at hkeeps
  cases hkeeps with
  | none => exact .inl rfl
  | one => exact .inr ⟨_, rfl⟩

theorem acceptedProofs_snoc (host : Host) (g : GenesisConfig) (steps : List Step) (i : Step) :
    acceptedProofs host g (steps ++ [i]) =
      acceptedProofs host g steps ++ acceptedProof host (run host g steps) i :=
  Machine.history_snoc _ _ _

theorem remembered_run (host : Host) (g : GenesisConfig) (steps : List Step)
    (hroom : (acceptedProofs host g steps).length ≤ 1000) :
    Remembered host g (run host g steps) (acceptedProofs host g steps) := by
  induction steps using List.reverseRecOn with
  | nil => exact remembered_genesis
  | append_singleton steps i ih =>
    have hkeeps := step_keeps host (run host g steps) i
    rw [acceptedProofs_snoc, List.length_append] at hroom
    rw [acceptedProofs_snoc, run_snoc]
    rcases acceptedProof_cases host (run host g steps) i with hnone | ⟨preimage, hone⟩
    · rw [hnone] at hkeeps ⊢
      rw [List.append_nil]
      exact (ih (Nat.le_of_add_right_le hroom)).still hkeeps
    · rw [hone] at hkeeps hroom ⊢
      exact (ih (Nat.le_of_add_right_le hroom)).enter hroom hkeeps

/-- A run that keeps within the maximum has not accepted more. -/
theorem length_le_of_bounded (host : Host) (g : GenesisConfig) (steps : List Step)
    (h : ∀ before i, before ++ [i] <+: steps → acceptedProof host (run host g before) i ≠ [] →
      retained (run host g (before ++ [i])) ≤ Consensus.maxRecentProofHashes.toNat) :
    (acceptedProofs host g steps).length ≤ 1000 := by
  induction steps using List.reverseRecOn with
  | nil => exact Nat.zero_le _
  | append_singleton steps i ih =>
    have hroom := ih fun before j hle => h before j (hle.trans (List.prefix_append _ _))
    have hkeeps := step_keeps host (run host g steps) i
    rw [acceptedProofs_snoc, List.length_append]
    rcases acceptedProof_cases host (run host g steps) i with hnone | ⟨preimage, hone⟩
    · rw [hnone]
      exact hroom
    · rw [hone, List.length_singleton]
      rcases hroom.lt_or_eq with hlt | hfull
      · exact hlt
      · rw [hone] at hkeeps
        have hover := (remembered_run host g steps hroom).overflow hfull hkeeps
        have hbound := h steps i (List.prefix_refl _) (hone ▸ List.cons_ne_nil _ _)
        rw [run_snoc, hover] at hbound
        exact absurd hbound (by decide)

theorem le_inj_of_near {m n : ℕ} (h : Bytes.le 8 m = Bytes.le 8 n) (hle : m ≤ n)
    (hnear : n < m + 2 ^ 64) : m = n := by
  have hmod : m % 256 ^ 8 = n % 256 ^ 8 := by rw [← Bytes.ofLe_le, h, Bytes.ofLe_le]
  omega

/-- Between two proofs that are kept lie fewer heights than 64 bits tell apart. -/
theorem near_of_migrated {now start k length : ℕ} {migrated migrated' : Bool}
    (h : (now + if migrated then 0 else 80000) =
      (start + if migrated' then 0 else 80000) + length)
    (hroom : length ≤ 1000) (hlow : start < k) : now + 1 < k + 2 ^ 64 := by
  split at h
  · split at h
    · omega
    · omega
  · split at h
    · omega
    · omega

/-- A proof is not accepted a second time: its height is new, and part of what is hashed. -/
theorem Remembered.fresh {s s' : State} {accepted : List Bytes} {preimage : Bytes}
    (h : Remembered host g s accepted) (hroom : accepted.length ≤ 1000)
    (hinj : Set.InjOn host.sha2_256 {p | p ∈ accepted ++ [preimage]})
    (hkeeps : Keeps host s s' [preimage]) (k : BlockHeight) :
    host.sha2_256 preimage ∉ s.consensus.recentProofHashes.value ∅ k := by
  cases hkeeps with
  | @one t proof miner before after height migrated =>
    intro hmem
    obtain ⟨proof', miner', haccepted, heq⟩ := h.hashes k _ hmem
    have hpreimage := hinj (List.mem_append_right _ List.mem_cons_self)
      (List.mem_append_left _ haccepted) heq
    have hbytes := (List.append_inj' hpreimage (by simp only [Bytes.length_le])).2
    have hk : k ∈ s.consensus.recentProofHashes := by
      by_contra hnone
      rw [StorageMap.value, Finmap.lookup_eq_none.mpr hnone] at hmem
      exact absurd hmem (Finset.notMem_empty _)
    obtain ⟨hlow, hhigh⟩ := h.heights k hk
    have hsame := le_inj_of_near hbytes.symm (Nat.le_succ_of_le hhigh)
      (near_of_migrated h.height hroom hlow)
    exact absurd hhigh (hsame ▸ Nat.not_succ_le_self _)

/-- The maximum, the count and the recognition of a second proof last for as long as a thousand
proofs; the first round of the pruning loop removes nothing. -/
theorem remembers_iff (host : Host) (g : GenesisConfig) (steps : List Step)
    (hinj : Set.InjOn host.sha2_256 {p | p ∈ acceptedProofs host g steps}) :
    (∀ before i, before ++ [i] <+: steps → acceptedProof host (run host g before) i ≠ [] →
      Remembers host (run host g before) i) ↔ (acceptedProofs host g steps).length ≤ 1000 := by
  constructor
  · intro h
    apply length_le_of_bounded
    intro before i hle haccepted
    rw [run_snoc]
    exact (h before i hle haccepted).bounded
  · intro hroom before i hle haccepted
    obtain ⟨rest, rfl⟩ := hle
    have hsplit : acceptedProofs host g (before ++ [i] ++ rest) =
        acceptedProofs host g (before ++ [i]) ++
          Machine.history (step host) (acceptedProof host) (run host g (before ++ [i])) rest :=
      Machine.history_append _ _ _
    rw [hsplit, List.length_append] at hroom
    have hafter := remembered_run host g (before ++ [i]) (Nat.le_of_add_right_le hroom)
    have hkeeps := step_keeps host (run host g before) i
    rw [acceptedProofs_snoc] at hsplit hafter hroom
    rw [run_snoc] at hafter
    rw [List.length_append] at hroom
    have hbefore := remembered_run host g before (by omega)
    refine ⟨?_, hafter.count.trans hafter.size.symm, ?_⟩
    · rw [hafter.size, List.length_append]
      change _ ≤ 1000
      omega
    · intro preimage hmem k
      obtain ⟨other, hone⟩ := (acceptedProof_cases host (run host g before) i).resolve_left haccepted
      rw [hone] at hmem hkeeps hsplit
      cases List.mem_singleton.mp hmem
      apply hbefore.fresh (by omega) _ hkeeps
      apply hinj.mono
      intro p hp
      change p ∈ acceptedProofs host g (before ++ [i] ++ rest)
      rw [hsplit]
      exact List.mem_append_left _ hp

namespace Sample

def twoProofs : List Step :=
  [.newBlock parentHash 0, .extrinsic mineFirst.1 mineFirst.2,
    .extrinsic mineSecond.1 mineSecond.2]

end Sample

theorem remembers_iff_sample :
    (acceptedProofs Sample.host Sample.genesis Sample.twoProofs).length ≤ 1000 ∧
      ∀ before i, before ++ [i] <+: Sample.twoProofs →
        acceptedProof Sample.host (run Sample.host Sample.genesis before) i ≠ [] →
          Remembers Sample.host (run Sample.host Sample.genesis before) i := by
  have hinj : ∀ p ∈ acceptedProofs Sample.host Sample.genesis Sample.twoProofs,
      ∀ q ∈ acceptedProofs Sample.host Sample.genesis Sample.twoProofs,
        Sample.host.sha2_256 p = Sample.host.sha2_256 q → p = q := by
    decide +kernel
  have hroom : (acceptedProofs Sample.host Sample.genesis Sample.twoProofs).length ≤ 1000 := by
    decide +kernel
  exact ⟨hroom, (remembers_iff Sample.host Sample.genesis Sample.twoProofs
    fun p hp q hq => hinj p hp q hq).mpr hroom⟩

/-! A thousand and one blocks, each with a proof. -/

namespace Sample

/-- A host that takes every signature and finds every energy low enough. -/
def lenientHost : Host where
  sha2_256 data := BitVec.ofNat 256 (Bytes.ofLe (data.drop (data.length - 32)))
  dilithium5Verify _ _ _ := false
  ed25519Verify _ _ _ := true
  computeEnergyVersioned _ _ _ _ := some (-1)
  geometricWeightScaled _ := 0
  clearPrefix keys := (keys, 0)

def nextProof (s : State) : VqeProof where
  params := zeroParams
  energy := 0
  hamiltonianSeed :=
    Consensus.deriveHamiltonianSeed lenientHost s.block.parentHash (s.utxo.currentHeight + 1)
  nQubits := 4

def mineNext (s : State) : Step :=
  .extrinsic .none (.submitMiningProof (nextProof s) minerKey (List.replicate 64 0))

def blockAfter (n : ℕ) : Step := .newBlock (BitVec.ofNat 256 n) (BitVec.ofNat 64 (3300 * n))

def mining : ℕ → List Step
  | 0 => []
  | n + 1 => mining n ++ [blockAfter n] ++
      [mineNext (run lenientHost genesis (mining n ++ [blockAfter n]))]

theorem acceptedProof_mineNext {s : State} {accepted : List Bytes} (hbehind : MinersBehind s)
    (h : Remembered lenientHost genesis s accepted) :
    ∃ preimage, acceptedProof lenientHost s (mineNext s) = [preimage] := by
  have hvalue : s.consensus.recentProofHashes.value ∅ (s.utxo.currentHeight + 1) = ∅ := by
    rw [StorageMap.value, Finmap.lookup_eq_none.mpr h.notMem]
    rfl
  have hproof : Consensus.checkProof lenientHost s.block s.pallets (nextProof s) minerKey
      (List.replicate 64 0) = .ok ⟨⟩ := by
    have hfresh : Consensus.computeProofHash lenientHost (nextProof s)
        (Consensus.pubkeyToAddress lenientHost minerKey) (s.utxo.currentHeight + 1) ∉
        s.consensus.recentProofHashes.value ∅ (s.utxo.currentHeight + 1) := by
      rw [hvalue]
      exact Finset.notMem_empty _
    have hqubits : (0 : UInt8) < 4 := by decide
    have hparams : zeroParams.val ≠ [] := by decide
    rw [Consensus.checkProof]
    apply Checked.ensure_bind_eq_ok.mpr ⟨rfl, _⟩
    apply Checked.ensure_bind_eq_ok.mpr ⟨hqubits, _⟩
    apply Checked.ensure_bind_eq_ok.mpr ⟨hparams, _⟩
    apply Checked.ensure_bind_eq_ok.mpr ⟨rfl, _⟩
    exact Checked.ensure_eq_ok.mpr hfresh
  have henergy : Consensus.checkEnergy lenientHost s.block s.pallets (nextProof s) =
      .ok (-1) := by
    have hthreshold : 0 ≤ Consensus.difficultyThreshold s.consensus := by
      unfold Consensus.difficultyThreshold
      omega
    have hclaimed : (nextProof s).energy.toInt <
        Consensus.difficultyThreshold s.consensus + Consensus.energyValidationTolerance * 1000000 := by
      change (0 : Int) < Consensus.difficultyThreshold s.consensus + 1000000000
      omega
    have hcomputed : (-1 : Int) < Consensus.difficultyThreshold s.consensus := by omega
    rw [Consensus.checkEnergy]
    apply Checked.ensure_bind_eq_ok.mpr ⟨hclaimed, _⟩
    apply Checked.okOr_bind_eq_ok.mpr ⟨-1, rfl, _⟩
    exact Checked.ensure_bind_eq_ok.mpr ⟨hcomputed, rfl⟩
  have hok := Consensus.submitMiningProof_eq_ok.mpr
    ⟨hproof, Nat.lt_succ_of_le (hbehind _), -1, henergy, rfl⟩
  refine ⟨Consensus.proofPreimage (nextProof s) (Consensus.pubkeyToAddress lenientHost minerKey)
    (s.utxo.currentHeight + 1), ?_⟩
  simp only [acceptedProof, mineNext, dispatch, ensureNone, Checked.ok_bind, hok,
    Checked.mapError_ok]
  rfl

theorem run_mining_succ (n : ℕ) :
    acceptedProofs lenientHost genesis (mining (n + 1)) =
      acceptedProofs lenientHost genesis (mining n) ++
        acceptedProof lenientHost (run lenientHost genesis (mining n ++ [blockAfter n]))
          (mineNext (run lenientHost genesis (mining n ++ [blockAfter n]))) := by
  rw [mining, acceptedProofs_snoc, acceptedProofs_snoc]
  exact congrArg (· ++ _) (List.append_nil _)

theorem acceptedProofs_blockAfter (n : ℕ) :
    acceptedProofs lenientHost genesis (mining n ++ [blockAfter n]) =
      acceptedProofs lenientHost genesis (mining n) := by
  rw [acceptedProofs_snoc]
  exact List.append_nil _

theorem length_mining (n : ℕ) (h : n ≤ 1001) :
    (acceptedProofs lenientHost genesis (mining n)).length = n := by
  induction n with
  | zero => rfl
  | succ n ih =>
    have hlength := ih (Nat.le_of_succ_le h)
    have hroom : (acceptedProofs lenientHost genesis (mining n ++ [blockAfter n])).length ≤
        1000 := by
      rw [acceptedProofs_blockAfter, hlength]
      exact Nat.le_of_succ_le_succ h
    obtain ⟨preimage, hone⟩ := acceptedProof_mineNext
      (minersBehind_run lenientHost genesis (mining n ++ [blockAfter n]))
      (remembered_run lenientHost genesis (mining n ++ [blockAfter n]) hroom)
    rw [run_mining_succ, hone, List.length_append, hlength, List.length_singleton]

end Sample

/-- After a thousand and one proofs there are a thousand and one hashes. -/
theorem mining_overflows :
    (acceptedProofs Sample.lenientHost Sample.genesis (Sample.mining 1001)).length = 1001 ∧
      Consensus.maxRecentProofHashes.toNat <
        retained (run Sample.lenientHost Sample.genesis (Sample.mining 1001)) := by
  have hlength := Sample.length_mining 1001 le_rfl
  have hfull : (acceptedProofs Sample.lenientHost Sample.genesis
      (Sample.mining 1000 ++ [Sample.blockAfter 1000])).length = 1000 := by
    rw [Sample.acceptedProofs_blockAfter, Sample.length_mining 1000 (Nat.le_succ _)]
  have hremembered := remembered_run Sample.lenientHost Sample.genesis _ hfull.le
  obtain ⟨preimage, hone⟩ := Sample.acceptedProof_mineNext
    (minersBehind_run Sample.lenientHost Sample.genesis _) hremembered
  have hover := hremembered.overflow hfull (hone ▸ step_keeps Sample.lenientHost _ _)
  refine ⟨hlength, ?_⟩
  rw [Sample.mining, run_snoc, hover]
  decide

end Qubitcoin.Substrate
