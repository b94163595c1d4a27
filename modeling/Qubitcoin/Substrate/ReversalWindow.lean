import Qubitcoin.Substrate.Quorum

/-! The reversal window.  It is measured twice: from the target's inclusion to the
request, and from the request to the vote that executes it. -/

namespace Qubitcoin.Substrate

open Reversibility (ReversalRequest Target scanOutput targetVouts)
open WriteLog (Write)

/-! ## Inclusion heights -/

/-- No entry lies above the height, and the outputs of one txid do not get younger as
their index grows. -/
structure Aged (l : Ledger) (height : BlockHeight) : Prop where
  height_le : ∀ k u, l.utxoSet.lookup k = some u → u.blockHeight ≤ height
  descending : ∀ txid v v' u u', l.utxoSet.lookup (txid, v) = some u →
    l.utxoSet.lookup (txid, v') = some u' → v.toNat ≤ v'.toNat → u'.blockHeight ≤ u.blockHeight

/-- New entries of one height that leave no index out. -/
structure Lot (made : List Utxo) (height : BlockHeight) : Prop where
  height_eq : ∀ u ∈ made, u.blockHeight = height
  closed : ∀ u ∈ made, ∀ v : U32, v.toNat ≤ u.vout.toNat → ∃ w ∈ made, w.key = (u.txid, v)

theorem Aged.mono {l : Ledger} {h h' : BlockHeight} (ha : Aged l h) (hle : h ≤ h') :
    Aged l h' where
  height_le k u hu := (ha.height_le k u hu).trans hle
  descending := ha.descending

theorem Aged.transfer {l : Ledger} {h h' : BlockHeight} (ha : Aged l h)
    {spent : List (OutPoint × Utxo)} {made : List Utxo} (hlot : Lot made h') (hle : h ≤ h') :
    Aged (l.transfer spent made) h' where
  height_le k u hu := by
    cases Ledger.lookup_putAll hu with
    | inl hnew => exact (hlot.height_eq u hnew.1).le
    | inr hold => exact (ha.height_le k u (Ledger.lookup_dropAll hold.1)).trans hle
  descending txid v v' u u' hu hu' hv := by
    cases Ledger.lookup_putAll hu with
    | inl hnew =>
      rw [hlot.height_eq u hnew.1]
      cases Ledger.lookup_putAll hu' with
      | inl hnew' => exact (hlot.height_eq u' hnew'.1).le
      | inr hold' => exact (ha.height_le _ u' (Ledger.lookup_dropAll hold'.1)).trans hle
    | inr hold =>
      cases Ledger.lookup_putAll hu' with
      | inl hnew' =>
        obtain ⟨hmem, hkey⟩ := hnew'
        cases u' with
        | mk txid' vout address amount blockHeight isCoinbase =>
          cases hkey
          obtain ⟨w, hw, hwkey⟩ := hlot.closed _ hmem v hv
          exact absurd hwkey (hold.2 w hw)
      | inr hold' =>
        exact ha.descending txid v v' u u' (Ledger.lookup_dropAll hold.1)
          (Ledger.lookup_dropAll hold'.1) hv

variable {host : Host} {g : GenesisConfig} {s s' : State} {bs new : List Ballot}

theorem lot_nil (height : BlockHeight) : Lot [] height :=
  ⟨fun _ h => absurd h List.not_mem_nil, fun _ h => absurd h List.not_mem_nil⟩

theorem lot_singleton {u : Utxo} (h : u.vout = 0) : Lot [u] u.blockHeight where
  height_eq v hv := by rw [List.mem_singleton.mp hv]
  closed w hw v hv := by
    rw [List.mem_singleton.mp hw, h] at hv
    have hzero : v = 0 := BitVec.eq_of_toNat_eq (Nat.le_zero.mp hv)
    refine ⟨u, List.mem_singleton_self u, ?_⟩
    rw [List.mem_singleton.mp hw, hzero, Utxo.key, h]

theorem lot_madeOutputs (cfg : Utxo.Config) (inputs : List TransactionInput)
    {outputs : List TransactionOutput} (height : BlockHeight) :
    Lot (Utxo.madeOutputs cfg inputs outputs height) height where
  height_eq u hu := by
    obtain ⟨i, hi, rfl⟩ := List.mem_mapIdx.mp hu
    rfl
  closed u hu v hv := by
    obtain ⟨i, hi, rfl⟩ := List.mem_mapIdx.mp hu
    change v.toNat ≤ (BitVec.ofNat 32 i).toNat at hv
    rw [BitVec.toNat_ofNat] at hv
    have hlt := hv.trans (Nat.mod_le _ _)
    refine ⟨_, List.mem_mapIdx.mpr ⟨v.toNat, by omega, rfl⟩, ?_⟩
    simp [Utxo.key, Utxo.outputUtxo]

/-- Every step replaces entries by a lot of a height between the old and the new. -/
theorem Effect.lot {ms : List Mint} (h : Effect host s s' ms)
    (hle : s.utxo.currentHeight ≤ s'.utxo.currentHeight) :
    ∃ spent made height, s'.utxo.toLedger = s.utxo.toLedger.transfer spent made ∧
      Lot made height ∧ s.utxo.currentHeight ≤ height ∧ height ≤ s'.utxo.currentHeight := by
  cases h with
  | still moved => exact ⟨_, _, _, moved.ledger, lot_nil _, le_rfl, hle⟩
  | transaction accepted moved =>
    exact ⟨_, _, _, moved.ledger, lot_madeOutputs _ _ _, le_rfl, hle⟩
  | coinbase moved height =>
    exact ⟨_, _, _, moved.ledger, lot_singleton rfl, Nat.le_succ _, height.ge⟩
  | @reversal requestId request spent amount lookup pending targets moved executed =>
    refine ⟨_, _, s.utxo.currentHeight, moved.ledger, ?_, le_rfl, hle⟩
    unfold Reversibility.madeReversal
    split
    · exact lot_singleton rfl
    · exact lot_nil _

theorem step_lot (host : Host) (s : State) (i : Step) :
    ∃ spent made height, (step host s i).utxo.toLedger = s.utxo.toLedger.transfer spent made ∧
      Lot made height ∧ s.utxo.currentHeight ≤ height ∧
        height ≤ (step host s i).utxo.currentHeight :=
  (step_effect host s i).lot (step_height_le host s i)

theorem le_foldl_max (hs : List Nat) (h : Nat) :
    h ≤ hs.foldl max h ∧ ∀ x ∈ hs, x ≤ hs.foldl max h := by
  induction hs generalizing h with
  | nil => simp
  | cons y ys ih =>
    obtain ⟨hstart, hall⟩ := ih (max h y)
    rw [List.foldl_cons, List.forall_mem_cons]
    exact ⟨(Nat.le_max_left h y).trans hstart, (Nat.le_max_right h y).trans hstart, hall⟩

theorem aged_genesis (hgenesis : ∀ u ∈ g.genesisUtxos, ∀ u' ∈ g.genesisUtxos,
    u.txid = u'.txid → u.blockHeight = u'.blockHeight) :
    Aged g.build.utxo.toLedger g.build.utxo.currentHeight := by
  have hheight : g.build.utxo.currentHeight =
      (g.genesisUtxos.map Utxo.blockHeight).foldl max 0 := by
    simp only [GenesisConfig.build, Utxo.genesisBuild, Utxo.foldl_putUtxo]
  constructor
  · intro k u hu
    rw [hheight]
    exact (le_foldl_max _ 0).2 _ (List.mem_map_of_mem (genesis_entry hu).1)
  · intro txid v v' u u' hu hu' _
    obtain ⟨hu, hkey⟩ := genesis_entry hu
    obtain ⟨hu', hkey'⟩ := genesis_entry hu'
    apply (hgenesis u' hu' u hu _).le
    exact (congrArg Prod.fst hkey').trans (congrArg Prod.fst hkey).symm

theorem aged_run (host : Host) (steps : List Step)
    (hgenesis : ∀ u ∈ g.genesisUtxos, ∀ u' ∈ g.genesisUtxos,
      u.txid = u'.txid → u.blockHeight = u'.blockHeight) :
    Aged (run host g steps).utxo.toLedger (run host g steps).utxo.currentHeight := by
  refine Machine.run_induction (P := fun s : State => Aged s.utxo.toLedger s.utxo.currentHeight)
    ?_ (aged_genesis hgenesis) steps
  intro s i ha
  obtain ⟨spent, made, height, hledger, hlot, hlow, hhigh⟩ := step_lot host s i
  rw [hledger]
  exact (ha.transfer hlot hlow).mono hhigh

/-! ## The scan of a target -/

/-- The scan ends with the height of the last output it found, which is the oldest. -/
theorem scanOutputs_le {utxos : Utxo.Storage} {r : Reversibility.Storage} {targetTxid : TxId}
    (ha : Aged utxos.toLedger utxos.currentHeight) {vouts : List Nat}
    (hsorted : vouts.Pairwise (· < ·)) (hbound : ∀ v ∈ vouts, v < 2 ^ 32) {acc target : Target}
    (h : vouts.foldlM (scanOutput utxos r targetTxid) acc = .ok target) :
    (∀ v ∈ vouts, ∀ u, utxos.utxoSet.lookup (targetTxid, BitVec.ofNat 32 v) = some u →
      target.blockHeight ≤ u.blockHeight) ∧
    ((∀ v ∈ vouts, utxos.utxoSet.lookup (targetTxid, BitVec.ofNat 32 v) = none) →
      target = acc) := by
  induction vouts generalizing acc with
  | nil =>
    cases h
    exact ⟨fun _ hv => absurd hv List.not_mem_nil, fun _ => rfl⟩
  | cons v vs ih =>
    obtain ⟨hfirst, hrest⟩ := List.pairwise_cons.mp hsorted
    obtain ⟨hv, hbound⟩ := List.forall_mem_cons.mp hbound
    rw [List.foldlM_cons] at h
    obtain ⟨next, hnext, h⟩ := Checked.bind_eq_ok.mp h
    obtain ⟨hfound, hnone⟩ := ih hrest hbound h
    simp only [scanOutput] at hnext
    cases hlookup : utxos.utxoSet.lookup (targetTxid, BitVec.ofNat 32 v) with
    | none =>
      rw [hlookup] at hnext
      cases hnext
      rw [List.forall_mem_cons, List.forall_mem_cons, hlookup]
      exact ⟨⟨(fun u hu => by cases hu), hfound⟩, fun hall => hnone hall.2⟩
    | some u =>
      rw [hlookup] at hnext
      obtain ⟨-, hnext⟩ := Checked.ensure_bind_eq_ok.mp hnext
      obtain ⟨-, hnext⟩ := Checked.ensure_bind_eq_ok.mp hnext
      obtain ⟨amount, -, hnext⟩ := Checked.okOr_bind_eq_ok.mp hnext
      cases hnext
      rw [List.forall_mem_cons, List.forall_mem_cons, hlookup]
      refine ⟨⟨?_, hfound⟩, fun hall => by cases hall.1⟩
      intro u' hu'
      cases hu'
      by_cases hempty : ∀ w ∈ vs,
          utxos.utxoSet.lookup (targetTxid, BitVec.ofNat 32 w) = none
      · rw [hnone hempty]
      · push Not at hempty
        obtain ⟨w, hw, hsome⟩ := hempty
        obtain ⟨u', hu'⟩ := Option.ne_none_iff_exists'.mp hsome
        apply (hfound w hw u' hu').trans
        apply ha.descending targetTxid _ _ u u' hlookup hu'
        rw [BitVec.toNat_ofNat, BitVec.toNat_ofNat, Nat.mod_eq_of_lt hv,
          Nat.mod_eq_of_lt (hbound w hw)]
        exact (hfirst w hw).le

theorem lt_of_mem_targetVouts {v : Nat} (h : v ∈ targetVouts) : v < 256 := by
  simp only [targetVouts] at h
  exact List.mem_range.mp h

theorem scanTarget_le {utxos : Utxo.Storage} {r : Reversibility.Storage} {targetTxid : TxId}
    (ha : Aged utxos.toLedger utxos.currentHeight) {target : Target}
    (h : Reversibility.scanTarget utxos r targetTxid = .ok target) {v : Nat}
    (hv : v ∈ targetVouts) {u : Utxo}
    (hu : utxos.utxoSet.lookup (targetTxid, BitVec.ofNat 32 v) = some u) :
    target.blockHeight ≤ u.blockHeight := by
  refine (scanOutputs_le ha ?_ ?_ h).1 v hv u hu
  · simp only [targetVouts]
    exact List.pairwise_lt_range
  · intro w hw
    exact (lt_of_mem_targetVouts hw).trans (by norm_num)

/-! ## Requests -/

/-- A request was filed within the window of its target's inclusion and expires
within the same window of its filing. -/
def InWindow (s : State) (bs : List Ballot) (id : H256) (r : ReversalRequest) : Prop :=
  r.requestBlockHeight ≤ s.utxo.currentHeight ∧
  ∃ window, .filed id r.requestBlockHeight window ∈ bs ∧
    r.expiryBlockHeight ≤ r.requestBlockHeight + window.toNat ∧
    ∀ v ∈ targetVouts, ∀ u,
      s.utxo.utxoSet.lookup (r.targetTxid, BitVec.ofNat 32 v) = some u →
        r.requestBlockHeight ≤ u.blockHeight + window.toNat

def Windowed (s : State) (bs : List Ballot) : Prop :=
  ∀ id r, s.reversibility.reversalRequests.lookup id = some r → InWindow s bs id r

/-- Entries that come later are younger. -/
theorem InWindow.of_step (host : Host) {id : H256} {r r' : ReversalRequest}
    (h : InWindow s bs id r) (htarget : r'.targetTxid = r.targetTxid)
    (hrequest : r'.requestBlockHeight = r.requestBlockHeight)
    (hexpiry : r'.expiryBlockHeight = r.expiryBlockHeight) (i : Step) (new : List Ballot) :
    InWindow (step host s i) (bs ++ new) id r' := by
  obtain ⟨hfiled, window, hmem, hlife, hage⟩ := h
  obtain ⟨spent, made, height, hledger, hlot, hlow, hhigh⟩ := step_lot host s i
  rw [InWindow, htarget, hrequest, hexpiry]
  refine ⟨hfiled.trans (step_height_le host s i), window, List.mem_append_left _ hmem, hlife, ?_⟩
  intro v hv u hu
  rw [hledger] at hu
  cases Ledger.lookup_putAll hu with
  | inl hnew =>
    rw [hlot.height_eq u hnew.1]
    exact (hfiled.trans hlow).trans (Nat.le_add_right _ _)
  | inr hold => exact hage v hv u (Ledger.lookup_dropAll hold.1)

theorem Windowed.of_step (host : Host) (ha : Aged s.utxo.toLedger s.utxo.currentHeight)
    (h : Windowed s bs) (i : Step) :
    Windowed (step host s i) (bs ++ balloted host s i) := by
  have hg := step_governed host s i
  have hkeep : ∀ id r r', InWindow s (bs ++ balloted host s i) id r →
      r'.targetTxid = r.targetTxid → r'.requestBlockHeight = r.requestBlockHeight →
      r'.expiryBlockHeight = r.expiryBlockHeight →
        InWindow (step host s i) (bs ++ balloted host s i) id r' := by
    intro id r r' hin htarget hrequest hexpiry
    simpa using hin.of_step host htarget hrequest hexpiry i []
  have hold : ∀ id r, s.reversibility.reversalRequests.lookup id = some r →
      InWindow s (bs ++ balloted host s i) id r := by
    intro id r hr
    obtain ⟨hfiled, window, hmem, hrest⟩ := h id r hr
    exact ⟨hfiled, window, List.mem_append_left _ hmem, hrest⟩
  generalize balloted host s i = new at hg hkeep hold ⊢
  generalize step host s i = s' at hg hkeep ⊢
  intro id r hr
  cases hg with
  | tuned same =>
    rw [same.requests] at hr
    exact hkeep id r r (hold id r hr) rfl rfl rfl
  | @filed target request filed =>
    rw [filed.filed] at hr
    have hr := (StorageMap.lookup_insert_eq _ _ _ _).symm.trans hr
    split at hr
    · next hid =>
      cases hr
      refine hkeep id r r ⟨filed.requestHeight.le, s.reversibility.reversalWindow,
        ?_, ?_, ?_⟩ rfl rfl rfl
      · rw [hid, filed.requestHeight]
        exact List.mem_append_right _ (List.mem_singleton_self _)
      · rw [filed.expiry, filed.requestHeight]
        exact Nat.min_le_left _ _
      · intro v hv u hu
        have hscanned := scanTarget_le ha filed.scanned hv hu
        have hrecent := Nat.sub_le_iff_le_add.mp filed.recent
        rw [filed.requestHeight, Nat.add_comm]
        exact hrecent.trans (Nat.add_le_add_left hscanned _)
    · exact hkeep id r r (hold id r hr) rfl rfl rfl
  | @counted governor requestId request votes voting below stored =>
    rw [stored] at hr
    have hr := (StorageMap.lookup_insert_eq _ _ _ _).symm.trans hr
    split at hr
    · next hid =>
      cases hr
      rw [hid]
      exact hkeep requestId request _ (hold requestId request voting.lookup) rfl rfl rfl
    · exact hkeep id r r (hold id r hr) rfl rfl rfl
  | @executed governor requestId request votes voting reached stored =>
    rw [stored, Reversibility.executeReversal_requests] at hr
    split at hr
    · next hid =>
      obtain ⟨r', hr', rfl⟩ := Option.map_eq_some_iff.mp hr
      have hr' := (StorageMap.lookup_insert_eq _ _ _ _).symm.trans hr'
      rw [if_pos hid] at hr'
      cases hr'
      rw [hid]
      exact hkeep requestId request _ (hold requestId request voting.lookup) rfl rfl rfl
    · next hid =>
      have hr := (Finmap.lookup_insert_of_ne _ hid).symm.trans hr
      exact hkeep id r r (hold id r hr) rfl rfl rfl
  | expired lookup pending late requests votes =>
    rw [requests, StorageMap.lookup_erase_eq] at hr
    split at hr
    · cases hr
    · exact hkeep id r r (hold id r hr) rfl rfl rfl

section Run

variable (host : Host) (steps : List Step)
  (hgenesis : ∀ u ∈ g.genesisUtxos, ∀ u' ∈ g.genesisUtxos,
    u.txid = u'.txid → u.blockHeight = u'.blockHeight)

include hgenesis

theorem windowed_run : Windowed (run host g steps) (ballots host g steps) := by
  induction steps using List.reverseRecOn with
  | nil =>
    intro id r hr
    rw [show run host g [] = g.build from rfl, genesis_requests] at hr
    cases hr
  | append_singleton steps i ih =>
    rw [run_snoc, ballots_snoc]
    exact ih.of_step host (aged_run host steps hgenesis) i

end Run

/-! ## Reversals -/

/-- The step takes the entry out of the set. -/
def Consumes (host : Host) (s : State) (i : Step) (key : OutPoint) (utxo : Utxo) : Prop :=
  Write.remove key utxo ∈ (step host s i).utxo.writes.drop s.utxo.writes.length

instance (host : Host) (s : State) (i : Step) (key : OutPoint) (utxo : Utxo) :
    Decidable (Consumes host s i key utxo) := by
  unfold Consumes
  infer_instance

theorem Execution.consumes {i : Step} {requestId : H256} {governor : Address}
    {request : ReversalRequest} {votes : Reversibility.Addresses}
    (h : Execution host s i requestId governor request votes) {key : OutPoint} {utxo : Utxo}
    (hconsumed : Consumes host s i key utxo) :
    s.utxo.utxoSet.lookup key = some utxo ∧
      ∃ v ∈ targetVouts, key = (request.targetTxid, BitVec.ofNat 32 v) := by
  obtain ⟨spent, amount, htargets, hmoved, -⟩ :=
    Reversibility.executeReversal_movement host s.utxo
      (Reversibility.storeVote s.reversibility requestId votes
        (Reversibility.approve (Reversibility.countVote request))) requestId
      (Reversibility.approve (Reversibility.countVote request))
  rw [Consumes, h.utxo, hmoved.ledger, Ledger.writes_transfer, List.append_assoc,
    List.drop_left, List.mem_append] at hconsumed
  cases hconsumed with
  | inl hmem =>
    obtain ⟨p, hp, heq⟩ := List.mem_map.mp hmem
    cases heq
    exact ⟨hmoved.holds.lookup p hp, (htargets p hp).1⟩
  | inr hmem =>
    obtain ⟨u, _, heq⟩ := List.mem_map.mp hmem
    cases heq

/-- A reversal is asked for within the window of its target's inclusion and executed
within the same window of the request, so within two windows of the inclusion. -/
theorem reversal_within_windows (host : Host) (g : GenesisConfig) (steps : List Step)
    (i : Step) (requestId : H256) (key : OutPoint) (utxo : Utxo)
    (hgenesis : ∀ u ∈ g.genesisUtxos, ∀ u' ∈ g.genesisUtxos,
      u.txid = u'.txid → u.blockHeight = u'.blockHeight)
    (hexecutes : executes host (run host g steps) i = some requestId)
    (hconsumed : Consumes host (run host g steps) i key utxo) :
    ∃ height window, .filed requestId height window ∈ ballots host g steps ∧
      height ≤ utxo.blockHeight + window.toNat ∧
      (run host g steps).utxo.currentHeight ≤ height + window.toNat ∧
      (run host g steps).utxo.currentHeight ≤ utxo.blockHeight + 2 * window.toNat := by
  obtain ⟨governor, request, votes, hexec⟩ := executes_eq_some hexecutes
  obtain ⟨hlookup, v, hv, rfl⟩ := hexec.consumes hconsumed
  obtain ⟨-, window, hmem, hlife, hage⟩ :=
    windowed_run host steps hgenesis requestId request hexec.voting.lookup
  have hincluded := hage v hv utxo hlookup
  have hopen := hexec.voting.open_.trans hlife
  refine ⟨request.requestBlockHeight, window, hmem, hincluded, hopen, ?_⟩
  rw [Nat.two_mul, ← Nat.add_assoc]
  exact hopen.trans (Nat.add_le_add_right hincluded _)

theorem reversal_within_windows_sample :
    ∃ height window,
      .filed Sample.requestId height window ∈
        ballots Sample.host Sample.genesis Sample.steps.dropLast ∧
      height ≤ Sample.target.blockHeight + window.toNat ∧
      (run Sample.host Sample.genesis Sample.steps.dropLast).utxo.currentHeight ≤
        height + window.toNat ∧
      (run Sample.host Sample.genesis Sample.steps.dropLast).utxo.currentHeight ≤
        Sample.target.blockHeight + 2 * window.toNat :=
  reversal_within_windows Sample.host Sample.genesis Sample.steps.dropLast
    (Sample.approvalBy Sample.alice) Sample.requestId Sample.target.key Sample.target
    (by decide +kernel) (by decide +kernel) (by decide +kernel)

/-- The sample reversal comes one block after the window of its target. -/
theorem sample_reversal_after_window :
    executes Sample.host (run Sample.host Sample.genesis Sample.steps.dropLast)
        (Sample.approvalBy Sample.alice) = some Sample.requestId ∧
      Consumes Sample.host (run Sample.host Sample.genesis Sample.steps.dropLast)
        (Sample.approvalBy Sample.alice) Sample.target.key Sample.target ∧
      Sample.target.blockHeight + (run Sample.host Sample.genesis
          Sample.steps.dropLast).reversibility.reversalWindow.toNat <
        (run Sample.host Sample.genesis Sample.steps.dropLast).utxo.currentHeight := by
  decide +kernel

end Qubitcoin.Substrate
