import Qubitcoin.Substrate.Conservation
import Qubitcoin.Substrate.Governance

/-! The requests that are open at one time, and the outpoints that executions take. -/

namespace Qubitcoin.Substrate

open Reversibility (ReversalRequest Target Filed scanTarget computeRequestId)

/-! ## The outpoints -/

namespace Reversibility

/-- The outpoint that one round of the freezing loop removes. -/
def takenOutput (targetTxid : TxId) (sweep : Sweep) (vout : Nat) : List OutPoint :=
  let key : OutPoint := (targetTxid, BitVec.ofNat 32 vout)
  if key ∈ sweep.utxos.utxoSet ∧ key ∉ (sweepOutput targetTxid sweep vout).utxos.utxoSet then [key]
  else []

def takenTarget (utxos : Utxo.Storage) (s : Storage) (targetTxid : TxId) : List OutPoint :=
  Machine.history (sweepOutput targetTxid) (takenOutput targetTxid) ⟨utxos, s.frozenUtxos, 0⟩
    targetVouts

/-- What is taken is frozen and was not frozen before; what was frozen stays so. -/
structure Freezes (before after : StorageMap OutPoint Bool) (taken : List OutPoint) : Prop where
  nodup : taken.Nodup
  apart : ∀ k ∈ taken, before.value false k = false
  frozen : ∀ k ∈ taken, after.value false k = true
  kept : ∀ k, before.value false k = true → after.value false k = true

theorem Freezes.refl (frozenUtxos : StorageMap OutPoint Bool) : Freezes frozenUtxos frozenUtxos [] :=
  ⟨List.nodup_nil, by simp, by simp, fun _ h => h⟩

theorem Freezes.trans {first second third : StorageMap OutPoint Bool} {taken more : List OutPoint}
    (h : Freezes first second taken) (h' : Freezes second third more) :
    Freezes first third (taken ++ more) where
  nodup := by
    rw [List.nodup_append']
    refine ⟨h.nodup, h'.nodup, ?_⟩
    intro k hk hk'
    exact Bool.false_ne_true ((h'.apart k hk').symm.trans (h.frozen k hk))
  apart k hk := by
    cases List.mem_append.mp hk with
    | inl hk => exact h.apart k hk
    | inr hk =>
      rw [← Bool.not_eq_true]
      intro hfirst
      exact Bool.false_ne_true ((h'.apart k hk).symm.trans (h.kept k hfirst))
  frozen k hk := by
    cases List.mem_append.mp hk with
    | inl hk => exact h'.kept k (h.frozen k hk)
    | inr hk => exact h'.frozen k hk
  kept k hk := h'.kept k (h.kept k hk)

/-- The rule serves the rounds of one loop and the steps of a run alike. -/
theorem Freezes.history {σ ι : Type} {step : σ → ι → σ} {taken : σ → ι → List OutPoint}
    (frozenUtxos : σ → StorageMap OutPoint Bool)
    (h : ∀ s i, Freezes (frozenUtxos s) (frozenUtxos (step s i)) (taken s i)) (s : σ)
    (is : List ι) :
    Freezes (frozenUtxos s) (frozenUtxos (Machine.run step s is))
      (Machine.history step taken s is) := by
  induction is generalizing s with
  | nil => exact .refl _
  | cons i is ih => exact (h s i).trans (ih (step s i))

/-- A round leaves everything as it was, or removes an output that was not frozen. -/
theorem sweepOutput_cases (targetTxid : TxId) (sweep : Sweep) (vout : Nat) :
    sweepOutput targetTxid sweep vout = sweep ∨
    (targetTxid, BitVec.ofNat 32 vout) ∈ sweep.utxos.utxoSet ∧
      sweep.frozenUtxos.value false (targetTxid, BitVec.ofNat 32 vout) = false ∧
      (targetTxid, BitVec.ofNat 32 vout) ∉ (sweepOutput targetTxid sweep vout).utxos.utxoSet ∧
      (sweepOutput targetTxid sweep vout).frozenUtxos =
        sweep.frozenUtxos.insert (targetTxid, BitVec.ofNat 32 vout) true := by
  cases hlookup : sweep.utxos.utxoSet.lookup (targetTxid, BitVec.ofNat 32 vout) with
  | none => simp [sweepOutput, hlookup]
  | some utxo =>
    cases hfrozen : sweep.frozenUtxos.value false (targetTxid, BitVec.ofNat 32 vout) with
    | true => simp [sweepOutput, hlookup, hfrozen]
    | false =>
      cases hcoinbase : utxo.isCoinbase with
      | true => simp [sweepOutput, hlookup, hfrozen, hcoinbase]
      | false =>
        right
        simp only [sweepOutput, hlookup, hfrozen, hcoinbase]
        exact ⟨Finmap.mem_of_lookup_eq_some hlookup, trivial, Finmap.notMem_erase_self, rfl⟩

theorem sweepOutput_freezes (targetTxid : TxId) (sweep : Sweep) (vout : Nat) :
    Freezes sweep.frozenUtxos (sweepOutput targetTxid sweep vout).frozenUtxos
      (takenOutput targetTxid sweep vout) := by
  simp only [takenOutput]
  obtain hsame | ⟨hmem, hfree, hgone, hfrozen⟩ := sweepOutput_cases targetTxid sweep vout
  · rw [hsame, if_neg]
    · exact .refl _
    · simp
  · rw [if_pos ⟨hmem, hgone⟩, hfrozen]
    constructor
    · exact List.nodup_singleton _
    · simpa using hfree
    · simp
    · intro k hk
      rw [StorageMap.value_insert_eq, hk, ite_self]

theorem sweepTarget_freezes (utxos : Utxo.Storage) (s : Storage) (targetTxid : TxId) :
    Freezes s.frozenUtxos (sweepTarget utxos s targetTxid).frozenUtxos
      (takenTarget utxos s targetTxid) := by
  unfold sweepTarget takenTarget
  -- the 256 rounds are not to be unrolled
  generalize targetVouts = vouts
  exact Freezes.history Sweep.frozenUtxos (sweepOutput_freezes targetTxid)
    ⟨utxos, s.frozenUtxos, 0⟩ vouts

theorem executeReversal_frozenUtxos (host : Host) (utxos : Utxo.Storage) (s : Storage)
    (requestId : H256) (request : ReversalRequest) :
    (executeReversal host utxos s requestId request).2.frozenUtxos =
      (sweepTarget utxos s request.targetTxid).frozenUtxos := by
  simp only [executeReversal, markExecuted]
  generalize sweepTarget utxos s request.targetTxid = sweep
  split
  · rfl
  · rfl

end Reversibility

variable (host : Host)

/-- The outpoints that a step takes back for the sender of a reversed transaction. -/
def reversed (s : State) : Step → List OutPoint
  | .extrinsic origin (.approveReversal requestId) =>
    match voteOf host s origin requestId with
    | some (.approved r request) => Reversibility.takenTarget s.utxo r request.targetTxid
    | _ => []
  | _ => []

def reversals (g : GenesisConfig) (steps : List Step) : List OutPoint :=
  Machine.history (step host) (reversed host) g.build steps

variable {host}

theorem dispatch_approveReversal {s : State} {caller : AccountId} {requestId : H256}
    {vote : Reversibility.Vote}
    (h : voteOf host s (.signed caller) requestId = some vote) :
    dispatch host s (.signed caller) (.approveReversal requestId) =
      .ok { s with
        utxo := (Reversibility.settle host s.utxo requestId vote).1
        reversibility := (Reversibility.settle host s.utxo requestId vote).2 } := by
  cases hcast : Reversibility.castVote s.utxo.currentHeight s.reversibility
      (Reversibility.accountToAddress host caller) requestId with
  | error e =>
    simp only [voteOf, hcast] at h
    cases h
  | ok vote' =>
    rw [voteOf_signed hcast] at h
    cases h
    have happrove : Reversibility.approveReversal host s.utxo s.reversibility caller requestId =
        .ok (Reversibility.settle host s.utxo requestId vote) := by
      unfold Reversibility.approveReversal
      rw [hcast]
      rfl
    change (Except.mapError DispatchError.reversibility (Reversibility.approveReversal host s.utxo
      s.reversibility caller requestId) >>= _) = _
    rw [happrove]
    rfl

theorem reversed_of_refused {s : State} {origin : Origin} {call : Call} {e : DispatchError}
    (h : dispatch host s origin call = .error e) :
    reversed host s (.extrinsic origin call) = [] := by
  cases call with
  | approveReversal requestId =>
    simp only [reversed]
    split
    · next r request hvote =>
      cases origin with
      | signed caller =>
        rw [dispatch_approveReversal hvote] at h
        cases h
      | root => cases hvote
      | none => cases hvote
    · rfl
  | _ => rfl

theorem step_freezes (host : Host) (s : State) (i : Step) :
    Reversibility.Freezes s.reversibility.frozenUtxos (step host s i).reversibility.frozenUtxos
      (reversed host s i) := by
  apply step_cases (P := fun i s' => Reversibility.Freezes s.reversibility.frozenUtxos
    s'.reversibility.frozenUtxos (reversed host s i))
  · intro origin call s' heq h
    cases h with
    | submitReversalRequest h =>
      obtain ⟨target, request, htarget, hfiled⟩ := Reversibility.submitReversalRequest_ok h
      rw [hfiled.filed]
      exact .refl _
    | @approveReversal caller requestId u r h =>
      obtain ⟨vote, hvote, h⟩ := Checked.bind_eq_ok.mp h
      have hsettled : (Reversibility.settle host s.utxo requestId vote).2 = r :=
        congrArg Prod.snd (Except.ok.inj h)
      change Reversibility.Freezes _ r.frozenUtxos _
      rw [← hsettled]
      simp only [reversed, voteOf_signed hvote]
      obtain ⟨request, hlookup, hpending, hlate, rfl⟩ | ⟨request, votes, hvoting, hbelow, rfl⟩ |
        ⟨request, votes, hvoting, hreached, rfl⟩ := Reversibility.castVote_ok hvote
      · exact .refl _
      · exact .refl _
      · change Reversibility.Freezes _ (Reversibility.executeReversal _ _ _ _ _).2.frozenUtxos _
        rw [Reversibility.executeReversal_frozenUtxos]
        exact Reversibility.sweepTarget_freezes s.utxo
          (Reversibility.storeVote s.reversibility _ votes _) request.targetTxid
    | addGovernor h =>
      obtain ⟨governors, _, _, rfl⟩ := Reversibility.addGovernor_ok h
      exact .refl _
    | removeGovernor h =>
      obtain ⟨_, rfl⟩ := Reversibility.removeGovernor_ok h
      exact .refl _
    | setApprovalThreshold h =>
      obtain ⟨_, _, rfl⟩ := Reversibility.setApprovalThreshold_ok h
      exact .refl _
    | expireRequest h =>
      obtain ⟨request, hlookup, hpending, hlate, rfl⟩ := Reversibility.expireRequest_ok h
      exact .refl _
    | _ => exact .refl _
  · intro origin call e heq
    rw [reversed_of_refused heq]
    exact .refl _
  · intro parentHash now
    exact .refl _
  · exact .refl _

theorem reversals_nodup (host : Host) (g : GenesisConfig) (steps : List Step) :
    (reversals host g steps).Nodup :=
  (Reversibility.Freezes.history (fun s : State => s.reversibility.frozenUtxos)
    (step_freezes host) g.build steps).nodup

/-! ## The requests -/

/-- No target has two pending requests. -/
def OneLive (r : Reversibility.Storage) : Prop :=
  ∀ id id' request request', r.reversalRequests.lookup id = some request →
    r.reversalRequests.lookup id' = some request' → request.status = .pending →
    request'.status = .pending → request.targetTxid = request'.targetTxid → id = id'

/-- What the pallet asks of a submission.  The id is the hash of the target and the height. -/
structure Submittable (host : Host) (s : State) (targetTxid : TxId) : Prop where
  governed : s.reversibility.governors.val ≠ []
  scanned : ∃ target, scanTarget s.utxo s.reversibility targetTxid = .ok target ∧
    target.foundAny = true ∧
    s.utxo.currentHeight - target.blockHeight ≤ s.reversibility.reversalWindow.toNat
  new : computeRequestId host targetTxid s.utxo.currentHeight ∉ s.reversibility.reversalRequests

/-- The step submits no request for a target that has a pending one, unless the pallet refuses it
on other grounds. -/
def Unclaimed (host : Host) (s : State) : Step → Prop
  | .extrinsic (.signed _) (.submitReversalRequest targetTxid _ _) =>
    Submittable host s targetTxid → ∀ id request,
      s.reversibility.reversalRequests.lookup id = some request → request.status = .pending →
        request.targetTxid ≠ targetTxid
  | _ => True

theorem submitReversalRequest_eq_ok {s : State} {caller : AccountId} {targetTxid : TxId}
    {originalSender : Address} {reason : BoundedVec UInt8 Reversibility.maxReasonLength} :
    (∃ r, Reversibility.submitReversalRequest host s.utxo s.reversibility caller targetTxid
      originalSender reason = .ok r) ↔ Submittable host s targetTxid := by
  constructor
  · rintro ⟨r, h⟩
    obtain ⟨hgovernors, h⟩ := Checked.ensure_bind_eq_ok.mp h
    obtain ⟨target, hscan, h⟩ := Checked.bind_eq_ok.mp h
    obtain ⟨hfound, h⟩ := Checked.ensure_bind_eq_ok.mp h
    obtain ⟨hrecent, h⟩ := Checked.ensure_bind_eq_ok.mp h
    obtain ⟨hnew, h⟩ := Checked.ensure_bind_eq_ok.mp h
    exact ⟨hgovernors, ⟨target, hscan, hfound, hrecent⟩, hnew⟩
  · rintro ⟨hgovernors, ⟨target, hscan, hfound, hrecent⟩, hnew⟩
    let request := Reversibility.newRequest host s.utxo.currentHeight
      s.reversibility.reversalWindow caller targetTxid originalSender reason target
    exists Reversibility.indexExpiry (Reversibility.fileRequest s.reversibility request)
      request.expiryBlockHeight request.requestId
    apply Checked.ensure_bind_eq_ok.mpr ⟨hgovernors, ?_⟩
    apply Checked.bind_eq_ok.mpr ⟨target, hscan, ?_⟩
    apply Checked.ensure_bind_eq_ok.mpr ⟨hfound, ?_⟩
    apply Checked.ensure_bind_eq_ok.mpr ⟨hrecent, ?_⟩
    apply Checked.ensure_bind_eq_ok.mpr ⟨hnew, ?_⟩
    rfl

theorem lookup_filed {utxos : Utxo.Storage} {r r' : Reversibility.Storage} {target : Target}
    {request : ReversalRequest} (h : Filed host utxos r r' target request) (id : H256) :
    r'.reversalRequests.lookup id =
      if id = request.requestId then some request else r.reversalRequests.lookup id := by
  rw [h.filed]
  exact StorageMap.lookup_insert_eq _ _ _ _

/-- A new request leaves at most one alive exactly if its target had none. -/
theorem Filed.oneLive_iff {utxos : Utxo.Storage} {r r' : Reversibility.Storage} {target : Target}
    {request : ReversalRequest} (h : Filed host utxos r r' target request) :
    OneLive r' ↔ OneLive r ∧ ∀ id other, r.reversalRequests.lookup id = some other →
      other.status = .pending → other.targetTxid ≠ request.targetTxid := by
  have hne : ∀ {id other}, r.reversalRequests.lookup id = some other → id ≠ request.requestId := by
    intro id other hlookup heq
    rw [heq, Finmap.lookup_eq_none.mpr h.new] at hlookup
    cases hlookup
  constructor
  · intro hlive
    constructor
    · intro id id' other other' hlookup hlookup'
      apply hlive
      · rw [lookup_filed h, if_neg (hne hlookup), hlookup]
      · rw [lookup_filed h, if_neg (hne hlookup'), hlookup']
    · intro id other hlookup hpending htarget
      apply hne hlookup
      apply hlive id request.requestId other request _ _ hpending h.pending htarget
      · rw [lookup_filed h, if_neg (hne hlookup), hlookup]
      · rw [lookup_filed h, if_pos rfl]
  · rintro ⟨hlive, hfree⟩ id id' other other' hlookup hlookup' hpending hpending' htarget
    rw [lookup_filed h] at hlookup hlookup'
    split at hlookup
    · next heq =>
      split at hlookup'
      · next heq' => rw [heq, heq']
      · cases hlookup
        exact absurd htarget.symm (hfree id' other' hlookup' hpending')
    · split at hlookup'
      · cases hlookup'
        exact absurd htarget (hfree id other hlookup hpending)
      · exact hlive id id' other other' hlookup hlookup' hpending hpending' htarget

/-- Storages of which the later one has no pending request that the earlier has not. -/
theorem OneLive.of_pending {r r' : Reversibility.Storage} (hlive : OneLive r)
    (h : ∀ id request, r'.reversalRequests.lookup id = some request → request.status = .pending →
      ∃ before, r.reversalRequests.lookup id = some before ∧ before.status = .pending ∧
        before.targetTxid = request.targetTxid) : OneLive r' := by
  intro id id' request request' hlookup hlookup' hpending hpending' htarget
  obtain ⟨before, hbefore, hstatus, hsame⟩ := h id request hlookup hpending
  obtain ⟨before', hbefore', hstatus', hsame'⟩ := h id' request' hlookup' hpending'
  apply hlive id id' before before' hbefore hbefore' hstatus hstatus'
  rw [hsame, hsame', htarget]

/-- Only a submission makes a request pending. -/
theorem Governed.oneLive {s s' : State} {bs : List Ballot} (h : Governed host s s' bs)
    (hfiled : ∀ id height window, Ballot.filed id height window ∉ bs)
    (hlive : OneLive s.reversibility) : OneLive s'.reversibility := by
  apply hlive.of_pending
  intro id request hlookup hpending
  cases h with
  | tuned same =>
    rw [same.requests] at hlookup
    exact ⟨request, hlookup, hpending, rfl⟩
  | filed filed => exact absurd (List.mem_singleton_self _) (hfiled _ _ _)
  | @counted governor requestId before votes voting below stored =>
    rw [stored] at hlookup
    change (Finmap.insert _ _ s.reversibility.reversalRequests).lookup id = _ at hlookup
    rw [StorageMap.lookup_insert_eq] at hlookup
    split at hlookup
    · next heq =>
      cases hlookup
      exact ⟨before, by rw [heq, voting.lookup], voting.pending, rfl⟩
    · exact ⟨request, hlookup, hpending, rfl⟩
  | @executed governor requestId before votes voting reached stored =>
    rw [stored, Reversibility.executeReversal_requests] at hlookup
    split at hlookup
    · obtain ⟨_, _, rfl⟩ := Option.map_eq_some_iff.mp hlookup
      cases hpending
    · next hne =>
      change (Finmap.insert _ _ s.reversibility.reversalRequests).lookup id = _ at hlookup
      rw [StorageMap.lookup_insert_eq, if_neg hne] at hlookup
      exact ⟨request, hlookup, hpending, rfl⟩
  | expired lookup pending late requests votes =>
    rw [requests, StorageMap.lookup_erase_eq] at hlookup
    split at hlookup
    · cases hlookup
    · exact ⟨request, hlookup, hpending, rfl⟩

theorem unclaimed_of_refused {s : State} {origin : Origin} {call : Call} {e : DispatchError}
    (h : dispatch host s origin call = .error e) : Unclaimed host s (.extrinsic origin call) := by
  cases call with
  | submitReversalRequest targetTxid originalSender reason =>
    cases origin with
    | signed caller =>
      intro hsubmittable
      obtain ⟨r, hr⟩ : ∃ r, Reversibility.submitReversalRequest host s.utxo s.reversibility caller
          targetTxid originalSender reason = .ok r :=
        submitReversalRequest_eq_ok.mpr hsubmittable
      change (Except.mapError DispatchError.reversibility (Reversibility.submitReversalRequest host
        s.utxo s.reversibility caller targetTxid originalSender reason) >>= _) = _ at h
      rw [hr] at h
      cases h
    | root => trivial
    | none => trivial
  | _ => cases origin <;> trivial

theorem filed_notMem_approval (s : State) (origin : Origin) (requestId : H256)
    (id : H256) (height : BlockHeight) (window : U64) :
    Ballot.filed id height window ∉ Call.ballots host s origin (.approveReversal requestId) := by
  simp only [Call.ballots]
  split
  · split <;> simp
  · simp

/-- A step leaves at most one request alive exactly if it submits none for a claimed target. -/
theorem step_oneLive_iff (host : Host) {s : State} (hlive : OneLive s.reversibility) (i : Step) :
    OneLive (step host s i).reversibility ↔ Unclaimed host s i := by
  have hgoverned := step_governed host s i
  revert hgoverned
  apply step_cases (P := fun i s' => Governed host s s' (balloted host s i) →
    (OneLive s'.reversibility ↔ Unclaimed host s i))
  · intro origin call s' heq h hgoverned
    cases h with
    | @submitReversalRequest a targetTxid originalSender reason r h =>
      obtain ⟨target, request, htarget, hfiled⟩ := Reversibility.submitReversalRequest_ok h
      have hsubmittable := submitReversalRequest_eq_ok.mp ⟨r, h⟩
      change OneLive r ↔ _
      rw [Filed.oneLive_iff hfiled, htarget]
      simp [Unclaimed, hlive, hsubmittable]
    | approveReversal h =>
      simp only [Unclaimed, iff_true]
      simp only [balloted, heq] at hgoverned
      exact hgoverned.oneLive (filed_notMem_approval _ _ _) hlive
    | _ =>
      simp only [Unclaimed, iff_true]
      apply hgoverned.oneLive _ hlive
      simp [balloted, heq, Call.ballots]
  · intro origin call e heq _
    exact iff_of_true hlive (unclaimed_of_refused heq)
  · intro parentHash now _
    exact iff_of_true hlive trivial
  · intro _
    exact iff_of_true hlive trivial

/-- At every state of a run at most one request for a target is alive, and no outpoint is
reversed twice. -/
def ReversedOnce (host : Host) (g : GenesisConfig) (steps : List Step) : Prop :=
  (∀ before, before <+: steps → OneLive (run host g before).reversibility) ∧
    (reversals host g steps).Nodup

theorem reversedOnce_iff (host : Host) (g : GenesisConfig) (steps : List Step) :
    ReversedOnce host g steps ↔
      ∀ before i, before ++ [i] <+: steps → Unclaimed host (run host g before) i := by
  constructor
  · rintro ⟨hlive, _⟩ before i hle
    have hbefore := hlive before ((List.prefix_append _ _).trans hle)
    have hafter := hlive _ hle
    rw [run_snoc] at hafter
    exact (step_oneLive_iff host hbefore i).mp hafter
  · intro h
    refine ⟨?_, reversals_nodup host g steps⟩
    intro before hle
    apply Machine.run_guarded (P := fun s : State => OneLive s.reversibility)
      (G := Unclaimed host) _ _ h hle
    · intro s i hlive hunclaimed
      exact (step_oneLive_iff host hlive i).mpr hunclaimed
    · intro id id' request request' hlookup
      cases hlookup

namespace Sample

def laterId : H256 := 0x2ce260208bab5756c681ed01003791a7bd60a24e3c21abe1d93b205e8d12a94c

/-- The digests of the sample run and that of a request one block later. -/
def laterHost : Host :=
  .ofTables ((Reversibility.requestPreimage targetTxid 80006, laterId) :: digests)
    [(firstSignature, Consensus.miningProofSigningMessage firstProof, h256Code.encode minerKey)]
    [((firstProof.hamiltonianSeed, zeroParams.val, 0), 291747695380)]
    [(zeroParams.val, 808153652155)]

def longWindow : GenesisConfig := { genesis with reversalWindow := 90000 }

def requestedTwice : List Step :=
  [.newBlock parentHash 0, request, .extrinsic mineFirst.1 mineFirst.2, request]

/-- The status and the target of a request in the last state. -/
def requested (id : H256) : Option (Reversibility.ReversalStatus × TxId) :=
  ((run laterHost longWindow requestedTwice).reversibility.reversalRequests.lookup id).map
    fun request => (request.status, request.targetTxid)

end Sample

theorem requested_twice :
    ¬ReversedOnce Sample.laterHost Sample.longWindow Sample.requestedTwice := by
  rintro ⟨hlive, _⟩
  have hfirst : Sample.requested Sample.requestId = some (.pending, Sample.targetTxid) := by
    decide +kernel
  have hlater : Sample.requested Sample.laterId = some (.pending, Sample.targetTxid) := by
    decide +kernel
  obtain ⟨request, hlookup, hrequest⟩ := Option.map_eq_some_iff.mp hfirst
  obtain ⟨request', hlookup', hrequest'⟩ := Option.map_eq_some_iff.mp hlater
  obtain ⟨hstatus, htarget⟩ := Prod.mk.inj hrequest
  obtain ⟨hstatus', htarget'⟩ := Prod.mk.inj hrequest'
  have hsame := hlive _ (List.prefix_refl _) _ _ request request' hlookup hlookup' hstatus hstatus'
    (htarget.trans htarget'.symm)
  revert hsame
  decide

end Qubitcoin.Substrate
