import Qubitcoin.Substrate.Reversibility
import Qubitcoin.Substrate.UtxoLaws

/-! What a vote comes to and what an executed reversal moves. -/

namespace Qubitcoin.Substrate.Reversibility

open Utxo (Movement)
open Ledger

variable {host : Host} {height : BlockHeight} {s : Storage} {governor : Address}
  {requestId : H256}

/-! ## Requests -/

/-- What is known of a request when it is filed. -/
structure Filed (host : Host) (utxos : Utxo.Storage) (s s' : Storage) (target : Target)
    (request : ReversalRequest) : Prop where
  requestId : request.requestId = computeRequestId host request.targetTxid utxos.currentHeight
  scanned : scanTarget utxos s request.targetTxid = .ok target
  found : target.foundAny = true
  recent : utxos.currentHeight - target.blockHeight ≤ s.reversalWindow.toNat
  new : request.requestId ∉ s.reversalRequests
  pending : request.status = .pending
  uncounted : request.approvalCount = 0
  targetHeight : request.targetBlockHeight = target.blockHeight
  requestHeight : request.requestBlockHeight = utxos.currentHeight
  expiry : request.expiryBlockHeight = expiryHeight utxos.currentHeight s.reversalWindow
  filed : s' = indexExpiry (fileRequest s request) request.expiryBlockHeight request.requestId

theorem submitReversalRequest_ok {utxos : Utxo.Storage} {s s' : Storage} {caller : AccountId}
    {targetTxid : TxId} {originalSender : Address} {reason : BoundedVec UInt8 maxReasonLength}
    (h : submitReversalRequest host utxos s caller targetTxid originalSender reason = .ok s') :
    ∃ target request, request.targetTxid = targetTxid ∧
      Filed host utxos s s' target request := by
  obtain ⟨_, h⟩ := Checked.ensure_bind_eq_ok.mp h
  obtain ⟨target, hscan, h⟩ := Checked.bind_eq_ok.mp h
  obtain ⟨hfound, h⟩ := Checked.ensure_bind_eq_ok.mp h
  obtain ⟨hrecent, h⟩ := Checked.ensure_bind_eq_ok.mp h
  obtain ⟨hnew, h⟩ := Checked.ensure_bind_eq_ok.mp h
  refine ⟨target, newRequest host utxos.currentHeight s.reversalWindow caller targetTxid
    originalSender reason target, rfl, ?_⟩
  exact ⟨rfl, hscan, hfound, hrecent, hnew, rfl, rfl, rfl, rfl, rfl, (Except.ok.inj h).symm⟩

theorem expireRequest_ok {s' : Storage} (h : expireRequest height s requestId = .ok s') :
    ∃ request, s.reversalRequests.lookup requestId = some request ∧
      request.status = .pending ∧ request.expiryBlockHeight < height ∧
      s' = { autoExpire s requestId request with
        reversalVotes := s.reversalVotes.erase requestId } := by
  obtain ⟨request, hlookup, h⟩ := Checked.okOr_bind_eq_ok.mp h
  obtain ⟨hpending, h⟩ := Checked.ensure_bind_eq_ok.mp h
  obtain ⟨hexpired, h⟩ := Checked.ensure_bind_eq_ok.mp h
  exact ⟨request, hlookup, hpending, hexpired, (Except.ok.inj h).symm⟩

theorem addGovernor_ok {s' : Storage} {address : Address} (h : addGovernor s address = .ok s') :
    ∃ governors, address ∉ s.governors.val ∧ governors.val = s.governors.val ++ [address] ∧
      s' = { s with governors := governors } := by
  obtain ⟨hnew, h⟩ := Checked.ensure_bind_eq_ok.mp h
  obtain ⟨governors, hpush, h⟩ := Checked.okOr_bind_eq_ok.mp h
  exact ⟨governors, hnew, BoundedVec.val_of_tryPush hpush, (Except.ok.inj h).symm⟩

/-- The governors left once `address` is removed. -/
def remainingGovernors (s : Storage) (address : Address) : Addresses :=
  s.governors.remove (s.governors.val.idxOf address)

/-- A threshold above the number of governors comes down to it. -/
def clampThreshold (threshold : U32) (governors : Addresses) : U32 :=
  if governors.val ≠ [] ∧ BitVec.ofNat 32 governors.val.length < threshold then
    BitVec.ofNat 32 governors.val.length
  else threshold

theorem clampThreshold_pos {threshold : U32} {governors : Addresses} (h : 0 < threshold) :
    0 < clampThreshold threshold governors := by
  unfold clampThreshold
  split
  · next hclamp =>
    have hpos := List.length_pos_of_ne_nil hclamp.1
    have hbound := governors.bounded
    have hten : maxGovernors < 2 ^ 32 := by decide
    rw [BitVec.lt_def, BitVec.toNat_ofNat, Nat.mod_eq_of_lt (by omega)]
    exact hpos
  · exact h

theorem removeGovernor_ok {s' : Storage} {address : Address}
    (h : removeGovernor s address = .ok s') :
    address ∈ s.governors.val ∧ s' = { s with
      governors := remainingGovernors s address
      approvalThreshold :=
        clampThreshold s.approvalThreshold (remainingGovernors s address) } := by
  obtain ⟨hmem, h⟩ := Checked.ensure_bind_eq_ok.mp h
  exact ⟨hmem, (Except.ok.inj h).symm⟩

theorem setApprovalThreshold_ok {s' : Storage} {newThreshold : U32}
    (h : setApprovalThreshold s newThreshold = .ok s') :
    1 ≤ newThreshold ∧ newThreshold.toNat ≤ s.governors.val.length ∧
      s' = { s with approvalThreshold := newThreshold } := by
  obtain ⟨hlow, h⟩ := Checked.ensure_bind_eq_ok.mp h
  obtain ⟨hhigh, h⟩ := Checked.ensure_bind_eq_ok.mp h
  exact ⟨hlow, hhigh, (Except.ok.inj h).symm⟩

/-! ## Votes -/

/-- A vote of a governor on an open request, with the list it makes longer. -/
structure Voting (height : BlockHeight) (s : Storage) (governor : Address) (requestId : H256)
    (request : ReversalRequest) (votes : Addresses) : Prop where
  governor_mem : governor ∈ s.governors.val
  lookup : s.reversalRequests.lookup requestId = some request
  pending : request.status = .pending
  open_ : height ≤ request.expiryBlockHeight
  notMem : governor ∉ (s.reversalVotes.value .empty requestId).val
  votes_val : votes.val = (s.reversalVotes.value .empty requestId).val ++ [governor]

theorem castVote_ok {vote : Vote} (h : castVote height s governor requestId = .ok vote) :
    (∃ request, s.reversalRequests.lookup requestId = some request ∧
      request.status = .pending ∧ request.expiryBlockHeight < height ∧
      vote = .expired (autoExpire s requestId request)) ∨
    (∃ request votes, Voting height s governor requestId request votes ∧
      (countVote request).approvalCount < s.approvalThreshold ∧
      vote = .counted (storeVote s requestId votes (countVote request))) ∨
    (∃ request votes, Voting height s governor requestId request votes ∧
      s.approvalThreshold ≤ (countVote request).approvalCount ∧
      vote = .approved (storeVote s requestId votes (approve (countVote request)))
        (approve (countVote request))) := by
  obtain ⟨hgovernor, h⟩ := Checked.ensure_bind_eq_ok.mp h
  obtain ⟨request, hlookup, h⟩ := Checked.okOr_bind_eq_ok.mp h
  obtain ⟨hpending, h⟩ := Checked.ensure_bind_eq_ok.mp h
  split at h
  · next hexpired =>
    cases h
    exact Or.inl ⟨request, hlookup, hpending, hexpired, rfl⟩
  · next hopen =>
    obtain ⟨hnew, h⟩ := Checked.ensure_bind_eq_ok.mp h
    obtain ⟨votes, hpush, h⟩ := Checked.okOr_bind_eq_ok.mp h
    have hvoting : Voting height s governor requestId request votes :=
      ⟨hgovernor, hlookup, hpending, Nat.le_of_not_lt hopen, hnew,
        BoundedVec.val_of_tryPush hpush⟩
    split at h
    · next hquorum =>
      cases h
      exact Or.inr (Or.inr ⟨request, votes, hvoting, hquorum, rfl⟩)
    · next hquorum =>
      cases h
      exact Or.inr (Or.inl ⟨request, votes, hvoting, by simpa using hquorum, rfl⟩)

/-! ## Reversals -/

section Sweep

variable {targetTxid : TxId} {sweep : Sweep}

/-- The loop drops entries of the target, none of them a coinbase, and adds up
their amounts. -/
structure Swept (targetTxid : TxId) (vouts : List Nat) (sweep sweep' : Sweep)
    (spent : List (OutPoint × Utxo)) : Prop where
  holds : sweep.utxos.Holds spent
  targets : ∀ p ∈ spent,
    (∃ vout ∈ vouts, p.1 = (targetTxid, BitVec.ofNat 32 vout)) ∧ p.2.isCoinbase = false
  utxos : sweep'.utxos = { sweep.utxos with toLedger := sweep.utxos.toLedger.dropAll spent }
  total : sweep'.totalReversed.toNat =
    min (sweep.totalReversed.toNat + worth (spent.map Prod.snd)) (2 ^ 128 - 1)

theorem Swept.refl (sweep : Sweep) : Swept targetTxid [] sweep sweep [] where
  holds := ⟨List.nodup_nil, fun _ h => absurd h List.not_mem_nil⟩
  targets _ h := absurd h List.not_mem_nil
  utxos := rfl
  total := by
    have := sweep.totalReversed.isLt
    rw [List.map_nil, worth_nil]
    omega

theorem Swept.skip {vouts : List Nat} {sweep' : Sweep} {spent : List (OutPoint × Utxo)}
    (h : Swept targetTxid vouts sweep sweep' spent) (vout : Nat) :
    Swept targetTxid (vout :: vouts) sweep sweep' spent where
  holds := h.holds
  targets p hp := by
    obtain ⟨⟨v, hv, heq⟩, hcoinbase⟩ := h.targets p hp
    exact ⟨⟨v, List.mem_cons_of_mem _ hv, heq⟩, hcoinbase⟩
  utxos := h.utxos
  total := h.total

theorem sweep_ok (vouts : List Nat) (sweep : Sweep) :
    ∃ spent, Swept targetTxid vouts sweep (vouts.foldl (sweepOutput targetTxid) sweep)
      spent := by
  induction vouts generalizing sweep with
  | nil => exact ⟨[], Swept.refl sweep⟩
  | cons vout vouts ih =>
    rw [List.foldl_cons]
    cases hlookup : sweep.utxos.utxoSet.lookup (targetTxid, BitVec.ofNat 32 vout) with
    | none =>
      have hskip : sweepOutput targetTxid sweep vout = sweep := by
        simp [sweepOutput, hlookup]
      rw [hskip]
      obtain ⟨spent, h⟩ := ih sweep
      exact ⟨spent, h.skip vout⟩
    | some utxo =>
      by_cases hfrozen : sweep.frozenUtxos.value false (targetTxid, BitVec.ofNat 32 vout) = true
      · have hskip : sweepOutput targetTxid sweep vout = sweep := by
          simp [sweepOutput, hlookup, hfrozen]
        rw [hskip]
        obtain ⟨spent, h⟩ := ih sweep
        exact ⟨spent, h.skip vout⟩
      · by_cases hcoinbase : utxo.isCoinbase = true
        · have hskip : sweepOutput targetTxid sweep vout = sweep := by
            simp [sweepOutput, hlookup, hcoinbase]
          rw [hskip]
          obtain ⟨spent, h⟩ := ih sweep
          exact ⟨spent, h.skip vout⟩
        · obtain ⟨spent, h⟩ := ih (sweepOutput targetTxid sweep vout)
          have hdrop : sweepOutput targetTxid sweep vout = {
              utxos := Utxo.dropUtxo sweep.utxos (targetTxid, BitVec.ofNat 32 vout) utxo
              frozenUtxos := sweep.frozenUtxos.insert (targetTxid, BitVec.ofNat 32 vout) true
              totalReversed := sweep.totalReversed.saturatingAdd utxo.amount } := by
            simp [sweepOutput, hlookup, hfrozen, hcoinbase]
          rw [hdrop] at h ⊢
          refine ⟨((targetTxid, BitVec.ofNat 32 vout), utxo) :: spent, ?_, ?_, ?_, ?_⟩
          · exact Holds.cons hlookup h.holds
          · rw [List.forall_mem_cons]
            exact ⟨⟨⟨vout, List.mem_cons_self, rfl⟩, by simpa using hcoinbase⟩,
              (h.skip vout).targets⟩
          · rw [h.utxos]
            rfl
          · rw [h.total, BitVec.toNat_saturatingAdd, List.map_cons, worth_cons]
            change min (min (_ + utxo.amount.toNat) _ + _) _ = min (_ + (utxo.amount.toNat + _)) _
            omega

theorem sweepTarget_ok (utxos : Utxo.Storage) (s : Storage) (targetTxid : TxId) :
    ∃ spent, Swept targetTxid targetVouts ⟨utxos, s.frozenUtxos, 0⟩
      (sweepTarget utxos s targetTxid) spent :=
  sweep_ok targetVouts _

end Sweep

/-- The entries an executed reversal makes: one, unless nothing was swept. -/
def madeReversal (host : Host) (requestId : H256) (request : ReversalRequest)
    (amount : QbcBalance) (height : BlockHeight) : List Utxo :=
  if 0 < amount then
    [reversalUtxo request (computeReversalTxid host requestId height) amount height]
  else []

theorem eq_of_mem_madeReversal {request : ReversalRequest} {amount : QbcBalance} {u : Utxo}
    (h : u ∈ madeReversal host requestId request amount height) :
    u = reversalUtxo request (computeReversalTxid host requestId height) amount height := by
  unfold madeReversal at h
  split at h
  · exact List.mem_singleton.mp h
  · cases h

theorem worth_madeReversal (request : ReversalRequest) (amount : QbcBalance) :
    worth (madeReversal host requestId request amount height) = amount.toNat := by
  unfold madeReversal
  split
  · exact Nat.add_zero _
  · next h =>
    have hzero : amount.toNat = 0 := by simpa [BitVec.lt_def] using h
    rw [hzero]
    rfl

theorem returnFunds_frame (utxos : Utxo.Storage) (request : ReversalRequest)
    (reversalTxid : TxId) (amount : QbcBalance) :
    (returnFunds utxos request reversalTxid amount).currentHeight = utxos.currentHeight ∧
    (returnFunds utxos request reversalTxid amount).accumulatedFees = utxos.accumulatedFees ∧
    (returnFunds utxos request reversalTxid amount).totalFeesBurned =
      utxos.totalFeesBurned := by
  unfold returnFunds
  split
  · exact ⟨rfl, rfl, rfl⟩
  · exact ⟨rfl, rfl, rfl⟩

theorem returnFunds_ledger (utxos : Utxo.Storage) (request : ReversalRequest)
    (amount : QbcBalance) :
    (returnFunds utxos request (computeReversalTxid host requestId utxos.currentHeight)
      amount).toLedger =
      utxos.toLedger.putAll (madeReversal host requestId request amount utxos.currentHeight) := by
  unfold returnFunds madeReversal
  split <;> rfl

theorem executeReversal_utxos (utxos : Utxo.Storage) (s : Storage) (requestId : H256)
    (request : ReversalRequest) :
    (executeReversal host utxos s requestId request).1 =
      returnFunds (sweepTarget utxos s request.targetTxid).utxos request
        (computeReversalTxid host requestId utxos.currentHeight)
        (sweepTarget utxos s request.targetTxid).totalReversed := by
  simp only [executeReversal]

theorem executeReversal_movement (host : Host) (utxos : Utxo.Storage) (s : Storage) (requestId : H256)
    (request : ReversalRequest) :
    ∃ spent amount,
      (∀ p ∈ spent, (∃ vout ∈ targetVouts, p.1 = (request.targetTxid, BitVec.ofNat 32 vout)) ∧
        p.2.isCoinbase = false) ∧
      Movement utxos (executeReversal host utxos s requestId request).1 spent
        (madeReversal host requestId request amount utxos.currentHeight) 0 ∧
      (executeReversal host utxos s requestId request).1.currentHeight =
        utxos.currentHeight := by
  obtain ⟨spent, h⟩ := sweepTarget_ok utxos s request.targetTxid
  rw [executeReversal_utxos]
  generalize sweepTarget utxos s request.targetTxid = sweep at h ⊢
  have hdrop := total_dropAll h.holds
  have hutxos := h.utxos
  have htotal := h.total
  change _ = min (0 + _) _ at htotal
  rw [Nat.zero_add] at htotal
  have hheight : sweep.utxos.currentHeight = utxos.currentHeight := by rw [hutxos]
  obtain ⟨hkeep, hfees, hburned⟩ := returnFunds_frame sweep.utxos request
    (computeReversalTxid host requestId utxos.currentHeight) sweep.totalReversed
  refine ⟨spent, sweep.totalReversed, h.targets, ?_, by rw [hkeep, hheight]⟩
  constructor
  · exact h.holds
  · unfold madeReversal
    split
    · exact List.nodup_singleton _
    · exact List.nodup_nil
  · rw [← hheight, returnFunds_ledger, hutxos]
    rfl
  · rw [worth_madeReversal, hfees, hburned, hutxos, htotal]
    change min (worth (spent.map Prod.snd)) _ + utxos.accumulatedFees.toNat +
      utxos.totalFeesBurned.toNat ≤ _
    omega
  · intro hfits
    change (utxos.total + _ + _) + 0 < _ at hfits
    change (utxos.toLedger.dropAll spent).total + _ = utxos.total at hdrop
    rw [worth_madeReversal, hfees, hburned, hutxos, htotal]
    change min (worth (spent.map Prod.snd)) _ + utxos.accumulatedFees.toNat +
      utxos.totalFeesBurned.toNat = _
    omega

/-- The stored request as an execution leaves it. -/
def executed (request : ReversalRequest) : ReversalRequest := { request with status := .executed }

theorem lookup_markExecuted (s : Storage) (requestId id : H256) :
    (markExecuted s requestId).reversalRequests.lookup id =
      if id = requestId then
        (s.reversalRequests.lookup id).map executed
      else s.reversalRequests.lookup id := by
  unfold markExecuted
  split
  · next hnone =>
    split
    · next heq => rw [heq, hnone]; rfl
    · rfl
  · next r hsome =>
    rw [StorageMap.lookup_insert_eq]
    split
    · next heq => rw [heq, hsome]; rfl
    · rfl

theorem executeReversal_votes (host : Host) (utxos : Utxo.Storage) (s : Storage)
    (requestId : H256) (request : ReversalRequest) :
    (executeReversal host utxos s requestId request).2.reversalVotes =
      s.reversalVotes.erase requestId := by
  simp only [executeReversal, markExecuted]
  split
  · rfl
  · rfl

theorem executeReversal_threshold (host : Host) (utxos : Utxo.Storage) (s : Storage)
    (requestId : H256) (request : ReversalRequest) :
    (executeReversal host utxos s requestId request).2.approvalThreshold =
      s.approvalThreshold := by
  simp only [executeReversal, markExecuted]
  split
  · rfl
  · rfl

theorem executeReversal_requests (host : Host) (utxos : Utxo.Storage) (s : Storage)
    (requestId id : H256) (request : ReversalRequest) :
    (executeReversal host utxos s requestId request).2.reversalRequests.lookup id =
      if id = requestId then
        (s.reversalRequests.lookup id).map executed
      else s.reversalRequests.lookup id := by
  simp only [executeReversal]
  rw [lookup_markExecuted]

end Qubitcoin.Substrate.Reversibility
