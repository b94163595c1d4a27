import Qubitcoin.Substrate.History

/-! The ballots of a run: the requests filed, the votes cast on them and the
executions, with what each step does to the reversibility pallet's storage. -/

namespace Qubitcoin.Substrate

open Reversibility (ReversalRequest Voting Filed Target Addresses countVote approve executed
  storeVote autoExpire executeReversal)

inductive Ballot
  | filed (requestId : H256) (height : BlockHeight) (window : U64)
  | voted (requestId : H256) (governor : Address) (governors : List Address)
  | executed (requestId : H256) (threshold : U32)
  deriving DecidableEq

variable (host : Host)

/-- A ballot records the window, the governors or the threshold in force at its time. -/
def Call.ballots (s : State) (origin : Origin) : Call → List Ballot
  | .submitReversalRequest targetTxid _ _ =>
    [.filed (Reversibility.computeRequestId host targetTxid s.utxo.currentHeight)
      s.utxo.currentHeight s.reversibility.reversalWindow]
  | .approveReversal requestId =>
    match origin with
    | .signed caller =>
      let vote := Ballot.voted requestId (Reversibility.accountToAddress host caller)
        s.reversibility.governors.val
      match voteOf host s origin requestId with
      | some (.counted _) => [vote]
      | some (.approved _ _) => [vote, .executed requestId s.reversibility.approvalThreshold]
      | _ => []
    | _ => []
  | _ => []

def balloted (s : State) : Step → List Ballot
  | .extrinsic origin call =>
    match dispatch host s origin call with
    | .ok _ => call.ballots host s origin
    | .error _ => []
  | _ => []

def ballots (g : GenesisConfig) (steps : List Step) : List Ballot :=
  Machine.history (step host) (balloted host) g.build steps

/-- Storages that differ in nothing a vote reads. -/
structure SameVotes (r r' : Reversibility.Storage) : Prop where
  requests : r'.reversalRequests = r.reversalRequests
  votes : r'.reversalVotes = r.reversalVotes

/-- What a step does to the reversibility pallet, with the ballots it leaves. -/
inductive Governed (s s' : State) : List Ballot → Prop
  | tuned (same : SameVotes s.reversibility s'.reversibility) : Governed s s' []
  | filed {target : Target} {request : ReversalRequest}
      (filed : Filed host s.utxo s.reversibility s'.reversibility target request) :
      Governed s s'
        [.filed request.requestId s.utxo.currentHeight s.reversibility.reversalWindow]
  | counted {governor : Address} {requestId : H256} {request : ReversalRequest}
      {votes : Addresses}
      (voting : Voting s.utxo.currentHeight s.reversibility governor requestId request votes)
      (below : (countVote request).approvalCount < s.reversibility.approvalThreshold)
      (stored : s'.reversibility =
        storeVote s.reversibility requestId votes (countVote request)) :
      Governed s s' [.voted requestId governor s.reversibility.governors.val]
  | executed {governor : Address} {requestId : H256} {request : ReversalRequest}
      {votes : Addresses}
      (voting : Voting s.utxo.currentHeight s.reversibility governor requestId request votes)
      (reached : s.reversibility.approvalThreshold ≤ (countVote request).approvalCount)
      (stored : s'.reversibility = (executeReversal host s.utxo
        (storeVote s.reversibility requestId votes (approve (countVote request))) requestId
        (approve (countVote request))).2) :
      Governed s s' [.voted requestId governor s.reversibility.governors.val,
        .executed requestId s.reversibility.approvalThreshold]
  | expired {requestId : H256} {request : ReversalRequest}
      (lookup : s.reversibility.reversalRequests.lookup requestId = some request)
      (pending : request.status = .pending)
      (late : request.expiryBlockHeight < s.utxo.currentHeight)
      (requests : s'.reversibility.reversalRequests =
        s.reversibility.reversalRequests.erase requestId)
      (votes : s'.reversibility.reversalVotes = s.reversibility.reversalVotes ∨
        s'.reversibility.reversalVotes = s.reversibility.reversalVotes.erase requestId) :
      Governed s s' []

variable {host : Host} {s s' : State}

theorem Governed.of_eq (h : s'.reversibility = s.reversibility) : Governed host s s' [] :=
  .tuned ⟨by rw [h], by rw [h]⟩

theorem Governed.of_approval {a : AccountId} {requestId : H256} {u : Utxo.Storage}
    {r : Reversibility.Storage}
    (h : Reversibility.approveReversal host s.utxo s.reversibility a requestId = .ok (u, r)) :
    Governed host s { s with utxo := u, reversibility := r }
      (Call.ballots host s (.signed a) (.approveReversal requestId)) := by
  obtain ⟨vote, hvote, h⟩ := Checked.bind_eq_ok.mp h
  have hsettled := congrArg Prod.snd (Except.ok.inj h)
  simp only [Call.ballots, voteOf_signed hvote]
  obtain ⟨request, hlookup, hpending, hlate, rfl⟩ | ⟨request, votes, hvoting, hbelow, rfl⟩ |
    ⟨request, votes, hvoting, hreached, rfl⟩ := Reversibility.castVote_ok hvote
  · change autoExpire s.reversibility requestId request = r at hsettled
    apply Governed.expired hlookup hpending hlate
    · rw [← hsettled]
      rfl
    · rw [← hsettled]
      exact Or.inl rfl
  · change storeVote _ _ _ _ = r at hsettled
    exact .counted hvoting hbelow hsettled.symm
  · exact .executed hvoting hreached hsettled.symm

theorem step_governed (host : Host) (s : State) (i : Step) :
    Governed host s (step host s i) (balloted host s i) := by
  apply step_cases (P := fun i s' => Governed host s s' (balloted host s i))
  · intro origin call s' heq h
    simp only [balloted, heq]
    cases h with
    | submitReversalRequest h =>
      obtain ⟨target, request, htarget, hfiled⟩ := Reversibility.submitReversalRequest_ok h
      simp only [Call.ballots]
      rw [← htarget, ← hfiled.requestId]
      exact .filed hfiled
    | approveReversal h => exact .of_approval h
    | addGovernor h =>
      obtain ⟨governors, _, _, rfl⟩ := Reversibility.addGovernor_ok h
      exact .tuned ⟨rfl, rfl⟩
    | removeGovernor h =>
      obtain ⟨_, rfl⟩ := Reversibility.removeGovernor_ok h
      exact .tuned ⟨rfl, rfl⟩
    | setReversalWindow => exact .tuned ⟨rfl, rfl⟩
    | setApprovalThreshold h =>
      obtain ⟨_, _, rfl⟩ := Reversibility.setApprovalThreshold_ok h
      exact .tuned ⟨rfl, rfl⟩
    | expireRequest h =>
      obtain ⟨request, hlookup, hpending, hlate, rfl⟩ := Reversibility.expireRequest_ok h
      exact .expired hlookup hpending hlate rfl (Or.inr rfl)
    | pruneExpiredReversals => exact .tuned ⟨rfl, rfl⟩
    | _ => exact .of_eq rfl
  · intro origin call e heq
    simp only [balloted, heq]
    exact .of_eq rfl
  · intro parentHash now
    exact .of_eq rfl
  · exact .of_eq rfl

/-- An executed request stays executed: it cannot be voted on, expired or refiled. -/
theorem step_executed (host : Host) (s : State) (i : Step) {id : H256}
    (h : ∃ r, s.reversibility.reversalRequests.lookup id = some r ∧ r.status = .executed) :
    ∃ r, (step host s i).reversibility.reversalRequests.lookup id = some r ∧
      r.status = .executed := by
  obtain ⟨r, hr, hstatus⟩ := h
  have hne : ∀ {requestId request}, s.reversibility.reversalRequests.lookup requestId =
      some request → request.status = .pending → id ≠ requestId := by
    intro requestId request hlookup hpending heq
    rw [← heq, hr] at hlookup
    cases hlookup
    rw [hstatus] at hpending
    cases hpending
  have hgoverned := step_governed host s i
  generalize balloted host s i = bs at hgoverned
  cases hgoverned with
  | tuned same =>
    rw [same.requests]
    exact ⟨r, hr, hstatus⟩
  | filed hfiled =>
    refine ⟨r, ?_, hstatus⟩
    rw [hfiled.filed]
    change (Finmap.insert _ _ s.reversibility.reversalRequests).lookup id = some r
    rw [Finmap.lookup_insert_of_ne _, hr]
    intro heq
    have hmem := hfiled.new
    rw [← heq, ← Finmap.lookup_eq_none, hr] at hmem
    cases hmem
  | counted voting _ stored =>
    refine ⟨r, ?_, hstatus⟩
    rw [stored]
    change (Finmap.insert _ _ s.reversibility.reversalRequests).lookup id = some r
    rw [Finmap.lookup_insert_of_ne _ (hne voting.lookup voting.pending), hr]
  | executed voting _ stored =>
    refine ⟨r, ?_, hstatus⟩
    have hid := hne voting.lookup voting.pending
    rw [stored, Reversibility.executeReversal_requests, if_neg hid]
    change (Finmap.insert _ _ s.reversibility.reversalRequests).lookup id = some r
    rw [Finmap.lookup_insert_of_ne _ hid, hr]
  | expired lookup pending _ requests _ =>
    refine ⟨r, ?_, hstatus⟩
    rw [requests, Finmap.lookup_erase_ne (hne lookup pending), hr]

end Qubitcoin.Substrate
