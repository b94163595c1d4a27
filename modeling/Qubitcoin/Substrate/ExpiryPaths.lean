import Qubitcoin.Substrate.Quorum

/-! The two ways a pending request past its deadline is cleared: a governor's approval expires it
on the way, and anyone may ask for its expiry. -/

namespace Qubitcoin.Substrate

open Reversibility (ReversalRequest autoExpire)

/-- A pending request whose deadline has passed. -/
structure Overdue (s : State) (requestId : H256) (request : ReversalRequest) : Prop where
  lookup : s.reversibility.reversalRequests.lookup requestId = some request
  pending : request.status = .pending
  late : request.expiryBlockHeight < s.utxo.currentHeight

section Steps

variable {host : Host} {s : State} {caller signer : AccountId} {requestId : H256}
  {request : ReversalRequest}

theorem Overdue.castVote (h : Overdue s requestId request) {governor : Address}
    (hgovernor : governor ∈ s.reversibility.governors.val) :
    Reversibility.castVote s.utxo.currentHeight s.reversibility governor requestId =
      .ok (.expired (autoExpire s.reversibility requestId request)) := by
  apply Checked.ensure_bind_eq_ok.mpr ⟨hgovernor, ?_⟩
  apply Checked.okOr_bind_eq_ok.mpr ⟨request, h.lookup, ?_⟩
  apply Checked.ensure_bind_eq_ok.mpr ⟨h.pending, ?_⟩
  rw [if_pos h.late]
  rfl

theorem Overdue.approve (h : Overdue s requestId request)
    (hgovernor : Reversibility.accountToAddress host caller ∈ s.reversibility.governors.val) :
    step host s (.extrinsic (.signed caller) (.approveReversal requestId)) =
      { s with reversibility := autoExpire s.reversibility requestId request } := by
  simp only [step, dispatch, ensureSigned, Checked.ok_bind, Reversibility.approveReversal,
    h.castVote hgovernor]
  rfl

theorem Overdue.expire (h : Overdue s requestId request) :
    step host s (.extrinsic (.signed signer) (.expireRequest requestId)) =
      { s with
        reversibility := { autoExpire s.reversibility requestId request with
          reversalVotes := s.reversibility.reversalVotes.erase requestId } } := by
  have hexpire : Reversibility.expireRequest s.utxo.currentHeight s.reversibility requestId =
      .ok { autoExpire s.reversibility requestId request with
        reversalVotes := s.reversibility.reversalVotes.erase requestId } := by
    apply Checked.okOr_bind_eq_ok.mpr ⟨request, h.lookup, ?_⟩
    apply Checked.ensure_bind_eq_ok.mpr ⟨h.pending, ?_⟩
    apply Checked.ensure_bind_eq_ok.mpr ⟨h.late, ?_⟩
    rfl
  simp only [step, dispatch, ensureSigned, Checked.ok_bind, hexpire]
  rfl

/-- Only the votes make a difference: `expire_request` clears them, the approval does not. -/
theorem Overdue.agree_iff (h : Overdue s requestId request)
    (hgovernor : Reversibility.accountToAddress host caller ∈ s.reversibility.governors.val) :
    (step host s (.extrinsic (.signed caller) (.approveReversal requestId))).reversibility =
        (step host s (.extrinsic (.signed signer) (.expireRequest requestId))).reversibility ↔
      requestId ∉ s.reversibility.reversalVotes := by
  rw [h.approve hgovernor, h.expire]
  constructor
  · intro heq hmem
    have hvotes : s.reversibility.reversalVotes = s.reversibility.reversalVotes.erase requestId :=
      congrArg Reversibility.Storage.reversalVotes heq
    rw [hvotes] at hmem
    exact Finmap.notMem_erase_self hmem
  · intro hnone
    rw [StorageMap.erase_of_notMem hnone]
    rfl

end Steps

/-- At a reachable state, clearing an overdue request by an approval and by `expire_request` come
to the same exactly if no vote on it is recorded. -/
theorem expiry_paths_agree_iff (host : Host) (g : GenesisConfig) (steps : List Step)
    (caller signer : AccountId) (requestId : H256) (request : ReversalRequest)
    (hoverdue : Overdue (run host g steps) requestId request)
    (hgovernor : Reversibility.accountToAddress host caller ∈
      (run host g steps).reversibility.governors.val) :
    (step host (run host g steps)
        (.extrinsic (.signed caller) (.approveReversal requestId))).reversibility =
      (step host (run host g steps)
        (.extrinsic (.signed signer) (.expireRequest requestId))).reversibility ↔
    requestId ∉ (run host g steps).reversibility.reversalVotes :=
  hoverdue.agree_iff hgovernor

namespace Sample

/-- The txid of the reversal of the sample target, which can be reversed in turn. -/
def reversalTxid : TxId := 0x123ecf82fddcccfb933d58e4f6715d070e725119e580a2ccd3a25a2963fc7e2d

def secondId : H256 := 0xc1924c0a6c5dd0811dcdb1c441ad5b65ae4ea01020542d6c63b6609aecdafc5b

def overdueHost : Host :=
  .ofTables
    ((Reversibility.reversalPreimage requestId 80005, reversalTxid) ::
      (Reversibility.requestPreimage reversalTxid 80005, secondId) :: digests)
    [(firstSignature, Consensus.miningProofSigningMessage firstProof, h256Code.encode minerKey)]
    [((firstProof.hamiltonianSeed, zeroParams.val, 0), 291747695380)]
    [(zeroParams.val, 808153652155)]

/-- Alice and Bob govern, and one vote is enough. -/
def pairGenesis : GenesisConfig :=
  { genesis with governors := ⟨[aliceAddress, bobAddress], by decide⟩ }

/-- The target is reversed; then the window is closed and two votes are asked for.  The reversal
of the reversal is requested. -/
def requestAgain : List Step :=
  [.newBlock parentHash 0, request, approvalBy alice,
    .extrinsic .root (.setReversalWindow 0), .extrinsic .root (.setApprovalThreshold 2),
    .extrinsic (.signed alice) (.submitReversalRequest reversalTxid ⟨8⟩ .empty)]

def approveSecond (governor : AccountId) : Step :=
  .extrinsic (.signed governor) (.approveReversal secondId)

/-- Alice votes, and the deadline passes. -/
def overdueSteps : List Step :=
  requestAgain ++ [approveSecond alice, .extrinsic mineFirst.1 mineFirst.2]

/-- The deadline passes without a vote. -/
def unvotedSteps : List Step := requestAgain ++ [.extrinsic mineFirst.1 mineFirst.2]

theorem unvoted_overdue : ∃ request, Overdue (run overdueHost pairGenesis unvotedSteps) secondId
    request := by
  have hfound : ((run overdueHost pairGenesis
      unvotedSteps).reversibility.reversalRequests.lookup secondId).any (fun request =>
        request.status = .pending ∧ request.expiryBlockHeight <
          (run overdueHost pairGenesis unvotedSteps).utxo.currentHeight) := by
    decide +kernel
  obtain ⟨request, hlookup, hrequest⟩ := (Option.any_eq_true _ _).mp hfound
  obtain ⟨hpending, hlate⟩ := of_decide_eq_true hrequest
  exact ⟨request, hlookup, hpending, hlate⟩

end Sample

theorem expiry_paths_agree_sample :
    (step Sample.overdueHost
        (run Sample.overdueHost Sample.pairGenesis Sample.unvotedSteps)
        (Sample.approveSecond Sample.bob)).reversibility =
      (step Sample.overdueHost
        (run Sample.overdueHost Sample.pairGenesis Sample.unvotedSteps)
        (.extrinsic (.signed Sample.carol) (.expireRequest Sample.secondId))).reversibility := by
  obtain ⟨request, hoverdue⟩ := Sample.unvoted_overdue
  apply (expiry_paths_agree_iff Sample.overdueHost Sample.pairGenesis Sample.unvotedSteps
    Sample.bob Sample.carol Sample.secondId request hoverdue (by decide +kernel)).mpr
  rw [← Finmap.lookup_eq_none]
  decide +kernel

/-- After Bob's approval Alice's vote on the expired request is still there. -/
theorem expiry_paths_differ :
    ¬(step Sample.overdueHost
        (run Sample.overdueHost Sample.pairGenesis Sample.overdueSteps)
        (Sample.approveSecond Sample.bob)).reversibility =
      (step Sample.overdueHost
        (run Sample.overdueHost Sample.pairGenesis Sample.overdueSteps)
        (.extrinsic (.signed Sample.carol) (.expireRequest Sample.secondId))).reversibility := by
  intro heq
  have hvotes := congrArg
    (fun r : Reversibility.Storage => r.reversalVotes.lookup Sample.secondId) heq
  revert hvotes
  decide +kernel

end Qubitcoin.Substrate
