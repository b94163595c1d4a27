import Qubitcoin.Substrate.Conservation

/-! The votes behind a reversal.  A vote is counted when it is cast and never looked
at again: not when the governors change, not when the threshold does. -/

namespace Qubitcoin.Substrate

open Reversibility (ReversalRequest countVote approve executed storeVote)

/-- Votes with the governors in force when each was cast. -/
abbrev Votes := List (Address × List Address)

def tallyBallot (requestId : H256) (votes : Votes) : Ballot → Votes
  | .filed id _ _ => if id = requestId then [] else votes
  | .voted id governor governors =>
    if id = requestId then votes ++ [(governor, governors)] else votes
  | .executed _ _ => votes

/-- The votes on a request since it was last filed. -/
def tally (requestId : H256) (bs : List Ballot) : Votes := bs.foldl (tallyBallot requestId) []

section Tally

variable (id id' : H256) (bs : List Ballot)

theorem tally_filed (height : BlockHeight) (window : U64) :
    tally id (bs ++ [.filed id' height window]) = if id' = id then [] else tally id bs := by
  simp [tally, tallyBallot]

theorem tally_voted (governor : Address) (governors : List Address) :
    tally id (bs ++ [.voted id' governor governors]) =
      if id' = id then tally id bs ++ [(governor, governors)] else tally id bs := by
  simp [tally, tallyBallot]

theorem tally_executed (governor : Address) (governors : List Address) (threshold : U32) :
    tally id (bs ++ [.voted id' governor governors, .executed id' threshold]) =
      tally id (bs ++ [.voted id' governor governors]) := by
  simp [tally, tallyBallot]

end Tally

def votesOn (r : Reversibility.Storage) (id : H256) : List Address :=
  (r.reversalVotes.value .empty id).val

/-- The pallet's counters and lists agree with the votes that were cast. -/
structure Tallied (s : State) (bs : List Ballot) : Prop where
  nodup : ∀ id, (votesOn s.reversibility id).Nodup
  kept : ∀ id r, s.reversibility.reversalRequests.lookup id = some r → r.status = .pending →
    (tally id bs).map Prod.fst <:+ votesOn s.reversibility id
  counted : ∀ id r, s.reversibility.reversalRequests.lookup id = some r →
    r.status = .pending → r.approvalCount.toNat = (tally id bs).length
  sitting : ∀ id, ∀ v ∈ tally id bs, v.1 ∈ v.2

variable {host : Host} {g : GenesisConfig} {s s' : State} {bs new : List Ballot}

theorem votesOn_storeVote (r : Reversibility.Storage) (id id' : H256)
    (votes : Reversibility.Addresses) (request : ReversalRequest) :
    votesOn (storeVote r id' votes request) id =
      if id = id' then votes.val else votesOn r id := by
  unfold votesOn storeVote
  split
  · next heq => rw [heq, StorageMap.value_insert]
  · next hne => rw [StorageMap.value_insert_ne _ _ _ hne]

theorem votesOn_erase {r r' : Reversibility.Storage} {id' : H256}
    (h : r'.reversalVotes = r.reversalVotes.erase id') (id : H256) :
    votesOn r' id = if id = id' then [] else votesOn r id := by
  rw [votesOn, h, StorageMap.value_erase_eq]
  split
  · rfl
  · rfl

theorem genesis_requests (g : GenesisConfig) (id : H256) :
    g.build.reversibility.reversalRequests.lookup id = none := Finmap.lookup_empty id

theorem tallied_genesis (g : GenesisConfig) : Tallied g.build [] where
  nodup _ := List.nodup_nil
  kept id r h := by
    rw [genesis_requests] at h
    cases h
  counted id r h := by
    rw [genesis_requests] at h
    cases h
  sitting _ _ h := absurd h List.not_mem_nil

theorem Tallied.of_same (h : Tallied s bs) (same : SameVotes s.reversibility s'.reversibility) :
    Tallied s' (bs ++ []) := by
  have hvotes : ∀ id, votesOn s'.reversibility id = votesOn s.reversibility id := by
    intro id
    rw [votesOn, votesOn, same.votes]
  rw [List.append_nil]
  constructor
  · intro id
    rw [hvotes]
    exact h.nodup id
  · intro id
    rw [same.requests, hvotes]
    exact h.kept id
  · intro id
    rw [same.requests]
    exact h.counted id
  · exact h.sitting

theorem Tallied.of_filed (h : Tallied s bs) {target : Reversibility.Target}
    {request : ReversalRequest}
    (filed : Reversibility.Filed host s.utxo s.reversibility s'.reversibility target request) :
    Tallied s' (bs ++ [.filed request.requestId s.utxo.currentHeight
      s.reversibility.reversalWindow]) := by
  have hvotes : votesOn s'.reversibility = votesOn s.reversibility := by
    rw [filed.filed]
    rfl
  have hlookup : ∀ id, s'.reversibility.reversalRequests.lookup id =
      if id = request.requestId then some request
      else s.reversibility.reversalRequests.lookup id := by
    intro id
    rw [filed.filed]
    exact StorageMap.lookup_insert_eq _ _ _ _
  constructor
  · intro id
    rw [hvotes]
    exact h.nodup id
  · intro id r hr hpending
    rw [hvotes, tally_filed]
    rw [hlookup] at hr
    split
    · exact List.nil_suffix
    · next hne =>
      rw [if_neg (Ne.symm hne)] at hr
      exact h.kept id r hr hpending
  · intro id r hr hpending
    rw [tally_filed]
    rw [hlookup] at hr
    split
    · next heq =>
      rw [if_pos heq.symm] at hr
      cases hr
      rw [filed.uncounted]
      rfl
    · next hne =>
      rw [if_neg (Ne.symm hne)] at hr
      exact h.counted id r hr hpending
  · intro id v hv
    rw [tally_filed] at hv
    split at hv
    · cases hv
    · exact h.sitting id v hv

section Voted

variable {governor : Address} {requestId : H256} {request : ReversalRequest}
  {votes : Reversibility.Addresses}

theorem Tallied.sitting_voted (h : Tallied s bs)
    (voting : Reversibility.Voting s.utxo.currentHeight s.reversibility governor requestId
      request votes) (id : H256) :
    ∀ v ∈ tally id (bs ++ [.voted requestId governor s.reversibility.governors.val]),
      v.1 ∈ v.2 := by
  intro v hv
  rw [tally_voted] at hv
  split at hv
  · cases List.mem_append.mp hv with
    | inl hv => exact h.sitting id v hv
    | inr hv =>
      rw [List.mem_singleton.mp hv]
      exact voting.governor_mem
  · exact h.sitting id v hv

theorem Tallied.nodup_voted (h : Tallied s bs)
    (voting : Reversibility.Voting s.utxo.currentHeight s.reversibility governor requestId
      request votes) : votes.val.Nodup := by
  rw [voting.votes_val]
  apply List.Nodup.append (h.nodup requestId) (List.nodup_singleton governor)
  rw [List.disjoint_singleton]
  exact voting.notMem

theorem Tallied.kept_voted (h : Tallied s bs)
    (voting : Reversibility.Voting s.utxo.currentHeight s.reversibility governor requestId
      request votes) :
    (tally requestId (bs ++ [.voted requestId governor
      s.reversibility.governors.val])).map Prod.fst <:+ votes.val := by
  rw [tally_voted, if_pos rfl, List.map_append, voting.votes_val]
  exact List.suffix_append_self_iff.mpr (h.kept requestId request voting.lookup voting.pending)

/-- Votes are too few to wrap the counter. -/
theorem Tallied.counted_voted (h : Tallied s bs)
    (voting : Reversibility.Voting s.utxo.currentHeight s.reversibility governor requestId
      request votes) :
    (countVote request).approvalCount.toNat =
      (tally requestId (bs ++ [.voted requestId governor
        s.reversibility.governors.val])).length := by
  have hbound := (h.kept_voted voting).length_le.trans votes.bounded
  have hten : Reversibility.maxGovernors < 2 ^ 32 := by decide
  rw [List.length_map] at hbound
  rw [tally_voted, if_pos rfl, List.length_append, List.length_singleton] at hbound ⊢
  change (request.approvalCount + 1).toNat = _
  rw [BitVec.toNat_add, h.counted requestId request voting.lookup voting.pending]
  exact Nat.mod_eq_of_lt (hbound.trans_lt hten)

theorem Tallied.of_counted (h : Tallied s bs)
    (voting : Reversibility.Voting s.utxo.currentHeight s.reversibility governor requestId
      request votes)
    (stored : s'.reversibility =
      storeVote s.reversibility requestId votes (countVote request)) :
    Tallied s' (bs ++ [.voted requestId governor s.reversibility.governors.val]) := by
  have hlookup : ∀ id, s'.reversibility.reversalRequests.lookup id =
      if id = requestId then some (countVote request)
      else s.reversibility.reversalRequests.lookup id := by
    intro id
    rw [stored]
    exact StorageMap.lookup_insert_eq _ _ _ _
  constructor
  · intro id
    rw [stored, votesOn_storeVote]
    split
    · exact h.nodup_voted voting
    · exact h.nodup id
  · intro id r hr hpending
    rw [hlookup] at hr
    rw [stored, votesOn_storeVote]
    split
    · next heq =>
      rw [heq]
      exact h.kept_voted voting
    · next hne =>
      rw [if_neg hne] at hr
      rw [tally_voted, if_neg (Ne.symm hne)]
      exact h.kept id r hr hpending
  · intro id r hr hpending
    rw [hlookup] at hr
    split at hr
    · next heq =>
      cases hr
      rw [heq]
      exact h.counted_voted voting
    · next hne =>
      rw [tally_voted, if_neg (Ne.symm hne)]
      exact h.counted id r hr hpending
  · exact h.sitting_voted voting

theorem Tallied.of_executed (h : Tallied s bs) {threshold : U32}
    (voting : Reversibility.Voting s.utxo.currentHeight s.reversibility governor requestId
      request votes)
    (stored : s'.reversibility = (Reversibility.executeReversal host s.utxo
      (storeVote s.reversibility requestId votes (approve (countVote request))) requestId
      (approve (countVote request))).2) :
    Tallied s' (bs ++ [.voted requestId governor s.reversibility.governors.val,
      .executed requestId threshold]) := by
  have hvotes : ∀ id, votesOn s'.reversibility id =
      if id = requestId then [] else votesOn s.reversibility id := by
    intro id
    rw [stored, votesOn_erase (Reversibility.executeReversal_votes _ _ _ _ _), votesOn_storeVote]
    split
    · rfl
    · rfl
  have hother : ∀ id r, s'.reversibility.reversalRequests.lookup id = some r →
      r.status = .pending →
        id ≠ requestId ∧ s.reversibility.reversalRequests.lookup id = some r := by
    intro id r hr hpending
    rw [stored, Reversibility.executeReversal_requests] at hr
    split at hr
    · obtain ⟨r', -, rfl⟩ := Option.map_eq_some_iff.mp hr
      cases hpending
    · next hne => exact ⟨hne, (Finmap.lookup_insert_of_ne _ hne).symm.trans hr⟩
  constructor
  · intro id
    rw [hvotes]
    split
    · exact List.nodup_nil
    · exact h.nodup id
  · intro id r hr hpending
    obtain ⟨hne, hr⟩ := hother id r hr hpending
    rw [hvotes, if_neg hne, tally_executed, tally_voted, if_neg (Ne.symm hne)]
    exact h.kept id r hr hpending
  · intro id r hr hpending
    obtain ⟨hne, hr⟩ := hother id r hr hpending
    rw [tally_executed, tally_voted, if_neg (Ne.symm hne)]
    exact h.counted id r hr hpending
  · intro id
    rw [tally_executed]
    exact h.sitting_voted voting id

theorem Tallied.of_expired (h : Tallied s bs)
    (requests : s'.reversibility.reversalRequests =
      s.reversibility.reversalRequests.erase requestId)
    (votes : s'.reversibility.reversalVotes = s.reversibility.reversalVotes ∨
      s'.reversibility.reversalVotes = s.reversibility.reversalVotes.erase requestId) :
    Tallied s' (bs ++ []) := by
  have hvotes : ∀ id, votesOn s'.reversibility id = votesOn s.reversibility id ∨
      id = requestId ∧ votesOn s'.reversibility id = [] := by
    intro id
    cases votes with
    | inl heq => exact Or.inl (by rw [votesOn, votesOn, heq])
    | inr heq =>
      rw [votesOn_erase heq]
      split
      · next hid => exact Or.inr ⟨hid, rfl⟩
      · exact Or.inl rfl
  have hother : ∀ id r, s'.reversibility.reversalRequests.lookup id = some r →
      id ≠ requestId ∧ s.reversibility.reversalRequests.lookup id = some r := by
    intro id r hr
    rw [requests, StorageMap.lookup_erase_eq] at hr
    split at hr
    · cases hr
    · next hne => exact ⟨hne, hr⟩
  rw [List.append_nil]
  constructor
  · intro id
    cases hvotes id with
    | inl heq =>
      rw [heq]
      exact h.nodup id
    | inr heq =>
      rw [heq.2]
      exact List.nodup_nil
  · intro id r hr hpending
    obtain ⟨hne, hr⟩ := hother id r hr
    cases hvotes id with
    | inl heq =>
      rw [heq]
      exact h.kept id r hr hpending
    | inr heq => exact absurd heq.1 hne
  · intro id r hr hpending
    obtain ⟨hne, hr⟩ := hother id r hr
    exact h.counted id r hr hpending
  · exact h.sitting

end Voted

theorem Tallied.of_governed (h : Tallied s bs) (hg : Governed host s s' new) :
    Tallied s' (bs ++ new) := by
  cases hg with
  | tuned same => exact h.of_same same
  | filed filed => exact h.of_filed filed
  | counted voting below stored => exact h.of_counted voting stored
  | executed voting reached stored => exact h.of_executed voting stored
  | expired lookup pending late requests votes => exact h.of_expired requests votes

theorem tallied_run (host : Host) (g : GenesisConfig) (steps : List Step) :
    Tallied (run host g steps) (ballots host g steps) :=
  Machine.history_invariant (fun s _ i h => h.of_governed (step_governed host s i))
    (tallied_genesis g) steps

theorem ballots_snoc (host : Host) (g : GenesisConfig) (steps : List Step) (i : Step) :
    ballots host g (steps ++ [i]) =
      ballots host g steps ++ balloted host (run host g steps) i :=
  Machine.history_snoc _ steps i

/-! ## Reversals -/

/-- The request a step executes, if it does: the approval that reaches the threshold
calls `execute_reversal`. -/
def executes (host : Host) (s : State) : Step → Option H256
  | .extrinsic origin (.approveReversal requestId) =>
    match voteOf host s origin requestId with
    | some (.approved _ _) => some requestId
    | _ => none
  | _ => none

/-- What is known of a step that executes a reversal. -/
structure Execution (host : Host) (s : State) (i : Step) (requestId : H256)
    (governor : Address) (request : ReversalRequest) (votes : Reversibility.Addresses) :
    Prop where
  voting : Reversibility.Voting s.utxo.currentHeight s.reversibility governor requestId
    request votes
  reached : s.reversibility.approvalThreshold ≤ (countVote request).approvalCount
  balloted : balloted host s i = [.voted requestId governor s.reversibility.governors.val,
    .executed requestId s.reversibility.approvalThreshold]
  utxo : (step host s i).utxo = (Reversibility.executeReversal host s.utxo
    (storeVote s.reversibility requestId votes (approve (countVote request))) requestId
    (approve (countVote request))).1

theorem executes_eq_some {i : Step} {requestId : H256} (h : executes host s i = some requestId) :
    ∃ governor request votes, Execution host s i requestId governor request votes := by
  unfold executes at h
  split at h
  · next origin id =>
    split at h
    · next r request' hvote =>
      cases h
      cases origin with
      | root => cases hvote
      | none => cases hvote
      | signed caller =>
        have hcast : Reversibility.castVote s.utxo.currentHeight s.reversibility
            (Reversibility.accountToAddress host caller) requestId =
            .ok (.approved r request') := by
          revert hvote
          simp only [voteOf]
          cases Reversibility.castVote s.utxo.currentHeight s.reversibility
            (Reversibility.accountToAddress host caller) requestId with
          | error e => exact fun h => by cases h
          | ok vote => exact fun h => congrArg _ (Option.some.inj h)
        obtain ⟨_, _, _, _, heq⟩ | ⟨_, _, _, _, heq⟩ | ⟨request, votes, hvoting, hreached, heq⟩ :=
          Reversibility.castVote_ok hcast
        · cases heq
        · cases heq
        · cases heq
          have hdispatch : dispatch host s (.signed caller) (.approveReversal requestId) =
              .ok { s with
                utxo := (Reversibility.executeReversal host s.utxo
                  (storeVote s.reversibility requestId votes (approve (countVote request)))
                  requestId (approve (countVote request))).1
                reversibility := (Reversibility.executeReversal host s.utxo
                  (storeVote s.reversibility requestId votes (approve (countVote request)))
                  requestId (approve (countVote request))).2 } := by
            simp only [dispatch, ensureSigned, Checked.ok_bind, Reversibility.approveReversal,
              hcast]
            rfl
          refine ⟨_, request, votes, hvoting, hreached, ?_, ?_⟩
          · simp only [balloted, hdispatch, Call.ballots, hvote]
          · simp only [step, hdispatch]
    · cases h
  · cases h

/-- A reversal is executed on at least as many votes as the threshold in force asks
for: votes of different addresses cast since the request was filed, each by a governor
of its time. -/
theorem reversal_quorum (host : Host) (g : GenesisConfig) (steps : List Step) (i : Step)
    (requestId : H256) (h : executes host (run host g steps) i = some requestId) :
    (run host g steps).reversibility.approvalThreshold.toNat ≤
        (tally requestId (ballots host g (steps ++ [i]))).length ∧
      ((tally requestId (ballots host g (steps ++ [i]))).map Prod.fst).Nodup ∧
      (∀ v ∈ tally requestId (ballots host g (steps ++ [i])), v.1 ∈ v.2) ∧
      ∃ governor, (tally requestId (ballots host g (steps ++ [i]))).getLast? =
        some (governor, (run host g steps).reversibility.governors.val) := by
  obtain ⟨governor, request, votes, hexec⟩ := executes_eq_some h
  have htallied := tallied_run host g steps
  have hvoting := hexec.voting
  rw [ballots_snoc, hexec.balloted, tally_executed]
  refine ⟨?_, ?_, htallied.sitting_voted hvoting requestId, governor, ?_⟩
  · rw [← htallied.counted_voted hvoting]
    exact hexec.reached
  · exact (htallied.kept_voted hvoting).sublist.nodup (htallied.nodup_voted hvoting)
  · rw [tally_voted, if_pos rfl, List.getLast?_concat]

theorem reversal_quorum_sample :
    (run Sample.host Sample.genesis
        Sample.steps.dropLast).reversibility.approvalThreshold.toNat ≤
      (tally Sample.requestId (ballots Sample.host Sample.genesis
        (Sample.steps.dropLast ++ [Sample.approvalBy Sample.alice]))).length :=
  (reversal_quorum Sample.host Sample.genesis Sample.steps.dropLast
    (Sample.approvalBy Sample.alice) Sample.requestId (by decide +kernel)).1

/-- The voters on a request who sit among the governors now. -/
def sittingVoters (s : State) (requestId : H256) (bs : List Ballot) : List Address :=
  (((tally requestId bs).map Prod.fst).filter (· ∈ s.reversibility.governors.val)).dedup

/-- Alice, Bob and Carol govern. -/
def councilGenesis (threshold : U32) : GenesisConfig :=
  { Sample.genesis with
    governors := ⟨[Sample.aliceAddress, Sample.bobAddress, Sample.carolAddress], by decide⟩
    approvalThreshold := threshold }

def removal (governor : Address) : Step := .extrinsic .root (.removeGovernor governor)

/-- Alice votes and is removed. -/
def unseatedVote : List Step :=
  [.newBlock Sample.parentHash 0, Sample.request, Sample.approvalBy Sample.alice,
    removal Sample.aliceAddress]

theorem unseated_vote_executes :
    executes Sample.host (run Sample.host (councilGenesis 2) unseatedVote)
        (Sample.approvalBy Sample.bob) = some Sample.requestId ∧
      ¬ (run Sample.host (councilGenesis 2) unseatedVote).reversibility.approvalThreshold.toNat ≤
        (sittingVoters (run Sample.host (councilGenesis 2) unseatedVote) Sample.requestId
          (ballots Sample.host (councilGenesis 2)
            (unseatedVote ++ [Sample.approvalBy Sample.bob]))).length := by
  decide +kernel

/-! ## Thresholds -/

/-- A request that can still be voted on. -/
structure OpenRequest (s : State) (id : H256) (r : ReversalRequest) : Prop where
  lookup : s.reversibility.reversalRequests.lookup id = some r
  pending : r.status = .pending
  unexpired : s.utxo.currentHeight ≤ r.expiryBlockHeight

/-- Every open request has fewer voters than the threshold asks for. -/
def BelowQuorum (s : State) (bs : List Ballot) : Prop :=
  ∀ id r, OpenRequest s id r →
    ((tally id bs).map Prod.fst).dedup.length < s.reversibility.approvalThreshold.toNat

/-- The open requests have been approved fewer than `threshold` times. -/
def CountsBelow (s : State) (threshold : U32) : Prop :=
  ∀ id r, OpenRequest s id r → r.approvalCount < threshold

/-- The threshold a step puts in force, if it sets one. -/
def thresholdChange (s : State) : Step → Option U32
  | .extrinsic .root (.setApprovalThreshold newThreshold) =>
    if 1 ≤ newThreshold ∧ newThreshold.toNat ≤ s.reversibility.governors.val.length then
      some newThreshold
    else none
  | .extrinsic .root (.removeGovernor address) =>
    if address ∈ s.reversibility.governors.val then
      some (Reversibility.clampThreshold s.reversibility.approvalThreshold
        (Reversibility.remainingGovernors s.reversibility address))
    else none
  | _ => none

theorem Tallied.belowQuorum_iff_counts (h : Tallied s bs) :
    BelowQuorum s bs ↔ CountsBelow s s.reversibility.approvalThreshold := by
  apply forall₂_congr
  intro id r
  apply forall_congr'
  intro hopen
  have hnodup := (h.kept id r hopen.lookup hopen.pending).sublist.nodup (h.nodup id)
  rw [List.Nodup.dedup hnodup, List.length_map, ← h.counted id r hopen.lookup hopen.pending]
  exact BitVec.lt_def.symm

theorem step_of_thresholdChange (host : Host) {i : Step} {threshold : U32}
    (h : thresholdChange s i = some threshold) :
    (step host s i).utxo = s.utxo ∧
      (step host s i).reversibility.reversalRequests = s.reversibility.reversalRequests ∧
      (step host s i).reversibility.approvalThreshold = threshold := by
  unfold thresholdChange at h
  split at h
  · next newThreshold =>
    split at h
    · next hbounds =>
      cases h
      simp only [step, dispatch, ensureRoot, Checked.ok_bind, Reversibility.setApprovalThreshold,
        ensure, if_pos hbounds.1, if_pos hbounds.2]
      exact ⟨rfl, rfl, rfl⟩
    · cases h
  · next address =>
    split at h
    · next hmem =>
      cases h
      simp only [step, dispatch, ensureRoot, Checked.ok_bind, Reversibility.removeGovernor,
        ensure, if_pos hmem]
      exact ⟨rfl, rfl, rfl⟩
    · cases h
  · cases h

theorem approveReversal_threshold {u u' : Utxo.Storage} {r r' : Reversibility.Storage}
    {a : AccountId} {requestId : H256}
    (h : Reversibility.approveReversal host u r a requestId = .ok (u', r')) :
    r'.approvalThreshold = r.approvalThreshold := by
  obtain ⟨vote, hvote, h⟩ := Checked.bind_eq_ok.mp h
  have hsettled := congrArg (fun p => p.2.approvalThreshold) (Except.ok.inj h)
  rw [← hsettled]
  obtain ⟨_, _, _, _, rfl⟩ | ⟨_, _, _, _, rfl⟩ | ⟨_, _, _, _, rfl⟩ :=
    Reversibility.castVote_ok hvote
  · rfl
  · rfl
  · exact Reversibility.executeReversal_threshold _ _ _ _ _

theorem step_threshold_of_none {i : Step} (h : thresholdChange s i = none) :
    (step host s i).reversibility.approvalThreshold = s.reversibility.approvalThreshold := by
  revert h
  apply step_cases (P := fun i s' => thresholdChange s i = none →
    s'.reversibility.approvalThreshold = s.reversibility.approvalThreshold)
  · intro origin call s' _ h hnone
    cases h with
    | submitReversalRequest h =>
      obtain ⟨_, _, _, hfiled⟩ := Reversibility.submitReversalRequest_ok h
      have hfiled := congrArg Reversibility.Storage.approvalThreshold hfiled.filed
      exact hfiled
    | approveReversal h => exact approveReversal_threshold h
    | addGovernor h =>
      obtain ⟨_, _, _, rfl⟩ := Reversibility.addGovernor_ok h
      rfl
    | removeGovernor h =>
      obtain ⟨hmem, -⟩ := Reversibility.removeGovernor_ok h
      simp [thresholdChange, hmem] at hnone
    | setApprovalThreshold h =>
      obtain ⟨hlow, hhigh, -⟩ := Reversibility.setApprovalThreshold_ok h
      simp only [thresholdChange, if_pos (And.intro hlow hhigh)] at hnone
      cases hnone
    | expireRequest h =>
      obtain ⟨_, _, _, _, rfl⟩ := Reversibility.expireRequest_ok h
      rfl
    | _ => rfl
  · intro origin call e _ _
    rfl
  · intro parentHash now _
    rfl
  · intro _
    rfl

theorem thresholdChange_pos (hpos : 0 < s.reversibility.approvalThreshold) {i : Step}
    {threshold : U32} (h : thresholdChange s i = some threshold) : 0 < threshold := by
  unfold thresholdChange at h
  split at h
  · split at h
    · next hbounds =>
      cases h
      exact hbounds.1
    · cases h
  · split at h
    · cases h
      exact Reversibility.clampThreshold_pos hpos
    · cases h
  · cases h

theorem threshold_pos_run (host : Host) (g : GenesisConfig) (steps : List Step) :
    0 < (run host g steps).reversibility.approvalThreshold := by
  refine Machine.run_induction (P := fun s : State => 0 < s.reversibility.approvalThreshold)
    ?_ ?_ steps
  · intro s i hpos
    cases h : thresholdChange s i with
    | none => rwa [step_threshold_of_none h]
    | some threshold =>
      rw [(step_of_thresholdChange host h).2.2]
      exact thresholdChange_pos hpos h
  · change 0 < if 0 < g.approvalThreshold then g.approvalThreshold
      else Reversibility.defaultApprovalThreshold
    split
    · assumption
    · decide

/-- An open request was open before, or is new, or has just been voted on without
reaching the threshold. -/
theorem Governed.openRequest (hg : Governed host s s' new)
    (hheight : s.utxo.currentHeight ≤ s'.utxo.currentHeight) {id : H256} {r : ReversalRequest}
    (h : OpenRequest s' id r) :
    OpenRequest s id r ∨ r.approvalCount = 0 ∨
      r.approvalCount < s.reversibility.approvalThreshold := by
  have hold : s.reversibility.reversalRequests.lookup id = some r → OpenRequest s id r :=
    fun hlookup => ⟨hlookup, h.pending, hheight.trans h.unexpired⟩
  have hlookup := h.lookup
  have hpending := h.pending
  cases hg with
  | tuned same =>
    rw [same.requests] at hlookup
    exact Or.inl (hold hlookup)
  | filed filed =>
    rw [filed.filed] at hlookup
    have hlookup := (StorageMap.lookup_insert_eq _ _ _ _).symm.trans hlookup
    split at hlookup
    · cases hlookup
      exact Or.inr (Or.inl filed.uncounted)
    · exact Or.inl (hold hlookup)
  | counted voting below stored =>
    rw [stored] at hlookup
    have hlookup := (StorageMap.lookup_insert_eq _ _ _ _).symm.trans hlookup
    split at hlookup
    · cases hlookup
      exact Or.inr (Or.inr below)
    · exact Or.inl (hold hlookup)
  | executed voting reached stored =>
    rw [stored, Reversibility.executeReversal_requests] at hlookup
    split at hlookup
    · obtain ⟨r', -, rfl⟩ := Option.map_eq_some_iff.mp hlookup
      cases hpending
    · next hne =>
      exact Or.inl (hold ((Finmap.lookup_insert_of_ne _ hne).symm.trans hlookup))
  | expired lookup pending late requests votes =>
    rw [requests, StorageMap.lookup_erase_eq] at hlookup
    split at hlookup
    · cases hlookup
    · exact Or.inl (hold hlookup)

theorem CountsBelow.step (hpos : 0 < s.reversibility.approvalThreshold)
    (h : CountsBelow s s.reversibility.approvalThreshold) {i : Step}
    (hset : ∀ threshold, thresholdChange s i = some threshold → CountsBelow s threshold) :
    CountsBelow (step host s i) (step host s i).reversibility.approvalThreshold := by
  intro id r hopen
  cases hchange : thresholdChange s i with
  | some threshold =>
    obtain ⟨hutxo, hrequests, hthreshold⟩ := step_of_thresholdChange host hchange
    rw [hthreshold]
    apply hset threshold hchange id r
    exact ⟨hrequests ▸ hopen.lookup, hopen.pending, hutxo ▸ hopen.unexpired⟩
  | none =>
    rw [step_threshold_of_none hchange]
    obtain hold | hzero | hbelow :=
      (step_governed host s i).openRequest (step_height_le host s i) hopen
    · exact h id r hold
    · rw [hzero]
      exact hpos
    · exact hbelow

/-- No request waits at its quorum, in any order of events, if and only if every
threshold that is put in force exceeds the approvals of every request still open. -/
theorem belowQuorum_iff (host : Host) (g : GenesisConfig) (steps : List Step) :
    (∀ before, before <+: steps → BelowQuorum (run host g before) (ballots host g before)) ↔
      ∀ before i, before ++ [i] <+: steps → ∀ threshold,
        thresholdChange (run host g before) i = some threshold →
          CountsBelow (run host g before) threshold := by
  simp only [(tallied_run host g _).belowQuorum_iff_counts]
  constructor
  · intro h before i hle threshold hchange id r hopen
    have hbelow := h _ hle
    rw [run_snoc] at hbelow
    obtain ⟨hutxo, hrequests, hthreshold⟩ := step_of_thresholdChange host hchange
    rw [← hthreshold]
    apply hbelow id r
    exact ⟨hrequests ▸ hopen.lookup, hopen.pending, hutxo ▸ hopen.unexpired⟩
  · intro h before hle
    induction before using List.reverseRecOn with
    | nil =>
      intro id r hopen
      have hnone := hopen.lookup
      rw [show run host g [] = g.build from rfl, genesis_requests] at hnone
      cases hnone
    | append_singleton before i ih =>
      rw [run_snoc]
      apply CountsBelow.step (threshold_pos_run host g before)
      · exact ih ((List.prefix_append _ _).trans hle)
      · exact h before i hle

/-- Alice and Bob vote, and Carol is removed. -/
def loweredThreshold : List Step :=
  [.newBlock Sample.parentHash 0, Sample.request, Sample.approvalBy Sample.alice,
    Sample.approvalBy Sample.bob, removal Sample.carolAddress]

theorem lowered_threshold_leaves_request :
    ¬ BelowQuorum (run Sample.host (councilGenesis 3) loweredThreshold)
      (ballots Sample.host (councilGenesis 3) loweredThreshold) := by
  have hrequest : ∃ r ∈ (run Sample.host (councilGenesis 3)
      loweredThreshold).reversibility.reversalRequests.lookup Sample.requestId,
      r.status = .pending ∧
      (run Sample.host (councilGenesis 3) loweredThreshold).utxo.currentHeight ≤
        r.expiryBlockHeight := by decide +kernel
  obtain ⟨r, hlookup, hpending, hunexpired⟩ := hrequest
  intro h
  have hbelow := h Sample.requestId r ⟨hlookup, hpending, hunexpired⟩
  exact absurd hbelow (by decide +kernel)

end Qubitcoin.Substrate
