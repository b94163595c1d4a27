import Qubitcoin.Substrate.Filings

/-! The governors, their threshold and the votes they have cast. -/

namespace Qubitcoin.Substrate

open Reversibility (ReversalRequest Target Filed countVote approve executed storeVote
  executeReversal clampThreshold remainingGovernors)

variable {host : Host} {g : GenesisConfig} {s s' : State} {bs new : List Ballot} {steps : List Step}

/-! ## The council -/

/-- Distinct governors with a threshold they can meet.  When the last governor goes, the
threshold stays at one. -/
structure Council (r : Reversibility.Storage) : Prop where
  distinct : r.governors.val.Nodup
  positive : 1 ≤ r.approvalThreshold
  attainable : r.approvalThreshold.toNat ≤ max 1 r.governors.val.length

theorem Council.of_same {r r' : Reversibility.Storage} (h : Council r)
    (hgovernors : r'.governors = r.governors)
    (hthreshold : r'.approvalThreshold = r.approvalThreshold) : Council r' where
  distinct := hgovernors ▸ h.distinct
  positive := hthreshold ▸ h.positive
  attainable := by
    rw [hgovernors, hthreshold]
    exact h.attainable

theorem Council.addGovernor {r r' : Reversibility.Storage} {address : Address} (h : Council r)
    (hadd : Reversibility.addGovernor r address = .ok r') : Council r' := by
  obtain ⟨governors, hnew, hgovernors, rfl⟩ := Reversibility.addGovernor_ok hadd
  constructor
  · simp only [hgovernors]
    rw [← List.concat_eq_append]
    exact h.distinct.concat hnew
  · exact h.positive
  · simp only [hgovernors, List.length_append, List.length_singleton]
    have hattainable := h.attainable
    omega

theorem remainingGovernors_length {r : Reversibility.Storage} {address : Address}
    (hmem : address ∈ r.governors.val) :
    (remainingGovernors r address).val.length + 1 = r.governors.val.length := by
  have hpos := List.idxOf_lt_length_of_mem hmem
  simp only [remainingGovernors, BoundedVec.remove]
  rw [List.length_eraseIdx_of_lt hpos]
  omega

theorem toNat_clampThreshold_le (threshold : U32) (governors : Reversibility.Addresses)
    (h : threshold.toNat ≤ governors.val.length + 1) :
    (clampThreshold threshold governors).toNat ≤ max 1 governors.val.length := by
  have hbound := governors.bounded
  have hten : Reversibility.maxGovernors < 2 ^ 32 := by decide
  have hlength : (BitVec.ofNat 32 governors.val.length).toNat = governors.val.length := by
    rw [BitVec.toNat_ofNat, Nat.mod_eq_of_lt (hbound.trans_lt hten)]
  unfold clampThreshold
  split
  · rw [hlength]
    exact Nat.le_max_right _ _
  · next hfits =>
    rw [BitVec.lt_def, hlength, not_and_or, ne_eq, not_not, not_lt] at hfits
    cases hfits with
    | inl hempty =>
      rw [hempty] at h ⊢
      exact h
    | inr hle => exact hle.trans (Nat.le_max_right _ _)

theorem Council.removeGovernor {r r' : Reversibility.Storage} {address : Address} (h : Council r)
    (hremove : Reversibility.removeGovernor r address = .ok r') : Council r' := by
  obtain ⟨hmem, rfl⟩ := Reversibility.removeGovernor_ok hremove
  have hlength := remainingGovernors_length hmem
  constructor
  · exact h.distinct.sublist (List.eraseIdx_sublist _ _)
  · have hpos : 0 < r.approvalThreshold := by
      have := h.positive
      bv_omega
    have := @Reversibility.clampThreshold_pos r.approvalThreshold (remainingGovernors r address)
      hpos
    bv_omega
  · apply toNat_clampThreshold_le
    have hattainable := h.attainable
    omega

theorem Council.setApprovalThreshold {r r' : Reversibility.Storage} {newThreshold : U32}
    (h : Council r) (hset : Reversibility.setApprovalThreshold r newThreshold = .ok r') :
    Council r' := by
  obtain ⟨hlow, hhigh, rfl⟩ := Reversibility.setApprovalThreshold_ok hset
  exact ⟨h.distinct, hlow, hhigh.trans (Nat.le_max_right _ _)⟩

theorem executeReversal_governors (host : Host) (utxos : Utxo.Storage) (r : Reversibility.Storage)
    (requestId : H256) (request : ReversalRequest) :
    (executeReversal host utxos r requestId request).2.governors = r.governors := by
  simp only [executeReversal, Reversibility.markExecuted]
  split <;> rfl

theorem approveReversal_governors {u u' : Utxo.Storage} {r r' : Reversibility.Storage}
    {a : AccountId} {requestId : H256}
    (h : Reversibility.approveReversal host u r a requestId = .ok (u', r')) :
    r'.governors = r.governors := by
  obtain ⟨vote, hvote, h⟩ := Checked.bind_eq_ok.mp h
  have hsettled := congrArg (fun p => p.2.governors) (Except.ok.inj h)
  rw [← hsettled]
  obtain ⟨_, _, _, _, rfl⟩ | ⟨_, _, _, _, rfl⟩ | ⟨_, _, _, _, rfl⟩ :=
    Reversibility.castVote_ok hvote
  · rfl
  · rfl
  · exact executeReversal_governors _ _ _ _ _

theorem step_council (host : Host) (s : State) (i : Step) (h : Council s.reversibility) :
    Council (step host s i).reversibility := by
  apply step_cases (P := fun _ s' => Council s'.reversibility)
  · intro origin call s' _ hdispatched
    cases hdispatched with
    | submitReversalRequest hsubmit =>
      obtain ⟨_, _, _, hfiled⟩ := Reversibility.submitReversalRequest_ok hsubmit
      rw [hfiled.filed]
      exact h.of_same rfl rfl
    | approveReversal happrove =>
      exact h.of_same (approveReversal_governors happrove) (approveReversal_threshold happrove)
    | addGovernor hadd => exact h.addGovernor hadd
    | removeGovernor hremove => exact h.removeGovernor hremove
    | setApprovalThreshold hset => exact h.setApprovalThreshold hset
    | expireRequest hexpire =>
      obtain ⟨_, _, _, _, rfl⟩ := Reversibility.expireRequest_ok hexpire
      exact h.of_same rfl rfl
    | _ => exact h.of_same rfl rfl
  · intro origin call e _
    exact h
  · intro parentHash now
    exact h
  · exact h

/-! ## The votes -/

/-- Votes are recorded under filed ids only, and a pending request counts the votes on it. -/
structure VotesRecorded (s : State) (bs : List Ballot) : Prop where
  filed : ∀ id, votesOn s.reversibility id ≠ [] → ∃ height window, .filed id height window ∈ bs
  counted : ∀ id request, s.reversibility.reversalRequests.lookup id = some request →
    request.status = .pending → request.approvalCount.toNat = (votesOn s.reversibility id).length

theorem votesRecorded_genesis (g : GenesisConfig) : VotesRecorded g.build [] where
  filed _ h := absurd rfl h
  counted id request h := by
    rw [genesis_requests] at h
    cases h

/-- A step that records no vote and files nothing. -/
theorem VotesRecorded.keep (h : VotesRecorded s bs)
    (hrequests : ∀ id request, s'.reversibility.reversalRequests.lookup id = some request →
      s.reversibility.reversalRequests.lookup id = some request)
    (hvotes : ∀ id, votesOn s'.reversibility id = votesOn s.reversibility id ∨
      votesOn s'.reversibility id = [] ∧ id ∉ s'.reversibility.reversalRequests) :
    VotesRecorded s' bs where
  filed id hne := by
    cases hvotes id with
    | inl hsame => exact h.filed id (hsame ▸ hne)
    | inr hnone => exact absurd hnone.1 hne
  counted id request hlookup hpending := by
    cases hvotes id with
    | inl hsame =>
      rw [hsame]
      exact h.counted id request (hrequests id request hlookup) hpending
    | inr hnone => exact absurd (Finmap.mem_of_lookup_eq_some hlookup) hnone.2

theorem VotesRecorded.of_filed (h : VotesRecorded s bs) {target : Target}
    {request : ReversalRequest}
    (filed : Filed host s.utxo s.reversibility s'.reversibility target request)
    (hfresh : ∀ height window, .filed request.requestId height window ∉ bs) :
    VotesRecorded s' (bs ++ new) := by
  have hvotes : votesOn s'.reversibility = votesOn s.reversibility := by
    rw [filed.filed]
    rfl
  constructor
  · intro id hne
    rw [hvotes] at hne
    obtain ⟨height, window, hmem⟩ := h.filed id hne
    exact ⟨height, window, List.mem_append_left _ hmem⟩
  · intro id r hr hpending
    rw [hvotes]
    rw [filed.filed] at hr
    have hr := (StorageMap.lookup_insert_eq _ _ _ _).symm.trans hr
    split at hr
    · next heq =>
      cases hr
      have hnone : votesOn s.reversibility id = [] := by
        by_contra hne
        obtain ⟨height, window, hmem⟩ := h.filed id hne
        exact hfresh height window (heq ▸ hmem)
      rw [hnone, filed.uncounted]
      rfl
    · exact h.counted id r hr hpending

section Voted

variable {governor : Address} {requestId : H256} {request : ReversalRequest}
  {votes : Reversibility.Addresses}

theorem VotesRecorded.countVote (h : VotesRecorded s bs)
    (voting : Reversibility.Voting s.utxo.currentHeight s.reversibility governor requestId request
      votes) : (countVote request).approvalCount.toNat = votes.val.length := by
  have hcounted := h.counted requestId request voting.lookup voting.pending
  have hbound := votes.bounded
  have hten : Reversibility.maxGovernors < 2 ^ 32 := by decide
  rw [voting.votes_val, List.length_append, List.length_singleton] at hbound ⊢
  change (request.approvalCount + 1).toNat = _
  rw [BitVec.toNat_add, hcounted]
  exact Nat.mod_eq_of_lt (hbound.trans_lt hten)

/-- The votes on a request are of one id, so of a filed one. -/
theorem VotesRecorded.of_voted (h : VotesRecorded s bs) (hsettled : Settled s bs)
    (voting : Reversibility.Voting s.utxo.currentHeight s.reversibility governor requestId request
      votes)
    (hvotes : ∀ id, id ≠ requestId →
      votesOn s'.reversibility id = votesOn s.reversibility id)
    (hother : ∀ id, id ≠ requestId → s'.reversibility.reversalRequests.lookup id =
      s.reversibility.reversalRequests.lookup id)
    (hsame : ∀ r, s'.reversibility.reversalRequests.lookup requestId = some r →
      r.status = .pending → r.approvalCount.toNat = (votesOn s'.reversibility requestId).length) :
    VotesRecorded s' (bs ++ new) where
  filed id hne := by
    by_cases hid : id = requestId
    · obtain ⟨height, window, hmem, _⟩ := hsettled.filed requestId request voting.lookup
      exact ⟨height, window, List.mem_append_left _ (hid ▸ hmem)⟩
    · rw [hvotes id hid] at hne
      obtain ⟨height, window, hmem⟩ := h.filed id hne
      exact ⟨height, window, List.mem_append_left _ hmem⟩
  counted id r hr hpending := by
    by_cases hid : id = requestId
    · rw [hid] at hr ⊢
      exact hsame r hr hpending
    · rw [hother id hid] at hr
      rw [hvotes id hid]
      exact h.counted id r hr hpending

end Voted

theorem VotesRecorded.of_governed (h : VotesRecorded s bs) (hsettled : Settled s bs)
    (hg : Governed host s s' new)
    (hfresh : ∀ target request,
      Filed host s.utxo s.reversibility s'.reversibility target request →
        (∃ window, .filed request.requestId s.utxo.currentHeight window ∈ new) →
          ∀ height window, .filed request.requestId height window ∉ bs) :
    VotesRecorded s' (bs ++ new) := by
  cases hg with
  | tuned same =>
    rw [List.append_nil]
    apply h.keep
    · intro id request hlookup
      rwa [same.requests] at hlookup
    · intro id
      left
      rw [votesOn, votesOn, same.votes]
  | filed filed =>
    exact h.of_filed filed (hfresh _ _ filed ⟨_, List.mem_singleton_self _⟩)
  | @counted governor requestId request votes voting below stored =>
    apply h.of_voted hsettled voting
    · intro id hid
      rw [stored, votesOn_storeVote, if_neg hid]
    · intro id hid
      rw [lookup_counted stored, if_neg hid]
    · intro r hr _
      rw [lookup_counted stored, if_pos rfl] at hr
      cases hr
      rw [stored, votesOn_storeVote, if_pos rfl]
      exact h.countVote voting
  | @executed governor requestId request votes voting reached stored =>
    apply h.of_voted hsettled voting
    · intro id hid
      rw [stored, votesOn_erase (Reversibility.executeReversal_votes _ _ _ _ _), if_neg hid,
        votesOn_storeVote, if_neg hid]
    · intro id hid
      rw [lookup_executed stored, if_neg hid]
    · intro r hr hpending
      rw [lookup_executed stored, if_pos rfl] at hr
      cases hr
      cases hpending
  | @expired requestId request lookup pending late requests votes =>
    rw [List.append_nil]
    apply h.keep
    · intro id r hr
      rw [requests, StorageMap.lookup_erase_eq] at hr
      split at hr
      · cases hr
      · exact hr
    · intro id
      cases votes with
      | inl hsame =>
        left
        rw [votesOn, votesOn, hsame]
      | inr herased =>
        rw [votesOn_erase herased]
        split
        · next hid =>
          right
          rw [requests, hid]
          exact ⟨rfl, Finmap.notMem_erase_self⟩
        · exact Or.inl rfl

theorem votesRecorded_run (h : IdsApart host g steps) :
    VotesRecorded (run host g steps) (ballots host g steps) := by
  induction steps using List.reverseRecOn with
  | nil => exact votesRecorded_genesis g
  | append_singleton steps i ih =>
    have hbefore := h.of_prefix (List.prefix_append steps [i])
    rw [run_snoc, ballots_snoc]
    apply (ih hbefore).of_governed (settled_run hbefore) (step_governed host _ i)
    rintro target request filed ⟨window, hballot⟩
    exact h.fresh filed hballot

/-- From a council with distinct governors and a threshold they can meet, the governors stay
distinct and the threshold positive and attainable, until the last governor goes; and a pending
request counts its voters, who are distinct. -/
theorem governors_wellFormed (host : Host) (g : GenesisConfig) (steps : List Step)
    (hdistinct : g.governors.val.Nodup) (hlow : 1 ≤ g.approvalThreshold)
    (hhigh : g.approvalThreshold.toNat ≤ g.governors.val.length)
    (hids : IdsApart host g steps) :
    (run host g steps).reversibility.governors.val.Nodup ∧
    1 ≤ (run host g steps).reversibility.approvalThreshold ∧
    (run host g steps).reversibility.approvalThreshold.toNat ≤
      max 1 (run host g steps).reversibility.governors.val.length ∧
    ∀ id request, (run host g steps).reversibility.reversalRequests.lookup id = some request →
      request.status = .pending →
        (votesOn (run host g steps).reversibility id).Nodup ∧
        request.approvalCount.toNat = (votesOn (run host g steps).reversibility id).length := by
  have hgenesis : Council g.build.reversibility := by
    have hpos : 0 < g.approvalThreshold := by bv_omega
    constructor
    · exact hdistinct
    · simp only [GenesisConfig.build, Reversibility.genesisBuild, if_pos hpos]
      exact hlow
    · simp only [GenesisConfig.build, Reversibility.genesisBuild, if_pos hpos]
      exact hhigh.trans (Nat.le_max_right _ _)
  have hcouncil : Council (run host g steps).reversibility :=
    Machine.run_induction (P := fun s : State => Council s.reversibility) (step_council host)
      hgenesis steps
  refine ⟨hcouncil.distinct, hcouncil.positive, hcouncil.attainable, ?_⟩
  intro id request hlookup hpending
  exact ⟨(tallied_run host g steps).nodup id,
    (votesRecorded_run hids).counted id request hlookup hpending⟩

theorem governors_wellFormed_sample :
    (votesOn (run Sample.host (councilGenesis 2) unseatedVote).reversibility
      Sample.requestId).Nodup :=
  ((governors_wellFormed Sample.host (councilGenesis 2) unseatedVote (by decide) (by decide)
    (by decide) (by decide +kernel)).2.2.2 Sample.requestId
    (((run Sample.host (councilGenesis 2) unseatedVote).reversibility.reversalRequests.lookup
      Sample.requestId).get (by decide +kernel)) (Option.some_get _).symm (by decide +kernel)).1

/-- The only governor goes, and the threshold of one stays. -/
theorem last_governor_removed :
    Sample.genesis.governors.val.Nodup ∧ 1 ≤ Sample.genesis.approvalThreshold ∧
    Sample.genesis.approvalThreshold.toNat ≤ Sample.genesis.governors.val.length ∧
    ¬(run Sample.host Sample.genesis
        [removal Sample.aliceAddress]).reversibility.approvalThreshold.toNat ≤
      (run Sample.host Sample.genesis
        [removal Sample.aliceAddress]).reversibility.governors.val.length := by
  decide +kernel

end Qubitcoin.Substrate
