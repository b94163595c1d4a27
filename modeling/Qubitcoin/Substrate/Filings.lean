import Qubitcoin.Substrate.Quorum

/-! The requests filed in a run.  A request's id is the digest of its target and of the height,
and no request is cleared at the height it is filed at: an id is not filed twice. -/

namespace Qubitcoin.Substrate

open Reversibility (ReversalRequest Target Filed requestPreimage computeRequestId countVote
  approve executed storeVote executeReversal)

variable (host : Host)

/-- The target and the height of the request a step files, if it does. -/
def filing (s : State) : Step → List (TxId × BlockHeight)
  | .extrinsic origin (.submitReversalRequest targetTxid originalSender reason) =>
    match dispatch host s origin (.submitReversalRequest targetTxid originalSender reason) with
    | .ok _ => [(targetTxid, s.utxo.currentHeight)]
    | .error _ => []
  | _ => []

def filings (g : GenesisConfig) (steps : List Step) : List (TxId × BlockHeight) :=
  Machine.history (step host) (filing host) g.build steps

/-- The heights of a run are `u64`s, and its requests with the same id have the same preimage. -/
structure IdsApart (g : GenesisConfig) (steps : List Step) : Prop where
  fits : (run host g steps).utxo.currentHeight ≤ u64Max
  collisionFree : ∀ p ∈ filings host g steps, ∀ q ∈ filings host g steps,
    computeRequestId host p.1 p.2 = computeRequestId host q.1 q.2 →
      requestPreimage p.1 p.2 = requestPreimage q.1 q.2

instance (g : GenesisConfig) (steps : List Step) : Decidable (IdsApart host g steps) :=
  decidable_of_iff
    ((run host g steps).utxo.currentHeight ≤ u64Max ∧
      ∀ p ∈ filings host g steps, ∀ q ∈ filings host g steps,
        computeRequestId host p.1 p.2 = computeRequestId host q.1 q.2 →
          requestPreimage p.1 p.2 = requestPreimage q.1 q.2)
    ⟨fun h => ⟨h.1, h.2⟩, fun h => ⟨h.fits, h.collisionFree⟩⟩

variable {host} {g : GenesisConfig} {s s' : State} {bs new : List Ballot} {steps : List Step}
  {id : H256} {height : BlockHeight} {window : U64}

theorem filing_of_balloted {i : Step} (h : .filed id height window ∈ balloted host s i) :
    ∃ targetTxid, (targetTxid, height) ∈ filing host s i ∧
      id = computeRequestId host targetTxid height ∧ height = s.utxo.currentHeight := by
  cases i with
  | extrinsic origin call =>
    cases hdispatch : dispatch host s origin call with
    | error e => simp [balloted, hdispatch] at h
    | ok s' =>
      simp only [balloted, hdispatch] at h
      cases call with
      | submitReversalRequest targetTxid originalSender reason =>
        cases List.mem_singleton.mp h
        refine ⟨targetTxid, ?_, rfl, rfl⟩
        simp [filing, hdispatch]
      | approveReversal requestId =>
        simp only [Call.ballots] at h
        split at h
        · split at h <;> simp at h
        · cases h
      | _ => cases h
  | newBlock parentHash now => cases h
  | runtimeUpgrade => cases h

theorem run_height_le (host : Host) (g : GenesisConfig) (before after : List Step) :
    (run host g before).utxo.currentHeight ≤ (run host g (before ++ after)).utxo.currentHeight := by
  rw [run_append]
  refine Machine.run_induction
    (P := fun s : State => (run host g before).utxo.currentHeight ≤ s.utxo.currentHeight)
    ?_ le_rfl after
  intro s i h
  exact h.trans (step_height_le host s i)

theorem IdsApart.of_prefix {before : List Step} (h : IdsApart host g steps)
    (hle : before <+: steps) : IdsApart host g before := by
  obtain ⟨after, rfl⟩ := hle
  have happend : filings host g (before ++ after) = filings host g before ++ _ :=
    Machine.history_append _ _ _
  constructor
  · exact (run_height_le host g before after).trans h.fits
  · intro p hp q hq
    apply h.collisionFree
    · rw [happend]
      exact List.mem_append_left _ hp
    · rw [happend]
      exact List.mem_append_left _ hq

theorem mem_filings_of_ballot (h : .filed id height window ∈ ballots host g steps) :
    ∃ targetTxid, (targetTxid, height) ∈ filings host g steps ∧
      id = computeRequestId host targetTxid height ∧
      height ≤ (run host g steps).utxo.currentHeight := by
  obtain ⟨before, i, after, rfl, hmem⟩ := Machine.mem_history.mp h
  obtain ⟨targetTxid, hfiling, hid, hheight⟩ := filing_of_balloted hmem
  refine ⟨targetTxid, Machine.mem_history.mpr ⟨before, i, after, rfl, hfiling⟩, hid, ?_⟩
  rw [hheight]
  exact run_height_le host g before _

/-- Requests with the same id were filed at the same height. -/
theorem IdsApart.height_eq (h : IdsApart host g steps) {height' : BlockHeight} {window' : U64}
    (hfiled : .filed id height window ∈ ballots host g steps)
    (hfiled' : .filed id height' window' ∈ ballots host g steps) : height = height' := by
  obtain ⟨txid, hmem, hid, hle⟩ := mem_filings_of_ballot hfiled
  obtain ⟨txid', hmem', hid', hle'⟩ := mem_filings_of_ballot hfiled'
  apply Reversibility.height_eq_of_requestPreimage (hle.trans h.fits) (hle'.trans h.fits)
  exact h.collisionFree _ hmem _ hmem' (hid.symm.trans hid')

/-- Every stored request was filed by its deadline, and a filed id that is no longer in use was
filed at a lower height. -/
structure Settled (s : State) (bs : List Ballot) : Prop where
  filed : ∀ id request, s.reversibility.reversalRequests.lookup id = some request →
    ∃ height window, .filed id height window ∈ bs ∧ height ≤ request.expiryBlockHeight
  passed : ∀ id height window, .filed id height window ∈ bs →
    id ∈ s.reversibility.reversalRequests ∨ height < s.utxo.currentHeight

/-- An id has one height of filing. -/
def OneHeight (bs : List Ballot) : Prop :=
  ∀ id height window height' window', .filed id height window ∈ bs →
    .filed id height' window' ∈ bs → height = height'

theorem settled_genesis (g : GenesisConfig) : Settled g.build [] where
  filed id request h := by
    rw [genesis_requests] at h
    cases h
  passed _ _ _ h := absurd h List.not_mem_nil

/-- A step that keeps the ids in use and files nothing. -/
theorem Settled.keep (h : Settled s bs) (hheight : s.utxo.currentHeight ≤ s'.utxo.currentHeight)
    (hfiled : ∀ id height window, .filed id height window ∉ new)
    (hold : ∀ id request', s'.reversibility.reversalRequests.lookup id = some request' →
      ∃ request, s.reversibility.reversalRequests.lookup id = some request ∧
        request'.expiryBlockHeight = request.expiryBlockHeight)
    (hkept : ∀ id, id ∈ s.reversibility.reversalRequests →
      id ∈ s'.reversibility.reversalRequests) : Settled s' (bs ++ new) where
  filed id request' hlookup := by
    obtain ⟨request, hbefore, hexpiry⟩ := hold id request' hlookup
    obtain ⟨height, window, hmem, hle⟩ := h.filed id request hbefore
    exact ⟨height, window, List.mem_append_left _ hmem, hexpiry ▸ hle⟩
  passed id height window hmem := by
    cases List.mem_append.mp hmem with
    | inl hmem =>
      cases h.passed id height window hmem with
      | inl huse => exact Or.inl (hkept id huse)
      | inr hlow => exact Or.inr (hlow.trans_le hheight)
    | inr hmem => exact absurd hmem (hfiled id height window)

section Votes

variable {requestId : H256} {request : ReversalRequest} {votes : Reversibility.Addresses}

theorem lookup_counted
    (stored : s'.reversibility = storeVote s.reversibility requestId votes (countVote request))
    (id : H256) : s'.reversibility.reversalRequests.lookup id =
      if id = requestId then some (countVote request)
      else s.reversibility.reversalRequests.lookup id := by
  rw [stored]
  exact StorageMap.lookup_insert_eq _ _ _ _

theorem lookup_executed
    (stored : s'.reversibility = (executeReversal host s.utxo
      (storeVote s.reversibility requestId votes (approve (countVote request))) requestId
      (approve (countVote request))).2) (id : H256) :
    s'.reversibility.reversalRequests.lookup id =
      if id = requestId then some (executed (approve (countVote request)))
      else s.reversibility.reversalRequests.lookup id := by
  rw [stored, Reversibility.executeReversal_requests]
  change (if id = requestId then
    ((Finmap.insert _ _ s.reversibility.reversalRequests).lookup id).map executed else
    (Finmap.insert _ _ s.reversibility.reversalRequests).lookup id) = _
  rw [StorageMap.lookup_insert_eq]
  split <;> rfl

/-- A vote changes a request, but not its deadline. -/
theorem Settled.of_update (h : Settled s bs)
    (hheight : s.utxo.currentHeight ≤ s'.utxo.currentHeight)
    (hfiled : ∀ id height window, .filed id height window ∉ new) {request' : ReversalRequest}
    (lookup : s.reversibility.reversalRequests.lookup requestId = some request)
    (hexpiry : request'.expiryBlockHeight = request.expiryBlockHeight)
    (hlookup : ∀ id, s'.reversibility.reversalRequests.lookup id =
      if id = requestId then some request' else s.reversibility.reversalRequests.lookup id) :
    Settled s' (bs ++ new) := by
  apply h.keep hheight hfiled
  · intro id r hr
    rw [hlookup] at hr
    split at hr
    · next heq =>
      cases hr
      exact ⟨request, by rw [heq, lookup], hexpiry⟩
    · exact ⟨r, hr, rfl⟩
  · intro id hid
    rw [← Finmap.lookup_isSome, hlookup]
    split
    · rfl
    · rwa [Finmap.lookup_isSome]

end Votes

theorem Settled.of_filed (h : Settled s bs) (hheight : s.utxo.currentHeight ≤ s'.utxo.currentHeight)
    (hfit : s.utxo.currentHeight ≤ u64Max) {target : Target} {request : ReversalRequest}
    (filed : Filed host s.utxo s.reversibility s'.reversibility target request) :
    Settled s' (bs ++ [.filed request.requestId s.utxo.currentHeight
      s.reversibility.reversalWindow]) := by
  have hlookup : ∀ id, s'.reversibility.reversalRequests.lookup id =
      if id = request.requestId then some request
      else s.reversibility.reversalRequests.lookup id := by
    intro id
    rw [filed.filed]
    exact StorageMap.lookup_insert_eq _ _ _ _
  constructor
  · intro id r hr
    rw [hlookup] at hr
    split at hr
    · next heq =>
      cases hr
      refine ⟨s.utxo.currentHeight, s.reversibility.reversalWindow, List.mem_append_right _ ?_, ?_⟩
      · rw [heq]
        exact List.mem_singleton_self _
      · rw [filed.expiry]
        exact le_min (Nat.le_add_right _ _) hfit
    · obtain ⟨height, window, hmem, hle⟩ := h.filed id r hr
      exact ⟨height, window, List.mem_append_left _ hmem, hle⟩
  · intro id height window hmem
    rw [← Finmap.lookup_isSome, hlookup]
    cases List.mem_append.mp hmem with
    | inl hmem =>
      split
      · exact Or.inl rfl
      · rw [Finmap.lookup_isSome]
        cases h.passed id height window hmem with
        | inl huse => exact Or.inl huse
        | inr hlow => exact Or.inr (hlow.trans_le hheight)
    | inr hmem =>
      cases List.mem_singleton.mp hmem
      rw [if_pos rfl]
      exact Or.inl rfl

/-- A request is cleared past its deadline, so past the height it was filed at. -/
theorem Settled.of_expired (h : Settled s bs)
    (hheight : s.utxo.currentHeight ≤ s'.utxo.currentHeight) (hone : OneHeight bs)
    {requestId : H256} {request : ReversalRequest}
    (lookup : s.reversibility.reversalRequests.lookup requestId = some request)
    (late : request.expiryBlockHeight < s.utxo.currentHeight)
    (requests : s'.reversibility.reversalRequests =
      s.reversibility.reversalRequests.erase requestId) : Settled s' bs where
  filed id r hr := by
    rw [requests, StorageMap.lookup_erase_eq] at hr
    split at hr
    · cases hr
    · exact h.filed id r hr
  passed id height window hmem := by
    rw [requests, Finmap.mem_erase]
    by_cases hid : id = requestId
    · right
      obtain ⟨height', window', hmem', hle⟩ := h.filed requestId request lookup
      rw [hid] at hmem
      rw [hone _ _ _ _ _ hmem hmem']
      exact (hle.trans_lt late).trans_le hheight
    · cases h.passed id height window hmem with
      | inl huse => exact Or.inl ⟨hid, huse⟩
      | inr hlow => exact Or.inr (hlow.trans_le hheight)

theorem Settled.of_governed (h : Settled s bs) (hg : Governed host s s' new)
    (hheight : s.utxo.currentHeight ≤ s'.utxo.currentHeight)
    (hfit : s.utxo.currentHeight ≤ u64Max) (hone : OneHeight bs) : Settled s' (bs ++ new) := by
  cases hg with
  | tuned same =>
    apply h.keep hheight
    · simp
    · intro id r hr
      rw [same.requests] at hr
      exact ⟨r, hr, rfl⟩
    · intro id hid
      rwa [same.requests]
  | filed filed => exact h.of_filed hheight hfit filed
  | counted voting below stored =>
    refine h.of_update hheight ?_ voting.lookup ?_ (lookup_counted stored)
    · simp
    · rfl
  | executed voting reached stored =>
    refine h.of_update hheight ?_ voting.lookup ?_ (lookup_executed stored)
    · simp
    · rfl
  | expired lookup pending late requests votes =>
    rw [List.append_nil]
    exact h.of_expired hheight hone lookup late requests

theorem IdsApart.oneHeight (h : IdsApart host g steps) : OneHeight (ballots host g steps) :=
  fun _ _ _ _ _ hfiled hfiled' => h.height_eq hfiled hfiled'

theorem settled_run (h : IdsApart host g steps) :
    Settled (run host g steps) (ballots host g steps) := by
  induction steps using List.reverseRecOn with
  | nil => exact settled_genesis g
  | append_singleton steps i ih =>
    have hbefore := h.of_prefix (List.prefix_append steps [i])
    rw [run_snoc, ballots_snoc]
    exact (ih hbefore).of_governed (step_governed host _ i) (step_height_le host _ i) hbefore.fits
      hbefore.oneHeight

/-- A request that goes through has an id no request before it had. -/
theorem IdsApart.fresh {i : Step} (h : IdsApart host g (steps ++ [i])) {target : Target}
    {request : ReversalRequest}
    (filed : Filed host (run host g steps).utxo (run host g steps).reversibility
      (step host (run host g steps) i).reversibility target request)
    (hballot : .filed request.requestId (run host g steps).utxo.currentHeight window ∈
      balloted host (run host g steps) i) (height : BlockHeight) (window' : U64) :
    .filed request.requestId height window' ∉ ballots host g steps := by
  intro hmem
  have hsettled := settled_run (h.of_prefix (List.prefix_append steps [i]))
  have hsame : height = (run host g steps).utxo.currentHeight := by
    apply h.oneHeight request.requestId height window' _ window
    · rw [ballots_snoc]
      exact List.mem_append_left _ hmem
    · rw [ballots_snoc]
      exact List.mem_append_right _ hballot
  cases hsettled.passed _ _ _ hmem with
  | inl huse => exact filed.new huse
  | inr hlow => exact hlow.ne hsame

end Qubitcoin.Substrate
