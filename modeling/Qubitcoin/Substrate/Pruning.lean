import Qubitcoin.Substrate.ExpiryPaths
import Qubitcoin.Substrate.Filings
import Qubitcoin.Substrate.LiveReversals

/-! The expiry index.  It lists the ids of requests by the height of their deadline, and pruning
finds the expired ones through it alone. -/

namespace Qubitcoin.Substrate

open Reversibility (ReversalRequest ReversalStatus Target Filed Prune pruneRequest pruneHeight
  countVote approve executed storeVote executeReversal)

/-! ## One call of `prune_expired_reversals` -/

namespace Reversibility

/-- The ids listed at a height. -/
def listedAt (r : Storage) (height : BlockHeight) : List H256 :=
  (r.expiryIndex.value .empty height).val

def cutoff (currentHeight : BlockHeight) (maxAgeBlocks : U64) : BlockHeight :=
  currentHeight - maxAgeBlocks.toNat

/-- The heights that a prune call walks, as long as it has entries left to remove. -/
def scanned (currentHeight : BlockHeight) (maxAgeBlocks : U64) (maxEntries : U32) :
    List BlockHeight :=
  let scanStart := cutoff currentHeight maxAgeBlocks - max (maxEntries.toNat * 4) 1000
  List.range' scanStart (cutoff currentHeight maxAgeBlocks + 1 - scanStart)

/-- From these heights on, with this many entries left to remove, a call drops from the index no
pending request, and no expired one that it does not remove. -/
def Lossless (r : Storage) : Nat → List BlockHeight → Prop
  | _, [] => True
  | budget, height :: heights =>
    budget = 0 ∨
      (∀ id ∈ listedAt r height, ∀ request, r.reversalRequests.lookup id = some request →
        request.status ≠ .pending) ∧
      (∀ id ∈ (listedAt r height).drop budget, id ∉ r.expiredReversals) ∧
      Lossless r (budget - (listedAt r height).length) heights

theorem le_of_mem_range' {start stop n : Nat} (h : n ∈ List.range' start (stop + 1 - start)) :
    n ≤ stop := by
  rw [List.mem_range'_1] at h
  omega

theorem le_cutoff_of_mem_scanned {currentHeight height : BlockHeight} {maxAgeBlocks : U64}
    {maxEntries : U32} (h : height ∈ scanned currentHeight maxAgeBlocks maxEntries) :
    height ≤ cutoff currentHeight maxAgeBlocks :=
  le_of_mem_range' h

/-- A height up to the present is walked by the calls whose cutoff it is. -/
theorem mem_scanned {currentHeight height : BlockHeight} (hle : height ≤ currentHeight)
    (hfit : currentHeight ≤ u64Max) (maxEntries : U32) :
    height ∈ scanned currentHeight (BitVec.ofNat 64 (currentHeight - height)) maxEntries := by
  have hlt : currentHeight - height < 2 ^ 64 := by
    unfold u64Max at hfit
    change currentHeight ≤ 2 ^ 64 - 1 at hfit
    exact (Nat.sub_le _ _).trans_lt (hfit.trans_lt (by decide))
  have hcutoff : cutoff currentHeight (BitVec.ofNat 64 (currentHeight - height)) = height := by
    rw [cutoff, BitVec.toNat_ofNat, Nat.mod_eq_of_lt hlt]
    exact Nat.sub_sub_self hle
  simp only [scanned, hcutoff, List.mem_range'_1]
  omega

theorem foldl_pruneRequest (maxEntries : U32) (ids : List H256) (acc : Prune)
    (hle : acc.pruned ≤ maxEntries.toNat) :
    ids.foldl (pruneRequest maxEntries) acc =
      { acc with
        pruned := min maxEntries.toNat (acc.pruned + ids.length)
        expiredReversals := (ids.take (maxEntries.toNat - acc.pruned)).foldl
          (fun m id => m.erase id) acc.expiredReversals } := by
  induction ids generalizing acc with
  | nil => simp [Nat.min_eq_right hle]
  | cons id ids ih =>
    rw [List.foldl_cons]
    by_cases hfull : maxEntries.toNat ≤ acc.pruned
    · have hsame : pruneRequest maxEntries acc id = acc := by
        rw [pruneRequest, if_pos hfull]
      rw [hsame, ih acc hle]
      have hzero : maxEntries.toNat - acc.pruned = 0 := by omega
      simp only [hzero, List.take_zero, List.length_cons]
      congr 1
      omega
    · have hone : pruneRequest maxEntries acc id =
          { acc with
            pruned := acc.pruned + 1
            expiredReversals := acc.expiredReversals.erase id } := by
        rw [pruneRequest, if_neg hfull]
      rw [hone, ih _ (by simp only; omega)]
      have hsucc : maxEntries.toNat - acc.pruned = (maxEntries.toNat - (acc.pruned + 1)) + 1 := by
        omega
      simp only [hsucc, List.take_succ_cons, List.foldl_cons, List.length_cons]
      congr 1
      omega

/-- The heights a call cleans and the ids it removes: the ids are listed at the heights, and if
the call loses nothing, every expired one of them is removed and none of them is pending. -/
structure Cleaning (r : Storage) (budget : Nat) (heights cleaned : List BlockHeight)
    (gone : List H256) : Prop where
  walked : ∀ height ∈ cleaned, height ∈ heights
  listed : ∀ id ∈ gone, ∃ height ∈ cleaned, id ∈ listedAt r height
  settled : Lossless r budget heights → ∀ height ∈ cleaned, ∀ id ∈ listedAt r height,
    ∀ request, r.reversalRequests.lookup id = some request → request.status ≠ .pending
  complete : Lossless r budget heights → ∀ height ∈ cleaned, ∀ id ∈ listedAt r height,
    id ∈ r.expiredReversals → id ∈ gone

variable {r : Storage} {budget : Nat} {height : BlockHeight} {heights cleaned : List BlockHeight}
  {gone : List H256}

theorem lossless_zero (r : Storage) (heights : List BlockHeight) : Lossless r 0 heights := by
  cases heights with
  | nil => trivial
  | cons height heights => exact Or.inl rfl

theorem Cleaning.skip (h : Cleaning r budget heights cleaned gone)
    (hskip : budget = 0 ∨ listedAt r height = []) :
    Cleaning r budget (height :: heights) cleaned gone := by
  have hlossless : Lossless r budget (height :: heights) → Lossless r budget heights := by
    rintro (hzero | ⟨_, _, hrest⟩)
    · rw [hzero]
      exact lossless_zero r heights
    · cases hskip with
      | inl hzero =>
        rw [hzero]
        exact lossless_zero r heights
      | inr hempty =>
        rw [hempty] at hrest
        exact hrest
  constructor
  · intro height' hmem
    exact List.mem_cons_of_mem _ (h.walked height' hmem)
  · exact h.listed
  · intro hl
    exact h.settled (hlossless hl)
  · intro hl
    exact h.complete (hlossless hl)

theorem Cleaning.cons (h : Cleaning r (budget - (listedAt r height).length) heights cleaned gone)
    (hbudget : budget ≠ 0) :
    Cleaning r budget (height :: heights) (height :: cleaned)
      ((listedAt r height).take budget ++ gone) := by
  constructor
  · intro height' hmem
    rw [List.mem_cons] at hmem ⊢
    exact hmem.imp_right (h.walked height')
  · intro id hmem
    cases List.mem_append.mp hmem with
    | inl hmem => exact ⟨height, List.mem_cons_self, List.mem_of_mem_take hmem⟩
    | inr hmem =>
      obtain ⟨height', hcleaned, hlisted⟩ := h.listed id hmem
      exact ⟨height', List.mem_cons_of_mem _ hcleaned, hlisted⟩
  · rintro (hzero | ⟨hsettled, _, hrest⟩)
    · exact absurd hzero hbudget
    · rw [List.forall_mem_cons]
      exact ⟨hsettled, h.settled hrest⟩
  · rintro (hzero | ⟨_, hdropped, hrest⟩)
    · exact absurd hzero hbudget
    · rw [List.forall_mem_cons]
      constructor
      · intro id hlisted hexpired
        rw [← List.take_append_drop budget (listedAt r height), List.mem_append] at hlisted
        cases hlisted with
        | inl htaken => exact List.mem_append_left _ htaken
        | inr hleft => exact absurd hexpired (hdropped id hleft)
      · intro height' hcleaned id hlisted hexpired
        exact List.mem_append_right _ (h.complete hrest height' hcleaned id hlisted hexpired)

theorem foldl_pruneHeight (r : Storage) (maxEntries : U32) (heights : List BlockHeight)
    (acc : Prune) (hle : acc.pruned ≤ maxEntries.toNat) :
    ∃ cleaned gone, Cleaning r (maxEntries.toNat - acc.pruned) heights cleaned gone ∧
      (heights.foldl (pruneHeight r.expiryIndex maxEntries) acc).expiredReversals =
        gone.foldl (fun m id => m.erase id) acc.expiredReversals ∧
      (heights.foldl (pruneHeight r.expiryIndex maxEntries) acc).blocksToClean =
        acc.blocksToClean ++ cleaned := by
  induction heights generalizing acc with
  | nil =>
    refine ⟨[], [], ?_, rfl, (List.append_nil _).symm⟩
    constructor <;> simp
  | cons height heights ih =>
    rw [List.foldl_cons]
    by_cases hskip : maxEntries.toNat ≤ acc.pruned ∨ listedAt r height = []
    · have hsame : pruneHeight r.expiryIndex maxEntries acc height = acc := by
        unfold pruneHeight
        by_cases hfull : maxEntries.toNat ≤ acc.pruned
        · rw [if_pos hfull]
        · rw [if_neg hfull]
          exact if_pos (hskip.resolve_left hfull)
      rw [hsame]
      obtain ⟨cleaned, gone, hcleaning, hexpired, hclean⟩ := ih acc hle
      refine ⟨cleaned, gone, hcleaning.skip ?_, hexpired, hclean⟩
      exact hskip.imp_left Nat.sub_eq_zero_of_le
    · obtain ⟨hroom, hlisted⟩ := not_or.mp hskip
      have hround : pruneHeight r.expiryIndex maxEntries acc height =
          { pruned := min maxEntries.toNat (acc.pruned + (listedAt r height).length)
            expiredReversals := ((listedAt r height).take (maxEntries.toNat - acc.pruned)).foldl
              (fun m id => m.erase id) acc.expiredReversals
            blocksToClean := acc.blocksToClean ++ [height] } := by
        unfold pruneHeight
        rw [if_neg hroom]
        refine (if_neg hlisted).trans ?_
        simp only [foldl_pruneRequest _ _ _ hle]
        rfl
      have hfits : (pruneHeight r.expiryIndex maxEntries acc height).pruned ≤ maxEntries.toNat := by
        rw [hround]
        exact min_le_left _ _
      obtain ⟨cleaned, gone, hcleaning, hexpired, hclean⟩ := ih _ hfits
      rw [hround] at hcleaning hexpired hclean ⊢
      have hleft : maxEntries.toNat - min maxEntries.toNat
          (acc.pruned + (listedAt r height).length) =
          maxEntries.toNat - acc.pruned - (listedAt r height).length := by
        omega
      rw [hleft] at hcleaning
      refine ⟨height :: cleaned, _, hcleaning.cons (by omega), ?_, ?_⟩
      · rw [hexpired, List.foldl_append]
      · rw [hclean, List.append_assoc]
        rfl

theorem pruneExpiredReversals_eq (currentHeight : BlockHeight) (r : Storage) (maxAgeBlocks : U64)
    (maxEntries : U32) :
    ∃ cleaned gone,
      Cleaning r maxEntries.toNat (scanned currentHeight maxAgeBlocks maxEntries) cleaned gone ∧
      pruneExpiredReversals currentHeight r maxAgeBlocks maxEntries = { r with
        expiredReversals := gone.foldl (fun m id => m.erase id) r.expiredReversals
        expiryIndex := cleaned.foldl (fun m height => m.erase height) r.expiryIndex } := by
  obtain ⟨cleaned, gone, hcleaning, hexpired, hclean⟩ := foldl_pruneHeight r maxEntries
    (scanned currentHeight maxAgeBlocks maxEntries) ⟨0, r.expiredReversals, []⟩ (Nat.zero_le _)
  refine ⟨cleaned, gone, hcleaning, ?_⟩
  change { r with expiredReversals := _, expiryIndex := _ } = _
  rw [List.nil_append] at hclean
  congr 1
  exact congrArg (fun heights : List BlockHeight =>
    heights.foldl (fun m height => m.erase height) r.expiryIndex) hclean

theorem listedAt_indexExpiry (r : Storage) (expiry height : BlockHeight) (id : H256) :
    listedAt (indexExpiry r expiry id) height =
      if height = expiry then
        if (listedAt r expiry).length < maxGovernors then listedAt r expiry ++ [id]
        else listedAt r expiry
      else listedAt r height := by
  unfold listedAt indexExpiry
  split
  · next heq =>
    rw [heq, StorageMap.value_insert]
    unfold BoundedVec.tryPush
    split <;> rfl
  · next hne => rw [StorageMap.value_insert_ne _ _ _ hne]

theorem mem_listedAt_indexExpiry {expiry : BlockHeight} {id id' : H256}
    (h : id' ∈ listedAt (indexExpiry r expiry id) height) :
    id' ∈ listedAt r height ∨ height = expiry ∧ id' = id := by
  rw [listedAt_indexExpiry] at h
  split at h
  · next heq =>
    subst heq
    split at h
    · rw [List.mem_append, List.mem_singleton] at h
      exact h.imp_right fun hid => ⟨rfl, hid⟩
    · exact Or.inl h
  · exact Or.inl h

theorem listedAt_subset_indexExpiry (r : Storage) (expiry height : BlockHeight) (id : H256) :
    listedAt r height ⊆ listedAt (indexExpiry r expiry id) height := by
  rw [listedAt_indexExpiry]
  split
  · next heq =>
    subst heq
    split
    · exact List.subset_append_left _ _
    · exact List.Subset.refl _
  · exact List.Subset.refl _

theorem mem_indexExpiry_self {expiry : BlockHeight} {id : H256}
    (h : (listedAt r expiry).length < maxGovernors) :
    id ∈ listedAt (indexExpiry r expiry id) expiry := by
  rw [listedAt_indexExpiry, if_pos rfl, if_pos h]
  exact List.mem_append_right _ (List.mem_singleton_self _)

theorem listedAt_cleaned {r' : Storage}
    (h : r'.expiryIndex = cleaned.foldl (fun m height => m.erase height) r.expiryIndex)
    (height : BlockHeight) :
    listedAt r' height = if height ∈ cleaned then [] else listedAt r height := by
  unfold listedAt StorageMap.value
  rw [h, StorageMap.lookup_foldl_erase]
  split <;> rfl

end Reversibility

open Reversibility (listedAt cutoff scanned Lossless)

/-! ## The index along a run -/

/-- A request that is open, decided or expired. -/
def Known (r : Reversibility.Storage) (id : H256) (request : ReversalRequest) : Prop :=
  r.reversalRequests.lookup id = some request ∨ r.expiredReversals.lookup id = some request

/-- The step loses no deadline: a submission that goes through finds room in the list of its
deadline, and a prune call is lossless. -/
def IndexKept (host : Host) (s : State) : Step → Prop
  | .extrinsic (.signed _) (.submitReversalRequest targetTxid _ _) =>
    Submittable host s targetTxid →
      (listedAt s.reversibility (Reversibility.expiryHeight s.utxo.currentHeight
        s.reversibility.reversalWindow)).length < Reversibility.maxGovernors
  | .extrinsic .root (.pruneExpiredReversals maxAgeBlocks maxEntries) =>
    Lossless s.reversibility maxEntries.toNat
      (scanned s.utxo.currentHeight maxAgeBlocks maxEntries)
  | _ => True

/-- What a step that meets `kept` does to the requests, the expired ones and the index. -/
inductive Indexed (host : Host) (kept : Prop) (s s' : State) : List Ballot → Prop
  | same (requests : s'.reversibility.reversalRequests = s.reversibility.reversalRequests)
      (expired : s'.reversibility.expiredReversals = s.reversibility.expiredReversals)
      (index : s'.reversibility.expiryIndex = s.reversibility.expiryIndex) : Indexed host kept s s' []
  | filed {target : Target} {request : ReversalRequest}
      (filed : Filed host s.utxo s.reversibility s'.reversibility target request)
      (room : kept → (listedAt s.reversibility request.expiryBlockHeight).length <
        Reversibility.maxGovernors) :
      Indexed host kept s s'
        [.filed request.requestId s.utxo.currentHeight s.reversibility.reversalWindow]
  | voted {requestId : H256} {request request' : ReversalRequest} {bs : List Ballot}
      (lookup : s.reversibility.reversalRequests.lookup requestId = some request)
      (pending : request.status = .pending)
      (deadline : request'.expiryBlockHeight = request.expiryBlockHeight)
      (requests : ∀ id, s'.reversibility.reversalRequests.lookup id =
        if id = requestId then some request' else s.reversibility.reversalRequests.lookup id)
      (expired : s'.reversibility.expiredReversals = s.reversibility.expiredReversals)
      (index : s'.reversibility.expiryIndex = s.reversibility.expiryIndex) :
      Indexed host kept s s' bs
  | expired {requestId : H256} {request : ReversalRequest}
      (lookup : s.reversibility.reversalRequests.lookup requestId = some request)
      (pending : request.status = .pending)
      (late : request.expiryBlockHeight < s.utxo.currentHeight)
      (requests : s'.reversibility.reversalRequests =
        s.reversibility.reversalRequests.erase requestId)
      (expired : s'.reversibility.expiredReversals =
        s.reversibility.expiredReversals.insert requestId { request with status := .expired })
      (index : s'.reversibility.expiryIndex = s.reversibility.expiryIndex) :
      Indexed host kept s s' []
  | pruned {maxAgeBlocks : U64} {maxEntries : U32}
      (lossless : kept → Lossless s.reversibility maxEntries.toNat
        (scanned s.utxo.currentHeight maxAgeBlocks maxEntries))
      (stored : s'.reversibility = Reversibility.pruneExpiredReversals s.utxo.currentHeight
        s.reversibility maxAgeBlocks maxEntries) : Indexed host kept s s' []

variable {host : Host} {g : GenesisConfig} {kept : Prop} {s s' : State} {bs new : List Ballot}
  {steps : List Step} {id : H256} {height : BlockHeight}

theorem executeReversal_expiredReversals (host : Host) (utxos : Utxo.Storage)
    (r : Reversibility.Storage) (requestId : H256) (request : ReversalRequest) :
    (executeReversal host utxos r requestId request).2.expiredReversals = r.expiredReversals := by
  simp only [executeReversal, Reversibility.markExecuted]
  split <;> rfl

theorem executeReversal_expiryIndex (host : Host) (utxos : Utxo.Storage)
    (r : Reversibility.Storage) (requestId : H256) (request : ReversalRequest) :
    (executeReversal host utxos r requestId request).2.expiryIndex = r.expiryIndex := by
  simp only [executeReversal, Reversibility.markExecuted]
  split <;> rfl

theorem Indexed.of_approval {a : AccountId} {requestId : H256} {u : Utxo.Storage}
    {r : Reversibility.Storage}
    (h : Reversibility.approveReversal host s.utxo s.reversibility a requestId = .ok (u, r)) :
    Indexed host kept s { s with utxo := u, reversibility := r }
      (Call.ballots host s (.signed a) (.approveReversal requestId)) := by
  obtain ⟨vote, hvote, h⟩ := Checked.bind_eq_ok.mp h
  have hsettled : (Reversibility.settle host s.utxo requestId vote).2 = r :=
    congrArg Prod.snd (Except.ok.inj h)
  simp only [Call.ballots, voteOf_signed hvote]
  obtain ⟨request, hlookup, hpending, hlate, rfl⟩ | ⟨request, votes, hvoting, hbelow, rfl⟩ |
    ⟨request, votes, hvoting, hreached, rfl⟩ := Reversibility.castVote_ok hvote
  · rw [← hsettled]
    exact .expired hlookup hpending hlate rfl rfl rfl
  · rw [← hsettled]
    have hdeadline : (countVote request).expiryBlockHeight = request.expiryBlockHeight := rfl
    exact .voted hvoting.lookup hvoting.pending hdeadline (lookup_counted rfl) rfl rfl
  · rw [← hsettled]
    have hdeadline : (executed (approve (countVote request))).expiryBlockHeight =
        request.expiryBlockHeight := rfl
    refine .voted hvoting.lookup hvoting.pending hdeadline (lookup_executed rfl) ?_ ?_
    · exact executeReversal_expiredReversals _ _ _ _ _
    · exact executeReversal_expiryIndex _ _ _ _ _

theorem step_indexed (host : Host) (s : State) (i : Step) :
    Indexed host (IndexKept host s i) s (step host s i) (balloted host s i) := by
  apply step_cases (P := fun i s' => Indexed host (IndexKept host s i) s s' (balloted host s i))
  · intro origin call s' heq h
    simp only [balloted, heq]
    cases h with
    | submitReversalRequest h =>
      obtain ⟨target, request, htarget, hfiled⟩ := Reversibility.submitReversalRequest_ok h
      have hsubmittable := submitReversalRequest_eq_ok.mp ⟨_, h⟩
      simp only [Call.ballots]
      rw [← htarget, ← hfiled.requestId]
      refine .filed hfiled ?_
      intro hkept
      rw [hfiled.expiry]
      rw [← htarget] at hsubmittable
      exact hkept hsubmittable
    | approveReversal h => exact .of_approval h
    | addGovernor h =>
      obtain ⟨governors, _, _, rfl⟩ := Reversibility.addGovernor_ok h
      exact .same rfl rfl rfl
    | removeGovernor h =>
      obtain ⟨_, rfl⟩ := Reversibility.removeGovernor_ok h
      exact .same rfl rfl rfl
    | setApprovalThreshold h =>
      obtain ⟨_, _, rfl⟩ := Reversibility.setApprovalThreshold_ok h
      exact .same rfl rfl rfl
    | expireRequest h =>
      obtain ⟨request, hlookup, hpending, hlate, rfl⟩ := Reversibility.expireRequest_ok h
      exact .expired hlookup hpending hlate rfl rfl rfl
    | pruneExpiredReversals => exact .pruned (fun hkept => hkept) rfl
    | _ => exact .same rfl rfl rfl
  · intro origin call e heq
    simp only [balloted, heq]
    exact .same rfl rfl rfl
  · intro parentHash now
    exact .same rfl rfl rfl
  · exact .same rfl rfl rfl

/-- Ids in the index and in the stores were filed, and a listed one is listed at its deadline. -/
structure IndexSound (s : State) (bs : List Ballot) : Prop where
  listed : ∀ height id, id ∈ listedAt s.reversibility height →
    ∃ filedAt window, .filed id filedAt window ∈ bs
  known : ∀ id request, Known s.reversibility id request →
    ∃ filedAt window, .filed id filedAt window ∈ bs
  deadline : ∀ height id request, id ∈ listedAt s.reversibility height →
    Known s.reversibility id request → request.expiryBlockHeight = height

theorem indexSound_genesis (g : GenesisConfig) : IndexSound g.build [] where
  listed height id h := by
    have hempty : listedAt g.build.reversibility height = [] := rfl
    rw [hempty] at h
    cases h
  known id request h := by
    cases h with
    | inl h => cases h
    | inr h => cases h
  deadline height id request h := by
    have hempty : listedAt g.build.reversibility height = [] := rfl
    rw [hempty] at h
    cases h

/-- A step that lists nothing and keeps the deadlines. -/
theorem IndexSound.keep (h : IndexSound s bs)
    (hlisted : ∀ height, listedAt s'.reversibility height ⊆ listedAt s.reversibility height)
    (hknown : ∀ id request', Known s'.reversibility id request' → ∃ request,
      Known s.reversibility id request ∧ request'.expiryBlockHeight = request.expiryBlockHeight) :
    IndexSound s' (bs ++ new) where
  listed height id hmem := by
    obtain ⟨filedAt, window, hfiled⟩ := h.listed height id (hlisted height hmem)
    exact ⟨filedAt, window, List.mem_append_left _ hfiled⟩
  known id request' hk := by
    obtain ⟨request, hbefore, _⟩ := hknown id request' hk
    obtain ⟨filedAt, window, hfiled⟩ := h.known id request hbefore
    exact ⟨filedAt, window, List.mem_append_left _ hfiled⟩
  deadline height id request' hmem hk := by
    obtain ⟨request, hbefore, hsame⟩ := hknown id request' hk
    rw [hsame]
    exact h.deadline height id request (hlisted height hmem) hbefore

theorem listedAt_congr {r r' : Reversibility.Storage} (h : r'.expiryIndex = r.expiryIndex)
    (height : BlockHeight) : listedAt r' height = listedAt r height := by
  unfold listedAt
  rw [h]

theorem IndexSound.of_filed (h : IndexSound s bs) {target : Target} {request : ReversalRequest}
    (filed : Filed host s.utxo s.reversibility s'.reversibility target request)
    (hfresh : ∀ filedAt window, .filed request.requestId filedAt window ∉ bs) :
    IndexSound s' (bs ++ [.filed request.requestId s.utxo.currentHeight
      s.reversibility.reversalWindow]) := by
  have hnotListed : ∀ height, request.requestId ∉ listedAt s.reversibility height := by
    intro height hmem
    obtain ⟨filedAt, window, hfiled⟩ := h.listed height _ hmem
    exact hfresh filedAt window hfiled
  have hlisted : ∀ {height id}, id ∈ listedAt s'.reversibility height →
      id ∈ listedAt s.reversibility height ∨
        height = request.expiryBlockHeight ∧ id = request.requestId := by
    intro height id hmem
    rw [filed.filed] at hmem
    exact Reversibility.mem_listedAt_indexExpiry hmem
  have hknown : ∀ {id other}, Known s'.reversibility id other →
      Known s.reversibility id other ∨ id = request.requestId ∧ other = request := by
    intro id other hk
    rw [Known, lookup_filed filed, filed.filed] at hk
    cases hk with
    | inl hstored =>
      split at hstored
      · next heq => exact Or.inr ⟨heq, (Option.some.inj hstored).symm⟩
      · exact Or.inl (Or.inl hstored)
    | inr hexpired => exact Or.inl (Or.inr hexpired)
  constructor
  · intro height id hmem
    cases hlisted hmem with
    | inl hold =>
      obtain ⟨filedAt, window, hfiled⟩ := h.listed height id hold
      exact ⟨filedAt, window, List.mem_append_left _ hfiled⟩
    | inr hnew =>
      rw [hnew.2]
      exact ⟨_, _, List.mem_append_right _ (List.mem_singleton_self _)⟩
  · intro id other hk
    cases hknown hk with
    | inl hold =>
      obtain ⟨filedAt, window, hfiled⟩ := h.known id other hold
      exact ⟨filedAt, window, List.mem_append_left _ hfiled⟩
    | inr hnew =>
      rw [hnew.1]
      exact ⟨_, _, List.mem_append_right _ (List.mem_singleton_self _)⟩
  · intro height id other hmem hk
    cases hlisted hmem with
    | inl hold =>
      cases hknown hk with
      | inl hkOld => exact h.deadline height id other hold hkOld
      | inr hkNew => exact absurd (hkNew.1 ▸ hold) (hnotListed height)
    | inr hnew =>
      cases hknown hk with
      | inl hkOld =>
        obtain ⟨filedAt, window, hfiled⟩ := h.known id other hkOld
        exact absurd (hnew.2 ▸ hfiled) (hfresh filedAt window)
      | inr hkNew => rw [hkNew.2, hnew.1]

theorem IndexSound.of_indexed (h : IndexSound s bs) (hstep : Indexed host kept s s' new)
    (hfresh : ∀ id filedAt window, .filed id filedAt window ∈ new →
      ∀ filedAt' window', .filed id filedAt' window' ∉ bs) : IndexSound s' (bs ++ new) := by
  cases hstep with
  | same requests expired index =>
    apply h.keep
    · intro height
      rw [listedAt_congr index]
      exact List.Subset.refl _
    · intro id request hk
      rw [Known, requests, expired] at hk
      exact ⟨request, hk, rfl⟩
  | filed filed room =>
    exact h.of_filed filed (hfresh _ _ _ (List.mem_singleton_self _))
  | @voted requestId request request' bs' lookup pending deadline requests expired index =>
    apply h.keep
    · intro height
      rw [listedAt_congr index]
      exact List.Subset.refl _
    · intro id other hk
      rw [Known, requests, expired] at hk
      split at hk
      · next heq =>
        cases hk with
        | inl hstored =>
          cases hstored
          exact ⟨request, Or.inl (heq ▸ lookup), deadline⟩
        | inr hexpired => exact ⟨other, Or.inr hexpired, rfl⟩
      · exact ⟨other, hk, rfl⟩
  | @expired requestId request lookup pending late requests expired index =>
    apply h.keep
    · intro height
      rw [listedAt_congr index]
      exact List.Subset.refl _
    · intro id other hk
      rw [Known, requests, expired, StorageMap.lookup_erase_eq, StorageMap.lookup_insert_eq] at hk
      by_cases heq : id = requestId
      · rw [if_pos heq, if_pos heq] at hk
        cases hk with
        | inl hstored => cases hstored
        | inr hexpired =>
          cases hexpired
          exact ⟨request, Or.inl (heq ▸ lookup), rfl⟩
      · rw [if_neg heq, if_neg heq] at hk
        exact ⟨other, hk, rfl⟩
  | @pruned maxAgeBlocks maxEntries lossless stored =>
    obtain ⟨cleaned, gone, _, hpruned⟩ := Reversibility.pruneExpiredReversals_eq
      s.utxo.currentHeight s.reversibility maxAgeBlocks maxEntries
    rw [hpruned] at stored
    apply h.keep
    · intro height
      rw [Reversibility.listedAt_cleaned (by rw [stored])]
      split
      · exact List.nil_subset _
      · exact List.Subset.refl _
    · intro id other hk
      rw [stored, Known, StorageMap.lookup_foldl_erase] at hk
      cases hk with
      | inl hstored => exact ⟨other, Or.inl hstored, rfl⟩
      | inr hexpired =>
        split at hexpired
        · cases hexpired
        · exact ⟨other, Or.inr hexpired, rfl⟩

/-- The pending and the expired requests are listed at their deadlines; the latter's have
passed. -/
structure Listed (s : State) : Prop where
  pending : ∀ id request, s.reversibility.reversalRequests.lookup id = some request →
    request.status = .pending → id ∈ listedAt s.reversibility request.expiryBlockHeight
  expired : ∀ id request, s.reversibility.expiredReversals.lookup id = some request →
    id ∈ listedAt s.reversibility request.expiryBlockHeight
  late : ∀ id request, s.reversibility.expiredReversals.lookup id = some request →
    request.expiryBlockHeight < s.utxo.currentHeight

theorem listed_genesis (g : GenesisConfig) : Listed g.build where
  pending id request h := by cases h
  expired id request h := by cases h
  late id request h := by cases h

/-- A step that keeps the index and the deadlines. -/
theorem Listed.keep (h : Listed s) (hheight : s.utxo.currentHeight ≤ s'.utxo.currentHeight)
    (hindex : ∀ height, listedAt s.reversibility height ⊆ listedAt s'.reversibility height)
    (hpending : ∀ id request', s'.reversibility.reversalRequests.lookup id = some request' →
      request'.status = .pending →
      id ∈ listedAt s'.reversibility request'.expiryBlockHeight ∨
        ∃ request, s.reversibility.reversalRequests.lookup id = some request ∧
          request.status = .pending ∧ request'.expiryBlockHeight = request.expiryBlockHeight)
    (hexpired : ∀ id request', s'.reversibility.expiredReversals.lookup id = some request' →
      s.reversibility.expiredReversals.lookup id = some request' ∨
        ∃ request, s.reversibility.reversalRequests.lookup id = some request ∧
          request.status = .pending ∧ request'.expiryBlockHeight = request.expiryBlockHeight ∧
          request.expiryBlockHeight < s.utxo.currentHeight) : Listed s' where
  pending id request' hlookup hstatus := by
    cases hpending id request' hlookup hstatus with
    | inl hlisted => exact hlisted
    | inr hbefore =>
      obtain ⟨request, hlookup, hstatus, hsame⟩ := hbefore
      rw [hsame]
      exact hindex _ (h.pending id request hlookup hstatus)
  expired id request' hlookup := by
    cases hexpired id request' hlookup with
    | inl hbefore => exact hindex _ (h.expired id request' hbefore)
    | inr hbefore =>
      obtain ⟨request, hlookup, hstatus, hsame, _⟩ := hbefore
      rw [hsame]
      exact hindex _ (h.pending id request hlookup hstatus)
  late id request' hlookup := by
    cases hexpired id request' hlookup with
    | inl hbefore => exact (h.late id request' hbefore).trans_le hheight
    | inr hbefore =>
      obtain ⟨request, _, _, hsame, hlate⟩ := hbefore
      rw [hsame]
      exact hlate.trans_le hheight

theorem Listed.of_filed (h : Listed s) (hheight : s.utxo.currentHeight ≤ s'.utxo.currentHeight)
    {target : Target} {request : ReversalRequest}
    (filed : Filed host s.utxo s.reversibility s'.reversibility target request)
    (hroom : (listedAt s.reversibility request.expiryBlockHeight).length <
      Reversibility.maxGovernors) : Listed s' := by
  apply h.keep hheight
  · intro height
    rw [filed.filed]
    exact Reversibility.listedAt_subset_indexExpiry _ _ _ _
  · intro id other hlookup hpending
    rw [lookup_filed filed] at hlookup
    split at hlookup
    · next heq =>
      cases hlookup
      rw [heq, filed.filed]
      exact Or.inl (Reversibility.mem_indexExpiry_self hroom)
    · exact Or.inr ⟨other, hlookup, hpending, rfl⟩
  · intro id other hlookup
    rw [filed.filed] at hlookup
    exact Or.inl hlookup

theorem Listed.of_pruned (h : Listed s) (hheight : s.utxo.currentHeight ≤ s'.utxo.currentHeight)
    {maxAgeBlocks : U64} {maxEntries : U32}
    (hlossless : Lossless s.reversibility maxEntries.toNat
      (scanned s.utxo.currentHeight maxAgeBlocks maxEntries))
    (stored : s'.reversibility = Reversibility.pruneExpiredReversals s.utxo.currentHeight
      s.reversibility maxAgeBlocks maxEntries) : Listed s' := by
  obtain ⟨cleaned, gone, hcleaning, hpruned⟩ := Reversibility.pruneExpiredReversals_eq
    s.utxo.currentHeight s.reversibility maxAgeBlocks maxEntries
  rw [hpruned] at stored
  have hlisted : ∀ height, listedAt s'.reversibility height =
      if height ∈ cleaned then [] else listedAt s.reversibility height :=
    Reversibility.listedAt_cleaned (by rw [stored])
  have hexpired : ∀ {id other}, s'.reversibility.expiredReversals.lookup id = some other →
      id ∉ gone ∧ s.reversibility.expiredReversals.lookup id = some other := by
    intro id other hlookup
    rw [stored, StorageMap.lookup_foldl_erase] at hlookup
    split at hlookup
    · cases hlookup
    · next hmem => exact ⟨hmem, hlookup⟩
  constructor
  · intro id other hlookup hpending
    rw [stored] at hlookup
    have hbefore := h.pending id other hlookup hpending
    rw [hlisted, if_neg]
    · exact hbefore
    · intro hcleaned
      exact hcleaning.settled hlossless _ hcleaned id hbefore other hlookup hpending
  · intro id other hlookup
    obtain ⟨hkeep, hlookup⟩ := hexpired hlookup
    have hbefore := h.expired id other hlookup
    rw [hlisted, if_neg]
    · exact hbefore
    · intro hcleaned
      apply hkeep
      apply hcleaning.complete hlossless _ hcleaned id hbefore
      rw [← Finmap.lookup_isSome, hlookup]
      rfl
  · intro id other hlookup
    exact (h.late id other (hexpired hlookup).2).trans_le hheight

theorem Listed.of_indexed (h : Listed s) (hstep : Indexed host kept s s' new) (hkept : kept)
    (hheight : s.utxo.currentHeight ≤ s'.utxo.currentHeight) : Listed s' := by
  have hkeep : s'.reversibility.expiryIndex = s.reversibility.expiryIndex →
      ∀ height, listedAt s.reversibility height ⊆ listedAt s'.reversibility height := by
    intro index height
    rw [listedAt_congr index]
    exact List.Subset.refl _
  cases hstep with
  | same requests expired index =>
    apply h.keep hheight (hkeep index)
    · intro id request hlookup hpending
      rw [requests] at hlookup
      exact Or.inr ⟨request, hlookup, hpending, rfl⟩
    · intro id request hlookup
      rw [expired] at hlookup
      exact Or.inl hlookup
  | filed filed room => exact h.of_filed hheight filed (room hkept)
  | @voted requestId request request' bs' lookup pending deadline requests expired index =>
    apply h.keep hheight (hkeep index)
    · intro id other hlookup hpending
      rw [requests] at hlookup
      split at hlookup
      · next heq =>
        cases hlookup
        exact Or.inr ⟨request, heq ▸ lookup, pending, deadline⟩
      · exact Or.inr ⟨other, hlookup, hpending, rfl⟩
    · intro id other hlookup
      rw [expired] at hlookup
      exact Or.inl hlookup
  | @expired requestId request lookup pending late requests expired index =>
    apply h.keep hheight (hkeep index)
    · intro id other hlookup hpending
      rw [requests, StorageMap.lookup_erase_eq] at hlookup
      split at hlookup
      · cases hlookup
      · exact Or.inr ⟨other, hlookup, hpending, rfl⟩
    · intro id other hlookup
      rw [expired, StorageMap.lookup_insert_eq] at hlookup
      split at hlookup
      · next heq =>
        cases hlookup
        exact Or.inr ⟨request, heq ▸ lookup, pending, rfl, late⟩
      · exact Or.inl hlookup
  | pruned lossless stored => exact h.of_pruned hheight (lossless hkept) stored

/-- Every expired request is listed at a height that prune calls walk. -/
def Prunable (s : State) : Prop :=
  ∀ id ∈ s.reversibility.expiredReversals, ∃ height, id ∈ listedAt s.reversibility height ∧
    ∀ maxEntries, ∃ maxAgeBlocks, height ∈ scanned s.utxo.currentHeight maxAgeBlocks maxEntries

/-- A prune call removes only requests with a deadline up to its cutoff. -/
def PrunesOld (s : State) : Prop :=
  ∀ maxAgeBlocks maxEntries id request,
    s.reversibility.expiredReversals.lookup id = some request →
    id ∉ (Reversibility.pruneExpiredReversals s.utxo.currentHeight s.reversibility maxAgeBlocks
      maxEntries).expiredReversals →
    request.expiryBlockHeight ≤ cutoff s.utxo.currentHeight maxAgeBlocks

theorem Listed.prunable (h : Listed s) (hfit : s.utxo.currentHeight ≤ u64Max) : Prunable s := by
  intro id hid
  obtain ⟨request, hlookup⟩ := Option.isSome_iff_exists.mp (Finmap.lookup_isSome.mpr hid)
  refine ⟨request.expiryBlockHeight, h.expired id request hlookup, ?_⟩
  intro maxEntries
  exact ⟨_, Reversibility.mem_scanned (h.late id request hlookup).le hfit maxEntries⟩

/-- An expired request that its deadline does not list is listed nowhere. -/
theorem IndexSound.not_prunable (h : IndexSound s bs) {request : ReversalRequest}
    (hlookup : s.reversibility.expiredReversals.lookup id = some request)
    (hunlisted : id ∉ listedAt s.reversibility request.expiryBlockHeight) : ¬Prunable s := by
  intro hprunable
  have hid : id ∈ s.reversibility.expiredReversals := by
    rw [← Finmap.lookup_isSome, hlookup]
    rfl
  obtain ⟨height, hlisted, _⟩ := hprunable id hid
  apply hunlisted
  rw [h.deadline height id request hlisted (Or.inr hlookup)]
  exact hlisted

theorem IndexSound.prunesOld (h : IndexSound s bs) : PrunesOld s := by
  intro maxAgeBlocks maxEntries id request hlookup hgone
  obtain ⟨cleaned, gone, hcleaning, hpruned⟩ := Reversibility.pruneExpiredReversals_eq
    s.utxo.currentHeight s.reversibility maxAgeBlocks maxEntries
  have hmem : id ∈ gone := by
    by_contra hkept
    apply hgone
    rw [hpruned, ← Finmap.lookup_isSome, StorageMap.lookup_foldl_erase, if_neg hkept, hlookup]
    rfl
  obtain ⟨height, hcleaned, hlisted⟩ := hcleaning.listed id hmem
  rw [h.deadline height id request hlisted (Or.inr hlookup)]
  exact Reversibility.le_cutoff_of_mem_scanned (hcleaning.walked height hcleaned)

theorem indexSound_run (h : IdsApart host g steps) :
    IndexSound (run host g steps) (ballots host g steps) := by
  induction steps using List.reverseRecOn with
  | nil => exact indexSound_genesis g
  | append_singleton steps i ih =>
    have hindexed := step_indexed host (run host g steps) i
    rw [run_snoc, ballots_snoc]
    apply (ih (h.of_prefix (List.prefix_append steps [i]))).of_indexed hindexed
    intro id filedAt window hmem
    have hgoverned := step_governed host (run host g steps) i
    generalize hnew : balloted host (run host g steps) i = new at hgoverned hmem
    cases hgoverned with
    | filed filed =>
      cases List.mem_singleton.mp hmem
      rw [← hnew] at hmem
      exact h.fresh filed hmem
    | _ => simp at hmem

theorem listed_run (hkept : ∀ before i, before ++ [i] <+: steps →
    IndexKept host (run host g before) i) {before : List Step} (hle : before <+: steps) :
    Listed (run host g before) := by
  refine Machine.run_guarded (P := Listed) (G := IndexKept host) ?_ (listed_genesis g) hkept hle
  intro s i hlisted hkept
  exact hlisted.of_indexed (step_indexed host s i) hkept (step_height_le host s i)

/-- In a run that keeps the index, every expired request can be pruned at every time, and only
old requests are. -/
theorem expired_stay_prunable (host : Host) (g : GenesisConfig) (steps : List Step)
    (hids : IdsApart host g steps)
    (hkept : ∀ before i, before ++ [i] <+: steps → IndexKept host (run host g before) i)
    (before : List Step) (hle : before <+: steps) :
    Prunable (run host g before) ∧ PrunesOld (run host g before) := by
  have hbefore := hids.of_prefix hle
  exact ⟨(listed_run hkept hle).prunable hbefore.fits, (indexSound_run hbefore).prunesOld⟩

namespace Sample

def expireSecond : Step := .extrinsic (.signed carol) (.expireRequest secondId)

/-- The second request expires. -/
def expiredSteps : List Step :=
  requestAgain ++ [.extrinsic mineFirst.1 mineFirst.2, expireSecond]

/-- Root prunes after the deadline of the second request, which is still pending. -/
def prunedEarly : List Step :=
  requestAgain ++ [.extrinsic mineFirst.1 mineFirst.2,
    .extrinsic .root (.pruneExpiredReversals 0 10), expireSecond]

end Sample

theorem expired_stay_prunable_sample :
    Prunable (run Sample.overdueHost Sample.pairGenesis Sample.expiredSteps) := by
  refine (expired_stay_prunable Sample.overdueHost Sample.pairGenesis Sample.expiredSteps
    (by decide +kernel) ?_ Sample.expiredSteps (List.prefix_refl _)).1
  simp only [Sample.expiredSteps, Sample.requestAgain, List.cons_append, List.nil_append,
    Machine.forall_before_cons, Machine.forall_before_nil, Sample.request, Sample.approvalBy,
    Sample.mineFirst, Sample.expireSecond, IndexKept, true_and, and_true]
  constructor
  · intro _
    decide +kernel
  · intro _
    decide +kernel

/-- The prune call has dropped the second request from the index, and when it expires no prune
call can find it. -/
theorem expired_unlisted :
    ¬Prunable (run Sample.overdueHost Sample.pairGenesis Sample.prunedEarly) := by
  have hfound : ((run Sample.overdueHost Sample.pairGenesis
      Sample.prunedEarly).reversibility.expiredReversals.lookup Sample.secondId).any
        (fun request => request.expiryBlockHeight = 80005) := by
    decide +kernel
  obtain ⟨request, hlookup, hrequest⟩ := (Option.any_eq_true _ _).mp hfound
  apply (indexSound_run (by decide +kernel)).not_prunable hlookup
  rw [of_decide_eq_true hrequest]
  decide +kernel

end Qubitcoin.Substrate
