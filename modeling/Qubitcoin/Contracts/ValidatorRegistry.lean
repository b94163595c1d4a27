import Qubitcoin.Evm.Words
import Qubitcoin.Library.Solidity

/-! The registry of the Proof-of-Thought validators. -/

namespace Qubitcoin.Contracts

open Solidity Checked
open Evm (Address)

structure Validator where
  addr : Address := 0
  stakeAmount : Nat := 0
  stakedAt : Nat := 0
  unstakeRequestedAt : Nat := 0
  correctVotes : Nat := 0
  incorrectVotes : Nat := 0
  active : Bool := false
  deriving DecidableEq

structure ValidatorRegistry where
  owner : Address
  kernel : Address
  validators : StorageMap Address Validator := ∅
  validatorList : List Address := []
  validatorListIndex : StorageMap Address Nat := ∅
  activeValidatorCount : Nat := 0
  totalStaked : Nat := 0

namespace ValidatorRegistry

def minStake : Nat := 100 * 10 ^ 8
def maxStake : Nat := 1000000 * 10 ^ 8
def unstakingDelay : Nat := 7 * 86400

def initial (sender kernel : Address) : ValidatorRegistry where
  owner := sender
  kernel := kernel

variable (self : ValidatorRegistry)

def validator (a : Address) : Validator := self.validators.value {} a

def index (a : Address) : Nat := self.validatorListIndex.value 0 a

def setValidator (a : Address) (v : Validator) : ValidatorRegistry :=
  { self with validators := self.validators.insert a v }

def onlyKernel (sender : Address) : Except String Unit :=
  ensure (sender = self.kernel ∨ sender = self.owner) "VReg: not authorized"

def stake (sender a : Address) (amount timestamp : Nat) : Except String ValidatorRegistry := do
  self.onlyKernel sender
  ensure (minStake ≤ amount) "VReg: below minimum (100 QBC)"
  let stakeAmount ← add (self.validator a).stakeAmount amount
  ensure (stakeAmount ≤ maxStake) "VReg: exceeds max stake (1M QBC)"
  let staked ←
    if (self.validator a).active = false then do
      let activeValidatorCount ← add self.activeValidatorCount 1
      .ok { self.setValidator a
              { addr := a, stakeAmount := amount, stakedAt := timestamp, active := true } with
            validatorListIndex := self.validatorListIndex.insert a self.validatorList.length
            validatorList := self.validatorList ++ [a]
            activeValidatorCount := activeValidatorCount }
    else
      .ok (self.setValidator a { self.validator a with stakeAmount := stakeAmount })
  let totalStaked ← add staked.totalStaked amount
  .ok { staked with totalStaked := totalStaked }

def requestUnstake (sender a : Address) (timestamp : Nat) : Except String ValidatorRegistry := do
  self.onlyKernel sender
  ensure ((self.validator a).active = true) "VReg: not active"
  ensure ((self.validator a).unstakeRequestedAt = 0) "VReg: already unstaking"
  .ok (self.setValidator a { self.validator a with unstakeRequestedAt := timestamp })

/-- `_removeFromList`, by swap and pop. -/
def removeFromList (a : Address) : Except String ValidatorRegistry := do
  let lastIndex ← sub self.validatorList.length 1
  let lastValidator ← (self.validatorList[lastIndex]?).okOr "Panic(0x32)"
  ensure (self.index a = lastIndex ∨ self.index a < self.validatorList.length) "Panic(0x32)"
  let swapped :=
    if self.index a ≠ lastIndex then
      { self with
        validatorList := self.validatorList.set (self.index a) lastValidator
        validatorListIndex := self.validatorListIndex.insert lastValidator (self.index a) }
    else self
  .ok { swapped with
    validatorList := swapped.validatorList.dropLast
    validatorListIndex := swapped.validatorListIndex.erase a }

def completeUnstake (sender a : Address) (timestamp : Nat) : Except String ValidatorRegistry := do
  self.onlyKernel sender
  ensure (0 < (self.validator a).unstakeRequestedAt) "VReg: not unstaking"
  let unlockTime ← add (self.validator a).unstakeRequestedAt unstakingDelay
  ensure (unlockTime ≤ timestamp) "VReg: delay not met"
  let totalStaked ← sub self.totalStaked (self.validator a).stakeAmount
  let activeValidatorCount ← sub self.activeValidatorCount 1
  let unstaked := self.setValidator a
    { self.validator a with active := false, stakeAmount := 0, unstakeRequestedAt := 0 }
  removeFromList
    { unstaked with totalStaked := totalStaked, activeValidatorCount := activeValidatorCount } a

def slash (sender a : Address) (amount : Nat) : Except String ValidatorRegistry := do
  self.onlyKernel sender
  ensure ((self.validator a).active = true) "VReg: not active"
  let actualSlash :=
    if (self.validator a).stakeAmount < amount then (self.validator a).stakeAmount else amount
  let stakeAmount ← sub (self.validator a).stakeAmount actualSlash
  let totalStaked ← sub self.totalStaked actualSlash
  if stakeAmount < minStake then do
    let activeValidatorCount ← sub self.activeValidatorCount 1
    let slashed := self.setValidator a
      { self.validator a with stakeAmount := stakeAmount, active := false }
    removeFromList
      { slashed with totalStaked := totalStaked, activeValidatorCount := activeValidatorCount } a
  else
    .ok { self.setValidator a { self.validator a with stakeAmount := stakeAmount } with
      totalStaked := totalStaked }

def recordVote (sender a : Address) (correct : Bool) : Except String ValidatorRegistry := do
  self.onlyKernel sender
  if correct then do
    let correctVotes ← add (self.validator a).correctVotes 1
    .ok (self.setValidator a { self.validator a with correctVotes := correctVotes })
  else do
    let incorrectVotes ← add (self.validator a).incorrectVotes 1
    .ok (self.setValidator a { self.validator a with incorrectVotes := incorrectVotes })

inductive Call
  | stake (sender a : Address) (amount timestamp : Nat)
  | requestUnstake (sender a : Address) (timestamp : Nat)
  | completeUnstake (sender a : Address) (timestamp : Nat)
  | slash (sender a : Address) (amount : Nat)
  | recordVote (sender a : Address) (correct : Bool)

def call (self : ValidatorRegistry) : Call → Except String ValidatorRegistry
  | .stake sender a amount timestamp => self.stake sender a amount timestamp
  | .requestUnstake sender a timestamp => self.requestUnstake sender a timestamp
  | .completeUnstake sender a timestamp => self.completeUnstake sender a timestamp
  | .slash sender a amount => self.slash sender a amount
  | .recordVote sender a correct => self.recordVote sender a correct

/-- The list holds the active validators, each once and where the index says, and the two
totals count what they name. -/
structure Consistent (s : ValidatorRegistry) : Prop where
  once : s.validatorList.Nodup
  listed : ∀ a, a ∈ s.validatorList ↔ (s.validator a).active = true
  indexed : ∀ i a, s.validatorList[i]? = some a → s.index a = i
  count : s.activeValidatorCount = s.validatorList.length
  staked : s.totalStaked = s.validators.weigh fun _ v => v.stakeAmount

variable {self} {s t : ValidatorRegistry} {sender a b : Address} {v : Validator}

@[simp] theorem validator_setValidator :
    (s.setValidator a v).validator b = if b = a then v else s.validator b :=
  StorageMap.value_insert_eq _ _ _ _ _

theorem weigh_setValidator (s : ValidatorRegistry) (a : Address) (v : Validator) :
    ((s.setValidator a v).validators.weigh fun _ v => v.stakeAmount) +
        (s.validator a).stakeAmount =
      (s.validators.weigh fun _ v => v.stakeAmount) + v.stakeAmount :=
  s.validators.weigh_replace _ v rfl

theorem initial_consistent (sender kernel : Address) : (initial sender kernel).Consistent where
  once := List.nodup_nil
  listed a := by simp [initial, validator]
  indexed i a h := by simp [initial] at h
  count := rfl
  staked := rfl

theorem onlyKernel_bind_eq_ok {k : Unit → Except String ValidatorRegistry} :
    (s.onlyKernel sender >>= k) = .ok t ↔
      (sender = s.kernel ∨ sender = s.owner) ∧ k () = .ok t :=
  ensure_bind_eq_ok

/-- What `_removeFromList` leaves, where `last` ends the list. -/
structure Removed (s : ValidatorRegistry) (a last : Address) (t : ValidatorRegistry) : Prop where
  validators : t.validators = s.validators
  count : t.activeValidatorCount = s.activeValidatorCount
  staked : t.totalStaked = s.totalStaked
  length : s.validatorList.length = t.validatorList.length + 1
  ends : s.validatorList[t.validatorList.length]? = some last
  list : ∀ i, i < t.validatorList.length →
    t.validatorList[i]? = if i = s.index a then some last else s.validatorList[i]?
  index : ∀ b, t.index b = if b = a then 0
    else if b = last ∧ s.index a ≠ t.validatorList.length then s.index a else s.index b

theorem removeFromList_eq_ok (h : s.removeFromList a = .ok t) : ∃ last, s.Removed a last t := by
  unfold removeFromList at h
  rw [sub_bind_eq_ok, okOr_bind_eq_ok] at h
  obtain ⟨hpos, last, hlast, h⟩ := h
  rw [ensure_bind_eq_ok] at h
  obtain ⟨hbound, h⟩ := h
  cases h
  refine ⟨last, ?_⟩
  by_cases hswap : s.index a = s.validatorList.length - 1
  · rw [if_neg (not_not.mpr hswap)]
    have hlength : s.validatorList.dropLast.length = s.validatorList.length - 1 :=
      List.length_dropLast
    refine ⟨rfl, rfl, rfl, ?_, ?_, ?_, ?_⟩
    · change _ = s.validatorList.dropLast.length + 1
      omega
    · change s.validatorList[s.validatorList.dropLast.length]? = _
      rw [hlength, hlast]
    · intro i hi
      change i < s.validatorList.dropLast.length at hi
      change s.validatorList.dropLast[i]? = _
      rw [if_neg (by omega), List.getElem?_dropLast, if_pos (by omega)]
    · intro b
      change StorageMap.value 0 (s.validatorListIndex.erase a) b = _
      have hstays : ¬(b = last ∧ s.index a ≠ s.validatorList.dropLast.length) :=
        fun h => h.2 (hswap.trans hlength.symm)
      rw [StorageMap.value_erase_eq]
      congr 1
      exact (if_neg hstays).symm
  · rw [if_pos hswap]
    have hlength : (s.validatorList.set (s.index a) last).dropLast.length =
        s.validatorList.length - 1 := by
      rw [List.length_dropLast, List.length_set]
    refine ⟨rfl, rfl, rfl, ?_, ?_, ?_, ?_⟩
    · change _ = (s.validatorList.set (s.index a) last).dropLast.length + 1
      omega
    · change s.validatorList[(s.validatorList.set (s.index a) last).dropLast.length]? = _
      rw [hlength, hlast]
    · intro i hi
      change i < (s.validatorList.set (s.index a) last).dropLast.length at hi
      change (s.validatorList.set (s.index a) last).dropLast[i]? = _
      rw [List.getElem?_dropLast, List.length_set, if_pos (by omega), List.getElem?_set]
      by_cases hi' : s.index a = i
      · rw [if_pos hi', if_pos hi'.symm, if_pos (by omega)]
      · rw [if_neg hi', if_neg (Ne.symm hi')]
    · intro b
      change StorageMap.value 0 ((s.validatorListIndex.insert last (s.index a)).erase a) b = _
      have hne : s.index a ≠ (s.validatorList.set (s.index a) last).dropLast.length :=
        hlength ▸ hswap
      rw [StorageMap.value_erase_eq, StorageMap.value_insert_eq]
      simp only [hne, ne_eq, not_false_eq_true, and_true]
      rfl

theorem nodup_of_indexed {l : List Address} {f : Address → Nat}
    (h : ∀ i a, l[i]? = some a → f a = i) : l.Nodup := by
  rw [List.nodup_iff_getElem?_ne_getElem?]
  intro i j hij hj heq
  have hget : l[j]? = some l[j] := List.getElem?_eq_getElem hj
  have hi := h i l[j] (heq.trans hget)
  have hj := h j l[j] hget
  omega

namespace Removed

variable {last : Address} (h : s.Removed a last t) (ha : s.validatorList[s.index a]? = some a)
  (hindexed : ∀ i b, s.validatorList[i]? = some b → s.index b = i)
include h ha hindexed

/-- An entry that stays, at its place or moved into the gap. -/
theorem mem_iff : b ∈ t.validatorList ↔ b ∈ s.validatorList ∧ b ≠ a := by
  have hindex : s.index a ≤ t.validatorList.length := by
    have hlt := (List.getElem?_eq_some_iff.mp ha).1
    have hlength := h.length
    omega
  constructor
  · intro hb
    obtain ⟨i, hi, hget⟩ := List.mem_iff_getElem.mp hb
    have hlist := h.list i hi
    rw [List.getElem?_eq_getElem hi, hget] at hlist
    split at hlist
    · next hgap =>
      cases hlist
      refine ⟨List.mem_of_getElem? h.ends, ?_⟩
      rintro rfl
      have hends := hindexed _ _ h.ends
      omega
    · next hgap =>
      refine ⟨List.mem_of_getElem? hlist.symm, ?_⟩
      rintro rfl
      exact hgap (hindexed _ _ hlist.symm).symm
  · rintro ⟨hb, hne⟩
    obtain ⟨i, hi, hget⟩ := List.mem_iff_getElem.mp hb
    have hsome : s.validatorList[i]? = some b := List.getElem?_eq_some_iff.mpr ⟨hi, hget⟩
    by_cases hlt : i < t.validatorList.length
    · have hlist := h.list i hlt
      rw [if_neg ?_, hsome] at hlist
      · exact List.mem_of_getElem? hlist
      · rintro rfl
        exact hne (Option.some.inj (hsome.symm.trans ha))
    · have heq : i = t.validatorList.length := by
        have hlength := h.length
        omega
      subst heq
      cases hsome.symm.trans h.ends
      have hgap : s.index a < t.validatorList.length := by
        apply Nat.lt_of_le_of_ne hindex
        intro heq
        rw [heq] at ha
        exact hne (Option.some.inj (hsome.symm.trans ha))
      have hlist := h.list _ hgap
      rw [if_pos rfl] at hlist
      exact List.mem_of_getElem? hlist

theorem indexed (i : Nat) (hb : t.validatorList[i]? = some b) : t.index b = i := by
  have hi := (List.getElem?_eq_some_iff.mp hb).1
  have hmem := (h.mem_iff ha hindexed).mp (List.mem_of_getElem? hb)
  have hlist := h.list i hi
  rw [hb] at hlist
  rw [h.index, if_neg hmem.2]
  split at hlist
  · next hgap =>
    cases hlist
    rw [if_pos ⟨rfl, by omega⟩, hgap]
  · next hgap =>
    have hindex := hindexed i b hlist.symm
    rw [if_neg ?_, hindex]
    rintro ⟨rfl, -⟩
    have hends := hindexed _ _ h.ends
    omega

end Removed

/-- Removing an active validator that has just been made inactive. -/
theorem Consistent.removed {last : Address} {u : ValidatorRegistry} (h : s.Consistent)
    (hremoved : u.Removed a last t) (hactive : (s.validator a).active = true)
    (hvalidators : u.validators = s.validators.insert a v) (hv : v.active = false)
    (hlist : u.validatorList = s.validatorList)
    (hindex : u.validatorListIndex = s.validatorListIndex)
    (hcount : u.activeValidatorCount + 1 = s.activeValidatorCount)
    (hstaked : u.totalStaked + (s.validator a).stakeAmount = s.totalStaked + v.stakeAmount) :
    t.Consistent := by
  have hindex' : u.index = s.index := by
    funext b
    unfold index
    rw [hindex]
  have hindexed : ∀ i b, u.validatorList[i]? = some b → u.index b = i := by
    rw [hlist, hindex']
    exact h.indexed
  have ha : u.validatorList[u.index a]? = some a := by
    obtain ⟨i, hi, hget⟩ := List.mem_iff_getElem.mp ((h.listed a).mpr hactive)
    have hsome : s.validatorList[i]? = some a := List.getElem?_eq_some_iff.mpr ⟨hi, hget⟩
    rw [hlist, hindex', h.indexed i a hsome, hsome]
  have hat : ∀ i b, t.validatorList[i]? = some b → t.index b = i :=
    fun i b => hremoved.indexed ha hindexed i
  refine ⟨nodup_of_indexed hat, ?_, hat, ?_, ?_⟩
  · intro b
    have hvalidator : t.validator b = if b = a then v else s.validator b := by
      unfold validator
      rw [hremoved.validators, hvalidators, StorageMap.value_insert_eq]
    rw [hremoved.mem_iff ha hindexed, hlist, h.listed, hvalidator]
    by_cases hb : b = a
    · simp [hb, hv]
    · simp [hb]
  · have hlength := hremoved.length
    rw [hlist, ← h.count] at hlength
    rw [hremoved.count]
    omega
  · have hweigh := weigh_setValidator s a v
    have hsum := h.staked
    rw [hremoved.staked, hremoved.validators, hvalidators]
    change StorageMap.weigh _ (s.validators.insert a v) + _ = _ at hweigh
    omega

/-- What has to hold of a call: nobody who still has a stake becomes a validator anew, and
only an active validator completes its unstaking. -/
def Sound (s : ValidatorRegistry) : Call → Prop
  | .stake _ a _ _ => (s.validator a).active = true ∨ (s.validator a).stakeAmount = 0
  | .completeUnstake _ a _ => (s.validator a).active = true
  | _ => True

/-- A new entry at the end of the list, where the stake of the account was nothing. -/
theorem Consistent.append (h : s.Consistent)
    (hvalidators : t.validators = s.validators.insert a v) (hv : v.active = true)
    (hinactive : (s.validator a).active = false)
    (hlist : t.validatorList = s.validatorList ++ [a])
    (hindex : t.validatorListIndex = s.validatorListIndex.insert a s.validatorList.length)
    (hcount : t.activeValidatorCount = s.activeValidatorCount + 1)
    (hstaked : t.totalStaked + (s.validator a).stakeAmount = s.totalStaked + v.stakeAmount) :
    t.Consistent := by
  have habsent : a ∉ s.validatorList := by
    rw [h.listed, hinactive]
    exact Bool.false_ne_true
  have hat : ∀ b, t.index b = if b = a then s.validatorList.length else s.index b := by
    intro b
    unfold index
    rw [hindex, StorageMap.value_insert_eq]
  refine ⟨?_, ?_, ?_, ?_, ?_⟩
  · rw [hlist, List.nodup_append']
    exact ⟨h.once, List.nodup_singleton a, List.disjoint_singleton.mpr habsent⟩
  · intro b
    have hvalidator : t.validator b = if b = a then v else s.validator b := by
      unfold validator
      rw [hvalidators, StorageMap.value_insert_eq]
    rw [hlist, List.mem_append, List.mem_singleton, h.listed, hvalidator]
    by_cases hb : b = a
    · simp [hb, hv]
    · simp [hb]
  · intro i b hget
    rw [hlist] at hget
    rw [hat]
    rw [List.getElem?_append] at hget
    split at hget
    · rw [if_neg, h.indexed i b hget]
      rintro rfl
      exact habsent (List.mem_of_getElem? hget)
    · next hge =>
      rw [List.getElem?_singleton] at hget
      split at hget
      · cases hget
        rw [if_pos rfl]
        omega
      · cases hget
  · rw [hcount, hlist, List.length_append, h.count]
    rfl
  · have hweigh := weigh_setValidator s a v
    have hsum := h.staked
    rw [hvalidators]
    change StorageMap.weigh _ (s.validators.insert a v) + _ = _ at hweigh
    omega

/-- More stake for a validator. -/
theorem Consistent.addStake (h : s.Consistent)
    (hvalidators : t.validators = s.validators.insert a v)
    (hactive : v.active = (s.validator a).active)
    (hlist : t.validatorList = s.validatorList)
    (hindex : t.validatorListIndex = s.validatorListIndex)
    (hcount : t.activeValidatorCount = s.activeValidatorCount)
    (hstaked : t.totalStaked + (s.validator a).stakeAmount = s.totalStaked + v.stakeAmount) :
    t.Consistent := by
  have hat : t.index = s.index := by
    funext b
    unfold index
    rw [hindex]
  refine ⟨?_, ?_, ?_, ?_, ?_⟩
  · exact hlist ▸ h.once
  · intro b
    have hvalidator : t.validator b = if b = a then v else s.validator b := by
      unfold validator
      rw [hvalidators, StorageMap.value_insert_eq]
    rw [hlist, h.listed, hvalidator]
    by_cases hb : b = a
    · simp [hb, hactive]
    · simp [hb]
  · rw [hlist, hat]
    exact h.indexed
  · rw [hcount, hlist, h.count]
  · have hweigh := weigh_setValidator s a v
    have hsum := h.staked
    rw [hvalidators]
    change StorageMap.weigh _ (s.validators.insert a v) + _ = _ at hweigh
    omega

theorem stake_consistent {amount timestamp : Nat} (h : s.Consistent)
    (hsound : s.Sound (.stake sender a amount timestamp))
    (hcall : s.stake sender a amount timestamp = .ok t) : t.Consistent := by
  unfold stake at hcall
  rw [onlyKernel_bind_eq_ok, ensure_bind_eq_ok, add_bind_eq_ok, ensure_bind_eq_ok] at hcall
  obtain ⟨-, -, -, -, hcall⟩ := hcall
  split at hcall
  · next hinactive =>
    rw [add_bind_eq_ok, ok_bind, add_bind_eq_ok] at hcall
    cases hcall.2.2
    have hnone : (s.validator a).stakeAmount = 0 := by
      cases hsound with
      | inl hactive => cases hinactive.symm.trans hactive
      | inr hzero => exact hzero
    exact h.append rfl rfl hinactive rfl rfl rfl (by rw [hnone]; rfl)
  · rw [ok_bind, add_bind_eq_ok] at hcall
    cases hcall.2
    exact h.addStake rfl rfl rfl rfl rfl (by dsimp only [setValidator]; omega)

theorem requestUnstake_consistent {timestamp : Nat} (h : s.Consistent)
    (hcall : s.requestUnstake sender a timestamp = .ok t) : t.Consistent := by
  unfold requestUnstake at hcall
  rw [onlyKernel_bind_eq_ok, ensure_bind_eq_ok, ensure_bind_eq_ok] at hcall
  obtain ⟨-, -, -, hcall⟩ := hcall
  cases hcall
  exact h.addStake rfl rfl rfl rfl rfl rfl

theorem completeUnstake_consistent {timestamp : Nat} (h : s.Consistent)
    (hactive : (s.validator a).active = true)
    (hcall : s.completeUnstake sender a timestamp = .ok t) : t.Consistent := by
  unfold completeUnstake at hcall
  rw [onlyKernel_bind_eq_ok, ensure_bind_eq_ok, add_bind_eq_ok, ensure_bind_eq_ok, sub_bind_eq_ok,
    sub_bind_eq_ok] at hcall
  obtain ⟨-, -, -, -, hstake, hcount, hcall⟩ := hcall
  obtain ⟨last, hremoved⟩ := removeFromList_eq_ok hcall
  exact h.removed hremoved hactive rfl rfl rfl rfl (Nat.sub_add_cancel hcount)
    (Nat.sub_add_cancel hstake)

theorem slash_consistent {amount : Nat} (h : s.Consistent)
    (hcall : s.slash sender a amount = .ok t) : t.Consistent := by
  unfold slash at hcall
  rw [onlyKernel_bind_eq_ok, ensure_bind_eq_ok] at hcall
  obtain ⟨-, hactive, hcall⟩ := hcall
  dsimp only at hcall
  generalize (if (s.validator a).stakeAmount < amount then (s.validator a).stakeAmount else amount) =
    actualSlash at hcall
  rw [sub_bind_eq_ok, sub_bind_eq_ok] at hcall
  obtain ⟨hle, htotal, hcall⟩ := hcall
  split at hcall
  · rw [sub_bind_eq_ok] at hcall
    obtain ⟨last, hremoved⟩ := removeFromList_eq_ok hcall.2
    exact h.removed hremoved hactive rfl rfl rfl rfl (Nat.sub_add_cancel hcall.1)
      (by dsimp only [setValidator]; omega)
  · cases hcall
    exact h.addStake rfl rfl rfl rfl rfl
      (by dsimp only [setValidator]; omega)

theorem recordVote_consistent {correct : Bool} (h : s.Consistent)
    (hcall : s.recordVote sender a correct = .ok t) : t.Consistent := by
  unfold recordVote at hcall
  rw [onlyKernel_bind_eq_ok] at hcall
  obtain ⟨-, hcall⟩ := hcall
  split at hcall
  · rw [add_bind_eq_ok] at hcall
    cases hcall.2
    exact h.addStake rfl rfl rfl rfl rfl rfl
  · rw [add_bind_eq_ok] at hcall
    cases hcall.2
    exact h.addStake rfl rfl rfl rfl rfl rfl

theorem call_consistent {c : Call} (h : s.Consistent) (hsound : s.Sound c)
    (hcall : s.call c = .ok t) : t.Consistent := by
  cases c with
  | stake sender a amount timestamp => exact stake_consistent h hsound hcall
  | requestUnstake sender a timestamp => exact requestUnstake_consistent h hcall
  | completeUnstake sender a timestamp => exact completeUnstake_consistent h hsound hcall
  | slash sender a amount => exact slash_consistent h hcall
  | recordVote sender a correct => exact recordVote_consistent h hcall

theorem Consistent.length_eq (h : s.Consistent) (ht : t.Consistent)
    (hactive : ∀ b, (t.validator b).active = (s.validator b).active) :
    t.validatorList.length = s.validatorList.length := by
  apply List.Perm.length_eq
  rw [List.perm_ext_iff_of_nodup ht.once h.once]
  intro b
  rw [ht.listed, h.listed, hactive]

theorem stake_sound {amount timestamp : Nat} (h : s.Consistent)
    (hcall : s.stake sender a amount timestamp = .ok t) (ht : t.Consistent) :
    s.Sound (.stake sender a amount timestamp) := by
  unfold stake at hcall
  rw [onlyKernel_bind_eq_ok, ensure_bind_eq_ok, add_bind_eq_ok, ensure_bind_eq_ok] at hcall
  obtain ⟨-, -, -, -, hcall⟩ := hcall
  split at hcall
  · rw [add_bind_eq_ok, ok_bind, add_bind_eq_ok] at hcall
    cases hcall.2.2
    have hweigh := weigh_setValidator s a
      { addr := a, stakeAmount := amount, stakedAt := timestamp, active := true }
    have hold := h.staked
    have hnew := ht.staked
    dsimp only [setValidator] at hweigh hnew
    right
    omega
  · next hactive => exact .inl (Bool.eq_true_of_not_eq_false hactive)

theorem completeUnstake_sound {timestamp : Nat} (h : s.Consistent)
    (hcall : s.completeUnstake sender a timestamp = .ok t) (ht : t.Consistent) :
    (s.validator a).active = true := by
  unfold completeUnstake at hcall
  rw [onlyKernel_bind_eq_ok, ensure_bind_eq_ok, add_bind_eq_ok, ensure_bind_eq_ok, sub_bind_eq_ok,
    sub_bind_eq_ok] at hcall
  obtain ⟨-, -, -, -, -, -, hcall⟩ := hcall
  obtain ⟨last, hremoved⟩ := removeFromList_eq_ok hcall
  by_contra hinactive
  -- nobody's flag has changed, but an entry is gone
  have hsame : t.validatorList.length = s.validatorList.length := by
    apply h.length_eq ht
    intro b
    unfold validator
    rw [hremoved.validators, setValidator, StorageMap.value_insert_eq]
    split
    · next heq =>
      rw [heq]
      exact (Bool.eq_false_of_not_eq_true hinactive).symm
    · rfl
  have hlength : s.validatorList.length = t.validatorList.length + 1 := hremoved.length
  omega

theorem call_sound {c : Call} (h : s.Consistent) (hcall : s.call c = .ok t) (ht : t.Consistent) :
    s.Sound c := by
  cases c with
  | stake sender a amount timestamp => exact stake_sound h hcall ht
  | requestUnstake sender a timestamp => trivial
  | completeUnstake sender a timestamp => exact completeUnstake_sound h hcall ht
  | slash sender a amount => trivial
  | recordVote sender a correct => trivial

/-- The registry is consistent all along a run exactly if no account that still has a stake
becomes a validator anew and no inactive one completes its unstaking. -/
theorem consistent_iff (sender kernel : Address) (calls : List Call) :
    (∀ before, before <+: calls → (run call (initial sender kernel) before).Consistent) ↔
      Guarded call Sound (initial sender kernel) calls := by
  apply forall_prefix_iff_guarded
  · intro s c t h hcall
    exact ⟨call_sound h hcall, fun hsound => call_consistent h hsound hcall⟩
  · exact initial_consistent sender kernel

/-- Slashed below the minimum while it unstakes, the second validator takes the first one's
place in the list with it when it completes. -/
theorem slashed_unstake_inconsistent :
    ¬∀ (sender kernel : Address) (calls : List Call),
      (run call (initial sender kernel) calls).Consistent := by
  intro h
  have hconsistent := h 1 2 [.stake 1 10 minStake 100, .stake 1 11 minStake 100,
    .requestUnstake 1 11 200, .slash 1 11 1, .completeUnstake 1 11 (200 + unstakingDelay)]
  have hlisted := hconsistent.listed 10
  revert hlisted
  decide +kernel

end ValidatorRegistry

end Qubitcoin.Contracts
