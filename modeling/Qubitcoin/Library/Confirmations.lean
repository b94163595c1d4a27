import Qubitcoin.Library.StorageMap

/-! Confirmations by the members of a changing committee: who has confirmed what, the counts that
are kept beside it, and which of the confirmations are by members still. -/

universe u v

abbrev Confirmations (I : Type u) (A : Type v) := StorageMap (I × A) Bool

namespace Confirmations

variable {I : Type u} {A : Type v} [DecidableEq I] [DecidableEq A]

def confirmers (m : Confirmations I A) (i : I) : Finset A :=
  (m.keys.image Prod.snd).filter fun a => m.value false (i, a) = true

/-- The count of each subject is the number of those who have confirmed it. -/
def Counted (m : Confirmations I A) (count : StorageMap I Nat) : Prop :=
  ∀ i, count.value 0 i = (confirmers m i).card

variable {m : Confirmations I A} {count : StorageMap I Nat} {i : I} {a : A}

theorem mem_confirmers : a ∈ confirmers m i ↔ m.value false (i, a) = true := by
  rw [confirmers, Finset.mem_filter, and_iff_right_of_imp]
  intro h
  apply Finset.mem_image.mpr
  refine ⟨(i, a), ?_, rfl⟩
  rw [Finmap.mem_keys]
  by_contra hnone
  rw [StorageMap.value, Finmap.lookup_eq_none.mpr hnone] at h
  cases h

theorem confirmers_insert (m : Confirmations I A) (i j : I) (a : A) :
    confirmers (m.insert (i, a) true) j =
      if j = i then insert a (confirmers m i) else confirmers m j := by
  ext b
  rw [mem_confirmers, StorageMap.value_insert_eq]
  by_cases hj : j = i
  · simp [hj, mem_confirmers, Prod.ext_iff, or_iff_not_imp_left]
  · simp [hj, mem_confirmers, Prod.ext_iff]

theorem counted_empty : Counted (∅ : Confirmations I A) ∅ := fun _ => rfl

theorem Counted.confirm (h : Counted m count) (hnew : m.value false (i, a) = false) :
    Counted (m.insert (i, a) true) (count.insert i (count.value 0 i + 1)) := by
  intro j
  rw [StorageMap.value_insert_eq, confirmers_insert]
  split
  · rw [Finset.card_insert_of_notMem, h i]
    rw [mem_confirmers, hnew]
    exact Bool.false_ne_true
  · exact h j

section Committee

omit [DecidableEq A]

variable (member : A → Bool) (voters : Finset A) (required : Nat)

/-- Enough of the voters are members. -/
def Quorum : Prop := required ≤ (voters.filter fun a => member a = true).card

def stale : Finset A := voters.filter fun a => member a = false

instance : Decidable (Quorum member voters required) := inferInstanceAs (Decidable (_ ≤ _))

variable {member voters required}

theorem quorum_iff :
    Quorum member voters required ↔ required + (stale member voters).card ≤ voters.card := by
  have hsplit := Finset.card_filter_add_card_filter_not (s := voters) fun a => member a = true
  simp only [Bool.not_eq_true] at hsplit
  unfold Quorum stale
  omega

/-- Where no voter has left, the votes suffice. -/
theorem quorum_of_standing (h : ∀ a ∈ voters, member a = true) (hcard : required ≤ voters.card) :
    Quorum member voters required := by
  rw [Quorum, Finset.filter_true_of_mem h]
  exact hcard

end Committee

end Confirmations
