import Mathlib

/-! Prefix codes.  No word of the code begins with another, so words written one after the other
are read back in one way only. -/

universe u v

variable {α : Type u} {β : Type v} {P : α → Prop} {code : α → List β}

/-- Of what meets `P`, no word begins with the word of something else. -/
def PrefixFree (P : α → Prop) (code : α → List β) : Prop :=
  ∀ a b, P a → P b → code a <+: code b → a = b

namespace PrefixFree

theorem append_inj (h : PrefixFree P code) {a b : α} (ha : P a) (hb : P b) {r s : List β}
    (heq : code a ++ r = code b ++ s) : a = b ∧ r = s := by
  have hab : a = b := by
    cases List.prefix_or_prefix_of_prefix (List.prefix_append (code a) r)
        (heq ▸ List.prefix_append (code b) s) with
    | inl hle => exact h a b ha hb hle
    | inr hle => exact (h b a hb ha hle).symm
  subst hab
  exact ⟨rfl, List.append_cancel_left heq⟩

/-- Words of at least one letter are told apart from the end. -/
theorem flatMap_inj (h : PrefixFree P code) (hne : ∀ a, code a ≠ []) {as bs : List α}
    (has : ∀ a ∈ as, P a) (hbs : ∀ b ∈ bs, P b) (heq : as.flatMap code = bs.flatMap code) :
    as = bs := by
  induction as generalizing bs with
  | nil =>
    cases bs with
    | nil => rfl
    | cons b bs => simp [hne] at heq
  | cons a as ih =>
    cases bs with
    | nil => simp [hne] at heq
    | cons b bs =>
      rw [List.forall_mem_cons] at has hbs
      rw [List.flatMap_cons, List.flatMap_cons] at heq
      obtain ⟨rfl, hrest⟩ := h.append_inj has.1 hbs.1 heq
      rw [ih has.2 hbs.2 hrest]

end PrefixFree
