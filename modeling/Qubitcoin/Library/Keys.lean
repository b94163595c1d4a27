import Mathlib

/-! Keys joined from fields by a separator that the leading fields do not contain. -/

namespace Keys

section Separator

universe u

variable {α : Type u} {c : α} {a b x y p : List α}

theorem join_inj (ha : c ∉ a) (hb : c ∉ b) : a ++ c :: x = b ++ c :: y ↔ a = b ∧ x = y := by
  constructor
  · intro h
    induction a generalizing b with
    | nil =>
      cases b with
      | nil => exact ⟨rfl, (List.cons.inj h).2⟩
      | cons d b => exact absurd ((List.cons.inj h).1 ▸ List.mem_cons_self) hb
    | cons d a ih =>
      cases b with
      | nil => exact absurd ((List.cons.inj h).1 ▸ List.mem_cons_self) ha
      | cons e b =>
        rw [List.mem_cons, not_or] at ha hb
        have htail := ih ha.2 hb.2 (List.cons.inj h).2
        exact ⟨by rw [(List.cons.inj h).1, htail.1], htail.2⟩
  · rintro ⟨rfl, rfl⟩
    rfl

theorem prefix_join_iff (ha : c ∉ a) (hb : c ∉ b) : a ++ [c] <+: b ++ c :: x ↔ a = b := by
  constructor
  · rintro ⟨rest, h⟩
    rw [List.append_assoc] at h
    exact ((join_inj ha hb).mp h).1
  · rintro rfl
    exact ⟨x, by rw [List.append_assoc]; rfl⟩

/-- An occurrence that starts with the separator lies after the first field. -/
theorem infix_join_iff (ha : c ∉ a) : c :: p <:+: a ++ c :: x ↔ c :: p <:+: c :: x := by
  induction a with
  | nil => rfl
  | cons d a ih =>
    rw [List.mem_cons, not_or] at ha
    rw [List.cons_append, List.infix_cons_iff, ih ha.2]
    constructor
    · rintro (h | h)
      · exact absurd (List.cons_prefix_cons.mp h).1 ha.1
      · exact h
    · exact Or.inr

end Separator

theorem colon_notMem_repr (n : Nat) : ':' ∉ n.repr.toList := by
  intro h
  rw [Nat.toList_repr] at h
  exact absurd (Nat.isDigit_of_mem_toDigits (by decide) (by decide) h) (by decide)

theorem colon_notMem_toString (n : Int) : ':' ∉ (toString n).toList := by
  cases n with
  | ofNat n => exact colon_notMem_repr n
  | negSucc n =>
    change ':' ∉ ("-" ++ Nat.repr (n + 1)).toList
    rw [String.toList_append, List.mem_append, not_or]
    exact ⟨by decide, colon_notMem_repr (n + 1)⟩

theorem toString_toList_inj {m n : Int} : (toString m).toList = (toString n).toList ↔ m = n := by
  rw [String.toList_inj]
  exact ⟨fun h => Int.repr_injective h, congrArg _⟩

end Keys
