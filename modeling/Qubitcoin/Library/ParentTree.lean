import Mathlib

/-! Trees given by parent pointers.  The rank falls by one along every pointer, so the way
to the root is finite. -/

universe u

structure ParentTree (α : Type u) where
  parent : α → Option α
  rank : α → Nat
  rank_parent : ∀ {a p : α}, parent a = some p → rank a = rank p + 1

namespace ParentTree

variable {α : Type u} (t : ParentTree α) {a b c p : α} (w : α → Nat)

/-- A node and its ancestors, the root last. -/
def path (a : α) : List α :=
  match _h : t.parent a with
  | none => [a]
  | some p => a :: path p
termination_by t.rank a
decreasing_by
  rw [t.rank_parent _h]
  exact Nat.lt_succ_self _

def Ancestor (a b : α) : Prop := a ∈ t.path b

/-- The weight of a node and its ancestors. -/
def total (a : α) : Nat := ((t.path a).map w).sum

variable {t w}

theorem path_of_root (h : t.parent a = none) : t.path a = [a] := by
  rw [path]
  split
  · rfl
  · rename_i hp
    rw [h] at hp
    cases hp

theorem path_of_child (h : t.parent a = some p) : t.path a = a :: t.path p := by
  rw [path]
  split
  · rename_i hp
    rw [h] at hp
    cases hp
  · rename_i hp
    rw [h] at hp
    cases hp
    rfl

theorem Ancestor.refl (a : α) : t.Ancestor a a := by
  unfold Ancestor
  cases h : t.parent a with
  | none => simp [path_of_root h]
  | some p => simp [path_of_child h]

theorem Ancestor.of_parent (h : t.Ancestor a p) (hp : t.parent b = some p) :
    t.Ancestor a b := by
  unfold Ancestor at *
  rw [path_of_child hp]
  exact List.mem_cons_of_mem _ h

theorem total_of_root (h : t.parent a = none) : t.total w a = w a := by
  simp [total, path_of_root h]

theorem total_of_child (h : t.parent a = some p) : t.total w a = w a + t.total w p := by
  simp [total, path_of_child h]

theorem length_path (a : α) : (t.path a).length ≤ t.rank a + 1 := by
  induction hr : t.rank a generalizing a with
  | zero =>
    cases h : t.parent a with
    | none => simp [path_of_root h]
    | some p =>
      have hp := t.rank_parent h
      omega
  | succ n ih =>
    cases h : t.parent a with
    | none => simp [path_of_root h]
    | some p =>
      have hp := t.rank_parent h
      have hle := ih p (by omega)
      rw [path_of_child h, List.length_cons]
      omega

theorem total_le {bound : Nat} (h : ∀ a, w a ≤ bound) (a : α) :
    t.total w a ≤ (t.rank a + 1) * bound := by
  calc
    t.total w a ≤ ((t.path a).map w).length • bound := by
      apply List.sum_le_card_nsmul
      intro x hx
      obtain ⟨b, -, rfl⟩ := List.mem_map.mp hx
      exact h b
    _ ≤ (t.rank a + 1) * bound := by
      rw [smul_eq_mul, List.length_map]
      exact Nat.mul_le_mul_right bound (length_path a)

end ParentTree
