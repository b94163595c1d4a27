import Mathlib

/-! Computations that note the calls they make, and two of them going in step. -/

universe u

namespace Noting

variable {C D α β γ δ : Type u}

/-- A computation that adds to the list of calls made so far. -/
abbrev Noted (C : Type u) (α : Type u) := StateM (List C) α

def note (call : C) (result : α) : Noted C α := do
  modify fun calls => calls ++ [call]
  return result

def result (m : Noted C α) : α := (m []).1

def calls (m : Noted C α) : List C := (m []).2

/-- The two make related calls, one for one, and end with related results. -/
def InStep (R : C → D → Prop) (S : α → β → Prop) (m : Noted C α) (n : Noted D β) : Prop :=
  ∀ before before', List.Forall₂ R before before' →
    S (m before).1 (n before').1 ∧ List.Forall₂ R (m before).2 (n before').2

variable {R : C → D → Prop} {S : α → β → Prop} {T : γ → δ → Prop} {m : Noted C α} {n : Noted D β}

namespace InStep

theorem pure {a : α} {b : β} (h : S a b) : InStep R S (Pure.pure a) (Pure.pure b) :=
  fun _ _ hcalls => ⟨h, hcalls⟩

theorem note {call : C} {call' : D} {a : α} {b : β} (hcall : R call call') (h : S a b) :
    InStep R S (Noting.note call a) (Noting.note call' b) :=
  fun _ _ hcalls => ⟨h, List.rel_append hcalls (.cons hcall .nil)⟩

theorem bind {f : α → Noted C γ} {g : β → Noted D δ} (h : InStep R S m n)
    (hf : ∀ a b, S a b → InStep R T (f a) (g b)) : InStep R T (m >>= f) (n >>= g) := by
  intro before before' hcalls
  obtain ⟨hresult, hcalls⟩ := h before before' hcalls
  exact hf _ _ hresult _ _ hcalls

theorem mono {S' : α → β → Prop} (h : InStep R S m n) (hS : ∀ a b, S a b → S' a b) :
    InStep R S' m n :=
  fun before before' hcalls => (h before before' hcalls).imp_left (hS _ _)

theorem result (h : InStep R S m n) : S (result m) (result n) := (h [] [] .nil).1

theorem calls (h : InStep R S m n) : List.Forall₂ R (calls m) (calls n) := (h [] [] .nil).2

end InStep

end Noting
