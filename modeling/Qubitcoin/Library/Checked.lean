import Mathlib

/-! Guarded code in the `Except` monad: the guards a checked function is built
from, and what a successful result says about each of them. -/

universe u v

variable {ε : Type u} {α β : Type v}

def ensure (p : Prop) [Decidable p] (e : ε) : Except ε PUnit.{v + 1} :=
  if p then .ok ⟨⟩ else .error e

def Option.okOr (o : Option α) (e : ε) : Except ε α :=
  match o with
  | some a => .ok a
  | none => .error e

namespace Checked

@[simp] theorem ok_bind (a : α) (k : α → Except ε β) : (Except.ok a >>= k) = k a := rfl

@[simp] theorem error_bind (e : ε) (k : α → Except ε β) :
    (Except.error e >>= k) = Except.error e := rfl

@[simp] theorem pure_eq_ok (a : α) : (pure a : Except ε α) = .ok a := rfl

theorem bind_eq_ok {x : Except ε α} {k : α → Except ε β} {b : β} :
    (x >>= k) = .ok b ↔ ∃ a, x = .ok a ∧ k a = .ok b := by
  cases x with
  | error e => simp
  | ok a => simp

theorem ensure_eq_ok {p : Prop} [Decidable p] {e : ε} {u : PUnit.{v + 1}} :
    ensure p e = .ok u ↔ p := by
  unfold ensure
  split <;> simp_all

theorem ensure_bind_eq_ok {p : Prop} [Decidable p] {e : ε} {k : PUnit.{v + 1} → Except ε β}
    {b : β} : (ensure p e >>= k) = .ok b ↔ p ∧ k ⟨⟩ = .ok b := by
  unfold ensure
  split <;> simp_all

theorem bind_ne_error {x : Except ε α} {k : α → Except ε β} {e : ε} (hx : x ≠ .error e)
    (hk : ∀ a, x = .ok a → k a ≠ .error e) : (x >>= k) ≠ .error e := by
  cases x with
  | error e' =>
    intro h
    cases h
    exact hx rfl
  | ok a => exact hk a rfl

theorem ensure_ne_error {p : Prop} [Decidable p] {e e' : ε} (h : p ∨ e' ≠ e) :
    (ensure p e' : Except ε PUnit.{v + 1}) ≠ .error e := by
  unfold ensure
  split
  · intro heq
    cases heq
  · next hp =>
    intro heq
    cases heq
    exact h.elim hp fun hne => hne rfl

theorem okOr_eq_ok {o : Option α} {e : ε} {a : α} : o.okOr e = .ok a ↔ o = some a := by
  cases o <;> simp [Option.okOr]

theorem okOr_bind_eq_ok {o : Option α} {e : ε} {k : α → Except ε β} {b : β} :
    (o.okOr e >>= k) = .ok b ↔ ∃ a, o = some a ∧ k a = .ok b := by
  rw [bind_eq_ok]
  simp only [okOr_eq_ok]

@[simp] theorem mapError_ok {ε' : Type u} (f : ε → ε') (a : α) :
    (Except.ok a : Except ε α).mapError f = .ok a := rfl

theorem mapError_eq_ok {ε' : Type u} {f : ε → ε'} {x : Except ε α} {a : α} :
    x.mapError f = .ok a ↔ x = .ok a := by
  cases x with
  | error e => simp [Except.mapError]
  | ok b => simp [Except.mapError]

theorem mapError_bind_eq_ok {ε' : Type u} {f : ε → ε'} {x : Except ε α} {k : α → Except ε' β}
    {b : β} : (x.mapError f >>= k) = .ok b ↔ ∃ a, x = .ok a ∧ k a = .ok b := by
  rw [bind_eq_ok]
  simp only [mapError_eq_ok]

theorem mapM_eq_some {γ δ : Type v} {f : γ → Option δ} {l : List γ} {r : List δ} :
    l.mapM f = some r ↔ l.map f = r.map some := by
  induction l generalizing r with
  | nil => cases r <;> simp
  | cons a l ih =>
    cases r with
    | nil => simp [Option.bind_eq_some_iff]
    | cons b r => simp [Option.bind_eq_some_iff, ih]

end Checked
