import Mathlib

/-! Computations with a fuel argument, and what they return once the fuel is enough. -/

universe u v

namespace Fuel

open Filter

variable {α : Type u} {β : Type v} {run run' : ℕ → Option α} {a b : α}

/-- With enough fuel the run ends with `a`. -/
def Returns (run : ℕ → Option α) (a : α) : Prop := ∀ᶠ fuel in atTop, run fuel = some a

theorem returns_some (a : α) : Returns (fun _ => some a) a := .of_forall fun _ => rfl

theorem Returns.exists_fuel (h : Returns run a) : ∃ fuel, run fuel = some a := h.exists

theorem Returns.unique (h : Returns run a) (h' : Returns run b) : a = b := by
  obtain ⟨fuel, ha, hb⟩ := (h.and h').exists
  exact Option.some.inj (ha.symm.trans hb)

/-- A run that more fuel does not change returns what it ends with. -/
theorem returns_of_mono (hmono : ∀ fuel fuel', fuel ≤ fuel' → run fuel = some a → run fuel' = some a)
    {fuel : ℕ} (h : run fuel = some a) : Returns run a :=
  eventually_atTop.mpr ⟨fuel, fun fuel' hle => hmono fuel fuel' hle h⟩

theorem Returns.congr (h : Returns run a) (heq : ∀ᶠ fuel in atTop, run' fuel = run fuel) :
    Returns run' a := by
  filter_upwards [h, heq] with fuel hrun hsame
  rw [hsame, hrun]

theorem Returns.bind {f : ℕ → α → Option β} {b : β} (h : Returns run a)
    (hf : Returns (fun fuel => f fuel a) b) : Returns (fun fuel => (run fuel).bind (f fuel)) b := by
  filter_upwards [h, hf] with fuel hrun hrest
  rw [hrun, Option.bind_some, hrest]

theorem Returns.map {b : β} {f : α → β} (h : Returns run a) (hf : f a = b) :
    Returns (fun fuel => (run fuel).map f) b := by
  filter_upwards [h] with fuel hrun
  rw [hrun, Option.map_some, hf]

/-- A loop over a list returns what its steps return one after the other. -/
theorem returns_foldlM {σ : Type u} {ι : Type v} {step : ℕ → σ → ι → Option σ} {f : σ → ι → σ}
    {xs : List ι} (h : ∀ s, ∀ x ∈ xs, Returns (fun fuel => step fuel s x) (f s x)) (s : σ) :
    Returns (fun fuel => xs.foldlM (step fuel) s) (xs.foldl f s) := by
  induction xs generalizing s with
  | nil => exact returns_some s
  | cons x xs ih =>
    refine (h s x List.mem_cons_self).bind ?_
    exact ih (fun s y hy => h s y (List.mem_cons_of_mem x hy)) (f s x)

/-- The first unit of fuel does not matter. -/
theorem returns_succ_iff : Returns (fun fuel => run (fuel + 1)) a ↔ Returns run a := by
  have hmap := @eventually_map _ _ atTop (fun fuel => fuel + 1) fun fuel => run fuel = some a
  rw [map_add_atTop_eq_nat 1] at hmap
  exact hmap.symm

theorem returns_all {ι : Type*} [Finite ι] {run : ι → ℕ → Option α} {a : ι → α} :
    (∀ i, Returns (run i) (a i)) ↔ ∀ᶠ fuel in atTop, ∀ i, run i fuel = some (a i) :=
  eventually_all.symm

end Fuel
