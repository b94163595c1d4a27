import Mathlib

/-! Simultaneous substitutions, and the most general ones that solve a list of equations. -/

universe u v

/-- Terms `T` over variables `V`, with the substitution of terms for all variables at once. -/
class Substitution (V : outParam (Type u)) (T : Type v) where
  var : V → T
  subst : (V → T) → T → T
  subst_var : ∀ θ v, subst θ (var v) = θ v
  subst_id : ∀ t, subst var t = t
  subst_subst : ∀ θ σ t, subst θ (subst σ t) = subst (fun v => subst θ (σ v)) t

namespace Substitution

variable {V : Type u} {T : Type v} [Substitution V T] {θ σ τ : V → T} {t u : T}

/-- `θ` is unchanged by being composed after `σ`. -/
def After (θ σ : V → T) : Prop := ∀ v, subst θ (σ v) = θ v

theorem after_var (θ : V → T) : After θ (var (T := T)) := subst_var θ

theorem After.subst_subst (h : After θ σ) (t : T) : subst θ (subst σ t) = subst θ t := by
  rw [Substitution.subst_subst]
  congr 1
  funext v
  exact h v

/-- First `σ`, then `τ`. -/
def comp (σ τ : V → T) : V → T := fun v => subst τ (σ v)

theorem subst_comp (σ τ : V → T) (t : T) : subst (comp σ τ) t = subst τ (subst σ t) :=
  (Substitution.subst_subst τ σ t).symm

theorem comp_var (σ : V → T) : comp σ var = σ := by
  funext v
  exact subst_id (σ v)

theorem comp_assoc (σ τ θ : V → T) : comp (comp σ τ) θ = comp σ (comp τ θ) := by
  funext v
  exact (subst_comp τ θ (σ v)).symm

theorem After.comp (h : After θ σ) (h' : After θ τ) : After θ (comp σ τ) := by
  intro v
  change subst θ (subst τ (σ v)) = θ v
  rw [h'.subst_subst, h]

/-- What the first of two substitutions fixes, their composition fixes. -/
theorem After.of_comp (h : After σ σ) : After (Substitution.comp σ τ) σ := by
  intro v
  rw [subst_comp, h]
  rfl

/-- `θ` makes the two sides of every pair equal. -/
def Unifies (θ : V → T) (pairs : List (T × T)) : Prop := ∀ p ∈ pairs, subst θ p.1 = subst θ p.2

theorem unifies_cons {p : T × T} {pairs : List (T × T)} :
    Unifies θ (p :: pairs) ↔ subst θ p.1 = subst θ p.2 ∧ Unifies θ pairs :=
  List.forall_mem_cons

/-- Among the substitutions after `σ`, those that unify the pairs are the ones after `σ'`. -/
def Solves (σ : V → T) (pairs : List (T × T)) (σ' : V → T) : Prop :=
  ∀ θ, After θ σ' ↔ After θ σ ∧ Unifies θ pairs

theorem solves_nil (σ : V → T) : Solves σ [] σ := by
  simp [Solves, Unifies]

theorem Solves.cons {p : T × T} {pairs : List (T × T)} (h : Solves σ [p] τ) {σ' : V → T}
    (hrest : Solves τ pairs σ') : Solves σ (p :: pairs) σ' := by
  intro θ
  rw [hrest, h, unifies_cons, unifies_cons, and_assoc]
  simp [Unifies]

/-- An idempotent solution unifies the pairs itself. -/
theorem Solves.unifies {pairs : List (T × T)} {σ' : V → T} (h : Solves σ pairs σ')
    (hidem : After σ' σ') : Unifies σ' pairs :=
  ((h σ').mp hidem).2

section Single

variable [DecidableEq V] {v : V}

def single (v : V) (t : T) : V → T := Function.update var v t

theorem after_single_iff : After θ (single v t) ↔ θ v = subst θ t := by
  constructor
  · intro h
    have hv := h v
    rw [single, Function.update_self] at hv
    exact hv.symm
  · intro h w
    by_cases hw : w = v
    · subst hw
      rw [single, Function.update_self, h]
    · rw [single, Function.update_of_ne hw, subst_var]

/-- A variable that `σ` leaves alone may be bound to a term on top of `σ`. -/
theorem after_comp_single_iff (hv : σ v = var v) :
    After θ (comp σ (single v t)) ↔ After θ σ ∧ θ v = subst θ t := by
  constructor
  · intro h
    have hbound : θ v = subst θ t := by
      rw [← h v, comp, hv, subst_var, single, Function.update_self]
    have hsingle := after_single_iff.mpr hbound
    refine ⟨fun w => ?_, hbound⟩
    rw [← h w]
    exact (hsingle.subst_subst (σ w)).symm
  · rintro ⟨h, hbound⟩
    exact h.comp (after_single_iff.mpr hbound)

end Single

end Substitution
