import Qubitcoin.Aether.Logic.Unify

/-! The composition of bindings, from `unify.rs`, and when following the result still ends. -/

namespace Qubitcoin.Aether.Logic

open Fuel Substitution

/-- `base` with `other` applied to its terms. -/
def applyAll (other : Bindings) (fuel : ℕ) : List (Sigma fun _ : VarId => Term) → Option Bindings
  | [] => some ∅
  | ⟨v, t⟩ :: base => do
    let t ← t.substitute other fuel
    let result ← applyAll other fuel base
    return result.insert v t

/-- Where both bind a variable, `base` wins. -/
def compose (base other : Bindings) (fuel : ℕ) : Option Bindings := do
  let result ← applyAll other fuel base.entries
  return result ∪ other

variable {base other result : Bindings} {σ τ : VarId → Term} {v w : VarId} {t : Term}

/-- What `other` binds a variable to that `base` leaves free mentions no variable that `base`
binds, and no term of `base` mentions a variable that both bind. -/
structure Compatible (base other : Bindings) : Prop where
  apart : ∀ v t, base.lookup v = none → other.lookup v = some t →
    ∀ w, t.containsVar w = true → base.lookup w = none
  settled : ∀ v t, base.lookup v = some t → ∀ w, t.containsVar w = true →
    base.lookup w = none ∨ other.lookup w = none

theorem returns_applyAll (hother : other.Resolves τ) (entries : List (Sigma fun _ : VarId => Term)) :
    ∃ result : Bindings, Returns (fun fuel => applyAll other fuel entries) result ∧
      ∀ v, result.lookup v = (entries.dlookup v).map (Term.subst τ) := by
  induction entries with
  | nil => exact ⟨∅, returns_some _, fun v => by simp⟩
  | cons e entries ih =>
    obtain ⟨v, t⟩ := e
    obtain ⟨result, hreturns, hlookup⟩ := ih
    refine ⟨result.insert v (t.subst τ),
      (hother.substitute t).bind (hreturns.bind (returns_some _)), fun w => ?_⟩
    rw [Bindings.lookup_insert_eq]
    split
    · next heq =>
      subst heq
      rw [List.dlookup_cons_eq, Option.map_some]
    · next hne =>
      rw [hlookup]
      exact congrArg _ (List.dlookup_cons_ne (β := fun _ => Term) entries ⟨v, t⟩ hne).symm

theorem returns_compose (base : Bindings) (hother : other.Resolves τ) :
    ∃ result : Bindings, Returns (compose base other) result ∧
      ∀ v, result.lookup v = ((base.lookup v).map (Term.subst τ)).or (other.lookup v) := by
  obtain ⟨applied, hreturns, hlookup⟩ := returns_applyAll hother base.entries
  refine ⟨applied ∪ other, hreturns.bind (returns_some _), fun v => ?_⟩
  have happlied : applied.lookup v = (base.lookup v).map (Term.subst τ) := hlookup v
  rw [← happlied]
  cases hv : applied.lookup v with
  | none =>
    have hnot : v ∉ applied := AList.lookup_eq_none.mp hv
    rw [AList.lookup_union_right hnot, Option.none_or]
  | some t =>
    have hmem : v ∈ applied := by
      rw [← AList.lookup_isSome, hv]
      rfl
    rw [AList.lookup_union_left hmem, hv, Option.some_or]

/-- `τ` on the variables that `base` leaves free. -/
def outside (base : Bindings) (τ : VarId → Term) (v : VarId) : Term :=
  if base.lookup v = none then τ v else .var v

namespace Compatible

variable (hcompatible : Compatible base other) (hbase : base.Resolves σ) (hother : other.Resolves τ)
  (hlookup : ∀ v, result.lookup v = ((base.lookup v).map (Term.subst τ)).or (other.lookup v))

include hcompatible hother

/-- From a variable that `base` leaves free, `other` leads to such variables only. -/
theorem free_of_containsVar (hv : base.lookup v = none) (hw : (τ v).containsVar w = true) :
    base.lookup w = none := by
  obtain ⟨fuel, hfuel⟩ := (hother v).exists_fuel
  refine Bindings.resolve_induction (s := other)
    (P := fun _ v r => base.lookup v = none → ∀ w, r.containsVar w = true → base.lookup w = none)
    ?_ ?_ hfuel hv w hw
  · intro n v _ hv w hw
    rw [Term.containsVar, decide_eq_true_iff] at hw
    rwa [hw] at hv
  · intro n v t θ hbound ih hv w hw
    obtain ⟨x, hx, hw⟩ := Term.containsVar_subst.mp hw
    exact (ih x hx).2 (hcompatible.apart v t hv hbound x hx) w hw

include hlookup

theorem resolve_outside (hv : base.lookup v = none) : Returns (result.resolve · v) (τ v) := by
  obtain ⟨fuel, hfuel⟩ := (hother v).exists_fuel
  refine Bindings.returns_resolve (n := fuel) ?_
  refine Bindings.resolve_induction (s := other)
    (P := fun n v r => base.lookup v = none → result.resolve n v = some r) ?_ ?_ hfuel hv
  · intro n v hfree hv
    apply Bindings.resolve_of_lookup_none
    rw [hlookup, hv, hfree]
    rfl
  · intro n v t θ hbound ih hv
    have hresult : result.lookup v = some t := by
      rw [hlookup, hv, hbound]
      rfl
    rw [Bindings.resolve_succ_of_lookup hresult]
    exact Term.traverse_eq_subst fun w hw =>
      (ih w hw).2 (hcompatible.apart v t hv hbound w hw)

include hbase

/-- Following the composed bindings is following those of `base` first. -/
theorem resolves : result.Resolves (comp σ (outside base τ)) := by
  intro v
  obtain ⟨fuel, hfuel⟩ := (hbase v).exists_fuel
  refine Bindings.resolve_induction (s := base)
    (P := fun _ v r => Returns (result.resolve · v) (r.subst (outside base τ))) ?_ ?_ hfuel
  · intro n v hv
    rw [Term.subst, outside, if_pos hv]
    exact resolve_outside hcompatible hother hlookup hv
  · intro n v t θ hv ih
    have hterm : t.subst τ = t.subst (outside base τ) := by
      apply Term.subst_congr
      intro w hw
      unfold outside
      split
      · rfl
      · next hbound => exact hother.of_unbound ((hcompatible.settled v t hv w hw).resolve_left hbound)
    have hresult : result.lookup v = some (t.subst (outside base τ)) := by
      rw [hlookup, hv, ← hterm]
      rfl
    rw [← returns_succ_iff]
    simp only [Bindings.resolve_succ_of_lookup hresult, Term.subst_subst_eq]
    apply Bindings.returns_subst
    intro w hw
    by_cases hfree : base.lookup w = none
    · have hθ : θ w = .var w := by
        rw [← hbase.eq_of_resolve (ih w hw).1, hbase.of_unbound hfree]
      have hsame : (θ w).subst (outside base τ) = outside base τ w := by
        rw [hθ, Term.subst]
      rw [hsame]
      refine .of_forall (Bindings.substitute_of_unbound fun y hy => ?_)
      rw [outside, if_pos hfree] at hy
      rw [hlookup, free_of_containsVar hcompatible hother hfree hy,
        hother.unbound (t := .var w) hy]
      rfl
    · rw [outside, if_neg hfree]
      exact (ih w hw).2

end Compatible

section Within

variable {s s' : Bindings} {X : Set VarId} {t1 t2 r : Term} {fuel : ℕ}

/-- The bindings and their terms mention variables of `X` only. -/
def Bindings.Within (X : Set VarId) (s : Bindings) : Prop :=
  ∀ v t, s.lookup v = some t → v ∈ X ∧ ∀ w, t.containsVar w = true → w ∈ X

theorem within_empty : Bindings.Within X ∅ := by
  intro v t h
  simp at h

theorem Bindings.Within.resolve (h : s.Within X) (hv : v ∈ X) (hr : s.resolve fuel v = some r) :
    ∀ w, r.containsVar w = true → w ∈ X := by
  refine resolve_induction (s := s)
    (P := fun _ v r => v ∈ X → ∀ w, r.containsVar w = true → w ∈ X) ?_ ?_ hr hv
  · intro n v _ hv w hw
    rw [Term.containsVar, decide_eq_true_iff] at hw
    rwa [hw] at hv
  · intro n v t θ hbound ih hv w hw
    obtain ⟨x, hx, hw⟩ := Term.containsVar_subst.mp hw
    exact (ih x hx).2 ((h v t hbound).2 x hx) w hw

theorem Bindings.Within.substitute (h : s.Within X) (ht : ∀ w, t.containsVar w = true → w ∈ X)
    (hr : t.substitute s fuel = some r) : ∀ w, r.containsVar w = true → w ∈ X := by
  intro w hw
  obtain ⟨v, u, hv, hu, hw⟩ := Term.containsVar_of_traverse hr hw
  exact h.resolve (ht v hv) hu w hw

theorem Bindings.Within.insert (h : s.Within X) (hv : v ∈ X)
    (ht : ∀ w, t.containsVar w = true → w ∈ X) : Within X (s.insert v t) := by
  intro w u hlookup
  rw [lookup_insert_eq] at hlookup
  split at hlookup
  · next heq =>
    subst heq
    cases hlookup
    exact ⟨hv, ht⟩
  · exact h w u hlookup

theorem within_unifyPairs {unify : Term → Term → Bindings → Option (Option Bindings)}
    (hunify : ∀ t1 t2 s s', unify t1 t2 s = some (some s') → s.Within X →
      (∀ w, t1.containsVar w = true → w ∈ X) → (∀ w, t2.containsVar w = true → w ∈ X) →
      s'.Within X)
    {pairs : List (Term × Term)}
    (hpairs : ∀ p ∈ pairs, (∀ w, p.1.containsVar w = true → w ∈ X) ∧
      ∀ w, p.2.containsVar w = true → w ∈ X)
    (h : unifyPairs unify pairs s = some (some s')) (hs : s.Within X) : s'.Within X := by
  induction pairs generalizing s with
  | nil =>
    cases h
    exact hs
  | cons p pairs ih =>
    obtain ⟨result, hfirst, hrest⟩ := Option.bind_eq_some_iff.mp h
    rw [List.forall_mem_cons] at hpairs
    cases result with
    | none => cases hrest
    | some s₁ => exact ih hpairs.2 hrest (hunify _ _ _ _ hfirst hs hpairs.1.1 hpairs.1.2)

/-- Unification binds the variables of its arguments, to terms over these. -/
theorem within_unifyWithSub (h : unifyWithSub fuel t1 t2 s = some (some s')) (hs : s.Within X)
    (h1 : ∀ w, t1.containsVar w = true → w ∈ X) (h2 : ∀ w, t2.containsVar w = true → w ∈ X) :
    s'.Within X := by
  induction fuel generalizing t1 t2 s s' with
  | zero => cases h
  | succ fuel ih =>
    simp only [unifyWithSub, Option.bind_eq_bind, Option.bind_eq_some_iff] at h
    obtain ⟨u1, hu1, u2, hu2, h⟩ := h
    replace h1 := hs.substitute h1 hu1
    replace h2 := hs.substitute h2 hu2
    unfold unifyApplied at h
    split at h
    · cases h
      exact hs
    · split at h
      · next v _ =>
        split at h
        · cases h
        · cases h
          exact hs.insert (h1 v (by simp [Term.containsVar])) h2
      · next v _ _ =>
        split at h
        · cases h
        · cases h
          exact hs.insert (h2 v (by simp [Term.containsVar])) h1
      · next f1 args1 f2 args2 =>
        split at h
        · cases h
        · refine within_unifyPairs (fun _ _ _ _ h hs h1 h2 => ih h hs h1 h2) ?_ h hs
          intro p hp
          have hmem := List.of_mem_zip hp
          constructor
          · intro w hw
            apply h1
            rw [Term.containsVar, Term.containsVarAny_iff]
            exact ⟨_, hmem.1, hw⟩
          · intro w hw
            apply h2
            rw [Term.containsVar, Term.containsVarAny_iff]
            exact ⟨_, hmem.2, hw⟩
      · cases h

theorem within_unifyAtoms {f1 f2 : Formula} (h : unifyAtoms f1 f2 fuel = some (some s))
    (h1 : ∀ w, f1.freeIn w = true → w ∈ X) (h2 : ∀ w, f2.freeIn w = true → w ∈ X) :
    s.Within X := by
  unfold unifyAtoms at h
  split at h
  · split at h
    · cases h
    · refine within_unifyPairs (fun _ _ _ _ => within_unifyWithSub) ?_ h within_empty
      intro p hp
      have hmem := List.of_mem_zip hp
      constructor
      · intro w hw
        apply h1
        rw [Formula.freeIn, Term.containsVarAny_iff]
        exact ⟨_, hmem.1, hw⟩
      · intro w hw
        apply h2
        rw [Formula.freeIn, Term.containsVarAny_iff]
        exact ⟨_, hmem.2, hw⟩
  · cases h

/-- The lookups of a composition, as `returns_compose` gives them. -/
theorem within_of_lookup (hbase : base.Within X) (hother : other.Within X) (hτ : other.Resolves τ)
    (hlookup : ∀ v, result.lookup v = ((base.lookup v).map (Term.subst τ)).or (other.lookup v)) :
    result.Within X := by
  intro v t hv
  rw [hlookup] at hv
  cases hb : base.lookup v with
  | none =>
    rw [hb] at hv
    exact hother v t hv
  | some u =>
    rw [hb] at hv
    cases hv
    refine ⟨(hbase v u hb).1, ?_⟩
    obtain ⟨fuel, hfuel⟩ := (hτ.substitute u).exists_fuel
    exact hother.substitute (hbase v u hb).2 hfuel

/-- What mentions only variables that `base` leaves free is compatible with it, and resolves as it
does by itself. -/
theorem compatible_of_within (h : other.Within {v | base.lookup v = none}) :
    Compatible base other where
  apart v t _ hv w hw := (h v t hv).2 w hw
  settled v t _ w _ := by
    cases hw : other.lookup w with
    | none => exact .inr rfl
    | some u => exact .inl (h w u hw).1

theorem outside_of_within (h : other.Within {v | base.lookup v = none}) (hτ : other.Resolves τ) :
    outside base τ = τ := by
  funext v
  unfold outside
  split
  · rfl
  · next hbound =>
    refine (hτ.of_unbound ?_).symm
    cases hv : other.lookup v with
    | none => rfl
    | some u => exact absurd (h v u hv).1 hbound

end Within

end Qubitcoin.Aether.Logic
