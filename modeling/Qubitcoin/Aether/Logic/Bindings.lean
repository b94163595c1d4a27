import Qubitcoin.Aether.Logic.Term
import Qubitcoin.Library.Fuel

/-! Bindings that can be followed to the end, and what they substitute. -/

namespace Qubitcoin.Aether.Logic

open Filter Fuel Substitution

namespace Term

section Traverse

variable {f g : VarId → Option Term} {t r : Term} {args rs : List Term} {θ : VarId → Term}

theorem traverseAll_eq_some :
    traverseAll f args = some rs ↔ List.Forall₂ (fun a r => a.traverse f = some r) args rs := by
  induction args generalizing rs with
  | nil =>
    rw [traverseAll, List.forall₂_nil_left_iff, Option.some.injEq, eq_comm]
  | cons a args ih =>
    simp only [traverseAll, Option.bind_eq_bind, Option.pure_def, Option.bind_eq_some_iff,
      Option.some.injEq, List.forall₂_cons_left_iff, ih]
    constructor
    · rintro ⟨b, hb, bs, hbs, rfl⟩
      exact ⟨b, bs, hb, hbs, rfl⟩
    · rintro ⟨b, bs, hb, hbs, rfl⟩
      exact ⟨b, hb, bs, hbs, rfl⟩

theorem exists_of_traverseAll (h : traverseAll f args = some rs) :
    ∀ a ∈ args, ∃ r, a.traverse f = some r := by
  rw [traverseAll_eq_some] at h
  induction h with
  | nil => exact nofun
  | cons hr _ ih => exact List.forall_mem_cons.mpr ⟨⟨_, hr⟩, ih⟩

/-- If what stands for every variable that occurs has an answer, so has the term. -/
theorem traverse_subst {σ : VarId → Term}
    (h : ∀ v, t.containsVar v = true → (σ v).traverse f = some (θ v)) :
    (t.subst σ).traverse f = some (t.subst θ) := by
  induction t with
  | var v => exact h v (by simp [containsVar])
  | constant c => rfl
  | compound g args ih =>
    rw [subst, subst, traverse, Option.map_eq_some_iff]
    refine ⟨_, ?_, rfl⟩
    rw [traverseAll_eq_some, substAll_eq_map, substAll_eq_map, List.forall₂_map_left_iff,
      List.forall₂_map_right_iff, List.forall₂_same]
    intro a ha
    apply ih a ha
    intro v hv
    apply h
    rw [containsVar, containsVarAny_iff]
    exact ⟨a, ha, hv⟩

theorem traverse_eq_subst (h : ∀ v, t.containsVar v = true → f v = some (θ v)) :
    t.traverse f = some (t.subst θ) := by
  have hsubst := @traverse_subst f t θ Term.var h
  rwa [subst_var_eq] at hsubst

theorem exists_of_traverse (h : t.traverse f = some r) (v : VarId)
    (hv : t.containsVar v = true) : ∃ u, f v = some u := by
  induction t generalizing r with
  | var w =>
    rw [containsVar, decide_eq_true_iff] at hv
    exact ⟨r, hv ▸ h⟩
  | constant c => cases hv
  | compound g args ih =>
    rw [traverse, Option.map_eq_some_iff] at h
    obtain ⟨rs, hrs, -⟩ := h
    rw [containsVar, containsVarAny_iff] at hv
    obtain ⟨a, ha, hv⟩ := hv
    obtain ⟨r, hr⟩ := exists_of_traverseAll hrs a ha
    exact ih a ha hr hv

/-- The answer of a term is the answers of its variables put in. -/
theorem traverse_eq_some_iff :
    t.traverse f = some r ↔
      ∃ θ : VarId → Term, (∀ v, t.containsVar v = true → f v = some (θ v)) ∧ r = t.subst θ := by
  constructor
  · intro h
    have hanswers (v : VarId) (hv : t.containsVar v = true) : f v = some ((f v).getD (.var v)) := by
      obtain ⟨u, hu⟩ := exists_of_traverse h v hv
      rw [hu]
      rfl
    refine ⟨_, hanswers, ?_⟩
    rw [traverse_eq_subst hanswers] at h
    exact (Option.some.inj h).symm
  · rintro ⟨θ, hθ, rfl⟩
    exact traverse_eq_subst hθ

/-- Answers that `g` gives where `f` gives one, up to a substitution. -/
theorem traverse_mono (h : ∀ v u, t.containsVar v = true → f v = some u → g v = some (u.subst θ))
    (hf : t.traverse f = some r) : t.traverse g = some (r.subst θ) := by
  obtain ⟨σ, hσ, rfl⟩ := traverse_eq_some_iff.mp hf
  rw [subst_subst_eq]
  exact traverse_eq_subst fun v hv => h v (σ v) hv (hσ v hv)

theorem containsVar_of_traverse (h : t.traverse f = some r) {w : VarId}
    (hw : r.containsVar w = true) :
    ∃ v u, t.containsVar v = true ∧ f v = some u ∧ u.containsVar w = true := by
  obtain ⟨σ, hσ, rfl⟩ := traverse_eq_some_iff.mp h
  obtain ⟨v, hv, hw⟩ := containsVar_subst.mp hw
  exact ⟨v, σ v, hv, hσ v hv, hw⟩

end Traverse

end Term

namespace Bindings

variable {s s' : Bindings} {σ τ : VarId → Term} {v w : VarId} {t r u : Term} {fuel : ℕ}

theorem resolve_of_lookup_none (h : s.lookup v = none) (fuel : ℕ) :
    s.resolve fuel v = some (.var v) := by
  cases fuel with
  | zero => simp [resolve, h]
  | succ fuel => simp [resolve, h]

theorem resolve_succ_of_lookup (h : s.lookup v = some t) (fuel : ℕ) :
    s.resolve (fuel + 1) v = t.substitute s fuel := by
  simp [resolve, h, Term.substitute]

/-- What has an answer has no binding, or one with an answer in less fuel. -/
theorem resolve_eq_some (h : s.resolve fuel v = some r) :
    (s.lookup v = none ∧ r = .var v) ∨
      ∃ t n, fuel = n + 1 ∧ s.lookup v = some t ∧ t.substitute s n = some r := by
  cases hlookup : s.lookup v with
  | none =>
    rw [resolve_of_lookup_none hlookup] at h
    exact .inl ⟨rfl, (Option.some.inj h).symm⟩
  | some t =>
    cases fuel with
    | zero => simp [resolve, hlookup] at h
    | succ n =>
      rw [resolve_succ_of_lookup hlookup] at h
      exact .inr ⟨t, n, rfl, rfl, h⟩

/-- The induction over the bindings that a resolution follows. -/
theorem resolve_induction {P : ℕ → VarId → Term → Prop}
    (unbound : ∀ fuel v, s.lookup v = none → P fuel v (.var v))
    (bound : ∀ fuel v t (θ : VarId → Term), s.lookup v = some t →
      (∀ w, t.containsVar w = true → s.resolve fuel w = some (θ w) ∧ P fuel w (θ w)) →
      P (fuel + 1) v (t.subst θ))
    (h : s.resolve fuel v = some r) : P fuel v r := by
  induction fuel generalizing v r with
  | zero =>
    obtain ⟨hlookup, rfl⟩ | ⟨_, _, hzero, _⟩ := resolve_eq_some h
    · exact unbound 0 v hlookup
    · cases hzero
  | succ fuel ih =>
    obtain ⟨hlookup, rfl⟩ | ⟨t, n, hn, hlookup, hsub⟩ := resolve_eq_some h
    · exact unbound _ v hlookup
    · cases hn
      obtain ⟨θ, hθ, rfl⟩ := Term.traverse_eq_some_iff.mp hsub
      exact bound fuel v t θ hlookup fun w hw => ⟨hθ w hw, ih (hθ w hw)⟩

theorem resolve_mono (h : s.resolve fuel v = some r) {fuel' : ℕ} (hle : fuel ≤ fuel') :
    s.resolve fuel' v = some r := by
  refine resolve_induction (s := s)
    (P := fun n v r => ∀ m, n ≤ m → s.resolve m v = some r) ?_ ?_ h fuel' hle
  · exact fun n v hlookup m _ => resolve_of_lookup_none hlookup m
  · intro n v t θ hlookup ih m hle
    obtain ⟨m, rfl⟩ : ∃ k, m = k + 1 := ⟨m - 1, by omega⟩
    rw [resolve_succ_of_lookup hlookup]
    exact Term.traverse_eq_subst fun w hw => (ih w hw).2 m (by omega)

theorem returns_resolve {n : ℕ} (h : s.resolve n v = some r) : Returns (s.resolve · v) r :=
  returns_of_mono (fun _ _ hle h => resolve_mono h hle) h

theorem substitute_mono (h : t.substitute s fuel = some r) {fuel' : ℕ} (hle : fuel ≤ fuel') :
    t.substitute s fuel' = some r := by
  obtain ⟨θ, hθ, rfl⟩ := Term.traverse_eq_some_iff.mp h
  exact Term.traverse_eq_subst fun v hv => resolve_mono (hθ v hv) hle

/-- Following the bindings ends at every variable, with the value of `σ`. -/
def Resolves (s : Bindings) (σ : VarId → Term) : Prop := ∀ v, Returns (s.resolve · v) (σ v)

theorem resolves_empty : Resolves ∅ Term.var := by
  intro v
  exact .of_forall (resolve_of_lookup_none (AList.lookup_empty v))

theorem Resolves.eq_of_resolve (h : s.Resolves σ) (hv : s.resolve fuel v = some r) : σ v = r :=
  (h v).unique (returns_resolve hv)

theorem Resolves.unique (h : s.Resolves σ) (h' : s.Resolves τ) : σ = τ := by
  funext v
  exact (h v).unique (h' v)

theorem Resolves.eventually (h : s.Resolves σ) :
    ∀ᶠ fuel in atTop, ∀ v, s.resolve fuel v = some (σ v) :=
  returns_all.mp h

theorem Resolves.substitute (h : s.Resolves σ) (t : Term) :
    Returns (t.substitute s) (t.subst σ) := by
  filter_upwards [h.eventually] with fuel hfuel
  exact Term.traverse_eq_subst fun v _ => hfuel v

theorem Resolves.eq_of_substitute (h : s.Resolves σ) (ht : t.substitute s fuel = some r) :
    t.subst σ = r :=
  (h.substitute t).unique (returns_of_mono (fun _ _ hle h => substitute_mono h hle) ht)

/-- A substitution of terms that are resolved afterwards. -/
theorem returns_subst (h : ∀ w, t.containsVar w = true → Returns ((σ w).substitute s) (τ w)) :
    Returns ((t.subst σ).substitute s) (t.subst τ) := by
  have hall : ∀ᶠ fuel in atTop, ∀ w, t.containsVar w = true →
      (σ w).substitute s fuel = some (τ w) :=
    eventually_all.mpr fun w => eventually_imp_distrib_left.mpr (h w)
  filter_upwards [hall] with fuel hfuel
  exact Term.traverse_subst hfuel

theorem Resolves.of_unbound (h : s.Resolves σ) (hv : s.lookup v = none) : σ v = .var v :=
  h.eq_of_resolve (resolve_of_lookup_none hv 0)

theorem Resolves.of_bound (h : s.Resolves σ) (hv : s.lookup v = some t) : σ v = t.subst σ := by
  obtain ⟨fuel, hfuel⟩ := (h.substitute t).exists_fuel
  rw [← resolve_succ_of_lookup hv] at hfuel
  exact h.eq_of_resolve hfuel

/-- A resolution leaves no variable that has a binding. -/
theorem unbound_of_resolve (h : s.resolve fuel v = some r) (hw : r.containsVar w = true) :
    s.lookup w = none := by
  refine resolve_induction (s := s)
    (P := fun _ _ r => r.containsVar w = true → s.lookup w = none) ?_ ?_ h hw
  · intro n v hlookup hw
    rw [Term.containsVar, decide_eq_true_iff] at hw
    rwa [hw] at hlookup
  · intro n v t θ hlookup ih hw
    obtain ⟨x, hx, hw⟩ := Term.containsVar_subst.mp hw
    exact (ih x hx).2 hw

theorem Resolves.unbound (h : s.Resolves σ) (hw : (t.subst σ).containsVar w = true) :
    s.lookup w = none := by
  obtain ⟨v, -, hw⟩ := Term.containsVar_subst.mp hw
  obtain ⟨fuel, hfuel⟩ := (h v).exists_fuel
  exact unbound_of_resolve hfuel hw

theorem Resolves.subst_subst (h : s.Resolves σ) (t : Term) : (t.subst σ).subst σ = t.subst σ := by
  rw [← Term.subst_var_eq (t.subst σ), Term.subst_subst_eq]
  apply Term.subst_congr
  intro w hw
  exact h.of_unbound (h.unbound hw)

theorem Resolves.after_self (h : s.Resolves σ) : After σ σ := fun v => h.subst_subst (.var v)

/-- What comes after the resolution solves the bindings read as equations. -/
theorem Resolves.after_iff {θ : VarId → Term} (h : s.Resolves σ) :
    After θ σ ↔ ∀ v t, s.lookup v = some t → θ v = t.subst θ := by
  constructor
  · intro hafter v t hv
    rw [← hafter v, h.of_bound hv]
    exact hafter.subst_subst t
  · intro hsolves v
    obtain ⟨fuel, hfuel⟩ := (h v).exists_fuel
    refine resolve_induction (s := s) (P := fun _ v r => r.subst θ = θ v) ?_ ?_ hfuel
    · exact fun _ _ _ => rfl
    · intro n v t ρ hlookup ih
      rw [hsolves v t hlookup, Term.subst_subst_eq]
      exact Term.subst_congr fun w hw => (ih w hw).2

theorem lookup_insert_eq (s : Bindings) (v w : VarId) (t : Term) :
    (s.insert v t).lookup w = if w = v then some t else s.lookup w := by
  by_cases h : w = v
  · subst h
    simp
  · simp [AList.lookup_insert_ne h, h]

/-- A term whose variables have no bindings is left as it is. -/
theorem substitute_of_unbound (h : ∀ v, t.containsVar v = true → s.lookup v = none) (fuel : ℕ) :
    t.substitute s fuel = some t := by
  have hself := Term.traverse_eq_subst fun v hv => resolve_of_lookup_none (h v hv) fuel
  rwa [Term.subst_var_eq] at hself

/-- A new binding of a free variable to a term over other free variables. -/
theorem Resolves.insert (h : s.Resolves σ) (hv : s.lookup v = none) (ht : t.containsVar v = false)
    (hfree : ∀ w, t.containsVar w = true → s.lookup w = none) :
    Resolves (s.insert v t) (comp σ (single v t)) := by
  intro w
  obtain ⟨fuel, hfuel⟩ := (h w).exists_fuel
  refine returns_resolve (n := fuel + 1) ?_
  refine resolve_induction (s := s)
    (P := fun n w r => resolve (s.insert v t) (n + 1) w = some (r.subst (single v t))) ?_ ?_ hfuel
  · intro n w hlookup
    by_cases hw : w = v
    · subst hw
      rw [resolve_succ_of_lookup (t := t) (by simp), Term.subst, single, Function.update_self]
      apply substitute_of_unbound
      intro x hx
      have hne : x ≠ w := by
        rintro rfl
        rw [ht] at hx
        cases hx
      rw [lookup_insert_eq, if_neg hne]
      exact hfree x hx
    · rw [resolve_of_lookup_none (by rw [lookup_insert_eq, if_neg hw, hlookup]), Term.subst, single,
        Function.update_of_ne hw]
      rfl
  · intro n w b θ hlookup ih
    have hne : w ≠ v := by
      rintro rfl
      rw [hv] at hlookup
      cases hlookup
    have hinsert : (s.insert v t).lookup w = some b := by
      rw [lookup_insert_eq, if_neg hne, hlookup]
    rw [resolve_succ_of_lookup hinsert, Term.subst_subst_eq]
    exact Term.traverse_eq_subst fun x hx => (ih x hx).2

end Bindings

end Qubitcoin.Aether.Logic
