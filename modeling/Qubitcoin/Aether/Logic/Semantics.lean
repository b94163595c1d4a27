import Qubitcoin.Aether.Logic.Compose

/-! First-order structures, and what a substitution does to the truth of a formula. -/

universe u

namespace Qubitcoin.Aether.Logic

open Fuel Substitution

structure Model (D : Type u) where
  constant : Symbol → D
  function : Symbol → List D → D
  predicate : Symbol → List D → Prop

abbrev Valuation (D : Type u) := VarId → D

variable {D : Type u} (M : Model D)

namespace Term

mutual

def eval (ρ : Valuation D) : Term → D
  | .var v => ρ v
  | .constant c => M.constant c
  | .compound f args => M.function f (evalAll ρ args)

def evalAll (ρ : Valuation D) : List Term → List D
  | [] => []
  | a :: args => eval ρ a :: evalAll ρ args

end

theorem evalAll_eq_map (ρ : Valuation D) (args : List Term) :
    evalAll M ρ args = args.map (eval M ρ) := by
  induction args with
  | nil => rfl
  | cons a args ih => rw [evalAll, ih, List.map_cons]

theorem eval_subst (ρ : Valuation D) (σ : VarId → Term) (t : Term) :
    (t.subst σ).eval M ρ = t.eval M fun v => (σ v).eval M ρ := by
  induction t with
  | var v => rfl
  | constant c => rfl
  | compound f args ih =>
    simp only [subst, eval, evalAll_eq_map, substAll_eq_map, List.map_map]
    congr 1
    exact List.map_congr_left ih

theorem eval_congr {ρ ρ' : Valuation D} {t : Term}
    (h : ∀ v, t.containsVar v = true → ρ v = ρ' v) : t.eval M ρ = t.eval M ρ' := by
  induction t with
  | var v => exact h v (by simp [containsVar])
  | constant c => rfl
  | compound f args ih =>
    simp only [eval, evalAll_eq_map]
    congr 1
    apply List.map_congr_left
    intro a ha
    apply ih a ha
    intro v hv
    apply h
    rw [containsVar, containsVarAny_iff]
    exact ⟨a, ha, hv⟩

end Term

namespace Formula

mutual

def Holds : Formula → Valuation D → Prop
  | .atom p args, ρ => M.predicate p (Term.evalAll M ρ args)
  | .not f, ρ => ¬Holds f ρ
  | .and fs, ρ => HoldsAll fs ρ
  | .or fs, ρ => HoldsAny fs ρ
  | .implies f g, ρ => Holds f ρ → Holds g ρ
  | .forAll v body, ρ => ∀ d, Holds body (Function.update ρ v d)
  | .exist v body, ρ => ∃ d, Holds body (Function.update ρ v d)

def HoldsAll : List Formula → Valuation D → Prop
  | [], _ => True
  | f :: fs, ρ => Holds f ρ ∧ HoldsAll fs ρ

def HoldsAny : List Formula → Valuation D → Prop
  | [], _ => False
  | f :: fs, ρ => Holds f ρ ∨ HoldsAny fs ρ

end

/-- The universal closure is true. -/
def Valid (f : Formula) : Prop := ∀ ρ, f.Holds M ρ

variable {M} {ρ ρ' : Valuation D} {f g : Formula} {fs : List Formula}

theorem holdsAll_iff : HoldsAll M fs ρ ↔ ∀ f ∈ fs, f.Holds M ρ := by
  induction fs with
  | nil => simp [HoldsAll]
  | cons f fs ih => rw [HoldsAll, ih, List.forall_mem_cons]

theorem holdsAny_iff : HoldsAny M fs ρ ↔ ∃ f ∈ fs, f.Holds M ρ := by
  induction fs with
  | nil => simp [HoldsAny]
  | cons f fs ih => rw [HoldsAny, ih, List.exists_mem_cons_iff]

theorem freeInAny_iff {v : VarId} : freeInAny v fs = true ↔ ∃ f ∈ fs, f.freeIn v = true := by
  induction fs with
  | nil => simp [freeInAny]
  | cons f fs ih => simp [freeInAny, ih]

/-- Only the free variables matter. -/
theorem holds_congr (h : ∀ v, f.freeIn v = true → ρ v = ρ' v) : f.Holds M ρ ↔ f.Holds M ρ' := by
  induction f generalizing ρ ρ' with
  | atom p args =>
    rw [Holds, Holds, Term.evalAll_eq_map, Term.evalAll_eq_map]
    have hargs : args.map (Term.eval M ρ) = args.map (Term.eval M ρ') := by
      apply List.map_congr_left
      intro a ha
      apply Term.eval_congr
      intro v hv
      apply h
      rw [freeIn, Term.containsVarAny_iff]
      exact ⟨a, ha, hv⟩
    rw [hargs]
  | not f ih => exact not_congr (ih h)
  | and fs ih =>
    rw [Holds, Holds, holdsAll_iff, holdsAll_iff]
    refine forall₂_congr fun f hf => ih f hf fun v hv => h v ?_
    rw [freeIn, freeInAny_iff]
    exact ⟨f, hf, hv⟩
  | or fs ih =>
    rw [Holds, Holds, holdsAny_iff, holdsAny_iff]
    refine exists_congr fun f => and_congr_right fun hf => ih f hf fun v hv => h v ?_
    rw [freeIn, freeInAny_iff]
    exact ⟨f, hf, hv⟩
  | implies f g ihf ihg =>
    refine imp_congr (ihf fun v hv => h v ?_) (ihg fun v hv => h v ?_)
    · rw [freeIn, hv, Bool.true_or]
    · rw [freeIn, hv, Bool.or_true]
  | forAll w body ih =>
    refine forall_congr' fun d => ih fun v hv => ?_
    by_cases hvw : v = w
    · subst hvw
      rw [Function.update_self, Function.update_self]
    · rw [Function.update_of_ne hvw, Function.update_of_ne hvw]
      exact h v (by simp [freeIn, hvw, hv])
  | exist w body ih =>
    refine exists_congr fun d => ih fun v hv => ?_
    by_cases hvw : v = w
    · subst hvw
      rw [Function.update_self, Function.update_self]
    · rw [Function.update_of_ne hvw, Function.update_of_ne hvw]
      exact h v (by simp [freeIn, hvw, hv])

theorem holds_negate (f : Formula) (ρ : Valuation D) : f.negate.Holds M ρ ↔ ¬f.Holds M ρ := by
  cases f with
  | not f => exact not_not.symm
  | atom | and | or | implies | forAll | exist => rfl

end Formula

/-- The universal closure of the formula is true wherever those of the premises are. -/
def Entails (premises : List Formula) (f : Formula) : Prop :=
  ∀ {D : Type u} (M : Model D), (∀ p ∈ premises, p.Valid M) → f.Valid M

/-- The values of the terms that `σ` puts in. -/
def Model.after (σ : VarId → Term) (ρ : Valuation D) : Valuation D := fun v => (σ v).eval M ρ

theorem Model.after_comp (σ τ : VarId → Term) (ρ : Valuation D) :
    M.after (comp σ τ) ρ = M.after σ (M.after τ ρ) := by
  funext v
  exact Term.eval_subst M ρ τ (σ v)

namespace Bindings

variable {s : Bindings} {σ σ' : VarId → Term} {v w : VarId} {fuel : ℕ} {r : Term}

theorem lookup_erase_eq (s : Bindings) (v w : VarId) :
    (s.erase v).lookup w = if w = v then none else s.lookup w := by
  by_cases h : w = v
  · subst h
    simp
  · simp [AList.lookup_erase_ne h, h]

/-- Without the binding of one variable the resolutions get shorter. -/
theorem exists_resolve_erase (v : VarId) (h : s.resolve fuel w = some r) :
    ∃ r', resolve (s.erase v) fuel w = some r' := by
  refine resolve_induction (s := s)
    (P := fun n w _ => ∃ r', resolve (s.erase v) n w = some r') ?_ ?_ h
  · intro n w hlookup
    refine ⟨.var w, resolve_of_lookup_none ?_ n⟩
    rw [lookup_erase_eq, hlookup, ite_self]
  · intro n w t θ hlookup ih
    by_cases hw : w = v
    · refine ⟨.var w, resolve_of_lookup_none ?_ _⟩
      rw [lookup_erase_eq, if_pos hw]
    · have hbound : (s.erase v).lookup w = some t := by rw [lookup_erase_eq, if_neg hw, hlookup]
      refine ⟨t.subst fun x => (resolve (s.erase v) n x).getD (.var x), ?_⟩
      rw [resolve_succ_of_lookup hbound]
      apply Term.traverse_eq_subst
      intro x hx
      obtain ⟨r', hr'⟩ := (ih x hx).2
      rw [hr']
      rfl

/-- A resolution that never meets the variable does not miss its binding. -/
theorem resolve_of_erase (h : resolve (s.erase v) fuel w = some r) (hv : r.containsVar v = false) :
    s.resolve fuel w = some r := by
  refine resolve_induction (s := s.erase v)
    (P := fun n w r => r.containsVar v = false → s.resolve n w = some r) ?_ ?_ h hv
  · intro n w hlookup hv
    apply resolve_of_lookup_none
    rw [lookup_erase_eq] at hlookup
    split at hlookup
    · next heq => simp [Term.containsVar, heq] at hv
    · exact hlookup
  · intro n w t θ hlookup ih hv
    rw [lookup_erase_eq] at hlookup
    split at hlookup
    · cases hlookup
    · rw [resolve_succ_of_lookup hlookup]
      apply Term.traverse_eq_subst
      intro x hx
      apply (ih x hx).2
      by_contra hcontains
      rw [Bool.not_eq_false] at hcontains
      rw [Term.containsVar_subst.mpr ⟨x, hx, hcontains⟩] at hv
      cases hv

theorem Resolves.erase (h : s.Resolves σ) (v : VarId) :
    ∃ σ', Resolves (s.erase v) σ' ∧ ∀ w, (σ' w).containsVar v = false → σ' w = σ w := by
  have hexists (w : VarId) : ∃ r, Returns (resolve (s.erase v) · w) r := by
    obtain ⟨fuel, hfuel⟩ := (h w).exists_fuel
    obtain ⟨r, hr⟩ := exists_resolve_erase v hfuel
    exact ⟨r, returns_resolve hr⟩
  choose σ' hσ' using hexists
  refine ⟨σ', hσ', fun w hw => ?_⟩
  obtain ⟨fuel, hfuel⟩ := (hσ' w).exists_fuel
  exact (h.eq_of_resolve (resolve_of_erase hfuel hw)).symm

end Bindings

namespace Formula

mutual

/-- Where the bindings go under a quantifier, they put in no term that its variable occurs in. -/
def CaptureFree : Formula → Bindings → Prop
  | .atom _ _, _ => True
  | .not f, s => CaptureFree f s
  | .and fs, s => CaptureFreeAll fs s
  | .or fs, s => CaptureFreeAll fs s
  | .implies f g, s => CaptureFree f s ∧ CaptureFree g s
  | .forAll v body, s => (∀ w, body.freeIn w = true → w ≠ v → ∀ fuel r,
      Bindings.resolve (s.erase v) fuel w = some r → r.containsVar v = false) ∧
      CaptureFree body (s.erase v)
  | .exist v body, s => (∀ w, body.freeIn w = true → w ≠ v → ∀ fuel r,
      Bindings.resolve (s.erase v) fuel w = some r → r.containsVar v = false) ∧
      CaptureFree body (s.erase v)

def CaptureFreeAll : List Formula → Bindings → Prop
  | [], _ => True
  | f :: fs, s => CaptureFree f s ∧ CaptureFreeAll fs s

end

variable {M} {f : Formula} {fs gs : List Formula} {s : Bindings} {σ : VarId → Term} {fuel : ℕ}

theorem captureFreeAll_iff : CaptureFreeAll fs s ↔ ∀ f ∈ fs, f.CaptureFree s := by
  induction fs with
  | nil => simp [CaptureFreeAll]
  | cons f fs ih => rw [CaptureFreeAll, ih, List.forall_mem_cons]

theorem substituteAll_eq_some :
    substituteAll fuel fs s = some gs ↔
      List.Forall₂ (fun f g => f.substitute fuel s = some g) fs gs := by
  induction fs generalizing gs with
  | nil => rw [substituteAll, List.forall₂_nil_left_iff, Option.some.injEq, eq_comm]
  | cons f fs ih =>
    simp only [substituteAll, Option.bind_eq_bind, Option.pure_def, Option.bind_eq_some_iff,
      Option.some.injEq, List.forall₂_cons_left_iff, ih]
    constructor
    · rintro ⟨g, hg, gs, hgs, rfl⟩
      exact ⟨g, gs, hg, hgs, rfl⟩
    · rintro ⟨g, gs, hg, hgs, rfl⟩
      exact ⟨g, hg, gs, hgs, rfl⟩

theorem exists_returns_all (ih : ∀ f ∈ fs, ∃ g, Returns (fun fuel => f.substitute fuel s) g) :
    ∃ gs, Returns (fun fuel => substituteAll fuel fs s) gs := by
  induction fs with
  | nil => exact ⟨[], returns_some _⟩
  | cons f fs ihfs =>
    rw [List.forall_mem_cons] at ih
    obtain ⟨g, hg⟩ := ih.1
    obtain ⟨gs, hgs⟩ := ihfs ih.2
    exact ⟨g :: gs, hg.bind (hgs.bind (returns_some _))⟩

/-- Substituting in a formula ends if following the bindings does. -/
theorem exists_returns_substitute (f : Formula) (hs : s.Resolves σ) :
    ∃ g, Returns (fun fuel => f.substitute fuel s) g := by
  induction f generalizing s σ with
  | atom p args =>
    refine ⟨.atom p (Term.substAll σ args), Returns.map ?_ rfl⟩
    filter_upwards [hs.eventually] with fuel hfuel
    rw [Term.traverseAll_eq_some, Term.substAll_eq_map, List.forall₂_map_right_iff,
      List.forall₂_same]
    exact fun a _ => Term.traverse_eq_subst fun v _ => hfuel v
  | not f ih =>
    obtain ⟨g, hg⟩ := ih hs
    exact ⟨.not g, hg.map rfl⟩
  | and fs ih =>
    obtain ⟨gs, hgs⟩ := exists_returns_all fun f hf => ih f hf hs
    exact ⟨.and gs, hgs.map rfl⟩
  | or fs ih =>
    obtain ⟨gs, hgs⟩ := exists_returns_all fun f hf => ih f hf hs
    exact ⟨.or gs, hgs.map rfl⟩
  | implies f g ihf ihg =>
    obtain ⟨f', hf⟩ := ihf hs
    obtain ⟨g', hg⟩ := ihg hs
    exact ⟨.implies f' g', hf.bind (hg.bind (returns_some _))⟩
  | forAll v body ih =>
    obtain ⟨σ', hσ', -⟩ := hs.erase v
    obtain ⟨g, hg⟩ := ih hσ'
    exact ⟨.forAll v g, hg.map rfl⟩
  | exist v body ih =>
    obtain ⟨σ', hσ', -⟩ := hs.erase v
    obtain ⟨g, hg⟩ := ih hσ'
    exact ⟨.exist v g, hg.map rfl⟩

/-- Under a quantifier the bindings without its variable put in what `σ` does, unless that
variable occurs in it. -/
theorem holds_under_binder {body body' : Formula} {v : VarId} {σ' : VarId → Term}
    (hσ' : Bindings.Resolves (s.erase v) σ') (hsame : ∀ w, (σ' w).containsVar v = false → σ' w = σ w)
    (hcapture : ∀ w, body.freeIn w = true → w ≠ v → ∀ fuel r,
      Bindings.resolve (s.erase v) fuel w = some r → r.containsVar v = false)
    (ih : ∀ ρ, body'.Holds M ρ ↔ body.Holds M (M.after σ' ρ)) (ρ : Valuation D) (d : D) :
    body'.Holds M (Function.update ρ v d) ↔ body.Holds M (Function.update (M.after σ ρ) v d) := by
  rw [ih]
  apply holds_congr
  intro w hw
  by_cases hwv : w = v
  · subst hwv
    have hvar : σ' w = .var w := hσ'.of_unbound (by simp)
    rw [Model.after, hvar, Term.eval, Function.update_self, Function.update_self]
  · have hfree : (σ' w).containsVar v = false := by
      obtain ⟨fuel, hfuel⟩ := (hσ' w).exists_fuel
      exact hcapture w hw hwv fuel _ hfuel
    rw [Model.after, Function.update_of_ne hwv, Model.after, ← hsame w hfree]
    apply Term.eval_congr
    intro x hx
    apply Function.update_of_ne
    rintro rfl
    rw [hfree] at hx
    cases hx

theorem forall₂_of_mem {R R' : Formula → Formula → Prop} (h : List.Forall₂ R fs gs)
    (himp : ∀ f ∈ fs, ∀ g, R f g → R' f g) : List.Forall₂ R' fs gs := by
  induction h with
  | nil => exact .nil
  | cons hfg _ ih =>
    rw [List.forall_mem_cons] at himp
    exact .cons (himp.1 _ hfg) (ih himp.2)

theorem holdsAll_congr {ρ ρ' : Valuation D}
    (h : List.Forall₂ (fun f g => g.Holds M ρ ↔ f.Holds M ρ') fs gs) :
    HoldsAll M gs ρ ↔ HoldsAll M fs ρ' := by
  induction h with
  | nil => rfl
  | cons hfg _ ih => exact and_congr hfg ih

theorem holdsAny_congr {ρ ρ' : Valuation D}
    (h : List.Forall₂ (fun f g => g.Holds M ρ ↔ f.Holds M ρ') fs gs) :
    HoldsAny M gs ρ ↔ HoldsAny M fs ρ' := by
  induction h with
  | nil => rfl
  | cons hfg _ ih => exact or_congr hfg ih

/-- A substitution that captures no variable: the formula holds of the values of the terms. -/
theorem holds_substitute {g : Formula} (hs : s.Resolves σ) (hg : f.substitute fuel s = some g)
    (hcapture : f.CaptureFree s) (ρ : Valuation D) : g.Holds M ρ ↔ f.Holds M (M.after σ ρ) := by
  induction f generalizing s σ g ρ with
  | atom p args =>
    obtain ⟨args', hargs, rfl⟩ := Option.map_eq_some_iff.mp hg
    rw [Term.traverseAll_eq_some] at hargs
    have heq : args.map (Term.subst σ) = args' := by
      rw [← List.forall₂_eq_eq_eq, List.forall₂_map_left_iff]
      exact hargs.imp fun a a' ha => hs.eq_of_substitute ha
    rw [Holds, Holds, ← heq, Term.evalAll_eq_map, Term.evalAll_eq_map, List.map_map]
    have hvalues : Term.eval M ρ ∘ Term.subst σ = Term.eval M (M.after σ ρ) := by
      funext a
      exact Term.eval_subst M ρ σ a
    rw [hvalues]
  | not f ih =>
    obtain ⟨g, hbody, rfl⟩ := Option.map_eq_some_iff.mp hg
    exact not_congr (ih hs hbody hcapture ρ)
  | and fs ih =>
    obtain ⟨gs, hgs, rfl⟩ := Option.map_eq_some_iff.mp hg
    rw [substituteAll_eq_some] at hgs
    apply holdsAll_congr
    exact forall₂_of_mem hgs fun f hf g hg =>
      ih f hf hs hg (captureFreeAll_iff.mp hcapture f hf) ρ
  | or fs ih =>
    obtain ⟨gs, hgs, rfl⟩ := Option.map_eq_some_iff.mp hg
    rw [substituteAll_eq_some] at hgs
    apply holdsAny_congr
    exact forall₂_of_mem hgs fun f hf g hg =>
      ih f hf hs hg (captureFreeAll_iff.mp hcapture f hf) ρ
  | implies f₁ f₂ ih₁ ih₂ =>
    simp only [substitute, Option.bind_eq_bind, Option.pure_def, Option.bind_eq_some_iff,
      Option.some.injEq] at hg
    obtain ⟨g₁, hg₁, g₂, hg₂, rfl⟩ := hg
    exact imp_congr (ih₁ hs hg₁ hcapture.1 ρ) (ih₂ hs hg₂ hcapture.2 ρ)
  | forAll v body ih =>
    obtain ⟨g, hbody, rfl⟩ := Option.map_eq_some_iff.mp hg
    obtain ⟨σ', hσ', hsame⟩ := hs.erase v
    exact forall_congr' fun d =>
      holds_under_binder hσ' hsame hcapture.1 (ih hσ' hbody hcapture.2) ρ d
  | exist v body ih =>
    obtain ⟨g, hbody, rfl⟩ := Option.map_eq_some_iff.mp hg
    obtain ⟨σ', hσ', hsame⟩ := hs.erase v
    exact exists_congr fun d =>
      holds_under_binder hσ' hsame hcapture.1 (ih hσ' hbody hcapture.2) ρ d

/-- Ground terms capture nothing. -/
theorem captureFree_of_ground (f : Formula)
    (h : ∀ v t, s.lookup v = some t → t.isGround = true) : f.CaptureFree s := by
  have hresolved (s : Bindings) (h : ∀ v t, s.lookup v = some t → t.isGround = true)
      (v w : VarId) (hne : w ≠ v) (fuel : ℕ) (r : Term) (hr : s.resolve fuel w = some r) :
      r.containsVar v = false := by
    obtain ⟨-, rfl⟩ | ⟨t, n, -, hlookup, hsub⟩ := Bindings.resolve_eq_some hr
    · simpa [Term.containsVar] using hne
    · have hground := Term.isGround_iff.mp (h w t hlookup)
      rw [Bindings.substitute_of_unbound (fun x hx => by simp [hground x] at hx)] at hsub
      rw [← Option.some.inj hsub]
      exact hground v
  have herase (s : Bindings) (h : ∀ v t, s.lookup v = some t → t.isGround = true) (v : VarId) :
      ∀ w t, (s.erase v).lookup w = some t → t.isGround = true := by
    intro w t hlookup
    rw [Bindings.lookup_erase_eq] at hlookup
    split at hlookup
    · cases hlookup
    · exact h w t hlookup
  induction f generalizing s with
  | atom p args => trivial
  | not f ih => exact ih h
  | and fs ih => exact captureFreeAll_iff.mpr fun f hf => ih f hf h
  | or fs ih => exact captureFreeAll_iff.mpr fun f hf => ih f hf h
  | implies f g ihf ihg => exact ⟨ihf h, ihg h⟩
  | forAll v body ih =>
    exact ⟨fun w _ hne => hresolved _ (herase s h v) v w hne, ih (herase s h v)⟩
  | exist v body ih =>
    exact ⟨fun w _ hne => hresolved _ (herase s h v) v w hne, ih (herase s h v)⟩

end Formula

end Qubitcoin.Aether.Logic
