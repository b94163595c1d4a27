import Qubitcoin.Aether.Logic.Semantics

/-! The inference rules, from `inference.rs`, and when they are sound. -/

universe u

namespace Qubitcoin.Aether.Logic

open Fuel Substitution

structure Derivation where
  conclusion : Formula
  substitution : Bindings
  ruleName : String

/-- `?` on an answer, below the option of the fuel. -/
def andThen {α β : Type} (answer : Option (Option α)) (f : α → Option (Option β)) :
    Option (Option β) :=
  answer.bind fun
    | some a => f a
    | none => some none

/-- The loop over the conjuncts, each under the bindings composed so far. -/
def unifyConjuncts (unify : Formula → Formula → Option (Option Bindings)) (fuel : ℕ) :
    List (Formula × Formula) → Bindings → Option (Option Bindings)
  | [], sub => some (some sub)
  | (a, b) :: pairs, sub =>
    (a.substitute fuel sub).bind fun a =>
      (b.substitute fuel sub).bind fun b =>
        andThen (unify a b) fun other =>
          (compose sub other fuel).bind fun sub => unifyConjuncts unify fuel pairs sub

def unifyFormulas : ℕ → Formula → Formula → Option (Option Bindings)
  | 0, _, _ => none
  | fuel + 1, .atom p1 args1, .atom p2 args2 => unifyAtoms (.atom p1 args1) (.atom p2 args2) fuel
  | fuel + 1, .and fs1, .and fs2 =>
    if fs1.length = fs2.length then
      unifyConjuncts (unifyFormulas fuel) fuel (fs1.zip fs2) ∅
    else some none
  | _ + 1, _, _ => some none

def modusPonens (premise implication : Formula) (fuel : ℕ) : Option (Option Derivation) :=
  match implication with
  | .implies antecedent consequent =>
    andThen (unifyFormulas fuel premise antecedent) fun sub =>
      (consequent.substitute fuel sub).map fun conclusion =>
        some
          { conclusion := conclusion
            substitution := sub
            ruleName := "modus_ponens" }
  | _ => some none

def modusTollens (negatedConsequent implication : Formula) (fuel : ℕ) :
    Option (Option Derivation) :=
  match negatedConsequent, implication with
  | .not q, .implies antecedent consequent =>
    andThen (unifyFormulas fuel q consequent) fun sub =>
      (antecedent.substitute fuel sub).map fun conclusion =>
        some
          { conclusion := conclusion.negate
            substitution := sub
            ruleName := "modus_tollens" }
  | _, _ => some none

def universalInstantiation (quantified : Formula) (term : Term) (fuel : ℕ) :
    Option (Option Formula) :=
  match quantified with
  | .forAll var body => (body.substitute fuel (AList.insert var term ∅)).map some
  | _ => some none

def tryResolvePair (lit1 lit2 : Formula) (fuel : ℕ) : Option (Option Bindings) :=
  match lit1, lit2 with
  | lit1, .not inner2 => unifyFormulas fuel lit1 inner2
  | .not inner1, lit2 => unifyFormulas fuel inner1 lit2
  | _, _ => some none

/-- The disjunction of the literals; no literal is left as the empty conjunction. -/
def resolvent : List Formula → Formula
  | [] => .and []
  | [f] => f
  | fs => .or fs

/-- The pairs of places in two clauses, in the order of the loops. -/
def places (clause1 clause2 : List Formula) : List (ℕ × ℕ) :=
  (List.range clause1.length).flatMap fun i => (List.range clause2.length).map fun j => (i, j)

/-- The first pair of literals that resolves. -/
def resolvePairs (clause1 clause2 : List Formula) (fuel : ℕ) :
    List (ℕ × ℕ) → Option (Option Derivation)
  | [] => some none
  | (i, j) :: pairs =>
    match clause1[i]?, clause2[j]? with
    | some lit1, some lit2 =>
      (tryResolvePair lit1 lit2 fuel).bind fun
        | some sub =>
          (Formula.substituteAll fuel (clause1.eraseIdx i ++ clause2.eraseIdx j) sub).map fun fs =>
            some
              { conclusion := resolvent fs
                substitution := sub
                ruleName := "resolution" }
        | none => resolvePairs clause1 clause2 fuel pairs
    | _, _ => resolvePairs clause1 clause2 fuel pairs

def resolution (clause1 clause2 : List Formula) (fuel : ℕ) : Option (Option Derivation) :=
  resolvePairs clause1 clause2 fuel (places clause1 clause2)

def hypotheticalSyllogism (imp1 imp2 : Formula) (fuel : ℕ) : Option (Option Derivation) :=
  match imp1, imp2 with
  | .implies a b, .implies b' c =>
    andThen (unifyFormulas fuel b b') fun sub =>
      (a.substitute fuel sub).bind fun a =>
        (c.substitute fuel sub).map fun c =>
          some
            { conclusion := .implies a c
              substitution := sub
              ruleName := "hypothetical_syllogism" }
  | _, _ => some none

end Qubitcoin.Aether.Logic

/-! What a unifier of two formulas, found conjunct by conjunct, says about them. -/

namespace Qubitcoin.Aether.Logic

open Filter Fuel Substitution

namespace Formula

mutual

/-- The conjunctions inside one another. -/
def nesting : Formula → ℕ
  | .and fs => nestingAll fs + 1
  | .atom _ _ | .not _ | .or _ | .implies _ _ | .forAll _ _ | .exist _ _ => 0

def nestingAll : List Formula → ℕ
  | [] => 0
  | f :: fs => max (nesting f) (nestingAll fs)

end

mutual

/-- Atoms and conjunctions of these, the formulas that unify. -/
def isConjunctive : Formula → Bool
  | .atom _ _ => true
  | .and fs => isConjunctiveAll fs
  | .not _ | .or _ | .implies _ _ | .forAll _ _ | .exist _ _ => false

def isConjunctiveAll : List Formula → Bool
  | [] => true
  | f :: fs => isConjunctive f && isConjunctiveAll fs

end

section Shape

variable {f g : Formula} {fs gs : List Formula} {s : Bindings} {fuel : ℕ}

theorem nesting_lt_of_mem (h : f ∈ fs) : f.nesting < (Formula.and fs).nesting := by
  rw [nesting, Nat.lt_add_one_iff]
  induction h with
  | head fs => exact le_max_left _ _
  | tail _ _ ih => exact ih.trans (le_max_right _ _)

theorem isConjunctiveAll_iff : isConjunctiveAll fs = true ↔ ∀ f ∈ fs, f.isConjunctive = true := by
  induction fs with
  | nil => simp [isConjunctiveAll]
  | cons f fs ih => simp [isConjunctiveAll, ih]

theorem shape_substitute (h : f.substitute fuel s = some g) :
    g.nesting = f.nesting ∧ g.isConjunctive = f.isConjunctive := by
  induction f generalizing g with
  | atom p args | not f | or fs | forAll v body | exist v body =>
    obtain ⟨_, -, rfl⟩ := Option.map_eq_some_iff.mp h
    exact ⟨rfl, rfl⟩
  | implies f₁ f₂ =>
    simp only [substitute, Option.bind_eq_bind, Option.pure_def, Option.bind_eq_some_iff,
      Option.some.injEq] at h
    obtain ⟨_, -, _, -, rfl⟩ := h
    exact ⟨rfl, rfl⟩
  | and fs ih =>
    obtain ⟨gs, hgs, rfl⟩ := Option.map_eq_some_iff.mp h
    rw [substituteAll_eq_some] at hgs
    rw [nesting, nesting, Nat.add_right_cancel_iff, isConjunctive, isConjunctive]
    clear h
    induction hgs with
    | nil => exact ⟨rfl, rfl⟩
    | cons hg _ ihfs =>
      rw [List.forall_mem_cons] at ih
      simp only [nestingAll, isConjunctiveAll, ih.1 hg, ihfs ih.2, and_self]

theorem captureFree_of_isConjunctive (h : f.isConjunctive = true) (s : Bindings) :
    f.CaptureFree s := by
  induction f with
  | atom p args => trivial
  | and fs ih =>
    exact captureFreeAll_iff.mpr fun f hf => ih f hf (isConjunctiveAll_iff.mp h f hf)
  | not | or | implies | forAll | exist => cases h

theorem exists_of_forall₂_right {α β : Type} {R : α → β → Prop} {as : List α} {bs : List β}
    (h : List.Forall₂ R as bs) {b : β} (hb : b ∈ bs) : ∃ a ∈ as, R a b := by
  induction h with
  | nil => cases hb
  | cons hr _ ih =>
    cases hb with
    | head => exact ⟨_, List.mem_cons_self, hr⟩
    | tail _ hb =>
      obtain ⟨a, ha, hr⟩ := ih hb
      exact ⟨a, List.mem_cons_of_mem _ ha, hr⟩

theorem free_under_binder {v w : VarId} {body body' : Formula}
    (ih : body'.freeIn w = true → (s.erase v).lookup w = none ∧
      ∀ X : Set VarId, Bindings.Within X (s.erase v) → (∀ x, body.freeIn x = true → x ∈ X) → w ∈ X)
    (hw : (w ≠ v && body'.freeIn w) = true) :
    s.lookup w = none ∧ ∀ X : Set VarId, s.Within X →
      (∀ x, (x ≠ v && body.freeIn x) = true → x ∈ X) → w ∈ X := by
  simp only [Bool.and_eq_true, decide_eq_true_iff] at hw ⊢
  obtain ⟨hnone, hwithin⟩ := ih hw.2
  rw [Bindings.lookup_erase_eq, if_neg hw.1] at hnone
  refine ⟨hnone, fun X hs hX => ?_⟩
  have hmem := hwithin (insert v X) ?_ ?_
  · exact hmem.resolve_left hw.1
  · intro x t hx
    rw [Bindings.lookup_erase_eq] at hx
    split at hx
    · cases hx
    · exact ⟨.inr (hs x t hx).1, fun y hy => .inr ((hs x t hx).2 y hy)⟩
  · intro x hx
    by_cases hne : x = v
    · exact .inl hne
    · exact .inr (hX x ⟨hne, hx⟩)

/-- What is left free has no binding, and occurred in the formula or in a term put in. -/
theorem freeIn_substitute {w : VarId} (hg : f.substitute fuel s = some g)
    (hw : g.freeIn w = true) :
    s.lookup w = none ∧ ∀ X : Set VarId, s.Within X → (∀ v, f.freeIn v = true → v ∈ X) → w ∈ X := by
  induction f generalizing g s with
  | atom p args =>
    obtain ⟨args', hargs, rfl⟩ := Option.map_eq_some_iff.mp hg
    rw [Term.traverseAll_eq_some] at hargs
    rw [freeIn, Term.containsVarAny_iff] at hw
    obtain ⟨a', ha', hw⟩ := hw
    obtain ⟨a, ha, heq⟩ := exists_of_forall₂_right hargs ha'
    obtain ⟨v, u, hv, hu, hwu⟩ := Term.containsVar_of_traverse heq hw
    refine ⟨Bindings.unbound_of_resolve hu hwu, fun X hs hX => hs.resolve (hX v ?_) hu w hwu⟩
    rw [freeIn, Term.containsVarAny_iff]
    exact ⟨a, ha, hv⟩
  | not f ih =>
    obtain ⟨g, hbody, rfl⟩ := Option.map_eq_some_iff.mp hg
    exact ih hbody hw
  | and fs ih =>
    obtain ⟨gs, hgs, rfl⟩ := Option.map_eq_some_iff.mp hg
    rw [substituteAll_eq_some] at hgs
    obtain ⟨g, hmem, hw⟩ := freeInAny_iff.mp hw
    obtain ⟨f, hf, heq⟩ := exists_of_forall₂_right hgs hmem
    obtain ⟨hnone, hwithin⟩ := ih f hf heq hw
    exact ⟨hnone, fun X hs hX => hwithin X hs fun v hv => hX v (freeInAny_iff.mpr ⟨f, hf, hv⟩)⟩
  | or fs ih =>
    obtain ⟨gs, hgs, rfl⟩ := Option.map_eq_some_iff.mp hg
    rw [substituteAll_eq_some] at hgs
    obtain ⟨g, hmem, hw⟩ := freeInAny_iff.mp hw
    obtain ⟨f, hf, heq⟩ := exists_of_forall₂_right hgs hmem
    obtain ⟨hnone, hwithin⟩ := ih f hf heq hw
    exact ⟨hnone, fun X hs hX => hwithin X hs fun v hv => hX v (freeInAny_iff.mpr ⟨f, hf, hv⟩)⟩
  | implies f₁ f₂ ih₁ ih₂ =>
    simp only [substitute, Option.bind_eq_bind, Option.pure_def, Option.bind_eq_some_iff,
      Option.some.injEq] at hg
    obtain ⟨g₁, hg₁, g₂, hg₂, rfl⟩ := hg
    simp only [freeIn, Bool.or_eq_true] at hw ⊢
    cases hw with
    | inl hw =>
      obtain ⟨hnone, hwithin⟩ := ih₁ hg₁ hw
      exact ⟨hnone, fun X hs hX => hwithin X hs fun v hv => hX v (.inl hv)⟩
    | inr hw =>
      obtain ⟨hnone, hwithin⟩ := ih₂ hg₂ hw
      exact ⟨hnone, fun X hs hX => hwithin X hs fun v hv => hX v (.inr hv)⟩
  | forAll v body ih =>
    obtain ⟨g, hbody, rfl⟩ := Option.map_eq_some_iff.mp hg
    exact free_under_binder (fun hw => ih hbody hw) hw
  | exist v body ih =>
    obtain ⟨g, hbody, rfl⟩ := Option.map_eq_some_iff.mp hg
    exact free_under_binder (fun hw => ih hbody hw) hw

end Shape

end Formula

section Unify

variable {f g a b : Formula} {s sub : Bindings} {σ τ : VarId → Term} {X : Set VarId}

def Formula.FreeWithin (X : Set VarId) (f : Formula) : Prop := ∀ v, f.freeIn v = true → v ∈ X

/-- With the values of the terms, the two formulas are true in the same structures. -/
def Equates (σ : VarId → Term) (f g : Formula) : Prop :=
  ∀ {D : Type u} (M : Model D) (ρ : Valuation D),
    f.Holds M (M.after σ ρ) ↔ g.Holds M (M.after σ ρ)

theorem Equates.comp (h : Equates.{u} σ f g) (τ : VarId → Term) : Equates.{u} (comp σ τ) f g := by
  intro D M ρ
  rw [Model.after_comp]
  exact h M (M.after τ ρ)

/-- What a unifier found for two formulas says about them. -/
structure Unified (f g : Formula) (s : Bindings) (σ : VarId → Term) : Prop where
  resolves : s.Resolves σ
  left : f.isConjunctive = true
  right : g.isConjunctive = true
  equates : Equates.{u} σ f g
  within : ∀ X, f.FreeWithin X → g.FreeWithin X → s.Within X

def UnifiesTo (f g : Formula) : Prop :=
  ∃ result, Returns (fun fuel => unifyFormulas fuel f g) result ∧
    ∀ s, result = some s → ∃ σ, Unified.{u} f g s σ

theorem returns_unifyAtoms (f g : Formula) :
    ∃ result, Returns (unifyAtoms f g) result ∧
      ∀ s, result = some s → ∃ σ, Unified.{u} f g s σ := by
  have hnone (hrun : ∀ fuel, unifyAtoms f g fuel = some none) :
      ∃ result, Returns (unifyAtoms f g) result ∧
        ∀ s, result = some s → ∃ σ, Unified.{u} f g s σ :=
    ⟨none, .of_forall hrun, nofun⟩
  cases f with
  | not | and | or | implies | forAll | exist => exact hnone fun _ => rfl
  | atom p1 args1 =>
    cases g with
    | not | and | or | implies | forAll | exist => exact hnone fun _ => rfl
    | atom p2 args2 =>
      obtain ⟨result, hreturns, hdecides⟩ := unifyAtoms_decides p1 args1 p2 args2
      refine ⟨result, hreturns, ?_⟩
      rintro s rfl
      obtain ⟨σ, hresolves, ⟨hpredicate, hargs⟩, -⟩ := hdecides
      refine ⟨σ, fun v => hresolves (.var v), rfl, rfl, fun M ρ => ?_, fun X hf hg => ?_⟩
      · have hvalues : Term.eval M (M.after σ ρ) = Term.eval M ρ ∘ Term.subst σ := by
          funext a
          exact (Term.eval_subst M ρ σ a).symm
        rw [Formula.Holds, Formula.Holds, Term.evalAll_eq_map, Term.evalAll_eq_map, hvalues,
          ← List.map_map, ← List.map_map, hargs, hpredicate]
      · obtain ⟨fuel, hfuel⟩ := hreturns.exists_fuel
        exact within_unifyAtoms hfuel hf hg

/-- What the loop over the conjuncts ends with, from bindings that resolve. -/
def ConjunctsUnifyTo (sub : Bindings) (σ : VarId → Term) (pairs : List (Formula × Formula)) : Prop :=
  ∃ result, Returns (fun fuel => unifyConjuncts (unifyFormulas fuel) fuel pairs sub) result ∧
    ∀ s, result = some s → ∃ τ, s.Resolves (comp σ τ) ∧
      (∀ p ∈ pairs, p.1.isConjunctive = true ∧ p.2.isConjunctive = true ∧
        Equates.{u} (comp σ τ) p.1 p.2) ∧
      ∀ X, sub.Within X → (∀ p ∈ pairs, p.1.FreeWithin X ∧ p.2.FreeWithin X) → s.Within X

theorem conjunctsUnifyTo {n : ℕ} (ih : ∀ f g : Formula, f.nesting < n → UnifiesTo.{u} f g)
    {pairs : List (Formula × Formula)} (hpairs : ∀ p ∈ pairs, p.1.nesting < n)
    (hsub : sub.Resolves σ) : ConjunctsUnifyTo.{u} sub σ pairs := by
  induction pairs generalizing sub σ with
  | nil =>
    refine ⟨some sub, returns_some _, ?_⟩
    rintro s ⟨⟩
    exact ⟨.var, (comp_var σ).symm ▸ hsub, nofun, fun X hX _ => hX⟩
  | cons p pairs ihpairs =>
    rw [List.forall_mem_cons] at hpairs
    obtain ⟨a, ha⟩ := Formula.exists_returns_substitute p.1 hsub
    obtain ⟨b, hb⟩ := Formula.exists_returns_substitute p.2 hsub
    obtain ⟨fuel, hafuel, hbfuel⟩ := (ha.and hb).exists
    have hshape1 := Formula.shape_substitute hafuel
    have hshape2 := Formula.shape_substitute hbfuel
    obtain ⟨other, hother, hunified⟩ := ih a b (by rw [hshape1.1]; exact hpairs.1)
    cases other with
    | none =>
      refine ⟨none, ha.bind (hb.bind (hother.bind (returns_some _))), ?_⟩
      rintro s ⟨⟩
    | some other =>
      obtain ⟨τ₁, hunified⟩ := hunified other rfl
      -- the conjuncts mention no bound variable any more, so neither do the new bindings
      have hfree : other.Within {v | sub.lookup v = none} :=
        hunified.within _ (fun _ hv => (Formula.freeIn_substitute hafuel hv).1)
          fun _ hv => (Formula.freeIn_substitute hbfuel hv).1
      obtain ⟨composed, hcomposed, hlookup⟩ := returns_compose sub hunified.resolves
      have hresolves : composed.Resolves (comp σ τ₁) := by
        rw [← outside_of_within hfree hunified.resolves]
        exact (compatible_of_within hfree).resolves hsub hunified.resolves hlookup
      obtain ⟨result, hresult, hrest⟩ := ihpairs hpairs.2 hresolves
      refine ⟨result, ha.bind (hb.bind (hother.bind (hcomposed.bind hresult))), ?_⟩
      intro s hs
      obtain ⟨τ₂, hfinal, hequates, hwithin⟩ := hrest s hs
      refine ⟨comp τ₁ τ₂, ?_, ?_, ?_⟩
      · rwa [← comp_assoc]
      · rw [← comp_assoc, List.forall_mem_cons]
        refine ⟨⟨?_, ?_, Equates.comp ?_ τ₂⟩, hequates⟩
        · rw [← hshape1.2]
          exact hunified.left
        · rw [← hshape2.2]
          exact hunified.right
        · intro D M ρ
          have hleft := Formula.captureFree_of_isConjunctive (hshape1.2.symm.trans hunified.left) sub
          have hright :=
            Formula.captureFree_of_isConjunctive (hshape2.2.symm.trans hunified.right) sub
          rw [Model.after_comp, ← Formula.holds_substitute hsub hafuel hleft,
            ← Formula.holds_substitute hsub hbfuel hright]
          exact hunified.equates M ρ
      · intro X hX hpairs
        rw [List.forall_mem_cons] at hpairs
        refine hwithin X (within_of_lookup hX ?_ hunified.resolves hlookup) hpairs.2
        exact hunified.within X
          (fun v hv => (Formula.freeIn_substitute hafuel hv).2 X hX hpairs.1.1)
          fun v hv => (Formula.freeIn_substitute hbfuel hv).2 X hX hpairs.1.2

/-- By induction on the nesting, which applying bindings keeps. -/
theorem unifiesTo (f g : Formula) : UnifiesTo.{u} f g := by
  induction hn : f.nesting using Nat.strong_induction_on generalizing f g with
  | _ n ih =>
    subst hn
    have hnone (hrun : ∀ fuel, unifyFormulas (fuel + 1) f g = some none) : UnifiesTo.{u} f g := by
      refine ⟨none, returns_succ_iff.mp (.of_forall hrun), ?_⟩
      rintro s ⟨⟩
    cases f with
    | not | or | implies | forAll | exist => exact hnone fun fuel => rfl
    | atom p args =>
      cases g with
      | atom p2 args2 =>
        obtain ⟨result, hreturns, hunified⟩ := returns_unifyAtoms (.atom p args) (.atom p2 args2)
        exact ⟨result, returns_succ_iff.mp hreturns, hunified⟩
      | and | not | or | implies | forAll | exist => exact hnone fun fuel => rfl
    | and fs =>
      cases g with
      | atom | not | or | implies | forAll | exist => exact hnone fun fuel => rfl
      | and gs =>
        by_cases hlength : fs.length = gs.length
        · have hloop : ConjunctsUnifyTo.{u} ∅ .var (fs.zip gs) :=
            conjunctsUnifyTo (fun f g hlt => ih f.nesting hlt f g rfl)
              (fun p hp => Formula.nesting_lt_of_mem (List.of_mem_zip hp).1) Bindings.resolves_empty
          obtain ⟨result, hreturns, hresult⟩ := hloop
          refine ⟨result, returns_succ_iff.mp ?_, fun s hs => ?_⟩
          · simp only [unifyFormulas, if_pos hlength]
            exact hreturns
          · obtain ⟨τ, hresolves, hequates, hwithin⟩ := hresult s hs
            have hboth : List.Forall₂ (fun a b => a.isConjunctive = true ∧ b.isConjunctive = true ∧
                Equates.{u} (comp .var τ) a b) fs gs :=
              List.forall₂_iff_zip.mpr ⟨hlength, fun hmem => hequates _ hmem⟩
            refine ⟨_, hresolves, ?_, ?_, ?_, ?_⟩
            · refine Formula.isConjunctiveAll_iff.mpr fun f hf => ?_
              obtain ⟨g, -, h⟩ := Formula.exists_of_forall₂_right hboth.flip hf
              exact h.1
            · refine Formula.isConjunctiveAll_iff.mpr fun g hg => ?_
              obtain ⟨f, -, h⟩ := Formula.exists_of_forall₂_right hboth hg
              exact h.2.1
            · intro D M ρ
              exact Formula.holdsAll_congr (hboth.flip.imp fun _ _ h => h.2.2 M ρ)
            · intro X hf hg
              refine hwithin X within_empty fun p hp => ?_
              have hmem := List.of_mem_zip hp
              exact ⟨fun v hv => hf v (Formula.freeInAny_iff.mpr ⟨_, hmem.1, hv⟩),
                fun v hv => hg v (Formula.freeInAny_iff.mpr ⟨_, hmem.2, hv⟩)⟩
        · exact hnone fun fuel => if_neg hlength

end Unify

end Qubitcoin.Aether.Logic
