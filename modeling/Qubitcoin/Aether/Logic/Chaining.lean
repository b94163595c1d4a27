import Qubitcoin.Aether.Logic.KnowledgeBase

/-! When backward chaining ends, and when what it proves follows from the knowledge base. -/

universe u

namespace Qubitcoin.Aether.Logic

open Filter Fuel Substitution

variable (kb : KnowledgeBase) (formulaHash : Formula → BitVec 64) (goal : Formula) (maxDepth : ℕ)

/-- With enough fuel the search does not come to compose two substitutions that `P` fails of. -/
def Clear (P : Bindings → Bindings → Prop) : Prop :=
  ∀ᶠ fuel in atTop,
    backwardChain kb formulaHash (watched P) fuel goal maxDepth ≠ .error .clash

section Termination

/-- Composing the two gives bindings without a cycle. -/
def ComposesAcyclic (base other : Bindings) : Prop :=
  ∀ composed, Returns (compose base other) composed → composed.Acyclic

/-- The search ends, and every combined substitution on its way is acyclic. -/
def Terminates : Prop :=
  (∃ result, ∀ᶠ fuel in atTop,
    backwardChain kb formulaHash joined fuel goal maxDepth = .ok result) ∧
    Clear kb formulaHash goal maxDepth ComposesAcyclic

theorem composesAcyclic_iff {base other : Bindings} (hother : other.Solved) :
    ComposesAcyclic base other ↔ Bindings.Unlooped base other := by
  obtain ⟨τ, hτ⟩ := hother
  obtain ⟨composed, hcomposed, -⟩ := returns_compose base hτ
  constructor
  · intro h
    exact (Bindings.acyclic_compose_iff ⟨τ, hτ⟩ hcomposed).mp (h composed hcomposed)
  · intro h result hresult
    exact (Bindings.acyclic_compose_iff ⟨τ, hτ⟩ hresult).mpr h

theorem solved_of_unifyAtoms {f g : Formula} {sub : Bindings}
    (h : Returns (unifyAtoms f g) (some sub)) : sub.Solved := by
  obtain ⟨result, hresult, hunified⟩ := returns_unifyAtoms.{0} f g
  obtain ⟨σ, hσ⟩ := hunified sub (hresult.unique h)
  exact ⟨σ, hσ.resolves⟩

theorem solved_invariant :
    Invariant kb ComposesAcyclic (fun _ sub => sub.Solved) fun _ _ combinedSub => combinedSub.Solved where
  proof_solved h := h
  loop_solved h := h
  fact _ h := solved_of_unifyAtoms h
  head h := solved_of_unifyAtoms h
  next _ _ _ hcomposed hacyclic := (hacyclic _ hcomposed).solved
  finish _ _ _ h := h

/-- A hash that tells predicates apart. -/
def predicateHash : Formula → BitVec 64
  | .atom p _ => p.id.setWidth 64
  | _ => 0

/-- The fact `q(f(x))` and the rule `q(y) → g(y)`. -/
def selfBinding : KnowledgeBase where
  facts := [.atom ⟨1⟩ [.compound ⟨5⟩ [.var 0]]]
  rules := [.implies (.atom ⟨1⟩ [.var 1]) (.atom ⟨0⟩ [.var 1])]

end Termination

section Soundness

variable {kb goal} {sub combinedSub : Bindings} {σ τ : VarId → Term}

/-- The universal closure of what a proof instantiates the goal to is true wherever those of all
facts and rules are. -/
def ProvesConsequences (kb : KnowledgeBase) (goal : Formula) : Prop :=
  ∀ proof, (∀ᶠ fuel in atTop,
    backwardChain kb formulaHash joined fuel goal maxDepth = .ok (some proof)) →
    ∃ conclusion, Returns (fun fuel => goal.substitute fuel proof.substitution) conclusion ∧
      Entails.{u} (kb.facts ++ kb.rules) conclusion

/-- With the values of the terms, an atom or a conjunction of these is true wherever the knowledge
base is. -/
def Derivable (kb : KnowledgeBase) (σ : VarId → Term) (f : Formula) : Prop :=
  f.isConjunctive = true ∧ ∀ {D : Type u} (M : Model D), (∀ p ∈ kb.facts ++ kb.rules, p.Valid M) →
    ∀ ρ, f.Holds M (M.after σ ρ)

theorem Derivable.comp {f : Formula} (h : Derivable.{u} kb σ f) (τ : VarId → Term) :
    Derivable.{u} kb (comp σ τ) f := by
  refine ⟨h.1, fun M hkb ρ => ?_⟩
  rw [Model.after_comp]
  exact h.2 M hkb _

theorem derivable_conjuncts {f : Formula} (h : ∀ sg ∈ conjuncts f, Derivable.{u} kb σ sg) :
    Derivable.{u} kb σ f := by
  cases f with
  | and fs =>
    exact ⟨Formula.isConjunctiveAll_iff.mpr fun f hf => (h f hf).1,
      fun M hkb ρ => Formula.holdsAll_iff.mpr fun f hf => (h f hf).2 M hkb ρ⟩
  | atom | not | or | implies | forAll | exist => exact h _ List.mem_cons_self

/-- What is derivable after applying bindings was derivable with their terms. -/
theorem Derivable.of_substitute {f g : Formula} {fuel : ℕ} (hs : sub.Resolves σ)
    (hg : f.substitute fuel sub = some g) (h : Derivable.{u} kb τ g) :
    Derivable.{u} kb (Substitution.comp σ τ) f := by
  have hshape := (Formula.shape_substitute hg).2.symm.trans h.1
  refine ⟨hshape, fun M hkb ρ => ?_⟩
  rw [Model.after_comp,
    ← Formula.holds_substitute hs hg (Formula.captureFree_of_isConjunctive hshape sub)]
  exact h.2 M hkb ρ

theorem derivable_of_unified {f g : Formula} (hunified : Unified.{u} f g sub σ)
    (hg : ∀ {D : Type u} (M : Model D), (∀ p ∈ kb.facts ++ kb.rules, p.Valid M) →
      ∀ ρ, g.Holds M (M.after (comp σ τ) ρ)) : Derivable.{u} kb (comp σ τ) f := by
  refine ⟨hunified.left, fun M hkb ρ => ?_⟩
  rw [Equates.comp hunified.equates τ M ρ]
  exact hg M hkb ρ

/-- Below bindings that are left as they are, only the variables they leave free matter. -/
theorem Derivable.outside {f g : Formula} {fuel : ℕ} (hg : f.substitute fuel sub = some g)
    (h : Derivable.{u} kb τ g) : Derivable.{u} kb (outside sub τ) g := by
  refine ⟨h.1, fun M hkb ρ => (Formula.holds_congr fun v hv => ?_).mpr (h.2 M hkb ρ)⟩
  rw [Model.after, Model.after, Logic.outside, if_pos (Formula.freeIn_substitute hg hv).1]

/-- In the loop the combined substitution begins with that of the rule, and makes the subgoals
proved so far derivable. -/
def Combines (kb : KnowledgeBase) (sub : Bindings) (proved : List Formula)
    (combinedSub : Bindings) : Prop :=
  ∃ σ τ, sub.Resolves σ ∧ combinedSub.Resolves (comp σ τ) ∧
    ∀ sg ∈ proved, Derivable.{u} kb (comp σ τ) sg

theorem derivable_invariant (kb : KnowledgeBase) :
    Invariant kb Compatible (fun goal sub => ∃ σ, sub.Resolves σ ∧ Derivable.{u} kb σ goal)
      (Combines.{u} kb) where
  proof_solved h := ⟨_, h.choose_spec.1⟩
  loop_solved h := by
    obtain ⟨σ, τ, -, hcombined, -⟩ := h
    exact ⟨_, hcombined⟩
  fact := by
    intro goal fact sub hfact hunify
    obtain ⟨result, hresult, hunified⟩ := returns_unifyAtoms.{u} goal fact
    obtain ⟨σ, hσ⟩ := hunified sub (hresult.unique hunify)
    refine ⟨σ, hσ.resolves, comp_var σ ▸ derivable_of_unified hσ fun M hkb ρ => ?_⟩
    exact hkb fact (List.mem_append_left _ hfact) _
  head := by
    intro goal consequent sub hunify
    obtain ⟨σ, hσ⟩ := solved_of_unifyAtoms hunify
    exact ⟨σ, .var, hσ, (comp_var σ).symm ▸ hσ, nofun⟩
  next := by
    rintro sub proved combinedSub sg sgApplied other composed ⟨σ, τ, hsub, hcombined, hproved⟩ happlied
      ⟨τ₁, hother, hderivable⟩ hcomposed hcompatible
    obtain ⟨result, hresult, hlookup⟩ := returns_compose combinedSub hother
    rw [hcomposed.unique hresult]
    refine ⟨σ, comp τ (outside combinedSub τ₁), hsub, ?_⟩
    rw [← comp_assoc]
    refine ⟨hcompatible.resolves hcombined hother hlookup, fun f hf => ?_⟩
    rw [List.mem_append, List.mem_singleton] at hf
    cases hf with
    | inl hf => exact (hproved f hf).comp _
    | inr hf =>
      subst hf
      obtain ⟨fuel, hfuel⟩ := happlied.exists_fuel
      exact (hderivable.outside hfuel).of_substitute hcombined hfuel
  finish := by
    rintro goal antecedent consequent sub subgoal combinedSub hrule hunify hsubgoal
      ⟨σ, τ, hsub, hcombined, hproved⟩
    obtain ⟨result, hresult, hunified⟩ := returns_unifyAtoms.{u} goal consequent
    obtain ⟨σ', hσ⟩ := hunified sub (hresult.unique hunify)
    obtain rfl := hσ.resolves.unique hsub
    obtain ⟨fuel, hfuel⟩ := hsubgoal.exists_fuel
    refine ⟨_, hcombined, derivable_of_unified hσ fun M hkb ρ => ?_⟩
    apply hkb _ (List.mem_append_right _ hrule)
    have hantecedent := (derivable_conjuncts hproved).of_substitute hsub hfuel
    -- the rule's own substitution changes nothing more
    rw [← comp_assoc, show comp σ' σ' = σ' from funext hsub.after_self] at hantecedent
    exact hantecedent.2 M hkb ρ

/-- Backward chaining proves only consequences where it composes no two substitutions whose
variables meet. -/
theorem provesConsequences (hclear : Clear kb formulaHash goal maxDepth Compatible) :
    ProvesConsequences.{u} formulaHash maxDepth kb goal := by
  intro proof hproof
  cases (derivable_invariant.{u} kb).run formulaHash maxDepth goal ∅ with
  | inl h =>
    obtain ⟨result, hresult, hproved⟩ := h
    obtain ⟨fuel, hfuel, hproof⟩ := ((hresult _ (passes_joined _)).and hproof).exists
    obtain ⟨σ, hσ, hderivable⟩ := hproved proof (Except.ok.inj (hfuel.symm.trans hproof))
    obtain ⟨conclusion, hconclusion⟩ := Formula.exists_returns_substitute goal hσ
    refine ⟨conclusion, hconclusion, fun M hkb ρ => ?_⟩
    obtain ⟨fuel, hfuel⟩ := hconclusion.exists_fuel
    rw [Formula.holds_substitute hσ hfuel (Formula.captureFree_of_isConjunctive hderivable.1 _)]
    exact hderivable.2 M hkb ρ
  | inr h =>
    have hstops := h _ (passes_watched fun _ _ _ _ h => h) (blocks_watched fun _ _ _ _ h => h)
    obtain ⟨fuel, hfuel, hclash⟩ := (hclear.and hstops).exists
    exact absurd hclash hfuel

def family : KnowledgeBase where
  facts := [.atom ⟨0⟩ [.constant ⟨10⟩, .constant ⟨11⟩], .atom ⟨0⟩ [.constant ⟨11⟩, .constant ⟨12⟩]]
  rules := [.implies (.atom ⟨0⟩ [.var 0, .var 1]) (.atom ⟨1⟩ [.var 0, .var 1])]

theorem provesConsequences_family :
    ProvesConsequences.{0} predicateHash 10 family
      (.atom ⟨1⟩ [.constant ⟨10⟩, .constant ⟨11⟩]) := by
  apply provesConsequences
  filter_upwards [eventually_ge_atTop 8] with fuel hfuel
  obtain ⟨n, rfl⟩ := Nat.exists_eq_add_of_le' hfuel
  let base : Bindings := AList.insert 1 (.constant ⟨11⟩) (AList.singleton 0 (.constant ⟨10⟩))
  have hcompatible : Compatible base ∅ :=
    ⟨fun _ _ _ h => by simp at h, fun _ _ _ _ _ => .inr (AList.lookup_empty _)⟩
  change ((watched Compatible base ∅ (n + 8) >>= _) >>= _) ≠ _
  rw [watched, if_pos hcompatible]
  intro h
  cases h

/-- The facts `s(g(x), x)` and `u(g(a))`, and the rule `s(y, b) ∧ u(y) → r(x, y)`. -/
def sharedVariable : KnowledgeBase where
  facts :=
    [.atom ⟨1⟩ [.compound ⟨5⟩ [.var 0], .var 0], .atom ⟨2⟩ [.compound ⟨5⟩ [.constant ⟨3⟩]]]
  rules :=
    [.implies (.and [.atom ⟨1⟩ [.var 1, .constant ⟨4⟩], .atom ⟨2⟩ [.var 1]])
      (.atom ⟨0⟩ [.var 0, .var 1])]

/-- For the goal `r(a, z)` the rule binds `x` to `a`; the first subgoal binds `y` to `g(x)` and `x`
to `b`, of which the composition keeps `a`.  So `u(g(a))` proves the second, but `r(a, g(b))` is
what is returned. -/
theorem not_provesConsequences : ¬∀ kb formulaHash goal maxDepth,
    ProvesConsequences.{0} formulaHash maxDepth kb goal := by
  intro hproves
  let goal : Formula := .atom ⟨0⟩ [.constant ⟨3⟩, .var 2]
  let returned : Formula := .atom ⟨0⟩ [.constant ⟨3⟩, .compound ⟨5⟩ [.constant ⟨4⟩]]
  have hrun : ∃ proof : Proof, (∀ n,
      backwardChain sharedVariable predicateHash joined (n + 8) goal 2 = .ok (some proof)) ∧
      ∀ n, Formula.substitute (n + 8) goal proof.substitution = some returned :=
    ⟨_, fun _ => rfl, fun _ => rfl⟩
  obtain ⟨proof, hrun, hsubstitute⟩ := hrun
  obtain ⟨conclusion, hconclusion, hentails⟩ :=
    hproves sharedVariable predicateHash goal 2 proof (by
      filter_upwards [eventually_ge_atTop 8] with fuel hfuel
      obtain ⟨n, rfl⟩ := Nat.exists_eq_add_of_le' hfuel
      exact hrun n)
  have hreturned : conclusion = returned := by
    refine hconclusion.unique ?_
    filter_upwards [eventually_ge_atTop 8] with fuel hfuel
    obtain ⟨n, rfl⟩ := Nat.exists_eq_add_of_le' hfuel
    exact hsubstitute n
  subst hreturned
  let M : Model Bool :=
    { constant := fun c => c = ⟨4⟩
      function := fun _ args => args.headD false
      predicate := fun p args =>
        (p = ⟨1⟩ ∧ args.headD false = args.getLastD false) ∨ (p = ⟨2⟩ ∧ args.headD false = false) }
  have hkb : ∀ p ∈ sharedVariable.facts ++ sharedVariable.rules, p.Valid M := by
    simp only [sharedVariable, List.cons_append, List.nil_append, List.forall_mem_cons]
    refine ⟨fun ρ => .inl ⟨rfl, rfl⟩, fun ρ => .inr ⟨rfl, rfl⟩, fun ρ h => ?_, nofun⟩
    simp [Formula.HoldsAll, Formula.Holds, Term.evalAll, Term.eval, M] at h
  have hfalse := hentails M hkb fun _ => false
  simp [returned, Formula.Holds, M] at hfalse

end Soundness

end Qubitcoin.Aether.Logic
