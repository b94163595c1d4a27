import Qubitcoin.Aether.Logic.Inference

/-! What the inference rules conclude follows from their premises, unless a variable is captured. -/

universe u

namespace Qubitcoin.Aether.Logic

open Filter Fuel Substitution

section Resolution

variable {clause1 clause2 : List Formula}

/-- The first of the places whose literals are complementary, with their unifier. -/
inductive FirstResolved (clause1 clause2 : List Formula) :
    List (ℕ × ℕ) → ℕ → ℕ → Bindings → Prop
  | head {i j : ℕ} {pairs : List (ℕ × ℕ)} {lit1 lit2 : Formula} {s : Bindings}
      (left : clause1[i]? = some lit1) (right : clause2[j]? = some lit2)
      (resolves : Returns (tryResolvePair lit1 lit2) (some s)) :
      FirstResolved clause1 clause2 ((i, j) :: pairs) i j s
  | tail {i j : ℕ} {place : ℕ × ℕ} {pairs : List (ℕ × ℕ)} {s : Bindings}
      (fails : ∀ lit1 lit2 s, clause1[place.1]? = some lit1 → clause2[place.2]? = some lit2 →
        ¬Returns (tryResolvePair lit1 lit2) (some s))
      (rest : FirstResolved clause1 clause2 pairs i j s) :
      FirstResolved clause1 clause2 (place :: pairs) i j s

/-- With the values of the terms, the two literals are not both true. -/
def Clash (σ : VarId → Term) (lit1 lit2 : Formula) : Prop :=
  ∀ {D : Type u} (M : Model D) (ρ : Valuation D),
    lit1.Holds M (M.after σ ρ) → ¬lit2.Holds M (M.after σ ρ)

theorem returns_tryResolvePair (lit1 lit2 : Formula) :
    ∃ result, Returns (tryResolvePair lit1 lit2) result ∧
      ∀ s, result = some s → ∃ σ, s.Resolves σ ∧ Clash.{u} σ lit1 lit2 := by
  by_cases hright : ∃ inner2, lit2 = .not inner2
  · obtain ⟨inner2, rfl⟩ := hright
    obtain ⟨result, hreturns, hresult⟩ := unifiesTo lit1 inner2
    refine ⟨result, ?_, fun s hs => ?_⟩
    · cases lit1 <;> exact hreturns
    · obtain ⟨σ, hunified⟩ := hresult s hs
      refine ⟨σ, hunified.resolves, fun M ρ hleft hnot => hnot ?_⟩
      exact (hunified.equates M ρ).mp hleft
  · by_cases hleft : ∃ inner1, lit1 = .not inner1
    · obtain ⟨inner1, rfl⟩ := hleft
      obtain ⟨result, hreturns, hresult⟩ := unifiesTo inner1 lit2
      refine ⟨result, ?_, fun s hs => ?_⟩
      · cases lit2 with
        | not inner2 => exact absurd ⟨inner2, rfl⟩ hright
        | atom | and | or | implies | forAll | exist => exact hreturns
      · obtain ⟨σ, hunified⟩ := hresult s hs
        refine ⟨σ, hunified.resolves, fun M ρ hnot hlit2 => hnot ?_⟩
        exact (hunified.equates M ρ).mpr hlit2
    · refine ⟨none, ?_, nofun⟩
      cases lit2 with
      | not inner2 => exact absurd ⟨inner2, rfl⟩ hright
      | atom | and | or | implies | forAll | exist =>
        cases lit1 with
        | not inner1 => exact absurd ⟨inner1, rfl⟩ hleft
        | atom | and | or | implies | forAll | exist => exact returns_some _

variable {D : Type u} {M : Model D} {ρ : Valuation D}

/-- A true clause has a true literal besides the one at a place, or that one is true. -/
theorem holdsAny_eraseIdx {clause : List Formula} {i : ℕ} {lit : Formula}
    (hlit : clause[i]? = some lit) (h : Formula.HoldsAny M clause ρ) :
    lit.Holds M ρ ∨ Formula.HoldsAny M (clause.eraseIdx i) ρ := by
  obtain ⟨f, hf, hholds⟩ := Formula.holdsAny_iff.mp h
  obtain ⟨k, hk⟩ := List.mem_iff_getElem?.mp hf
  by_cases heq : k = i
  · rw [heq, hlit, Option.some.injEq] at hk
    rw [hk]
    exact .inl hholds
  · exact .inr (Formula.holdsAny_iff.mpr ⟨f, List.mem_eraseIdx_iff_getElem?.mpr ⟨k, heq, hk⟩, hholds⟩)

theorem holds_resolvent {fs : List Formula} (h : Formula.HoldsAny M fs ρ) :
    (resolvent fs).Holds M ρ := by
  match fs, h with
  | [_], h => exact h.resolve_right id
  | _ :: _ :: _, h => exact h

/-- What is left of the two clauses, under a unifier of complementary literals. -/
theorem entails_resolvent {i j fuel : ℕ} {lit1 lit2 : Formula} {s : Bindings} {σ : VarId → Term}
    {fs : List Formula} (hleft : clause1[i]? = some lit1) (hright : clause2[j]? = some lit2)
    (hs : s.Resolves σ) (hclash : Clash.{u} σ lit1 lit2)
    (hfs : Formula.substituteAll fuel (clause1.eraseIdx i ++ clause2.eraseIdx j) s = some fs)
    (hcapture : ∀ f ∈ clause1.eraseIdx i ++ clause2.eraseIdx j, f.CaptureFree s)
    (h1 : (Formula.or clause1).Valid M) (h2 : (Formula.or clause2).Valid M) :
    (resolvent fs).Valid M := by
  intro ρ
  apply holds_resolvent
  rw [Formula.substituteAll_eq_some] at hfs
  have hterms : List.Forall₂ (fun f g => g.Holds M ρ ↔ f.Holds M (M.after σ ρ))
      (clause1.eraseIdx i ++ clause2.eraseIdx j) fs :=
    Formula.forall₂_of_mem hfs fun f hf g hg => Formula.holds_substitute hs hg (hcapture f hf) ρ
  rw [Formula.holdsAny_congr hterms, Formula.holdsAny_iff]
  simp only [List.mem_append]
  obtain hlit1 | hrest := holdsAny_eraseIdx hleft (h1 (M.after σ ρ))
  · obtain hlit2 | hrest := holdsAny_eraseIdx hright (h2 (M.after σ ρ))
    · exact absurd hlit2 (hclash M ρ hlit1)
    · obtain ⟨f, hf, hholds⟩ := Formula.holdsAny_iff.mp hrest
      exact ⟨f, .inr hf, hholds⟩
  · obtain ⟨f, hf, hholds⟩ := Formula.holdsAny_iff.mp hrest
    exact ⟨f, .inl hf, hholds⟩

end Resolution

/-- A use of one of the rules. -/
inductive Application
  | ponens (premise implication : Formula)
  | tollens (negatedConsequent implication : Formula)
  | instantiation (quantified : Formula) (term : Term) (ground : term.isGround = true)
  | clauses (clause1 clause2 : List Formula)
  | syllogism (imp1 imp2 : Formula)

namespace Application

def premises : Application → List Formula
  | .ponens premise implication => [premise, implication]
  | .tollens negatedConsequent implication => [negatedConsequent, implication]
  | .instantiation quantified _ _ => [quantified]
  | .clauses clause1 clause2 => [.or clause1, .or clause2]
  | .syllogism imp1 imp2 => [imp1, imp2]

def conclude (fuel : ℕ) : Application → Option (Option Formula)
  | .ponens premise implication =>
    (modusPonens premise implication fuel).map (Option.map Derivation.conclusion)
  | .tollens negatedConsequent implication =>
    (modusTollens negatedConsequent implication fuel).map (Option.map Derivation.conclusion)
  | .instantiation quantified term _ => universalInstantiation quantified term fuel
  | .clauses clause1 clause2 =>
    (resolution clause1 clause2 fuel).map (Option.map Derivation.conclusion)
  | .syllogism imp1 imp2 =>
    (hypotheticalSyllogism imp1 imp2 fuel).map (Option.map Derivation.conclusion)

/-- The rule ends, and what it concludes follows from the premises. -/
def Sound (rule : Application) : Prop :=
  ∃ result, Returns (fun fuel => rule.conclude fuel) result ∧
    ∀ f, result = some f → Entails.{u} rule.premises f

/-- No formula that the unifier is applied to captures a variable of a term put in. -/
def Uncaptured : Application → Prop
  | .ponens premise (.implies antecedent consequent) =>
    ∀ s, Returns (fun fuel => unifyFormulas fuel premise antecedent) (some s) →
      consequent.CaptureFree s
  | .tollens (.not q) (.implies antecedent consequent) =>
    ∀ s, Returns (fun fuel => unifyFormulas fuel q consequent) (some s) → antecedent.CaptureFree s
  | .clauses clause1 clause2 =>
    ∀ i j s, FirstResolved clause1 clause2 (places clause1 clause2) i j s →
      ∀ f ∈ clause1.eraseIdx i ++ clause2.eraseIdx j, f.CaptureFree s
  | .syllogism (.implies a b) (.implies b' c) =>
    ∀ s, Returns (fun fuel => unifyFormulas fuel b b') (some s) → a.CaptureFree s ∧ c.CaptureFree s
  | _ => True

end Application

section Rules

open Application

theorem returns_andThen_none {α β : Type} {run : ℕ → Option (Option α)} (h : Returns run none)
    (f : ℕ → α → Option (Option β)) : Returns (fun fuel => andThen (run fuel) (f fuel)) none :=
  h.bind (returns_some _)

theorem entails_pair {f g h : Formula}
    (himp : ∀ {D : Type u} (M : Model D), f.Valid M → g.Valid M → h.Valid M) :
    Entails.{u} [f, g] h := by
  intro D M hpremises
  rw [List.forall_mem_cons, List.forall_mem_singleton] at hpremises
  exact himp M hpremises.1 hpremises.2

theorem modusPonens_sound (premise antecedent consequent : Formula)
    (hcapture : Uncaptured (.ponens premise (.implies antecedent consequent))) :
    Sound.{u} (.ponens premise (.implies antecedent consequent)) := by
  obtain ⟨sub, hsub, hunified⟩ := unifiesTo premise antecedent
  cases sub with
  | none => exact ⟨none, (returns_andThen_none hsub _).map rfl, nofun⟩
  | some s =>
    obtain ⟨σ, hunified⟩ := hunified s rfl
    obtain ⟨conclusion, hconclusion⟩ :=
      Formula.exists_returns_substitute consequent hunified.resolves
    refine ⟨some conclusion, (hsub.bind (hconclusion.map rfl)).map rfl, ?_⟩
    rintro _ ⟨⟩
    apply entails_pair
    intro D M hpremise himplication ρ
    obtain ⟨fuel, hfuel⟩ := hconclusion.exists_fuel
    rw [Formula.holds_substitute hunified.resolves hfuel (hcapture s hsub)]
    apply himplication
    exact (hunified.equates M ρ).mp (hpremise _)

theorem modusTollens_sound (q antecedent consequent : Formula)
    (hcapture : Uncaptured (.tollens (.not q) (.implies antecedent consequent))) :
    Sound.{u} (.tollens (.not q) (.implies antecedent consequent)) := by
  obtain ⟨sub, hsub, hunified⟩ := unifiesTo q consequent
  cases sub with
  | none => exact ⟨none, (returns_andThen_none hsub _).map rfl, nofun⟩
  | some s =>
    obtain ⟨σ, hunified⟩ := hunified s rfl
    obtain ⟨conclusion, hconclusion⟩ :=
      Formula.exists_returns_substitute antecedent hunified.resolves
    refine ⟨some conclusion.negate, (hsub.bind (hconclusion.map rfl)).map rfl, ?_⟩
    rintro _ ⟨⟩
    apply entails_pair
    intro D M hpremise himplication ρ
    obtain ⟨fuel, hfuel⟩ := hconclusion.exists_fuel
    rw [Formula.holds_negate,
      Formula.holds_substitute hunified.resolves hfuel (hcapture s hsub)]
    intro hantecedent
    exact hpremise _ ((hunified.equates M ρ).mpr (himplication _ hantecedent))

theorem hypotheticalSyllogism_sound (a b b' c : Formula)
    (hcapture : Uncaptured (.syllogism (.implies a b) (.implies b' c))) :
    Sound.{u} (.syllogism (.implies a b) (.implies b' c)) := by
  obtain ⟨sub, hsub, hunified⟩ := unifiesTo b b'
  cases sub with
  | none => exact ⟨none, (returns_andThen_none hsub _).map rfl, nofun⟩
  | some s =>
    obtain ⟨σ, hunified⟩ := hunified s rfl
    obtain ⟨a', ha⟩ := Formula.exists_returns_substitute a hunified.resolves
    obtain ⟨c', hc⟩ := Formula.exists_returns_substitute c hunified.resolves
    refine ⟨some (.implies a' c'), (hsub.bind (ha.bind (hc.map rfl))).map rfl, ?_⟩
    rintro _ ⟨⟩
    apply entails_pair
    intro D M himp1 himp2 ρ
    obtain ⟨hcapturea, hcapturec⟩ := hcapture s hsub
    obtain ⟨fuel, hafuel, hcfuel⟩ := (ha.and hc).exists
    intro hholds
    rw [Formula.holds_substitute hunified.resolves hafuel hcapturea] at hholds
    rw [Formula.holds_substitute hunified.resolves hcfuel hcapturec]
    exact himp2 _ ((hunified.equates M ρ).mp (himp1 _ hholds))

theorem returns_resolvePairs {clause1 clause2 : List Formula} (pairs : List (ℕ × ℕ))
    (hcapture : ∀ i j s, FirstResolved clause1 clause2 pairs i j s →
      ∀ f ∈ clause1.eraseIdx i ++ clause2.eraseIdx j, f.CaptureFree s) :
    ∃ result, Returns (fun fuel => resolvePairs clause1 clause2 fuel pairs) result ∧
      ∀ d, result = some d → Entails.{u} [.or clause1, .or clause2] d.conclusion := by
  induction pairs with
  | nil => exact ⟨none, returns_some _, nofun⟩
  | cons place pairs ih =>
    obtain ⟨i, j⟩ := place
    by_cases hresolved : ∃ lit1 lit2 s, clause1[i]? = some lit1 ∧ clause2[j]? = some lit2 ∧
        Returns (tryResolvePair lit1 lit2) (some s)
    · obtain ⟨lit1, lit2, s, hleft, hright, hs⟩ := hresolved
      obtain ⟨result, hreturns, hresult⟩ := returns_tryResolvePair.{u} lit1 lit2
      obtain ⟨σ, hresolves, hclash⟩ := hresult s (hreturns.unique hs)
      have hrest : ∃ fs, Returns (fun fuel =>
          Formula.substituteAll fuel (clause1.eraseIdx i ++ clause2.eraseIdx j) s) fs :=
        Formula.exists_returns_all fun f _ => Formula.exists_returns_substitute f hresolves
      obtain ⟨fs, hfs⟩ := hrest
      refine ⟨some ⟨resolvent fs, s, "resolution"⟩, ?_, ?_⟩
      · simp only [resolvePairs, hleft, hright]
        exact hs.bind (hfs.map rfl)
      · rintro _ ⟨⟩
        apply entails_pair
        intro D M h1 h2
        obtain ⟨fuel, hfuel⟩ := hfs.exists_fuel
        exact entails_resolvent hleft hright hresolves hclash hfuel
          (hcapture i j s (.head hleft hright hs)) h1 h2
    · obtain ⟨result, hreturns, hresult⟩ := ih fun i' j' s hfirst =>
        hcapture i' j' s (.tail (fun lit1 lit2 s hleft hright hs =>
          hresolved ⟨lit1, lit2, s, hleft, hright, hs⟩) hfirst)
      refine ⟨result, ?_, hresult⟩
      cases hleft : clause1[i]? with
      | none =>
        simp only [resolvePairs, hleft]
        exact hreturns
      | some lit1 =>
        cases hright : clause2[j]? with
        | none =>
          simp only [resolvePairs, hleft, hright]
          exact hreturns
        | some lit2 =>
          simp only [resolvePairs, hleft, hright]
          obtain ⟨first, hfirst, -⟩ := returns_tryResolvePair.{u} lit1 lit2
          cases first with
          | none => exact hfirst.bind hreturns
          | some s => exact absurd ⟨lit1, lit2, s, hleft, hright, hfirst⟩ hresolved

theorem resolution_sound (clause1 clause2 : List Formula)
    (hcapture : Uncaptured (.clauses clause1 clause2)) :
    Sound.{u} (.clauses clause1 clause2) := by
  obtain ⟨result, hreturns, hresult⟩ :=
    returns_resolvePairs.{u} (places clause1 clause2) hcapture
  refine ⟨result.map Derivation.conclusion, hreturns.map rfl, fun f hf => ?_⟩
  obtain ⟨d, hd, rfl⟩ := Option.map_eq_some_iff.mp hf
  exact hresult d hd

theorem universalInstantiation_sound (quantified : Formula) (term : Term)
    (ground : term.isGround = true) : Sound.{u} (.instantiation quantified term ground) := by
  cases quantified with
  | atom | not | and | or | implies | exist => exact ⟨none, returns_some _, nofun⟩
  | forAll v body =>
    have hunbound : ∀ w, term.containsVar w = true → AList.lookup w (∅ : Bindings) = none := by
      intro w _
      exact AList.lookup_empty w
    have hresolves : Bindings.Resolves (AList.insert v term ∅) (comp .var (single v term)) :=
      Bindings.resolves_empty.insert (AList.lookup_empty v) (Term.isGround_iff.mp ground v) hunbound
    obtain ⟨f, hf⟩ := Formula.exists_returns_substitute body hresolves
    refine ⟨some f, hf.map rfl, ?_⟩
    rintro _ ⟨⟩ D M hpremise ρ
    obtain ⟨fuel, hfuel⟩ := hf.exists_fuel
    rw [Formula.holds_substitute hresolves hfuel]
    · have hvalues : M.after (comp .var (single v term)) ρ =
          Function.update ρ v (term.eval M ρ) := by
        funext w
        rw [Model.after_comp]
        change (single v term w).eval M ρ = _
        unfold single
        by_cases hw : w = v
        · subst hw
          rw [Function.update_self, Function.update_self]
        · rw [Function.update_of_ne hw, Function.update_of_ne hw]
          rfl
      rw [hvalues]
      exact hpremise _ List.mem_cons_self ρ _
    · apply Formula.captureFree_of_ground
      intro w t hlookup
      rw [Bindings.lookup_insert_eq] at hlookup
      split at hlookup
      · cases hlookup
        exact ground
      · simp at hlookup

/-- Soundness of the rules: where no variable is captured, the conclusion is true in every
structure that the premises are true in. -/
theorem sound_of_uncaptured (rule : Application) (hcapture : rule.Uncaptured) :
    Sound.{u} rule := by
  cases rule with
  | ponens premise implication =>
    cases implication with
    | implies antecedent consequent => exact modusPonens_sound premise antecedent consequent hcapture
    | atom | not | and | or | forAll | exist => exact ⟨none, returns_some _, nofun⟩
  | tollens negatedConsequent implication =>
    have hnone (h : ∀ fuel, modusTollens negatedConsequent implication fuel = some none) :
        Sound.{u} (.tollens negatedConsequent implication) := by
      refine ⟨none, .of_forall fun fuel => ?_, nofun⟩
      simp only [conclude, h, Option.map_some, Option.map_none]
    cases negatedConsequent with
    | not q =>
      cases implication with
      | implies antecedent consequent => exact modusTollens_sound q antecedent consequent hcapture
      | atom | not | and | or | forAll | exist => exact hnone fun _ => rfl
    | atom | and | or | implies | forAll | exist => exact hnone fun _ => rfl
  | instantiation quantified term ground =>
    exact universalInstantiation_sound quantified term ground
  | clauses clause1 clause2 => exact resolution_sound clause1 clause2 hcapture
  | syllogism imp1 imp2 =>
    have hnone (h : ∀ fuel, hypotheticalSyllogism imp1 imp2 fuel = some none) :
        Sound.{u} (.syllogism imp1 imp2) := by
      refine ⟨none, .of_forall fun fuel => ?_, nofun⟩
      simp only [conclude, h, Option.map_some, Option.map_none]
    cases imp1 with
    | implies a b =>
      cases imp2 with
      | implies b' c => exact hypotheticalSyllogism_sound a b b' c hcapture
      | atom | not | and | or | forAll | exist => exact hnone fun _ => rfl
    | atom | not | and | or | forAll | exist => exact hnone fun _ => rfl

theorem sound_of_uncaptured_atoms :
    Sound.{0} (.ponens (.atom ⟨0⟩ [.constant ⟨10⟩])
      (.implies (.atom ⟨0⟩ [.var 0]) (.atom ⟨1⟩ [.var 0]))) :=
  sound_of_uncaptured _ fun _ _ => trivial

/-- From `p(f(x))` and `p(y) → ∃ x. q(y, x)` follows `∃ x. q(f(x), x)`, says the first rule.  It is
false where `f` is the identity and `q` the inequality. -/
theorem not_sound : ¬∀ rule : Application, Sound.{0} rule := by
  intro hsound
  let premise : Formula := .atom ⟨0⟩ [.compound ⟨2⟩ [.var 0]]
  let implication : Formula := .implies (.atom ⟨0⟩ [.var 1]) (.exist 0 (.atom ⟨1⟩ [.var 1, .var 0]))
  obtain ⟨result, hreturns, hentails⟩ := hsound (.ponens premise implication)
  have hcaptured : Returns (fun fuel => conclude fuel (.ponens premise implication))
      (some (.exist 0 (.atom ⟨1⟩ [.compound ⟨2⟩ [.var 0], .var 0]))) := by
    filter_upwards [eventually_ge_atTop 5] with fuel hfuel
    obtain ⟨n, rfl⟩ := Nat.exists_eq_add_of_le' hfuel
    rfl
  let M : Model Bool :=
    { constant := fun _ => false
      function := fun _ args => args.headD false
      predicate := fun p args => p = ⟨1⟩ → args.headD false ≠ args.getLastD false }
  have hpremise : premise.Valid M := by
    intro ρ h
    cases h
  have himplication : implication.Valid M := by
    intro ρ _
    exact ⟨!ρ 1, fun _ => by simp [Term.evalAll, Term.eval]⟩
  obtain ⟨d, hd⟩ := hentails _ (hreturns.unique hcaptured) M
    (List.forall_mem_cons.mpr ⟨hpremise, List.forall_mem_singleton.mpr himplication⟩) fun _ => false
  exact hd rfl rfl

end Rules

end Qubitcoin.Aether.Logic
