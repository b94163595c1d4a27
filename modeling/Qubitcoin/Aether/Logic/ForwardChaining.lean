import Qubitcoin.Aether.Logic.Chaining
import Qubitcoin.Aether.Logic.Soundness

/-! Forward chaining, from `knowledge_base.rs`, and the closure it computes. -/

namespace Qubitcoin.Aether.Logic

open Filter Fuel Substitution

variable {H : Type} [DecidableEq H]

/-- A step of the loop so far: the hashes of everything known, and what is new in this step. -/
structure Round (H : Type) where
  seen : Finset H
  derivedThisStep : List Formula

/-- What forward chaining returns, and whether it left the loop at a fixpoint. -/
structure Chained where
  newFacts : List Formula
  fixpoint : Bool

def Round.note (formulaHash : Formula → H) (round : Round H) : Option Derivation → Round H
  | some derivation =>
    let h := formulaHash derivation.conclusion
    if h ∈ round.seen then round
    else
      { seen := insert h round.seen
        derivedThisStep := round.derivedThisStep ++ [derivation.conclusion] }
  | none => round

section Loop

variable (kb : KnowledgeBase) (formulaHash : Formula → H) (fuel : ℕ)

/-- Every rule is tried on all the facts of the steps before. -/
def deriveStep (newFacts : List Formula) (seen : Finset H) : Option (Round H) :=
  kb.rules.foldlM
    (fun round rule =>
      (kb.facts ++ newFacts).foldlM
        (fun round fact => (modusPonens fact rule fuel).map (round.note formulaHash)) round)
    { seen := seen, derivedThisStep := [] }

def forwardLoop : ℕ → List Formula → Finset H → Option Chained
  | 0, newFacts, _ => some { newFacts := newFacts, fixpoint := false }
  | steps + 1, newFacts, seen => do
    let round ← deriveStep kb formulaHash fuel newFacts seen
    if round.derivedThisStep = [] then
      return { newFacts := newFacts, fixpoint := true }
    else forwardLoop steps (newFacts ++ round.derivedThisStep) round.seen

def forwardChain (maxSteps : ℕ) : Option (KnowledgeBase × Chained) :=
  (forwardLoop kb formulaHash fuel maxSteps [] (kb.facts.map formulaHash).toFinset).map
    fun chained => ({ kb with facts := kb.facts ++ chained.newFacts }, chained)

end Loop

/-- The finite trees of modus ponens steps over the facts, each with a rule. -/
inductive Derives (kb : KnowledgeBase) : Formula → Prop
  | fact {f : Formula} : f ∈ kb.facts → Derives kb f
  | modusPonens {f rule : Formula} {derivation : Derivation} : Derives kb f → rule ∈ kb.rules →
    Returns (modusPonens f rule) (some derivation) → Derives kb derivation.conclusion

/-- No rule gives a formula from a fact that is not a fact itself. -/
def KnowledgeBase.Closed (kb : KnowledgeBase) : Prop :=
  ∀ fact ∈ kb.facts, ∀ rule ∈ kb.rules, ∀ derivation,
    Returns (modusPonens fact rule) (some derivation) → derivation.conclusion ∈ kb.facts

section Ponens

theorem exists_returns_modusPonens (premise implication : Formula) :
    ∃ answer, Returns (modusPonens premise implication) answer := by
  cases implication with
  | atom | not | and | or | forAll | exist => exact ⟨none, returns_some none⟩
  | implies antecedent consequent =>
    obtain ⟨sub, hsub, hunified⟩ := unifiesTo.{0} premise antecedent
    cases sub with
    | none => exact ⟨none, returns_andThen_none hsub _⟩
    | some s =>
      obtain ⟨σ, hunified⟩ := hunified s rfl
      obtain ⟨conclusion, hconclusion⟩ :=
        Formula.exists_returns_substitute consequent hunified.resolves
      exact ⟨_, hsub.bind (hconclusion.map rfl)⟩

/-- What modus ponens gives once the fuel is enough. -/
noncomputable def ponens (premise implication : Formula) : Option Derivation :=
  (exists_returns_modusPonens premise implication).choose

theorem returns_ponens (premise implication : Formula) :
    Returns (modusPonens premise implication) (ponens premise implication) :=
  (exists_returns_modusPonens premise implication).choose_spec

theorem returns_modusPonens_iff {premise implication : Formula} {answer : Option Derivation} :
    Returns (modusPonens premise implication) answer ↔ ponens premise implication = answer := by
  constructor
  · exact (returns_ponens premise implication).unique
  · rintro rfl
    exact returns_ponens premise implication

/-- What the rules give on the facts, in the order of the loops. -/
noncomputable def answers (facts rules : List Formula) : List (Option Derivation) :=
  rules.flatMap fun rule => facts.map fun fact => ponens fact rule

theorem mem_answers {facts rules : List Formula} {answer : Option Derivation} :
    answer ∈ answers facts rules ↔
      ∃ rule ∈ rules, ∃ fact ∈ facts, ponens fact rule = answer := by
  simp only [answers, List.mem_flatMap, List.mem_map]

end Ponens

namespace Round

variable (formulaHash : Formula → H) (round : Round H)

theorem seen_subset_note (answer : Option Derivation) :
    round.seen ⊆ (round.note formulaHash answer).seen := by
  cases answer with
  | none => exact subset_rfl
  | some derivation =>
    simp only [note]
    split
    · exact subset_rfl
    · exact Finset.subset_insert _ _

theorem mem_seen_note (derivation : Derivation) :
    formulaHash derivation.conclusion ∈ (round.note formulaHash (some derivation)).seen := by
  simp only [note]
  split
  · assumption
  · exact Finset.mem_insert_self _ _

theorem seen_subset_foldl (answers : List (Option Derivation)) :
    round.seen ⊆ (answers.foldl (note formulaHash) round).seen := by
  induction answers generalizing round with
  | nil => exact subset_rfl
  | cons answer answers ih => exact (round.seen_subset_note formulaHash answer).trans (ih _)

theorem foldl_note_of_seen {answers : List (Option Derivation)}
    (h : ∀ derivation, some derivation ∈ answers →
      formulaHash derivation.conclusion ∈ round.seen) :
    answers.foldl (note formulaHash) round = round := by
  induction answers with
  | nil => rfl
  | cons answer answers ih =>
    have hnote : round.note formulaHash answer = round := by
      cases answer with
      | none => rfl
      | some derivation => exact if_pos (h derivation List.mem_cons_self)
    rw [List.foldl_cons, hnote]
    exact ih fun derivation hmem => h derivation (List.mem_cons_of_mem _ hmem)

theorem mem_seen_foldl {answers : List (Option Derivation)} {derivation : Derivation}
    (h : some derivation ∈ answers) :
    formulaHash derivation.conclusion ∈ (answers.foldl (note formulaHash) round).seen := by
  induction answers generalizing round with
  | nil => cases h
  | cons answer answers ih =>
    cases h with
    | head =>
      exact seen_subset_foldl formulaHash _ answers (mem_seen_note formulaHash round derivation)
    | tail _ h => exact ih _ h

end Round

/-- What the loop keeps about the formulas added so far and the hashes seen. -/
structure Added (kb : KnowledgeBase) (formulaHash : Formula → H) (added : List Formula)
    (seen : Finset H) : Prop where
  mem_seen {h : H} : h ∈ seen ↔ ∃ f ∈ kb.facts ++ added, formulaHash f = h
  derives {f : Formula} : f ∈ added → Derives kb f
  fresh {f : Formula} : f ∈ added → f ∉ kb.facts
  nodup : added.Nodup

section Closure

variable {kb : KnowledgeBase} {formulaHash : Formula → H} {newFacts : List Formula}
  {seen : Finset H}

theorem added_nil : Added kb formulaHash [] (kb.facts.map formulaHash).toFinset where
  mem_seen := by simp
  derives h := nomatch h
  fresh h := nomatch h
  nodup := .nil

namespace Added

/-- Nothing known has an unseen hash, so the formula added is none of it. -/
theorem push {added : List Formula} {f : Formula} (h : Added kb formulaHash added seen)
    (hf : Derives kb f) (hseen : formulaHash f ∉ seen) :
    Added kb formulaHash (added ++ [f]) (insert (formulaHash f) seen) := by
  have hnew : f ∉ kb.facts ++ added := fun hmem => hseen (h.mem_seen.mpr ⟨f, hmem, rfl⟩)
  rw [List.mem_append, not_or] at hnew
  refine ⟨?_, ?_, ?_, ?_⟩
  · intro x
    rw [Finset.mem_insert, h.mem_seen, ← List.append_assoc]
    simp only [List.mem_append, List.mem_singleton, or_and_right, exists_or, exists_eq_left]
    rw [or_comm, @eq_comm H x]
  · intro g hg
    rw [List.mem_append, List.mem_singleton] at hg
    rcases hg with hg | rfl
    · exact h.derives hg
    · exact hf
  · intro g hg
    rw [List.mem_append, List.mem_singleton] at hg
    rcases hg with hg | rfl
    · exact h.fresh hg
    · exact hnew.1
  · exact h.nodup.append (List.nodup_singleton f) (List.disjoint_singleton.mpr hnew.2)

theorem note {round : Round H} {answer : Option Derivation}
    (h : Added kb formulaHash (newFacts ++ round.derivedThisStep) round.seen)
    (hanswer : ∀ derivation, answer = some derivation → Derives kb derivation.conclusion) :
    Added kb formulaHash (newFacts ++ (round.note formulaHash answer).derivedThisStep)
      (round.note formulaHash answer).seen := by
  cases answer with
  | none => exact h
  | some derivation =>
    simp only [Round.note]
    split
    next => exact h
    next hseen =>
      rw [← List.append_assoc]
      exact h.push (hanswer derivation rfl) hseen

theorem foldl {round : Round H} {answers : List (Option Derivation)}
    (h : Added kb formulaHash (newFacts ++ round.derivedThisStep) round.seen)
    (hanswers : ∀ derivation, some derivation ∈ answers → Derives kb derivation.conclusion) :
    Added kb formulaHash
      (newFacts ++ (answers.foldl (Round.note formulaHash) round).derivedThisStep)
      (answers.foldl (Round.note formulaHash) round).seen := by
  induction answers generalizing round with
  | nil => exact h
  | cons answer answers ih =>
    refine ih (h.note ?_) fun derivation hmem => hanswers derivation (List.mem_cons_of_mem _ hmem)
    rintro derivation rfl
    exact hanswers derivation List.mem_cons_self

variable (h : Added kb formulaHash newFacts seen)

include h

omit [DecidableEq H] in
theorem derives_fact {f : Formula} (hf : f ∈ kb.facts ++ newFacts) : Derives kb f :=
  (List.mem_append.mp hf).elim .fact h.derives

omit [DecidableEq H] in
theorem derives_answer {derivation : Derivation}
    (hmem : some derivation ∈ answers (kb.facts ++ newFacts) kb.rules) :
    Derives kb derivation.conclusion := by
  obtain ⟨rule, hrule, fact, hfact, hponens⟩ := mem_answers.mp hmem
  exact (h.derives_fact hfact).modusPonens hrule (returns_modusPonens_iff.mpr hponens)

theorem foldl_answers :
    Added kb formulaHash
      (newFacts ++ ((answers (kb.facts ++ newFacts) kb.rules).foldl (Round.note formulaHash)
        ⟨seen, []⟩).derivedThisStep)
      ((answers (kb.facts ++ newFacts) kb.rules).foldl (Round.note formulaHash) ⟨seen, []⟩).seen :=
  foldl (by rwa [List.append_nil]) fun _ => h.derives_answer

end Added

/-- The step notes the answers of all the rules on all the facts. -/
theorem returns_deriveStep (newFacts : List Formula) (seen : Finset H) :
    Returns (fun fuel => deriveStep kb formulaHash fuel newFacts seen)
      ((answers (kb.facts ++ newFacts) kb.rules).foldl (Round.note formulaHash) ⟨seen, []⟩) := by
  simp only [answers, List.foldl_flatMap, List.foldl_map]
  refine returns_foldlM (fun round rule _ => ?_) _
  refine returns_foldlM (fun round fact _ => ?_) round
  exact (returns_ponens fact rule).map rfl

/-- A step that derives nothing new has tried every rule on every fact. -/
theorem Added.closed (h : Added kb formulaHash newFacts seen)
    (hinj : Set.InjOn formulaHash {f | Derives kb f})
    (hnone : ((answers (kb.facts ++ newFacts) kb.rules).foldl (Round.note formulaHash)
      ⟨seen, []⟩).derivedThisStep = []) :
    KnowledgeBase.Closed { kb with facts := kb.facts ++ newFacts } := by
  intro fact hfact rule hrule derivation hreturns
  have hmem : some derivation ∈ answers (kb.facts ++ newFacts) kb.rules :=
    mem_answers.mpr ⟨rule, hrule, fact, hfact, returns_modusPonens_iff.mp hreturns⟩
  have hseen := Round.mem_seen_foldl formulaHash ⟨seen, []⟩ hmem
  have hround := h.foldl_answers
  rw [hround.mem_seen, hnone, List.append_nil] at hseen
  obtain ⟨f, hf, hhash⟩ := hseen
  rwa [← hinj (h.derives_fact hf) (h.derives_answer hmem) hhash]

/-- Closed facts have the hash of every conclusion, so a run over them adds nothing. -/
theorem forwardChain_of_closed {kb : KnowledgeBase} (h : kb.Closed) (steps : ℕ) :
    ∃ chained, Returns (fun fuel => forwardChain kb formulaHash fuel steps) (kb, chained) ∧
      chained.newFacts = [] := by
  have hround := @returns_deriveStep _ _ kb formulaHash [] (kb.facts.map formulaHash).toFinset
  rw [Round.foldl_note_of_seen] at hround
  · cases steps with
    | zero =>
      refine ⟨⟨[], false⟩, (returns_some _).map ?_, rfl⟩
      rw [List.append_nil]
    | succ steps =>
      have hloop : Returns (fun fuel => forwardLoop kb formulaHash fuel (steps + 1) []
          (kb.facts.map formulaHash).toFinset) ⟨[], true⟩ := hround.bind (returns_some _)
      refine ⟨⟨[], true⟩, hloop.map ?_, rfl⟩
      rw [List.append_nil]
  · intro derivation hmem
    rw [List.append_nil] at hmem
    obtain ⟨rule, hrule, fact, hfact, hponens⟩ := mem_answers.mp hmem
    have hconclusion := h fact hfact rule hrule derivation (returns_modusPonens_iff.mpr hponens)
    exact List.mem_toFinset.mpr (List.mem_map_of_mem hconclusion)

/-- The loop ends, what it has added is derived from the facts, and it leaves at a fixpoint only if
the facts are closed. -/
theorem Added.forwardLoop (h : Added kb formulaHash newFacts seen)
    (hinj : Set.InjOn formulaHash {f | Derives kb f}) (steps : ℕ) :
    ∃ chained,
      Returns (fun fuel => forwardLoop kb formulaHash fuel steps newFacts seen) chained ∧
      (∃ seen', Added kb formulaHash chained.newFacts seen') ∧
      (chained.fixpoint = true →
        KnowledgeBase.Closed { kb with facts := kb.facts ++ chained.newFacts }) := by
  induction steps generalizing newFacts seen with
  | zero => exact ⟨_, returns_some _, ⟨seen, h⟩, nofun⟩
  | succ steps ih =>
    have hround := @returns_deriveStep _ _ kb formulaHash newFacts seen
    by_cases hnone : ((answers (kb.facts ++ newFacts) kb.rules).foldl (Round.note formulaHash)
        ⟨seen, []⟩).derivedThisStep = []
    · refine ⟨⟨newFacts, true⟩, hround.bind ?_, ⟨seen, h⟩, fun _ => h.closed hinj hnone⟩
      simp only [if_pos hnone]
      exact returns_some _
    · obtain ⟨chained, hreturns, hadded, hclosed⟩ := ih h.foldl_answers
      refine ⟨chained, hround.bind ?_, hadded, hclosed⟩
      simp only [if_neg hnone]
      exact hreturns

/-- The fact `p` and the rule `p → q`. -/
def oneStep : KnowledgeBase where
  facts := [.atom ⟨0⟩ []]
  rules := [.implies (.atom ⟨0⟩ []) (.atom ⟨1⟩ [])]

theorem derives_oneStep {f : Formula} (h : Derives oneStep f) :
    f = .atom ⟨0⟩ [] ∨ f = .atom ⟨1⟩ [] := by
  induction h with
  | fact h => exact .inl (List.mem_singleton.mp h)
  | modusPonens _ hrule hreturns ih =>
    rw [List.mem_singleton.mp hrule] at hreturns
    obtain ⟨fuel, hfuel, hreturns⟩ := ((eventually_ge_atTop 8).and hreturns).exists
    obtain ⟨n, rfl⟩ := Nat.exists_eq_add_of_le' hfuel
    rcases ih with rfl | rfl
    · cases Option.some.inj (Option.some.inj hreturns)
      exact .inr rfl
    · cases hreturns

end Closure

end Qubitcoin.Aether.Logic
