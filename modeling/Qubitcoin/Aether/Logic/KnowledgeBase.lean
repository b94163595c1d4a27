import Qubitcoin.Aether.Logic.Acyclic
import Qubitcoin.Aether.Logic.Inference
import Qubitcoin.Library.Checked

/-! Backward chaining, from `knowledge_base.rs`, and the rule for proving things about its runs. -/

namespace Qubitcoin.Aether.Logic

open Filter Fuel Substitution

inductive InferenceRule
  | givenFact
  | modusPonens
  | modusTollens
  | universalInstantiation
  | resolution
  | hypotheticalSyllogism

inductive ProofStep
  | mk (conclusion : Formula) (rule : InferenceRule) (premises : List ProofStep)

structure Proof where
  root : ProofStep
  substitution : Bindings

structure KnowledgeBase where
  facts : List Formula
  rules : List Formula

/-- Why a run ends without an answer: the fuel is used up, or it is being watched and two
substitutions should not have been composed. -/
inductive Stop
  | outOfFuel
  | clash

/-- How the loop composes two substitutions: `compose` itself, or `compose` under watch. -/
abbrev Join := Bindings → Bindings → ℕ → Except Stop Bindings

def joined : Join := fun base other fuel => (compose base other fuel).okOr .outOfFuel

open scoped Classical in
noncomputable def watched (P : Bindings → Bindings → Prop) : Join := fun base other fuel =>
  if P base other then joined base other fuel else .error .clash

def conjuncts : Formula → List Formula
  | .and fs => fs
  | f => [f]

section Search

variable (goal : Formula) (fuel : ℕ) (join : Join) (prove : Formula → Except Stop (Option Proof))

def proveByFact : List Formula → Except Stop (Option Proof)
  | [] => .ok none
  | fact :: facts => do
    match ← (unifyAtoms goal fact fuel).okOr .outOfFuel with
    | some sub => return some ⟨.mk fact .givenFact [], sub⟩
    | none => proveByFact facts

/-- The loop over the subgoals, each under the bindings combined so far. -/
def proveAll : List Formula → Bindings → List ProofStep →
    Except Stop (Option (Bindings × List ProofStep))
  | [], combinedSub, premiseProofs => .ok (some (combinedSub, premiseProofs))
  | sg :: subgoals, combinedSub, premiseProofs => do
    let sgApplied ← (sg.substitute fuel combinedSub).okOr .outOfFuel
    match ← prove sgApplied with
    | some subProof => do
      let combinedSub ← join combinedSub subProof.substitution fuel
      proveAll subgoals combinedSub (premiseProofs ++ [subProof.root])
    | none => return none

def proveByRule : List Formula → Except Stop (Option Proof)
  | [] => .ok none
  | .implies antecedent consequent :: rules => do
    match ← (unifyAtoms goal consequent fuel).okOr .outOfFuel with
    | some sub => do
      let subgoal ← (antecedent.substitute fuel sub).okOr .outOfFuel
      match ← proveAll fuel join prove (conjuncts subgoal) sub [] with
      | some (combinedSub, premiseProofs) => do
        let conclusion ← (goal.substitute fuel combinedSub).okOr .outOfFuel
        return some ⟨.mk conclusion .modusPonens premiseProofs, combinedSub⟩
      | none => proveByRule rules
    | none => proveByRule rules
  | _ :: rules => proveByRule rules

end Search

section Run

variable (kb : KnowledgeBase) (formulaHash : Formula → BitVec 64) (join : Join) (fuel : ℕ)

/-- Every exit takes the goal's hash out of `visited` again, so the calls below are all given the
same. -/
def backwardChainInner : ℕ → Formula → Finset (BitVec 64) → Except Stop (Option Proof)
  | 0, _, _ => .ok none
  | depth + 1, goal, visited =>
    if formulaHash goal ∈ visited then .ok none
    else do
      match ← proveByFact goal fuel kb.facts with
      | some proof => return some proof
      | none =>
        proveByRule goal fuel join
          (fun sg => backwardChainInner depth sg (insert (formulaHash goal) visited)) kb.rules

def backwardChain (goal : Formula) (maxDepth : ℕ) : Except Stop (Option Proof) :=
  backwardChainInner kb formulaHash join fuel maxDepth goal ∅

end Run

section Watching

variable {α β : Type} {P : Bindings → Bindings → Prop}

/-- Where `P` holds of substitutions that can be followed, they are composed. -/
def Passes (P : Bindings → Bindings → Prop) (join : Join) : Prop :=
  ∀ base other composed fuel, base.Solved → other.Solved → P base other →
    compose base other fuel = some composed → join base other fuel = .ok composed

/-- Where it fails, the run stops. -/
def Blocks (P : Bindings → Bindings → Prop) (join : Join) : Prop :=
  ∀ base other fuel, base.Solved → other.Solved → ¬P base other →
    join base other fuel = .error .clash

/-- The run ends with the same answer of which `Q` holds, however it is watched, or it composes two
substitutions that `P` fails of. -/
def Decided (P : Bindings → Bindings → Prop) (run : Join → ℕ → Except Stop α) (Q : α → Prop) :
    Prop :=
  (∃ a, (∀ join, Passes P join → ∀ᶠ fuel in atTop, run join fuel = .ok a) ∧ Q a) ∨
    ∀ join, Passes P join → Blocks P join → ∀ᶠ fuel in atTop, run join fuel = .error .clash

theorem passes_joined (P : Bindings → Bindings → Prop) : Passes P joined := by
  intro base other composed fuel _ _ _ hcompose
  rw [joined, hcompose]
  rfl

theorem passes_watched {P' : Bindings → Bindings → Prop}
    (h : ∀ base other, base.Solved → other.Solved → P base other → P' base other) :
    Passes P (watched P') := by
  intro base other composed fuel hbase hother hP hcompose
  rw [watched, if_pos (h base other hbase hother hP)]
  exact passes_joined P base other composed fuel hbase hother hP hcompose

theorem blocks_watched {P' : Bindings → Bindings → Prop}
    (h : ∀ base other, base.Solved → other.Solved → P' base other → P base other) :
    Blocks P (watched P') := by
  intro base other fuel hbase hother hP
  exact if_neg fun hP' => hP (h base other hbase hother hP')

theorem decided_ok {a : α} {Q : α → Prop} (h : Q a) : Decided P (fun _ _ => .ok a) Q :=
  .inl ⟨a, fun _ _ => .of_forall fun _ => rfl, h⟩

theorem decided_okOr {run : ℕ → Option α} {a : α} {Q : α → Prop} (hrun : Returns run a)
    (h : Q a) : Decided P (fun _ fuel => (run fuel).okOr .outOfFuel) Q := by
  refine .inl ⟨a, fun _ _ => ?_, h⟩
  filter_upwards [hrun] with fuel hfuel
  rw [hfuel]
  rfl

theorem decided_join {base other composed : Bindings} {Q : Bindings → Prop} (hbase : base.Solved)
    (hother : other.Solved) (hcomposed : Returns (compose base other) composed)
    (h : P base other → Q composed) : Decided P (fun join fuel => join base other fuel) Q := by
  by_cases hP : P base other
  · refine .inl ⟨composed, fun join hpasses => ?_, h hP⟩
    filter_upwards [hcomposed] with fuel hfuel
    exact hpasses base other composed fuel hbase hother hP hfuel
  · exact .inr fun join _ hblocks => .of_forall fun fuel =>
      hblocks base other fuel hbase hother hP

theorem Decided.bind {run : Join → ℕ → Except Stop α} {Q : α → Prop}
    {f : Join → ℕ → α → Except Stop β} {R : β → Prop} (h : Decided P run Q)
    (hf : ∀ a, Q a → Decided P (fun join fuel => f join fuel a) R) :
    Decided P (fun join fuel => run join fuel >>= f join fuel) R := by
  cases h with
  | inl h =>
    obtain ⟨a, hrun, hQ⟩ := h
    cases hf a hQ with
    | inl hrest =>
      obtain ⟨b, hrest, hR⟩ := hrest
      refine .inl ⟨b, fun join hpasses => ?_, hR⟩
      filter_upwards [hrun join hpasses, hrest join hpasses] with fuel hfirst hsecond
      rw [hfirst, Checked.ok_bind, hsecond]
    | inr hrest =>
      refine .inr fun join hpasses hblocks => ?_
      filter_upwards [hrun join hpasses, hrest join hpasses hblocks] with fuel hfirst hsecond
      rw [hfirst, Checked.ok_bind, hsecond]
  | inr h =>
    refine .inr fun join hpasses hblocks => ?_
    filter_upwards [h join hpasses hblocks] with fuel hfirst
    rw [hfirst, Checked.error_bind]

end Watching

section Rule

/-- What a proof says of its goal and substitution, and what the loop over the subgoals keeps about
the substitution of the rule, the subgoals proved and the combined substitution. -/
structure Invariant (kb : KnowledgeBase) (P : Bindings → Bindings → Prop)
    (Q : Formula → Bindings → Prop) (J : Bindings → List Formula → Bindings → Prop) : Prop where
  proof_solved {goal sub} : Q goal sub → sub.Solved
  loop_solved {sub proved combinedSub} : J sub proved combinedSub → combinedSub.Solved
  fact {goal fact sub} : fact ∈ kb.facts → Returns (unifyAtoms goal fact) (some sub) → Q goal sub
  head {goal consequent sub} : Returns (unifyAtoms goal consequent) (some sub) → J sub [] sub
  next {sub proved combinedSub sg sgApplied other composed} : J sub proved combinedSub →
    Returns (fun fuel => sg.substitute fuel combinedSub) sgApplied → Q sgApplied other →
    Returns (compose combinedSub other) composed → P combinedSub other →
      J sub (proved ++ [sg]) composed
  finish {goal antecedent consequent sub subgoal combinedSub} :
    .implies antecedent consequent ∈ kb.rules → Returns (unifyAtoms goal consequent) (some sub) →
    Returns (fun fuel => antecedent.substitute fuel sub) subgoal →
    J sub (conjuncts subgoal) combinedSub → Q goal combinedSub

variable {kb : KnowledgeBase} {P : Bindings → Bindings → Prop} {Q : Formula → Bindings → Prop}
  {J : Bindings → List Formula → Bindings → Prop} {goal : Formula}
  {prove : Join → ℕ → Formula → Except Stop (Option Proof)}

/-- If there is a proof, `Q` holds of it. -/
def Proved (Q : Formula → Bindings → Prop) (goal : Formula) (result : Option Proof) : Prop :=
  ∀ proof, result = some proof → Q goal proof.substitution

theorem proved_none : Proved Q goal none := nofun

theorem proved_some {proof : Proof} (h : Q goal proof.substitution) :
    Proved Q goal (some proof) := by
  rintro _ ⟨⟩
  exact h

namespace Invariant

variable (hinv : Invariant kb P Q J)

include hinv

theorem byFact {facts : List Formula} (hfacts : ∀ fact ∈ facts, fact ∈ kb.facts) :
    Decided P (fun _ fuel => proveByFact goal fuel facts) (Proved Q goal) := by
  induction facts with
  | nil => exact decided_ok proved_none
  | cons fact facts ih =>
    rw [List.forall_mem_cons] at hfacts
    obtain ⟨result, hreturns, -⟩ := returns_unifyAtoms.{0} goal fact
    refine (decided_okOr hreturns hreturns).bind fun result hreturns => ?_
    cases result with
    | none => exact ih hfacts.2
    | some sub => exact decided_ok (proved_some (hinv.fact hfacts.1 hreturns))

theorem all (hprove : ∀ g, Decided P (fun join fuel => prove join fuel g) (Proved Q g))
    {sub combinedSub : Bindings} {proved subgoals : List Formula} {premiseProofs : List ProofStep}
    (hloop : J sub proved combinedSub) :
    Decided P
      (fun join fuel => proveAll fuel join (prove join fuel) subgoals combinedSub premiseProofs)
      fun result => ∀ r, result = some r → J sub (proved ++ subgoals) r.1 := by
  induction subgoals generalizing proved combinedSub premiseProofs with
  | nil =>
    refine decided_ok ?_
    rintro r ⟨⟩
    rwa [List.append_nil]
  | cons sg subgoals ih =>
    obtain ⟨σ, hσ⟩ := hinv.loop_solved hloop
    obtain ⟨sgApplied, happlied⟩ := Formula.exists_returns_substitute sg hσ
    refine (decided_okOr happlied happlied).bind fun sgApplied happlied => ?_
    refine (hprove sgApplied).bind fun result hresult => ?_
    cases result with
    | none => exact decided_ok nofun
    | some subProof =>
      have hproof := hresult subProof rfl
      obtain ⟨τ, hτ⟩ := hinv.proof_solved hproof
      obtain ⟨composed, hcomposed, -⟩ := returns_compose combinedSub hτ
      refine (decided_join ⟨σ, hσ⟩ ⟨τ, hτ⟩ hcomposed
        (hinv.next hloop happlied hproof hcomposed)).bind fun composed hnext => ?_
      rw [List.append_cons proved]
      exact ih hnext

theorem byRule (hprove : ∀ g, Decided P (fun join fuel => prove join fuel g) (Proved Q g))
    {rules : List Formula} (hrules : ∀ rule ∈ rules, rule ∈ kb.rules) :
    Decided P (fun join fuel => proveByRule goal fuel join (prove join fuel) rules)
      (Proved Q goal) := by
  induction rules with
  | nil => exact decided_ok proved_none
  | cons rule rules ih =>
    rw [List.forall_mem_cons] at hrules
    cases rule with
    | atom | not | and | or | forAll | exist => exact ih hrules.2
    | implies antecedent consequent =>
      obtain ⟨result, hreturns, -⟩ := returns_unifyAtoms.{0} goal consequent
      refine (decided_okOr hreturns hreturns).bind fun result hreturns => ?_
      cases result with
      | none => exact ih hrules.2
      | some sub =>
        obtain ⟨σ, hσ⟩ := hinv.loop_solved (hinv.head hreturns)
        obtain ⟨subgoal, hsubgoal⟩ := Formula.exists_returns_substitute antecedent hσ
        refine (decided_okOr hsubgoal hsubgoal).bind fun subgoal hsubgoal => ?_
        refine (hinv.all hprove (hinv.head hreturns)).bind fun result hresult => ?_
        cases result with
        | none => exact ih hrules.2
        | some r =>
          have hgoal := hinv.finish hrules.1 hreturns hsubgoal (hresult r rfl)
          obtain ⟨τ, hτ⟩ := hinv.proof_solved hgoal
          obtain ⟨conclusion, hconclusion⟩ := Formula.exists_returns_substitute goal hτ
          refine (decided_okOr hconclusion hconclusion).bind fun conclusion _ => ?_
          exact decided_ok (proved_some hgoal)

/-- The rule for whole runs, by induction on the depth. -/
theorem run (formulaHash : Formula → BitVec 64) (depth : ℕ) (goal : Formula)
    (visited : Finset (BitVec 64)) :
    Decided P
      (fun join fuel => backwardChainInner kb formulaHash join fuel depth goal visited)
      (Proved Q goal) := by
  induction depth generalizing goal visited with
  | zero => exact decided_ok proved_none
  | succ depth ih =>
    by_cases hvisited : formulaHash goal ∈ visited
    · simp only [backwardChainInner, if_pos hvisited]
      exact decided_ok proved_none
    · simp only [backwardChainInner, if_neg hvisited]
      refine (hinv.byFact fun _ h => h).bind fun result hresult => ?_
      cases result with
      | some proof => exact decided_ok (proved_some (hresult proof rfl))
      | none => exact hinv.byRule (fun g => ih g _) fun _ h => h

end Invariant

end Rule

end Qubitcoin.Aether.Logic
