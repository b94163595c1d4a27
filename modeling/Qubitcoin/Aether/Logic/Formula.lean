import Qubitcoin.Aether.Logic.Bindings

/-! The formulas of the reasoning engine, from `formula.rs`. -/

namespace Qubitcoin.Aether.Logic

inductive Formula
  | atom (predicate : Symbol) (args : List Term)
  | not (f : Formula)
  | and (fs : List Formula)
  | or (fs : List Formula)
  | implies (antecedent consequent : Formula)
  | forAll (var : VarId) (body : Formula)
  | exist (var : VarId) (body : Formula)

namespace Formula

@[elab_as_elim, induction_eliminator]
theorem induction {motive : Formula → Prop} (atom : ∀ p args, motive (.atom p args))
    (not : ∀ f, motive f → motive (.not f))
    (and : ∀ fs, (∀ f ∈ fs, motive f) → motive (.and fs))
    (or : ∀ fs, (∀ f ∈ fs, motive f) → motive (.or fs))
    (implies : ∀ f g, motive f → motive g → motive (.implies f g))
    (forAll : ∀ v body, motive body → motive (.forAll v body))
    (exist : ∀ v body, motive body → motive (.exist v body)) (f : Formula) : motive f :=
  @Formula.rec motive (fun fs => ∀ f ∈ fs, motive f) atom not and or implies forAll exist
    (fun _ h => nomatch h) (fun _ _ h hs => List.forall_mem_cons.mpr ⟨h, hs⟩) f

mutual

def freeIn (v : VarId) : Formula → Bool
  | .atom _ args => Term.containsVarAny v args
  | .not f => freeIn v f
  | .and fs => freeInAny v fs
  | .or fs => freeInAny v fs
  | .implies f g => freeIn v f || freeIn v g
  | .forAll w body => v ≠ w && freeIn v body
  | .exist w body => v ≠ w && freeIn v body

def freeInAny (v : VarId) : List Formula → Bool
  | [] => false
  | f :: fs => freeIn v f || freeInAny v fs

end

mutual

/-- A quantifier takes its own variable out of the bindings. -/
def substitute (fuel : ℕ) : Formula → Bindings → Option Formula
  | .atom p args, bindings => (Term.traverseAll (bindings.resolve fuel) args).map (.atom p)
  | .not f, bindings => (substitute fuel f bindings).map .not
  | .and fs, bindings => (substituteAll fuel fs bindings).map .and
  | .or fs, bindings => (substituteAll fuel fs bindings).map .or
  | .implies f g, bindings => do
    let f ← substitute fuel f bindings
    let g ← substitute fuel g bindings
    return .implies f g
  | .forAll v body, bindings => (substitute fuel body (bindings.erase v)).map (.forAll v)
  | .exist v body, bindings => (substitute fuel body (bindings.erase v)).map (.exist v)

def substituteAll (fuel : ℕ) : List Formula → Bindings → Option (List Formula)
  | [], _ => some []
  | f :: fs, bindings => do
    let f ← substitute fuel f bindings
    let fs ← substituteAll fuel fs bindings
    return f :: fs

end

/-- The negation, without a double one. -/
def negate : Formula → Formula
  | .not f => f
  | f => .not f

end Formula

end Qubitcoin.Aether.Logic
