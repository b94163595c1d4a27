import Qubitcoin.Library.Substitution

/-! The terms of the reasoning engine and the application of bindings, from `term.rs`. -/

namespace Qubitcoin.Aether.Logic

open Filter Substitution

abbrev VarId := BitVec 32

structure Symbol where
  id : BitVec 32
  deriving DecidableEq

inductive Term
  | var (id : VarId)
  | constant (sym : Symbol)
  | compound (functor : Symbol) (args : List Term)

namespace Term

@[elab_as_elim, induction_eliminator]
theorem induction {motive : Term → Prop} (var : ∀ v, motive (.var v))
    (constant : ∀ c, motive (.constant c))
    (compound : ∀ f args, (∀ a ∈ args, motive a) → motive (.compound f args)) (t : Term) :
    motive t :=
  @Term.rec motive (fun args => ∀ a ∈ args, motive a) var constant compound
    (fun _ h => nomatch h) (fun _ _ h hs => List.forall_mem_cons.mpr ⟨h, hs⟩) t

mutual

def decEq : (s t : Term) → Decidable (s = t)
  | .var v, .var w => decidable_of_iff (v = w) (by simp)
  | .constant c, .constant d => decidable_of_iff (c = d) (by simp)
  | .compound f ss, .compound g ts =>
    match decEqAll ss ts with
    | .isTrue h => decidable_of_iff (f = g) (by simp [h])
    | .isFalse h => .isFalse (by simp [h])
  | .var _, .constant _ | .var _, .compound _ _ | .constant _, .var _ | .constant _, .compound _ _
  | .compound _ _, .var _ | .compound _ _, .constant _ => .isFalse nofun

def decEqAll : (ss ts : List Term) → Decidable (ss = ts)
  | [], [] => .isTrue rfl
  | [], _ :: _ | _ :: _, [] => .isFalse nofun
  | s :: ss, t :: ts =>
    match decEq s t, decEqAll ss ts with
    | .isTrue h, .isTrue hs => .isTrue (by rw [h, hs])
    | .isFalse h, _ => .isFalse (by simp [h])
    | _, .isFalse hs => .isFalse (by simp [hs])

end

instance : DecidableEq Term := decEq

mutual

def containsVar (v : VarId) : Term → Bool
  | .var w => w = v
  | .constant _ => false
  | .compound _ args => containsVarAny v args

def containsVarAny (v : VarId) : List Term → Bool
  | [] => false
  | a :: args => containsVar v a || containsVarAny v args

end

mutual

def isGround : Term → Bool
  | .var _ => false
  | .constant _ => true
  | .compound _ args => isGroundAll args

def isGroundAll : List Term → Bool
  | [] => true
  | a :: args => isGround a && isGroundAll args

end

mutual

/-- Terms for all variables at once, each put in once. -/
def subst (θ : VarId → Term) : Term → Term
  | .var v => θ v
  | .constant c => .constant c
  | .compound f args => .compound f (substAll θ args)

def substAll (θ : VarId → Term) : List Term → List Term
  | [] => []
  | a :: args => subst θ a :: substAll θ args

end

mutual

/-- `subst` with variables that may have no answer. -/
def traverse (f : VarId → Option Term) : Term → Option Term
  | .var v => f v
  | .constant c => some (.constant c)
  | .compound g args => (traverseAll f args).map (.compound g)

def traverseAll (f : VarId → Option Term) : List Term → Option (List Term)
  | [] => some []
  | a :: args => do
    let a ← traverse f a
    let args ← traverseAll f args
    return a :: args

end

end Term

/-- `Substitution`, the bindings of variables to terms. -/
abbrev Bindings := AList fun _ : VarId => Term

/-- The arm of `substitute` for a variable: the bindings are followed until a variable has none.
A chain of more bindings than `fuel` has no answer. -/
def Bindings.resolve (bindings : Bindings) : ℕ → VarId → Option Term
  | 0, v => if (bindings.lookup v).isSome then none else some (.var v)
  | fuel + 1, v =>
    match bindings.lookup v with
    | some bound => bound.traverse (bindings.resolve fuel)
    | none => some (.var v)

def Term.substitute (t : Term) (bindings : Bindings) (fuel : ℕ) : Option Term :=
  t.traverse (bindings.resolve fuel)

namespace Term

section Laws

variable {v w : VarId} {θ σ : VarId → Term} {t u : Term} {args : List Term}

theorem containsVarAny_iff : containsVarAny v args = true ↔ ∃ a ∈ args, a.containsVar v = true := by
  induction args with
  | nil => simp [containsVarAny]
  | cons a args ih => simp [containsVarAny, ih]

theorem isGroundAll_iff : isGroundAll args = true ↔ ∀ a ∈ args, a.isGround = true := by
  induction args with
  | nil => simp [isGroundAll]
  | cons a args ih => simp [isGroundAll, ih]

theorem substAll_eq_map (θ : VarId → Term) (args : List Term) :
    substAll θ args = args.map (subst θ) := by
  induction args with
  | nil => rfl
  | cons a args ih => rw [substAll, ih, List.map_cons]

/-- Only the variables that occur matter. -/
theorem subst_congr (h : ∀ v, t.containsVar v = true → θ v = σ v) : t.subst θ = t.subst σ := by
  induction t with
  | var v => exact h v (by simp [containsVar])
  | constant c => rfl
  | compound f args ih =>
    simp only [subst, substAll_eq_map, compound.injEq, true_and]
    apply List.map_congr_left
    intro a ha
    apply ih a ha
    intro v hv
    apply h
    rw [containsVar, containsVarAny_iff]
    exact ⟨a, ha, hv⟩

theorem subst_var_eq (t : Term) : t.subst .var = t := by
  induction t with
  | var v => rfl
  | constant c => rfl
  | compound f args ih =>
    simp only [subst, substAll_eq_map, compound.injEq, true_and]
    exact (List.map_congr_left ih).trans (List.map_id args)

theorem subst_subst_eq (θ σ : VarId → Term) (t : Term) :
    (t.subst σ).subst θ = t.subst fun v => (σ v).subst θ := by
  induction t with
  | var v => rfl
  | constant c => rfl
  | compound f args ih =>
    simp only [subst, substAll_eq_map, List.map_map, compound.injEq, true_and]
    exact List.map_congr_left ih

instance : Substitution VarId Term where
  var := .var
  subst := subst
  subst_var _ _ := rfl
  subst_id := subst_var_eq
  subst_subst := subst_subst_eq

theorem containsVar_subst :
    (t.subst θ).containsVar w = true ↔
      ∃ v, t.containsVar v = true ∧ (θ v).containsVar w = true := by
  induction t with
  | var v => simp [subst, containsVar]
  | constant c => simp [subst, containsVar]
  | compound f args ih =>
    simp only [subst, containsVar, substAll_eq_map, containsVarAny_iff, List.mem_map]
    constructor
    · rintro ⟨_, ⟨a, ha, rfl⟩, hw⟩
      obtain ⟨v, hv, hw⟩ := (ih a ha).mp hw
      exact ⟨v, ⟨a, ha, hv⟩, hw⟩
    · rintro ⟨v, ⟨a, ha, hv⟩, hw⟩
      exact ⟨_, ⟨a, ha, rfl⟩, (ih a ha).mpr ⟨v, hv, hw⟩⟩

theorem isGround_iff : t.isGround = true ↔ ∀ v, t.containsVar v = false := by
  induction t with
  | var v => simp [isGround, containsVar]
  | constant c => simp [isGround, containsVar]
  | compound f args ih =>
    simp only [isGround, containsVar, isGroundAll_iff, Bool.eq_false_iff, ne_eq,
      containsVarAny_iff] at ih ⊢
    constructor
    · rintro h v ⟨a, ha, hv⟩
      exact (ih a ha).mp (h a ha) v hv
    · intro h a ha
      exact (ih a ha).mpr fun v hv => h v ⟨a, ha, hv⟩

theorem subst_single_of_not_containsVar (h : t.containsVar v = false) (u : Term) :
    t.subst (single v u) = t := by
  rw [← subst_var_eq t, subst_subst_eq]
  apply subst_congr
  intro w hw
  have hne : w ≠ v := by
    rintro rfl
    rw [h] at hw
    cases hw
  exact Function.update_of_ne hne _ _

end Laws

end Term

end Qubitcoin.Aether.Logic
