import Qubitcoin.Aether.Logic.Formula

/-! Unification with the occurs check, from `unify.rs`.  The outer option is that of the fuel, the
inner one the answer. -/

namespace Qubitcoin.Aether.Logic

open Filter Fuel Substitution

/-- The pairs one after the other, each under the bindings that those before it left. -/
def unifyPairs (unify : Term → Term → Bindings → Option (Option Bindings)) :
    List (Term × Term) → Bindings → Option (Option Bindings)
  | [], sub => some (some sub)
  | (a1, a2) :: pairs, sub =>
    (unify a1 a2 sub).bind fun
      | some sub => unifyPairs unify pairs sub
      | none => some none

/-- The cases of `unify_with_sub`, after the bindings are applied. -/
def unifyApplied (unify : Term → Term → Bindings → Option (Option Bindings)) (t1 t2 : Term)
    (sub : Bindings) : Option (Option Bindings) :=
  if t1 = t2 then some (some sub)
  else
    match t1, t2 with
    | .var v, t2 => some (if t2.containsVar v then none else some (sub.insert v t2))
    | t1, .var v => some (if t1.containsVar v then none else some (sub.insert v t1))
    | .compound f1 args1, .compound f2 args2 =>
      if f1 ≠ f2 ∨ args1.length ≠ args2.length then some none
      else unifyPairs unify (args1.zip args2) sub
    | _, _ => some none

def unifyWithSub : ℕ → Term → Term → Bindings → Option (Option Bindings)
  | 0, _, _, _ => none
  | fuel + 1, t1, t2, sub => do
    let t1 ← t1.substitute sub fuel
    let t2 ← t2.substitute sub fuel
    unifyApplied (unifyWithSub fuel) t1 t2 sub

def unify (t1 t2 : Term) (fuel : ℕ) : Option (Option Bindings) := unifyWithSub fuel t1 t2 ∅

def unifyAtoms (f1 f2 : Formula) (fuel : ℕ) : Option (Option Bindings) :=
  match f1, f2 with
  | .atom p1 args1, .atom p2 args2 =>
    if p1 ≠ p2 ∨ args1.length ≠ args2.length then some none
    else unifyPairs (unifyWithSub fuel) (args1.zip args2) ∅
  | _, _ => some none

section Terms

variable {v : VarId} {θ σ : VarId → Term} {t t1 t2 : Term} {pairs : List (Term × Term)}

theorem sizeOf_le_of_containsVar (h : t.containsVar v = true) (θ : VarId → Term) :
    sizeOf (θ v) ≤ sizeOf (t.subst θ) := by
  induction t with
  | var w =>
    rw [Term.containsVar, decide_eq_true_iff] at h
    rw [h, Term.subst]
  | constant c => cases h
  | compound f args ih =>
    rw [Term.containsVar, Term.containsVarAny_iff] at h
    obtain ⟨a, ha, hv⟩ := h
    have hlt := List.sizeOf_lt_of_mem (List.mem_map_of_mem (f := Term.subst θ) ha)
    have hle := ih a ha hv
    rw [Term.subst, Term.substAll_eq_map, Term.compound.sizeOf_spec]
    omega

/-- The occurs check: no map solves `v = t` when `t` is another term with `v` in it. -/
theorem not_unifies_of_containsVar (h : t.containsVar v = true) (hne : t ≠ .var v)
    (θ : VarId → Term) : θ v ≠ t.subst θ := by
  cases t with
  | var w =>
    rw [Term.containsVar, decide_eq_true_iff] at h
    exact absurd (congrArg Term.var h) hne
  | constant c => cases h
  | compound f args =>
    rw [Term.containsVar, Term.containsVarAny_iff] at h
    obtain ⟨a, ha, hv⟩ := h
    intro heq
    have hle := sizeOf_le_of_containsVar hv θ
    have hlt := List.sizeOf_lt_of_mem (List.mem_map_of_mem (f := Term.subst θ) ha)
    rw [heq, Term.subst, Term.substAll_eq_map, Term.compound.sizeOf_spec] at hle
    omega

theorem unifies_zip {args1 args2 : List Term} (h : args1.length = args2.length) :
    Unifies θ (args1.zip args2) ↔ args1.map (Term.subst θ) = args2.map (Term.subst θ) := by
  induction args1 generalizing args2 with
  | nil =>
    rw [List.eq_nil_of_length_eq_zero h.symm]
    simp [Unifies]
  | cons a1 args1 ih =>
    cases args2 with
    | nil => cases h
    | cons a2 args2 =>
      rw [List.zip_cons_cons, unifies_cons, ih (Nat.succ.inj h), List.map_cons, List.map_cons,
        List.cons.injEq]
      rfl

theorem unifies_compound {f1 f2 : Symbol} {args1 args2 : List Term}
    (h : args1.length = args2.length) :
    (Term.compound f1 args1).subst θ = (Term.compound f2 args2).subst θ ↔
      f1 = f2 ∧ Unifies θ (args1.zip args2) := by
  rw [unifies_zip h, Term.subst, Term.subst, Term.compound.injEq, Term.substAll_eq_map,
    Term.substAll_eq_map]

theorem unifies_singleton : Unifies θ [(t1, t2)] ↔ t1.subst θ = t2.subst θ := by
  rw [unifies_cons]
  exact and_iff_left nofun

end Terms

section Correctness

variable {s s' : Bindings} {σ σ' : VarId → Term} {t1 t2 : Term} {pairs : List (Term × Term)}

/-- The number of variables that still have no binding. -/
def unbound (s : Bindings) : ℕ := (Finset.univ.filter fun v : VarId => s.lookup v = none).card

/-- The bindings solve the pairs in the most general way on top of `σ`, or nothing does.  They are
new only if they bind a variable. -/
def Outcome (s : Bindings) (σ : VarId → Term) (pairs : List (Term × Term)) :
    Option Bindings → Prop
  | some s' => ∃ σ', s'.Resolves σ' ∧ Solves σ pairs σ' ∧ (s' = s ∨ unbound s' < unbound s)
  | none => ∀ θ, After θ σ → ¬Unifies θ pairs

/-- The run ends, with a right answer. -/
def Answers (s : Bindings) (σ : VarId → Term) (pairs : List (Term × Term))
    (run : ℕ → Option (Option Bindings)) : Prop :=
  ∃ result, Returns run result ∧ Outcome s σ pairs result

theorem unbound_insert_lt {v : VarId} (hv : s.lookup v = none) (t : Term) :
    unbound (s.insert v t) < unbound s := by
  apply Finset.card_lt_card
  rw [Finset.ssubset_iff_of_subset]
  · exact ⟨v, by simpa using hv, by simp⟩
  · intro w hw
    rw [Finset.mem_filter, Bindings.lookup_insert_eq] at hw
    rw [Finset.mem_filter]
    split at hw
    · cases hw.2
    · exact hw

theorem Outcome.congr {pairs' : List (Term × Term)} {result : Option Bindings}
    (h : ∀ θ, After θ σ → (Unifies θ pairs ↔ Unifies θ pairs'))
    (hresult : Outcome s σ pairs result) : Outcome s σ pairs' result := by
  cases result with
  | none => exact fun θ hθ hunifies => hresult θ hθ ((h θ hθ).mpr hunifies)
  | some s' =>
    obtain ⟨σ', hresolves, hsolves, hbound⟩ := hresult
    refine ⟨σ', hresolves, fun θ => ?_, hbound⟩
    rw [hsolves θ]
    exact and_congr_right (h θ)

/-- The loop over the pairs, when each call is right: those under the same bindings, and those
under bindings that leave fewer variables free. -/
theorem answers_unifyPairs {pairs : List (Term × Term)} (hs : s.Resolves σ)
    (hsame : ∀ p ∈ pairs, Answers s σ [p] fun fuel => unifyWithSub fuel p.1 p.2 s)
    (hless : ∀ s' σ' p, Bindings.Resolves s' σ' → unbound s' < unbound s →
      Answers s' σ' [p] fun fuel => unifyWithSub fuel p.1 p.2 s') :
    Answers s σ pairs fun fuel => unifyPairs (unifyWithSub fuel) pairs s := by
  induction pairs generalizing s σ with
  | nil => exact ⟨some s, returns_some _, σ, hs, solves_nil σ, .inl rfl⟩
  | cons p pairs ih =>
    obtain ⟨result, hreturns, hresult⟩ := hsame p List.mem_cons_self
    cases result with
    | none =>
      refine ⟨none, hreturns.bind (returns_some _), fun θ hθ hunifies => ?_⟩
      rw [unifies_cons] at hunifies
      exact hresult θ hθ (unifies_singleton.mpr hunifies.1)
    | some s₁ =>
      obtain ⟨σ₁, hs₁, hsolves, hbound⟩ := hresult
      have hrest : Answers s₁ σ₁ pairs fun fuel => unifyPairs (unifyWithSub fuel) pairs s₁ := by
        rcases hbound with rfl | hlt
        · obtain rfl := hs.unique hs₁
          exact ih hs (fun q hq => hsame q (List.mem_cons_of_mem p hq)) hless
        · exact ih hs₁ (fun q _ => hless s₁ σ₁ q hs₁ hlt)
            fun s' σ' q hs' hlt' => hless s' σ' q hs' (hlt'.trans hlt)
      obtain ⟨result, hreturns', hresult⟩ := hrest
      refine ⟨result, hreturns.bind hreturns', ?_⟩
      cases result with
      | none =>
        intro θ hθ hunifies
        rw [unifies_cons] at hunifies
        exact hresult θ ((hsolves θ).mpr ⟨hθ, unifies_singleton.mpr hunifies.1⟩) hunifies.2
      | some s₂ =>
        obtain ⟨σ₂, hs₂, hsolves', hbound'⟩ := hresult
        refine ⟨σ₂, hs₂, hsolves.cons hsolves', ?_⟩
        rcases hbound with rfl | hlt
        · exact hbound'
        · rcases hbound' with rfl | hlt'
          · exact .inr hlt
          · exact .inr (hlt'.trans hlt)

/-- Binding a free variable to a term under the bindings. -/
theorem outcome_bind {v : VarId} {t : Term} (hs : s.Resolves σ) (hv : s.lookup v = none)
    (hfree : ∀ w, t.containsVar w = true → s.lookup w = none) (hne : t ≠ .var v) :
    Outcome s σ [(.var v, t)]
      (if t.containsVar v then none else some (s.insert v t)) := by
  split
  · next hoccurs =>
    intro θ _ hunifies
    exact not_unifies_of_containsVar hoccurs hne θ (unifies_singleton.mp hunifies)
  · next hfresh =>
    refine ⟨_, hs.insert hv (Bool.eq_false_iff.mpr hfresh) hfree, fun θ => ?_,
      .inr (unbound_insert_lt hv t)⟩
    rw [after_comp_single_iff (hs.of_unbound hv), unifies_singleton]
    rfl

theorem unifies_swap {θ : VarId → Term} : Unifies θ [(t1, t2)] ↔ Unifies θ [(t2, t1)] := by
  rw [unifies_singleton, unifies_singleton, eq_comm]

/-- The cases of the algorithm, given the calls on the arguments. -/
theorem answers_unifyApplied (hs : s.Resolves σ)
    (h1 : ∀ v, t1.containsVar v = true → s.lookup v = none)
    (h2 : ∀ v, t2.containsVar v = true → s.lookup v = none)
    (hargs : ∀ f args, t1 = .compound f args → ∀ pairs : List (Term × Term),
      (∀ p ∈ pairs, p.1 ∈ args) →
        Answers s σ pairs fun fuel => unifyPairs (unifyWithSub fuel) pairs s) :
    Answers s σ [(t1, t2)] fun fuel => unifyApplied (unifyWithSub fuel) t1 t2 s := by
  unfold unifyApplied
  split
  · next heq =>
    refine ⟨some s, returns_some _, σ, hs, fun θ => ?_, .inl rfl⟩
    rw [unifies_singleton, heq]
    simp
  · next hne =>
    split
    · next v =>
      exact ⟨_, returns_some _, outcome_bind hs (h1 v (by simp [Term.containsVar])) h2 (Ne.symm hne)⟩
    · next v _ =>
      refine ⟨_, returns_some _, ?_⟩
      apply (outcome_bind hs (h2 v (by simp [Term.containsVar])) h1 hne).congr
      exact fun θ _ => unifies_swap
    · next f1 args1 f2 args2 =>
      split
      · next hmismatch =>
        refine ⟨none, returns_some _, fun θ _ hunifies => ?_⟩
        rw [unifies_singleton, Term.subst, Term.subst, Term.compound.injEq, Term.substAll_eq_map,
          Term.substAll_eq_map] at hunifies
        have hlength := congrArg List.length hunifies.2
        rw [List.length_map, List.length_map] at hlength
        exact hmismatch.elim (· hunifies.1) (· hlength)
      · next hmatch =>
        rw [not_or, not_not, not_not] at hmatch
        obtain ⟨result, hreturns, hresult⟩ := hargs f1 args1 rfl (args1.zip args2)
          fun p hp => (List.of_mem_zip hp).1
        refine ⟨result, hreturns, hresult.congr fun θ _ => ?_⟩
        rw [unifies_singleton, unifies_compound hmatch.2]
        exact (and_iff_right hmatch.1).symm
    · next hvar1 hvar2 hcompound =>
      refine ⟨none, returns_some _, fun θ _ hunifies => ?_⟩
      rw [unifies_singleton] at hunifies
      cases t1 with
      | var v => exact hvar1 v rfl
      | constant c =>
        cases t2 with
        | var w => exact hvar2 w rfl
        | constant d => exact hne hunifies
        | compound g args => cases hunifies
      | compound f args =>
        cases t2 with
        | var w => exact hvar2 w rfl
        | constant d => cases hunifies
        | compound g args' => exact hcompound f args g args' rfl rfl

theorem answers_of_applied (hs : s.Resolves σ) (t1 t2 : Term)
    (hargs : ∀ f args, t1.subst σ = .compound f args → ∀ pairs : List (Term × Term),
      (∀ p ∈ pairs, p.1 ∈ args) →
        Answers s σ pairs fun fuel => unifyPairs (unifyWithSub fuel) pairs s) :
    Answers s σ [(t1, t2)] fun fuel => unifyWithSub fuel t1 t2 s := by
  obtain ⟨result, hreturns, hresult⟩ :=
    answers_unifyApplied hs (fun _ => hs.unbound) (fun _ => hs.unbound (t := t2)) hargs
  refine ⟨result, returns_succ_iff.mp ?_, hresult.congr fun θ hθ => ?_⟩
  · exact (hs.substitute t1).bind ((hs.substitute t2).bind hreturns)
  · rw [unifies_singleton, unifies_singleton]
    exact Eq.congr (hθ.subst_subst t1) (hθ.subst_subst t2)

/-- What the bindings are applied to already, they leave as it is. -/
theorem subst_eq_of_mem_args {f : Symbol} {args : List Term} {t a : Term} (hs : s.Resolves σ)
    (h : t.subst σ = .compound f args) (ha : a ∈ args) : a.subst σ = a := by
  have hself := hs.subst_subst t
  rw [h, Term.subst, Term.substAll_eq_map, Term.compound.injEq] at hself
  exact List.map_inj_left.mp (hself.2.trans (List.map_id args).symm) a ha

/-- The outer induction is on the number of free variables, the inner one on the term that the
bindings make of the first argument. -/
theorem answers_unifyWithSub (hs : s.Resolves σ) (t1 t2 : Term) :
    Answers s σ [(t1, t2)] fun fuel => unifyWithSub fuel t1 t2 s := by
  induction hn : unbound s using Nat.strong_induction_on generalizing s σ t1 t2 with
  | _ n ih =>
    subst hn
    have hinner (u : Term) : ∀ t1 t2, t1.subst σ = u →
        Answers s σ [(t1, t2)] fun fuel => unifyWithSub fuel t1 t2 s := by
      induction u with
      | var v =>
        intro t1 t2 hu
        refine answers_of_applied hs t1 t2 fun f args hf => ?_
        rw [hu] at hf
        cases hf
      | constant c =>
        intro t1 t2 hu
        refine answers_of_applied hs t1 t2 fun f args hf => ?_
        rw [hu] at hf
        cases hf
      | compound f args ihargs =>
        intro t1 t2 hu
        refine answers_of_applied hs t1 t2 fun g args' hf pairs hpairs => ?_
        obtain ⟨rfl, rfl⟩ : f = g ∧ args = args' := by
          rw [hu] at hf
          exact Term.compound.inj hf
        apply answers_unifyPairs hs
        · intro p hp
          have harg := subst_eq_of_mem_args hs hf (hpairs p hp)
          exact ihargs p.1 (hpairs p hp) p.1 p.2 harg
        · exact fun s' σ' p hs' hlt => ih (unbound s') hlt hs' p.1 p.2 rfl
    exact hinner _ t1 t2 rfl

theorem answers_pairs (hs : s.Resolves σ) (pairs : List (Term × Term)) :
    Answers s σ pairs fun fuel => unifyPairs (unifyWithSub fuel) pairs s :=
  answers_unifyPairs hs (fun p _ => answers_unifyWithSub hs p.1 p.2)
    fun _ _ p hs' _ => answers_unifyWithSub hs' p.1 p.2

/-- A result that says which maps make two things equal: substituting with it ends on every term,
and it is a most general one of these maps; or there is no such map. -/
def Decides (equal : (VarId → Term) → Prop) : Option Bindings → Prop
  | some s => ∃ σ, (∀ t : Term, Returns (t.substitute s) (t.subst σ)) ∧ equal σ ∧
      ∀ θ, equal θ → After θ σ
  | none => ∀ θ, ¬equal θ

theorem Outcome.decides {result : Option Bindings} (h : Outcome ∅ .var pairs result) :
    Decides (fun θ => Unifies θ pairs) result := by
  cases result with
  | none => exact fun θ => h θ (after_var θ)
  | some s =>
    obtain ⟨σ, hs, hsolves, -⟩ := h
    exact ⟨σ, hs.substitute, hsolves.unifies hs.after_self,
      fun θ hθ => (hsolves θ).mpr ⟨after_var θ, hθ⟩⟩

theorem unify_decides (t1 t2 : Term) :
    ∃ result, Returns (unify t1 t2) result ∧ Decides (fun θ => t1.subst θ = t2.subst θ) result := by
  obtain ⟨result, hreturns, hresult⟩ := answers_unifyWithSub Bindings.resolves_empty t1 t2
  refine ⟨result, hreturns, ?_⟩
  simpa only [unifies_singleton] using hresult.decides

theorem unifyAtoms_decides (p1 : Symbol) (args1 : List Term) (p2 : Symbol) (args2 : List Term) :
    ∃ result, Returns (unifyAtoms (.atom p1 args1) (.atom p2 args2)) result ∧
      Decides (fun θ => p1 = p2 ∧ args1.map (Term.subst θ) = args2.map (Term.subst θ)) result := by
  by_cases hmismatch : p1 ≠ p2 ∨ args1.length ≠ args2.length
  · have hrun : unifyAtoms (.atom p1 args1) (.atom p2 args2) = fun _ => some none := by
      funext fuel
      exact if_pos hmismatch
    rw [hrun]
    refine ⟨none, returns_some _, fun θ hequal => ?_⟩
    have hlength := congrArg List.length hequal.2
    rw [List.length_map, List.length_map] at hlength
    exact hmismatch.elim (· hequal.1) (· hlength)
  · have hrun : unifyAtoms (.atom p1 args1) (.atom p2 args2) =
        fun fuel => unifyPairs (unifyWithSub fuel) (args1.zip args2) ∅ := by
      funext fuel
      exact if_neg hmismatch
    rw [not_or, not_not, not_not] at hmismatch
    obtain ⟨result, hreturns, hresult⟩ := answers_pairs Bindings.resolves_empty (args1.zip args2)
    rw [hrun]
    refine ⟨result, hreturns, ?_⟩
    simpa only [unifies_zip hmismatch.2, hmismatch.1, true_and] using hresult.decides

/-- Unification of two terms, or of two atoms, ends with a most general unifier or because there
is none. -/
theorem unification_correct :
    (∀ t1 t2 : Term, ∃ result, Returns (unify t1 t2) result ∧
      Decides (fun θ => t1.subst θ = t2.subst θ) result) ∧
    ∀ p1 args1 p2 args2, ∃ result,
      Returns (unifyAtoms (.atom p1 args1) (.atom p2 args2)) result ∧
        Decides (fun θ => p1 = p2 ∧ args1.map (Term.subst θ) = args2.map (Term.subst θ)) result :=
  ⟨unify_decides, unifyAtoms_decides⟩

end Correctness

end Qubitcoin.Aether.Logic
