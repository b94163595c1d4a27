import Qubitcoin.Aether.Logic.Formula

/-! Anti-unification, from `induction.rs`: the least general generalisation of two atoms. -/

namespace Qubitcoin.Aether.Logic

section Generalize

variable (name : Term → Term → VarId)

mutual

/-- The generalisation of two terms where each pair that disagrees has a variable. -/
def Term.generalize : Term → Term → Term
  | .compound f1 args1, t2 =>
    if .compound f1 args1 = t2 then .compound f1 args1
    else
      match t2 with
      | .compound f2 args2 =>
        if f1 = f2 ∧ args1.length = args2.length then
          .compound f1 (Term.generalizeAll args1 args2)
        else .var (name (.compound f1 args1) (.compound f2 args2))
      | t2 => .var (name (.compound f1 args1) t2)
  | t1, t2 => if t1 = t2 then t1 else .var (name t1 t2)

def Term.generalizeAll : List Term → List Term → List Term
  | a1 :: args1, a2 :: args2 => Term.generalize a1 a2 :: Term.generalizeAll args1 args2
  | _, _ => []

end

end Generalize

/-- The memo table and the variables introduced, with the counter they are drawn from. -/
structure AntiUnifier (H : Type) where
  counter : ℕ
  memo : AList fun _ : H × H => VarId
  varMap : AList fun _ : VarId => List Term

section Inner

variable {H : Type} [DecidableEq H] (termHash : Term → H)

/-- The end of `anti_unify_inner`: the pair's variable, or a fresh one from the counter, which wraps
at 32 bits. -/
def disagree (t1 t2 : Term) (s : AntiUnifier H) : Term × AntiUnifier H :=
  let key := (termHash t1, termHash t2)
  match s.memo.lookup key with
  | some varId => (.var varId, s)
  | none =>
    let varId := BitVec.ofNat 32 s.counter
    (.var varId,
      { counter := s.counter + 1
        memo := s.memo.insert key varId
        varMap := s.varMap.insert varId [t1, t2] })

mutual

def antiUnifyInner : Term → Term → AntiUnifier H → Term × AntiUnifier H
  | .compound f1 args1, t2, s =>
    if .compound f1 args1 = t2 then (.compound f1 args1, s)
    else
      match t2 with
      | .compound f2 args2 =>
        if f1 = f2 ∧ args1.length = args2.length then
          let (newArgs, s) := antiUnifyArgs args1 args2 s
          (.compound f1 newArgs, s)
        else disagree termHash (.compound f1 args1) (.compound f2 args2) s
      | t2 => disagree termHash (.compound f1 args1) t2 s
  | t1, t2, s => if t1 = t2 then (t1, s) else disagree termHash t1 t2 s

/-- The loop over two lists of arguments zipped together. -/
def antiUnifyArgs : List Term → List Term → AntiUnifier H → List Term × AntiUnifier H
  | a1 :: args1, a2 :: args2, s =>
    let (a, s) := antiUnifyInner a1 a2 s
    let (args, s) := antiUnifyArgs args1 args2 s
    (a :: args, s)
  | _, _, s => ([], s)

end

/-- The generalised atom with the state it is left in, from a table that starts empty. -/
def antiUnifyAtoms (f1 f2 : Formula) (counter : ℕ) : Option (Formula × AntiUnifier H) :=
  match f1, f2 with
  | .atom p1 args1, .atom p2 args2 =>
    if p1 = p2 ∧ args1.length = args2.length then
      let (args, s) := antiUnifyArgs termHash args1 args2
        { counter := counter, memo := ∅, varMap := ∅ }
      some (.atom p1 args, s)
    else none
  | _, _ => none

end Inner

section Shape

/-- Compounds that are taken apart. -/
def SameShape (t1 t2 : Term) : Prop :=
  ∃ f args1 args2, args1.length = args2.length ∧ t1 = .compound f args1 ∧ t2 = .compound f args2

variable {H : Type} [DecidableEq H] {termHash : Term → H} {name : Term → Term → VarId}
  {t1 t2 : Term} {s : AntiUnifier H} {f : Symbol} {args1 args2 : List Term}

theorem antiUnifyInner_self (t : Term) : antiUnifyInner termHash t t s = (t, s) := by
  cases t <;> simp [antiUnifyInner]

theorem generalize_self (t : Term) : t.generalize name t = t := by
  cases t <;> simp [Term.generalize]

theorem antiUnifyInner_compound (hne : args1 ≠ args2) (hlength : args1.length = args2.length) :
    antiUnifyInner termHash (.compound f args1) (.compound f args2) s =
      (.compound f (antiUnifyArgs termHash args1 args2 s).1,
        (antiUnifyArgs termHash args1 args2 s).2) := by
  simp [antiUnifyInner, hne, hlength]

theorem generalize_compound (hne : args1 ≠ args2) (hlength : args1.length = args2.length) :
    (Term.compound f args1).generalize name (.compound f args2) =
      .compound f (Term.generalizeAll name args1 args2) := by
  simp [Term.generalize, hne, hlength]

theorem not_sameShape_compound {f1 f2 : Symbol} :
    ¬SameShape (.compound f1 args1) (.compound f2 args2) ↔
      ¬(f1 = f2 ∧ args1.length = args2.length) := by
  refine not_congr ⟨?_, ?_⟩
  · rintro ⟨f, args1, args2, hlength, ⟨⟩, ⟨⟩⟩
    exact ⟨rfl, hlength⟩
  · rintro ⟨rfl, hlength⟩
    exact ⟨f1, args1, args2, hlength, rfl, rfl⟩

theorem antiUnifyInner_disagree (hne : t1 ≠ t2) (hshape : ¬SameShape t1 t2) :
    antiUnifyInner termHash t1 t2 s = disagree termHash t1 t2 s := by
  cases t1 with
  | var v => simp [antiUnifyInner, hne]
  | constant c => simp [antiUnifyInner, hne]
  | compound f1 args1 =>
    cases t2 with
    | var v => simp [antiUnifyInner]
    | constant c => simp [antiUnifyInner]
    | compound f2 args2 =>
      simp only [antiUnifyInner, if_neg hne, if_neg (not_sameShape_compound.mp hshape)]

theorem generalize_disagree (hne : t1 ≠ t2) (hshape : ¬SameShape t1 t2) :
    t1.generalize name t2 = .var (name t1 t2) := by
  cases t1 with
  | var v => simp [Term.generalize, hne]
  | constant c => simp [Term.generalize, hne]
  | compound f1 args1 =>
    cases t2 with
    | var v => simp [Term.generalize]
    | constant c => simp [Term.generalize]
    | compound f2 args2 =>
      simp only [Term.generalize, if_neg hne, if_neg (not_sameShape_compound.mp hshape)]

/-- Two terms are the same, or taken apart, or have a variable of their own. -/
theorem agree_or_disagree (t1 t2 : Term) :
    t1 = t2 ∨
      (∃ f args1 args2, t1 = .compound f args1 ∧ t2 = .compound f args2 ∧ args1 ≠ args2 ∧
        args1.length = args2.length) ∨
      (t1 ≠ t2 ∧ ¬SameShape t1 t2) := by
  by_cases heq : t1 = t2
  · exact .inl heq
  · by_cases hshape : SameShape t1 t2
    · obtain ⟨f, args1, args2, hlength, rfl, rfl⟩ := hshape
      refine .inr (.inl ⟨f, args1, args2, rfl, rfl, ?_, hlength⟩)
      rintro rfl
      exact heq rfl
    · exact .inr (.inr ⟨heq, hshape⟩)

end Shape

section Least

variable {name : Term → Term → VarId} (σ τ : VarId → Term)

theorem generalizeAll_map (σ τ : Term → Term) (args : List Term) :
    Term.generalizeAll name (args.map σ) (args.map τ) =
      args.map fun a => (σ a).generalize name (τ a) := by
  induction args with
  | nil => rfl
  | cons a args ih => rw [List.map_cons, List.map_cons, Term.generalizeAll, ih, List.map_cons]

/-- A competitor is carried to the generalisation by generalising what it is carried to. -/
theorem subst_generalize (t : Term) :
    t.subst (fun v => (σ v).generalize name (τ v)) =
      (t.subst σ).generalize name (t.subst τ) := by
  induction t with
  | var v => rfl
  | constant c => exact (generalize_self _).symm
  | compound f args ih =>
    simp only [Term.subst, Term.substAll_eq_map]
    have hargs : args.map (Term.subst fun v => (σ v).generalize name (τ v)) =
        Term.generalizeAll name (args.map (Term.subst σ)) (args.map (Term.subst τ)) := by
      rw [generalizeAll_map]
      exact List.map_congr_left ih
    by_cases heq : args.map (Term.subst σ) = args.map (Term.subst τ)
    · rw [hargs, heq, generalize_self, generalizeAll_map]
      simp only [generalize_self]
    · rw [hargs, generalize_compound heq (by rw [List.length_map, List.length_map])]

theorem generalizeAll_subst (args : List Term) :
    Term.generalizeAll name (args.map (Term.subst σ)) (args.map (Term.subst τ)) =
      args.map (Term.subst fun v => (σ v).generalize name (τ v)) := by
  rw [generalizeAll_map]
  exact List.map_congr_left fun t _ => (subst_generalize σ τ t).symm

end Least

section Run

variable {H : Type} [DecidableEq H] {termHash : Term → H}

namespace AntiUnifier

/-- What a variable stands for on the two sides. -/
def left (s : AntiUnifier H) (v : VarId) : Term := ((s.varMap.lookup v).bind (·[0]?)).getD (.var v)

def right (s : AntiUnifier H) (v : VarId) : Term := ((s.varMap.lookup v).bind (·[1]?)).getD (.var v)

/-- The variable of a pair; of pairs not met any variable. -/
def name (termHash : Term → H) (s : AntiUnifier H) (t1 t2 : Term) : VarId :=
  (s.memo.lookup (termHash t1, termHash t2)).getD 0

/-- The tables have only grown. -/
structure Before (s s' : AntiUnifier H) : Prop where
  counter : s.counter ≤ s'.counter
  memo {k v} : s.memo.lookup k = some v → s'.memo.lookup k = some v
  varMap {v l} : s.varMap.lookup v = some l → s'.varMap.lookup v = some l

/-- Each variable in the memo table stands for the pair it was introduced for, and the variables
were drawn below the counter. -/
structure Sound (termHash : Term → H) (s : AntiUnifier H) : Prop where
  recorded {k v} : s.memo.lookup k = some v →
    ∃ t1 t2, k = (termHash t1, termHash t2) ∧ s.varMap.lookup v = some [t1, t2]
  drawn {v l} : s.varMap.lookup v = some l → ∃ n < s.counter, v = BitVec.ofNat 32 n

variable {s s' s'' : AntiUnifier H}

theorem Before.refl (s : AntiUnifier H) : s.Before s := ⟨le_rfl, id, id⟩

theorem Before.trans (h : s.Before s') (h' : s'.Before s'') : s.Before s'' :=
  ⟨h.counter.trans h'.counter, fun hk => h'.memo (h.memo hk), fun hv => h'.varMap (h.varMap hv)⟩

end AntiUnifier

open AntiUnifier

/-- What the run on two terms leaves for every later table: the generalisation under the names of
the table, which the table carries back to both sides. -/
def Generalizes (termHash : Term → H) (t1 t2 r : Term) (s : AntiUnifier H) : Prop :=
  ∀ m, s.Before m → t1.generalize (m.name termHash) t2 = r ∧ r.subst m.left = t1 ∧
    r.subst m.right = t2

def GeneralizesAll (termHash : Term → H) (args1 args2 rs : List Term) (s : AntiUnifier H) : Prop :=
  ∀ m, s.Before m → Term.generalizeAll (m.name termHash) args1 args2 = rs ∧
    rs.map (Term.subst m.left) = args1 ∧ rs.map (Term.subst m.right) = args2

/-- The tables after a run, of which `P` holds, as long as the counter has not wrapped. -/
def Runs (termHash : Term → H) (s s' : AntiUnifier H) (P : AntiUnifier H → Prop) : Prop :=
  s.counter ≤ s'.counter ∧
    (s'.counter ≤ 2 ^ 32 → s.Sound termHash → s.Before s' ∧ s'.Sound termHash ∧ P s')

theorem subst_of_isGround {t : Term} (h : t.isGround = true) (θ : VarId → Term) :
    t.subst θ = t := by
  conv_rhs => rw [← Term.subst_var_eq t]
  refine Term.subst_congr fun v hv => ?_
  rw [Term.isGround_iff.mp h v] at hv
  cases hv

variable {t1 t2 : Term} {args1 args2 : List Term} {s : AntiUnifier H}

theorem generalizes_same (h : t1.isGround = true) : Generalizes termHash t1 t1 t1 s :=
  fun _ _ => ⟨generalize_self t1, subst_of_isGround h _, subst_of_isGround h _⟩

/-- A variable that stands for the pair generalises it. -/
theorem generalizes_var (hne : t1 ≠ t2) (hshape : ¬SameShape t1 t2) {v : VarId}
    (hmemo : s.memo.lookup (termHash t1, termHash t2) = some v)
    (hvarMap : s.varMap.lookup v = some [t1, t2]) : Generalizes termHash t1 t2 (.var v) s := by
  intro m hm
  refine ⟨?_, ?_, ?_⟩
  · rw [generalize_disagree hne hshape, name, hm.memo hmemo]
    rfl
  · rw [Term.subst, left, hm.varMap hvarMap]
    rfl
  · rw [Term.subst, right, hm.varMap hvarMap]
    rfl

theorem runs_disagree (hinj : Function.Injective termHash) (hne : t1 ≠ t2)
    (hshape : ¬SameShape t1 t2) :
    Runs termHash s (disagree termHash t1 t2 s).2
      (Generalizes termHash t1 t2 (disagree termHash t1 t2 s).1) := by
  rw [disagree]
  cases hmemo : s.memo.lookup (termHash t1, termHash t2) with
  | some v =>
    refine ⟨le_rfl, fun _ hs => ⟨.refl s, hs, ?_⟩⟩
    obtain ⟨u1, u2, hkey, hvarMap⟩ := hs.recorded hmemo
    obtain ⟨h1, h2⟩ := Prod.mk.inj hkey
    rw [← hinj h1, ← hinj h2] at hvarMap
    exact generalizes_var hne hshape hmemo hvarMap
  | none =>
    refine ⟨Nat.le_succ _, fun hwrap hs => ?_⟩
    -- a variable drawn before comes from a smaller counter
    have hfresh {v : VarId} {l : List Term} (hv : s.varMap.lookup v = some l) :
        v ≠ BitVec.ofNat 32 s.counter := by
      rintro rfl
      obtain ⟨n, hn, heq⟩ := hs.drawn hv
      have hcounter : s.counter < 2 ^ 32 := hwrap
      have hnat := congrArg BitVec.toNat heq
      rw [BitVec.toNat_ofNat, BitVec.toNat_ofNat, Nat.mod_eq_of_lt hcounter,
        Nat.mod_eq_of_lt (hn.trans hcounter)] at hnat
      omega
    refine ⟨⟨Nat.le_succ _, ?_, ?_⟩, ⟨?_, ?_⟩, ?_⟩
    · intro k v hk
      rw [AList.lookup_insert_ne, hk]
      rintro rfl
      cases hmemo.symm.trans hk
    · intro v l hv
      rw [AList.lookup_insert_ne (hfresh hv), hv]
    · intro k v hk
      by_cases hkey : k = (termHash t1, termHash t2)
      · subst hkey
        rw [AList.lookup_insert] at hk
        cases hk
        exact ⟨t1, t2, rfl, AList.lookup_insert _⟩
      · rw [AList.lookup_insert_ne hkey] at hk
        obtain ⟨u1, u2, hpair, hvarMap⟩ := hs.recorded hk
        exact ⟨u1, u2, hpair, by rw [AList.lookup_insert_ne (hfresh hvarMap), hvarMap]⟩
    · intro v l hv
      by_cases hnew : v = BitVec.ofNat 32 s.counter
      · exact ⟨s.counter, Nat.lt_succ_self _, hnew⟩
      · rw [AList.lookup_insert_ne hnew] at hv
        obtain ⟨n, hn, heq⟩ := hs.drawn hv
        exact ⟨n, hn.trans (Nat.lt_succ_self _), heq⟩
    · exact generalizes_var hne hshape (AList.lookup_insert _) (AList.lookup_insert _)

theorem runs_antiUnifyArgs
    (ih : ∀ a ∈ args1, ∀ t2 : Term, t2.isGround = true → ∀ s,
      Runs termHash s (antiUnifyInner termHash a t2 s).2
        (Generalizes termHash a t2 (antiUnifyInner termHash a t2 s).1))
    (hlength : args1.length = args2.length) (hground : ∀ a ∈ args2, a.isGround = true)
    (s : AntiUnifier H) :
    Runs termHash s (antiUnifyArgs termHash args1 args2 s).2
      (GeneralizesAll termHash args1 args2 (antiUnifyArgs termHash args1 args2 s).1) := by
  induction args1 generalizing args2 s with
  | nil =>
    rw [List.eq_nil_of_length_eq_zero hlength.symm]
    exact ⟨le_rfl, fun _ hs => ⟨.refl s, hs, fun _ _ => ⟨rfl, rfl, rfl⟩⟩⟩
  | cons a1 args1 ihargs =>
    cases args2 with
    | nil => cases hlength
    | cons a2 args2 =>
      rw [List.forall_mem_cons] at ih hground
      obtain ⟨hcounter, hhead⟩ := ih.1 a2 hground.1 s
      obtain ⟨hcounter', htail⟩ := ihargs ih.2 (Nat.succ.inj hlength) hground.2
        (antiUnifyInner termHash a1 a2 s).2
      refine ⟨hcounter.trans hcounter', fun hwrap hs => ?_⟩
      obtain ⟨hbefore, hsound, ha⟩ := hhead (hcounter'.trans hwrap) hs
      obtain ⟨hbefore', hsound', hargs⟩ := htail hwrap hsound
      refine ⟨hbefore.trans hbefore', hsound', fun m hm => ?_⟩
      obtain ⟨hname, hleft, hright⟩ := ha m (hbefore'.trans hm)
      obtain ⟨hnames, hlefts, hrights⟩ := hargs m hm
      simp only [Term.generalizeAll, antiUnifyArgs, List.map_cons, hname, hnames, hleft, hlefts,
        hright, hrights, and_self]

theorem runs_antiUnifyInner_of (hinj : Function.Injective termHash)
    (ih : ∀ f args1, t1 = .compound f args1 → ∀ a ∈ args1, ∀ t2 : Term, t2.isGround = true → ∀ s,
      Runs termHash s (antiUnifyInner termHash a t2 s).2
        (Generalizes termHash a t2 (antiUnifyInner termHash a t2 s).1))
    (hground : t2.isGround = true) (s : AntiUnifier H) :
    Runs termHash s (antiUnifyInner termHash t1 t2 s).2
      (Generalizes termHash t1 t2 (antiUnifyInner termHash t1 t2 s).1) := by
  rcases agree_or_disagree t1 t2 with
    rfl | ⟨f, args1, args2, rfl, rfl, hne, hlength⟩ | ⟨hne, hshape⟩
  · rw [antiUnifyInner_self]
    exact ⟨le_rfl, fun _ hs => ⟨.refl s, hs, generalizes_same hground⟩⟩
  · rw [antiUnifyInner_compound hne hlength]
    rw [Term.isGround, Term.isGroundAll_iff] at hground
    obtain ⟨hcounter, hargs⟩ := runs_antiUnifyArgs (ih f args1 rfl) hlength hground s
    refine ⟨hcounter, fun hwrap hs => ?_⟩
    obtain ⟨hbefore, hsound, hargs⟩ := hargs hwrap hs
    refine ⟨hbefore, hsound, fun m hm => ?_⟩
    obtain ⟨hnames, hlefts, hrights⟩ := hargs m hm
    rw [generalize_compound hne hlength, hnames, Term.subst, Term.subst, Term.substAll_eq_map,
      Term.substAll_eq_map, hlefts, hrights]
    exact ⟨rfl, rfl, rfl⟩
  · rw [antiUnifyInner_disagree hne hshape]
    exact runs_disagree hinj hne hshape

theorem runs_antiUnifyInner (hinj : Function.Injective termHash) (t1 t2 : Term)
    (hground : t2.isGround = true) (s : AntiUnifier H) :
    Runs termHash s (antiUnifyInner termHash t1 t2 s).2
      (Generalizes termHash t1 t2 (antiUnifyInner termHash t1 t2 s).1) := by
  induction t1 generalizing t2 s with
  | var v | constant c =>
    refine runs_antiUnifyInner_of hinj ?_ hground s
    intro f args h
    cases h
  | compound f args ih =>
    refine runs_antiUnifyInner_of hinj ?_ hground s
    rintro _ _ ⟨⟩ a ha t2 hground s
    exact ih a ha t2 hground s

theorem length_antiUnifyArgs (hlength : args1.length = args2.length) (s : AntiUnifier H) :
    (antiUnifyArgs termHash args1 args2 s).1.length = args1.length := by
  induction args1 generalizing args2 s with
  | nil => rw [List.eq_nil_of_length_eq_zero hlength.symm]; rfl
  | cons a1 args1 ih =>
    cases args2 with
    | nil => cases hlength
    | cons a2 args2 => exact congrArg (· + 1) (ih (Nat.succ.inj hlength) _)

end Run

section Atoms

/-- An atom with terms put in for its variables. -/
def InstanceOf (f g : Formula) : Prop :=
  ∃ p args, g = .atom p args ∧ ∃ θ : VarId → Term, f = .atom p (args.map (Term.subst θ))

/-- `g` has the examples as instances, and is an instance of every atom that has. -/
structure LeastGeneral (g : Formula) (examples : List Formula) : Prop where
  covers : ∀ e ∈ examples, InstanceOf e g
  least : ∀ h, (∀ e ∈ examples, InstanceOf e h) → InstanceOf g h

theorem InstanceOf.trans {f g h : Formula} (hfg : InstanceOf f g) (hgh : InstanceOf g h) :
    InstanceOf f h := by
  obtain ⟨p, args, rfl, θ, rfl⟩ := hfg
  obtain ⟨q, args', rfl, σ, heq⟩ := hgh
  obtain ⟨rfl, rfl⟩ := Formula.atom.inj heq
  refine ⟨p, args', rfl, fun v => (σ v).subst θ, ?_⟩
  rw [List.map_map]
  congr 2
  funext t
  exact Term.subst_subst_eq θ σ t

theorem leastGeneral_singleton (p : Symbol) (args : List Term) :
    LeastGeneral (.atom p args) [.atom p args] where
  covers := by
    rw [List.forall_mem_singleton]
    refine ⟨p, args, rfl, .var, ?_⟩
    rw [List.map_congr_left fun t _ => Term.subst_var_eq t, List.map_id']
  least _ h := h _ (List.mem_singleton_self _)

/-- Generalising once more what generalises the examples before. -/
theorem LeastGeneral.snoc {g r e : Formula} {examples : List Formula}
    (hg : LeastGeneral g examples) (hr : LeastGeneral r [g, e]) :
    LeastGeneral r (examples ++ [e]) where
  covers := by
    rw [List.forall_mem_append, List.forall_mem_singleton]
    have hg' := hr.covers g List.mem_cons_self
    exact ⟨fun f hf => (hg.covers f hf).trans hg', hr.covers e (by simp)⟩
  least h hcovers := by
    rw [List.forall_mem_append] at hcovers
    refine hr.least h (List.forall_mem_cons.mpr ⟨hg.least h hcovers.1, ?_⟩)
    exact hcovers.2

variable {H : Type} [DecidableEq H] {termHash : Term → H}

/-- Of atoms with the same predicate and as many arguments, the second ground, this is the least
general generalisation. -/
theorem leastGeneral_antiUnifyAtoms (hinj : Function.Injective termHash) {p : Symbol}
    {args1 args2 : List Term} (hlength : args1.length = args2.length)
    (hground : ∀ a ∈ args2, a.isGround = true) (counter : ℕ) :
    ∃ rs s, antiUnifyAtoms termHash (.atom p args1) (.atom p args2) counter =
        some (.atom p rs, s) ∧ rs.length = args1.length ∧ counter ≤ s.counter ∧
      (s.counter ≤ 2 ^ 32 → LeastGeneral (.atom p rs) [.atom p args1, .atom p args2]) := by
  let start : AntiUnifier H := { counter := counter, memo := ∅, varMap := ∅ }
  have hempty : start.Sound termHash := ⟨nofun, nofun⟩
  obtain ⟨hcounter, hruns⟩ := runs_antiUnifyArgs
    (fun a _ t2 hground s => runs_antiUnifyInner hinj a t2 hground s) hlength hground start
  refine ⟨_, _, if_pos ⟨rfl, hlength⟩, length_antiUnifyArgs hlength start, hcounter,
    fun hwrap => ?_⟩
  obtain ⟨-, -, hargs⟩ := hruns hwrap hempty
  obtain ⟨hnames, hleft, hright⟩ := hargs _ (.refl _)
  constructor
  · intro e he
    simp only [List.mem_cons, List.not_mem_nil, or_false] at he
    rcases he with rfl | rfl
    · exact ⟨p, _, rfl, _, congrArg (Formula.atom p) hleft.symm⟩
    · exact ⟨p, _, rfl, _, congrArg (Formula.atom p) hright.symm⟩
  · intro h hcovers
    obtain ⟨q, args, rfl, σ, h1⟩ := hcovers _ List.mem_cons_self
    obtain ⟨q', args', heq, τ, h2⟩ := hcovers (.atom p args2) (by simp)
    obtain ⟨rfl, rfl⟩ := Formula.atom.inj heq
    obtain ⟨rfl, rfl⟩ := Formula.atom.inj h1
    obtain ⟨-, rfl⟩ := Formula.atom.inj h2
    rw [← hnames, generalizeAll_subst]
    exact ⟨p, args, rfl, _, rfl⟩

end Atoms

end Qubitcoin.Aether.Logic
