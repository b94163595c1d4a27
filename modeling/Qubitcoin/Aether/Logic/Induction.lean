import Qubitcoin.Aether.Logic.AntiUnify

/-! Inductive generalisation, from `induction.rs`. -/

namespace Qubitcoin.Aether.Logic

mutual

def Term.collectVars : Term → Finset VarId → Finset VarId
  | .var v, out => insert v out
  | .constant _, out => out
  | .compound _ args, out => Term.collectVarsAll args out

def Term.collectVarsAll : List Term → Finset VarId → Finset VarId
  | [], out => out
  | a :: args, out => Term.collectVarsAll args (Term.collectVars a out)

end

def Term.variables (t : Term) : Finset VarId := t.collectVars ∅

namespace Formula

mutual

/-- The free variables found so far and those bound; a quantifier takes its own out again. -/
def collectFreeVars : Formula → Finset VarId × Finset VarId → Finset VarId × Finset VarId
  | .atom _ terms, (free, bound) =>
    (terms.foldl (fun free t => free ∪ t.variables \ bound) free, bound)
  | .not f, vars => collectFreeVars f vars
  | .and fs, vars => collectFreeVarsAll fs vars
  | .or fs, vars => collectFreeVarsAll fs vars
  | .implies a b, vars => collectFreeVars b (collectFreeVars a vars)
  | .forAll v body, (free, bound) =>
    let (free, bound) := collectFreeVars body (free, insert v bound)
    (free, bound.erase v)
  | .exist v body, (free, bound) =>
    let (free, bound) := collectFreeVars body (free, insert v bound)
    (free, bound.erase v)

def collectFreeVarsAll :
    List Formula → Finset VarId × Finset VarId → Finset VarId × Finset VarId
  | [], vars => vars
  | f :: fs, vars => collectFreeVarsAll fs (collectFreeVars f vars)

end

def freeVariables (f : Formula) : Finset VarId := (f.collectFreeVars (∅, ∅)).1

def atomPredicate : Formula → Option (Symbol × ℕ)
  | .atom pred args => some (pred, args.length)
  | _ => none

/-- The formula below its quantifiers. -/
def matrix : Formula → Formula
  | .forAll _ body => matrix body
  | f => f

@[simp] theorem matrix_atom (p : Symbol) (args : List Term) :
    matrix (.atom p args) = .atom p args :=
  rfl

/-- An atom without variables. -/
def IsGroundAtom (f : Formula) : Prop :=
  ∃ p args, f = .atom p args ∧ ∀ a ∈ args, Term.isGround a = true

end Formula

structure Generalization where
  formula : Formula
  coverage : ℕ
  totalExamples : ℕ
  variableInstances : AList fun _ : VarId => List Term

/-- The groups by predicate and number of arguments. -/
abbrev Groups := AList fun _ : Symbol × ℕ => List Formula

def groupExamples (examples : List Formula) : Groups :=
  examples.foldl
    (fun groups ex =>
      match ex.atomPredicate with
      | some key => groups.insert key ((groups.lookup key).getD [] ++ [ex])
      | none => groups)
    ∅

/-- The progressive anti-unification of a group so far. -/
structure Progress where
  current : Formula
  combinedVarMap : AList fun _ : VarId => List Term
  counter : ℕ

section Induce

variable {H : Type} [DecidableEq H] (termHash : Term → H)
  (iterate : Finset VarId → List VarId)
  (order : List (Σ _ : Symbol × ℕ, List Formula) → List (Σ _ : Symbol × ℕ, List Formula))

def Progress.next (s : Progress) (other : Formula) : Progress :=
  match antiUnifyAtoms termHash s.current other s.counter with
  | some (generalized, result) =>
    { current := generalized
      combinedVarMap := result.varMap.entries.foldl
        (fun combined entry =>
          combined.insert entry.1 ((combined.lookup entry.1).getD [] ++ entry.2))
        s.combinedVarMap
      counter := result.counter }
  | none => s

def quantify (vars : List VarId) (f : Formula) : Formula :=
  vars.foldl (fun quantified varId => .forAll varId quantified) f

/-- The body of the loop over the groups: a group of fewer than two has no generalisation. -/
def generalizeGroup (totalExamples : ℕ) (group : List Formula) (counter : ℕ) :
    Option Generalization × ℕ :=
  match group with
  | first :: second :: rest =>
    let s := (second :: rest).foldl (Progress.next termHash)
      { current := first, combinedVarMap := ∅, counter := counter }
    (some
      { formula := quantify (iterate s.current.freeVariables) s.current
        coverage := group.length
        totalExamples := totalExamples
        variableInstances := s.combinedVarMap }, s.counter)
  | _ => (none, counter)

def generalizeGroups (totalExamples : ℕ) :
    List (Σ _ : Symbol × ℕ, List Formula) → ℕ → List Generalization × ℕ
  | [], counter => ([], counter)
  | entry :: entries, counter =>
    let (result, counter) := generalizeGroup termHash iterate totalExamples entry.2 counter
    let (results, counter) := generalizeGroups totalExamples entries counter
    (result.toList ++ results, counter)

/-- Coverage first, the larger before the smaller, then the number of free variables. -/
def ranked (a b : Generalization) : Bool :=
  b.coverage < a.coverage ∨
    (a.coverage = b.coverage ∧ a.formula.freeVariables.card ≤ b.formula.freeVariables.card)

/-- `induce`, with the counter of the fresh variables.  The hash tables are gone through in any
order, that of the groups and that of the free variables. -/
def induce (examples : List Formula) (counter : ℕ) : List Generalization × ℕ :=
  if examples = [] then ([], counter)
  else
    let (results, counter) := generalizeGroups termHash iterate examples.length
      (order (groupExamples examples).entries) counter
    (results.mergeSort ranked, counter)

end Induce

/-- The examples of one predicate and number of arguments. -/
def group (examples : List Formula) (key : Symbol × ℕ) : List Formula :=
  examples.filter fun ex => ex.atomPredicate = some key

section Groups

theorem getD_lookup_groupExamples (examples : List Formula) (key : Symbol × ℕ) :
    ((groupExamples examples).lookup key).getD [] = group examples key := by
  induction examples using List.reverseRecOn with
  | nil => rfl
  | append_singleton examples ex ih =>
    rw [group, List.filter_append, ← group, ← ih, groupExamples, List.foldl_append, ← groupExamples]
    cases hpred : ex.atomPredicate with
    | none => simp [hpred]
    | some k =>
      by_cases hkey : key = k
      · subst hkey
        simp [hpred, AList.lookup_insert]
      · simp [hpred, AList.lookup_insert_ne hkey, Ne.symm hkey]

theorem mem_entries_groupExamples {examples : List Formula}
    {entry : Σ _ : Symbol × ℕ, List Formula} (h : entry ∈ (groupExamples examples).entries) :
    entry.2 = group examples entry.1 := by
  have hlookup := AList.mem_lookup_iff.mpr h
  rw [← getD_lookup_groupExamples, Option.mem_def.mp hlookup]
  rfl

theorem exists_entry_of_group_ne_nil {examples : List Formula} {key : Symbol × ℕ}
    (h : group examples key ≠ []) :
    ⟨key, group examples key⟩ ∈ (groupExamples examples).entries := by
  rw [← getD_lookup_groupExamples] at h ⊢
  cases hlookup : (groupExamples examples).lookup key with
  | none => simp [hlookup] at h
  | some g => exact AList.mem_lookup_iff.mp hlookup

end Groups

section Laws

/-- What the examples of a key leave so far: an atom of theirs and, while the counter has not
wrapped, their least general generalisation. -/
structure Progress.After (s : Progress) (key : Symbol × ℕ) (start : ℕ) (seen : List Formula) :
    Prop where
  current : ∃ args, s.current = .atom key.1 args ∧ args.length = key.2
  counter : start ≤ s.counter
  least : s.counter ≤ 2 ^ 32 → LeastGeneral s.current seen

/-- What a generalisation says of the examples of a key. -/
structure Generalization.Of (r : Generalization) (key : Symbol × ℕ) (examples : List Formula) :
    Prop where
  atomPredicate : r.formula.matrix.atomPredicate = some key
  coverage : r.coverage = examples.length
  least : LeastGeneral r.formula.matrix examples

theorem Formula.IsGroundAtom.exists_args {f : Formula} (h : f.IsGroundAtom) {key : Symbol × ℕ}
    (hkey : f.atomPredicate = some key) :
    ∃ args, f = .atom key.1 args ∧ args.length = key.2 ∧ ∀ a ∈ args, a.isGround = true := by
  obtain ⟨p, args, rfl, hground⟩ := h
  cases Option.some.inj hkey
  exact ⟨args, rfl, rfl, hground⟩

theorem matrix_quantify (vars : List VarId) (f : Formula) :
    (quantify vars f).matrix = f.matrix := by
  induction vars generalizing f with
  | nil => rfl
  | cons v vars ih =>
    rw [quantify, List.foldl_cons, ← quantify, ih]
    rfl

variable {H : Type} [DecidableEq H] {termHash : Term → H} {iterate : Finset VarId → List VarId}
  {key : Symbol × ℕ} {total start : ℕ}

theorem Progress.After.next (hinj : Function.Injective termHash) {s : Progress}
    {seen : List Formula} (hs : s.After key start seen) {other : Formula}
    (hground : other.IsGroundAtom) (hkey : other.atomPredicate = some key) :
    (s.next termHash other).After key start (seen ++ [other]) := by
  obtain ⟨args, hcurrent, hlength⟩ := hs.current
  obtain ⟨args', rfl, hlength', hground⟩ := hground.exists_args hkey
  obtain ⟨rs, t, hrun, hrs, hcounter, hleast⟩ := leastGeneral_antiUnifyAtoms hinj
    (hlength.trans hlength'.symm) hground s.counter
  rw [Progress.next, hcurrent, hrun]
  refine ⟨⟨rs, rfl, hrs.trans hlength⟩, hs.counter.trans hcounter, fun hwrap => ?_⟩
  have hseen := hs.least (hcounter.trans hwrap)
  rw [hcurrent] at hseen
  exact hseen.snoc (hleast hwrap)

theorem Progress.After.foldl_next (hinj : Function.Injective termHash) {s : Progress}
    {seen others : List Formula} (hs : s.After key start seen)
    (hothers : ∀ e ∈ others, e.IsGroundAtom ∧ e.atomPredicate = some key) :
    (others.foldl (Progress.next termHash) s).After key start (seen ++ others) := by
  induction others generalizing s seen with
  | nil => rwa [List.append_nil]
  | cons other others ih =>
    rw [List.forall_mem_cons] at hothers
    rw [List.append_cons]
    exact ih (hs.next hinj hothers.1.1 hothers.1.2) hothers.2

variable (iterate total start)

/-- A group of two and more has one generalisation, of all of it. -/
theorem generalizeGroup_of_two_le (hinj : Function.Injective termHash) {group : List Formula}
    (hgroup : ∀ e ∈ group, e.IsGroundAtom ∧ e.atomPredicate = some key) (htwo : 2 ≤ group.length) :
    ∃ r, (generalizeGroup termHash iterate total group start).1 = some r ∧
      start ≤ (generalizeGroup termHash iterate total group start).2 ∧
      ((generalizeGroup termHash iterate total group start).2 ≤ 2 ^ 32 → r.Of key group) := by
  match group, htwo with
  | first :: second :: rest, _ =>
    obtain ⟨hfirst, hrest⟩ := List.forall_mem_cons.mp hgroup
    obtain ⟨args, rfl, hlength, -⟩ := hfirst.1.exists_args hfirst.2
    let s : Progress := { current := .atom key.1 args, combinedVarMap := ∅, counter := start }
    have hs : s.After key start [.atom key.1 args] :=
      ⟨⟨args, rfl, hlength⟩, le_rfl, fun _ => leastGeneral_singleton key.1 args⟩
    have hfold := hs.foldl_next hinj hrest
    refine ⟨_, rfl, hfold.counter, fun hwrap => ?_⟩
    obtain ⟨args', hcurrent, hlength'⟩ := hfold.current
    have hleast := hfold.least hwrap
    constructor
    · rw [matrix_quantify, hcurrent, Formula.matrix_atom, Formula.atomPredicate, hlength']
    · rfl
    · rw [matrix_quantify]
      rw [hcurrent] at hleast ⊢
      exact hleast

variable (termHash) in
theorem generalizeGroup_of_lt_two {group : List Formula} (h : group.length < 2) :
    generalizeGroup termHash iterate total group start = (none, start) := by
  match group, h with
  | [], _ => rfl
  | [_], _ => rfl

theorem generalizeGroups_cons (entry : Σ _ : Symbol × ℕ, List Formula)
    (entries : List (Σ _ : Symbol × ℕ, List Formula)) :
    generalizeGroups termHash iterate total (entry :: entries) start =
      let first := generalizeGroup termHash iterate total entry.2 start
      let rest := generalizeGroups termHash iterate total entries first.2
      (first.1.toList ++ rest.1, rest.2) :=
  rfl

/-- The groups that are gone through, with the generalisations they leave. -/
structure Covered (entries : List (Σ _ : Symbol × ℕ, List Formula))
    (results : List Generalization) : Prop where
  atomPredicates : results.map (fun r => r.formula.matrix.atomPredicate) =
    (entries.filter (2 ≤ ·.2.length)).map fun entry => some entry.1
  of {r} : r ∈ results → ∃ entry ∈ entries, 2 ≤ entry.2.length ∧ r.Of entry.1 entry.2

theorem covered_generalizeGroups (hinj : Function.Injective termHash)
    (entries : List (Σ _ : Symbol × ℕ, List Formula))
    (hentries : ∀ entry ∈ entries, ∀ e ∈ entry.2, e.IsGroundAtom ∧ e.atomPredicate = some entry.1) :
    start ≤ (generalizeGroups termHash iterate total entries start).2 ∧
      ((generalizeGroups termHash iterate total entries start).2 ≤ 2 ^ 32 →
        Covered entries (generalizeGroups termHash iterate total entries start).1) := by
  induction entries generalizing start with
  | nil => exact ⟨le_rfl, fun _ => ⟨rfl, nofun⟩⟩
  | cons entry entries ih =>
    rw [List.forall_mem_cons] at hentries
    obtain ⟨hcounter, hcovered⟩ := ih (generalizeGroup termHash iterate total entry.2 start).2
      hentries.2
    rw [generalizeGroups_cons]
    by_cases htwo : 2 ≤ entry.2.length
    · obtain ⟨r, hr, hstart, hof⟩ := generalizeGroup_of_two_le iterate total start hinj
        hentries.1 htwo
      refine ⟨hstart.trans hcounter, fun hwrap => ?_⟩
      have hof := hof (hcounter.trans hwrap)
      have hrest := hcovered hwrap
      simp only [hr]
      constructor
      · rw [List.filter_cons_of_pos (by simpa using htwo), List.map_cons, ← hrest.atomPredicates,
          ← hof.atomPredicate]
        rfl
      · intro r' hr'
        rcases List.mem_cons.mp hr' with rfl | hr'
        · exact ⟨entry, List.mem_cons_self, htwo, hof⟩
        · obtain ⟨e, he, hspec⟩ := hrest.of hr'
          exact ⟨e, List.mem_cons_of_mem _ he, hspec⟩
    · have hone := generalizeGroup_of_lt_two termHash iterate total start
        (Nat.lt_of_not_le htwo)
      rw [hone] at hcounter hcovered ⊢
      refine ⟨hcounter, fun hwrap => ⟨?_, ?_⟩⟩
      · rw [List.filter_cons_of_neg (by simpa using htwo)]
        exact (hcovered hwrap).atomPredicates
      · intro r hr
        obtain ⟨e, he, hspec⟩ := (hcovered hwrap).of hr
        exact ⟨e, List.mem_cons_of_mem _ he, hspec⟩

variable {order : List (Σ _ : Symbol × ℕ, List Formula) → List (Σ _ : Symbol × ℕ, List Formula)}

variable (termHash) in
/-- The generalisations of the groups, put in order. -/
theorem perm_induce (horder : ∀ gs, (order gs).Perm gs) (examples : List Formula) :
    let run := generalizeGroups termHash iterate examples.length
      (order (groupExamples examples).entries) start
    (induce termHash iterate order examples start).1.Perm run.1 ∧
      (induce termHash iterate order examples start).2 = run.2 := by
  rw [induce]
  split
  · next hnil =>
    subst hnil
    have hentries : order (groupExamples []).entries = [] := List.perm_nil.mp (horder _)
    rw [hentries]
    exact ⟨.nil, rfl⟩
  · exact ⟨List.mergeSort_perm _ _, rfl⟩

theorem nodup_keys {entries : List (Σ _ : Symbol × ℕ, List Formula)} (h : entries.NodupKeys) :
    ((entries.filter (2 ≤ ·.2.length)).map fun entry => some entry.1).Nodup := by
  have hkeys : (entries.filter (2 ≤ ·.2.length)).keys.Nodup := h.sublist List.filter_sublist
  have hsome := hkeys.map (Option.some_injective _)
  rwa [List.keys, List.map_map] at hsome

/-- Of a list of ground atoms each group of at least two has exactly one generalisation, which is
the least general one and covers the group. -/
theorem induce_least_general (hinj : Function.Injective termHash)
    (horder : ∀ gs, (order gs).Perm gs) {examples : List Formula}
    (hground : ∀ e ∈ examples, e.IsGroundAtom) (counter : ℕ)
    (hwrap : (induce termHash iterate order examples counter).2 ≤ 2 ^ 32) :
    let results := (induce termHash iterate order examples counter).1
    (∀ r ∈ results, ∃ key, 2 ≤ (group examples key).length ∧ r.Of key (group examples key)) ∧
      ∀ key, 2 ≤ (group examples key).length →
        (results.map fun r => r.formula.matrix.atomPredicate).count (some key) = 1 := by
  intro results
  have hentries : ∀ entry ∈ order (groupExamples examples).entries,
      entry.2 = group examples entry.1 := by
    intro entry hentry
    rw [(horder _).mem_iff] at hentry
    exact mem_entries_groupExamples hentry
  obtain ⟨-, hcovered⟩ := covered_generalizeGroups iterate examples.length counter hinj
    (order (groupExamples examples).entries) (fun entry hentry e he => by
      rw [hentries entry hentry, group, List.mem_filter, decide_eq_true_eq] at he
      exact ⟨hground e he.1, he.2⟩)
  obtain ⟨hperm, hcounter⟩ := perm_induce termHash iterate counter horder examples
  rw [hcounter] at hwrap
  have hcovered := hcovered hwrap
  constructor
  · intro r hr
    obtain ⟨entry, hentry, htwo, hof⟩ := hcovered.of (hperm.mem_iff.mp hr)
    rw [hentries entry hentry] at htwo hof
    exact ⟨entry.1, htwo, hof⟩
  · intro key htwo
    rw [(hperm.map _).count_eq, hcovered.atomPredicates]
    refine List.count_eq_one_of_mem ?_ ?_
    · exact nodup_keys ((List.perm_nodupKeys (horder _)).mpr (groupExamples examples).nodupKeys)
    · have hne : group examples key ≠ [] := List.ne_nil_of_length_pos (by omega)
      refine List.mem_map.mpr ⟨⟨key, group examples key⟩, List.mem_filter.mpr ⟨?_, ?_⟩, rfl⟩
      · exact (horder _).mem_iff.mpr (exists_entry_of_group_ne_nil hne)
      · exact decide_eq_true htwo

/-- `parent(alice, bob)` and `parent(alice, carol)`. -/
theorem induce_least_general_parent :
    let parent (child : BitVec 32) : Formula := .atom ⟨0⟩ [.constant ⟨1⟩, .constant ⟨child⟩]
    let results := (induce id (fun vars => vars.sort (· ≤ ·)) id [parent 2, parent 3] 10000).1
    (results.map fun r => r.formula.matrix.atomPredicate).count (some (⟨0⟩, 2)) = 1 := by
  intro parent results
  have hground : ∀ e ∈ [parent 2, parent 3], e.IsGroundAtom := by
    simp only [List.forall_mem_cons, List.not_mem_nil, false_imp_iff, implies_true, and_true]
    exact ⟨⟨_, _, rfl, by decide⟩, ⟨_, _, rfl, by decide⟩⟩
  have hleast := induce_least_general (fun vars => vars.sort (· ≤ ·)) Function.injective_id
    (fun _ => .refl _) hground 10000 (by decide)
  exact hleast.2 (⟨0⟩, 2) (by decide)

end Laws

end Qubitcoin.Aether.Logic
