import Mathlib

/-! Two walks of a graph towards a query: the greedy descent, and the best-first search that keeps
the nearest vertices it meets, up to a number. -/

universe u v w

section Loops

variable {σ : Type u} {step : σ → Option σ} {P : σ → Prop} {μ : σ → ℕ} {s : σ} {fuel fuel' : ℕ}

/-- A loop that ends when its step has nothing more to do. -/
def untilDone (step : σ → Option σ) : ℕ → σ → σ
  | 0, s => s
  | fuel + 1, s =>
    match step s with
    | none => s
    | some s' => untilDone step fuel s'

theorem untilDone_induction (hstep : ∀ s s', P s → step s = some s' → P s') (h : P s) (fuel : ℕ) :
    P (untilDone step fuel s) := by
  induction fuel generalizing s with
  | zero => exact h
  | succ fuel ih =>
    rw [untilDone]
    cases hs : step s with
    | none => exact h
    | some s' => exact ih (hstep s s' h hs)

/-- With fuel for what the steps use up the loop ends by itself. -/
theorem step_untilDone (hstep : ∀ s s', P s → step s = some s' → P s' ∧ μ s' < μ s) (h : P s)
    (hfuel : μ s < fuel) : step (untilDone step fuel s) = none := by
  induction fuel generalizing s with
  | zero => exact absurd hfuel (Nat.not_lt_zero _)
  | succ fuel ih =>
    rw [untilDone]
    cases hs : step s with
    | none => exact hs
    | some s' =>
      obtain ⟨h', hlt⟩ := hstep s s' h hs
      exact ih h' (hlt.trans_le (Nat.lt_succ_iff.mp hfuel))

end Loops

namespace GreedyDescent

variable {V : Type u} (closer : V → V → Bool) (neighbors : V → List V)

/-- A vertex, and if the walk has moved. -/
def move (walk : V × Bool) (neighbor : V) : V × Bool :=
  if closer neighbor walk.1 then (neighbor, true) else walk

/-- One turn of the walk, along the neighbors of its vertex. -/
def step (current : V) : Option V :=
  let (next, changed) := (neighbors current).foldl (move closer) (current, false)
  if changed then some next else none

def descend (fuel : ℕ) (start : V) : V := untilDone (step closer neighbors) fuel start

variable {closer neighbors} {P : V → Prop} {μ : V → ℕ} {current next : V}

theorem foldl_move_induction (hcloser : ∀ n c, P c → closer n c = true → P n) {walk : V × Bool}
    (h : P walk.1) (list : List V) : P (list.foldl (move closer) walk).1 := by
  induction list generalizing walk with
  | nil => exact h
  | cons n list ih =>
    rw [List.foldl_cons]
    apply ih
    unfold move
    split
    · next hcl => exact hcloser n walk.1 h hcl
    · exact h

theorem foldl_move_lt (hcloser : ∀ n c, closer n c = true → μ n < μ c) {bound : ℕ}
    {walk : V × Bool} (hle : μ walk.1 ≤ bound) (hlt : walk.2 = true → μ walk.1 < bound)
    (list : List V) (hmoved : (list.foldl (move closer) walk).2 = true) :
    μ (list.foldl (move closer) walk).1 < bound := by
  induction list generalizing walk with
  | nil => exact hlt hmoved
  | cons n list ih =>
    rw [List.foldl_cons] at hmoved ⊢
    by_cases hcl : closer n walk.1 = true
    · have hnear := (hcloser n walk.1 hcl).trans_le hle
      have hmove : move closer walk n = (n, true) := by simp [move, hcl]
      rw [hmove] at hmoved ⊢
      exact ih hnear.le (fun _ => hnear) hmoved
    · have hmove : move closer walk n = walk := by simp [move, hcl]
      rw [hmove] at hmoved ⊢
      exact ih hle hlt hmoved

theorem step_eq_some (h : step closer neighbors current = some next) :
    (neighbors current).foldl (move closer) (current, false) = (next, true) := by
  unfold step at h
  generalize (neighbors current).foldl (move closer) (current, false) = walk at h
  obtain ⟨last, changed⟩ := walk
  dsimp only at h
  split at h
  · next hchanged =>
    cases h
    rw [hchanged]
  · cases h

theorem foldl_move_of_moved {walk : V × Bool} (h : walk.2 = true) (list : List V) :
    (list.foldl (move closer) walk).2 = true := by
  induction list generalizing walk with
  | nil => exact h
  | cons n list ih =>
    rw [List.foldl_cons]
    apply ih
    unfold move
    split
    · rfl
    · exact h

theorem foldl_move_of_closer {list : List V} {n : V} (hn : n ∈ list)
    (hcl : closer n current = true) : (list.foldl (move closer) (current, false)).2 = true := by
  induction list with
  | nil => cases hn
  | cons m list ih =>
    rw [List.foldl_cons]
    by_cases hm : closer m current = true
    · exact foldl_move_of_moved (by simp [move, hm]) list
    · have hmove : move closer (current, false) m = (current, false) := by simp [move, hm]
      rw [hmove]
      rcases List.mem_cons.mp hn with rfl | hrest
      · exact absurd hcl hm
      · exact ih hrest

/-- The walk rests where no neighbor is closer. -/
theorem closer_of_step_eq_none (h : step closer neighbors current = none) {n : V}
    (hn : n ∈ neighbors current) : closer n current = false := by
  rw [← Bool.not_eq_true]
  intro hcl
  have hmoved := foldl_move_of_closer hn hcl
  unfold step at h
  generalize (neighbors current).foldl (move closer) (current, false) = walk at h hmoved
  obtain ⟨last, changed⟩ := walk
  dsimp only at h hmoved
  rw [if_pos hmoved] at h
  cases h

theorem descend_induction (hcloser : ∀ n c, P c → closer n c = true → P n) {start : V}
    (h : P start) (fuel : ℕ) : P (descend closer neighbors fuel start) := by
  apply untilDone_induction _ h
  intro current next hcurrent hstep
  have hpass := @foldl_move_induction V closer P hcloser (current, false) hcurrent
    (neighbors current)
  rwa [step_eq_some hstep] at hpass

/-- The descent ends where no neighbor moves it, if the fuel exceeds a rank that falls with each
move. -/
theorem step_descend (hcloser : ∀ n c, closer n c = true → μ n < μ c) {fuel : ℕ} {start : V}
    (hfuel : μ start < fuel) : step closer neighbors (descend closer neighbors fuel start) = none := by
  apply step_untilDone (P := fun _ => True) (μ := μ) _ trivial hfuel
  intro current next _ hstep
  have hlt := @foldl_move_lt V closer μ hcloser (μ current) (current, false) le_rfl nofun
    (neighbors current)
  rw [step_eq_some hstep] at hlt
  exact ⟨trivial, hlt rfl⟩

end GreedyDescent

namespace BestFirst

variable {V : Type u} {D : Type v} [LinearOrder V] [LinearOrder D]

/-- Pairs of a distance and a vertex, in the order of their parts. -/
def Before (e e' : D × V) : Prop := e.1 < e'.1 ∨ (e.1 = e'.1 ∧ e.2 ≤ e'.2)

instance (e e' : D × V) : Decidable (Before e e') :=
  inferInstanceAs (Decidable (e.1 < e'.1 ∨ (e.1 = e'.1 ∧ e.2 ≤ e'.2)))

/-- A heap as a list with the least pair at its head. -/
def pushMin (e : D × V) (heap : List (D × V)) : List (D × V) := heap.orderedInsert Before e

/-- A heap as a list with the greatest pair at its head. -/
def pushMax (e : D × V) (heap : List (D × V)) : List (D × V) :=
  heap.orderedInsert (fun e e' => Before e' e) e

structure Graph (V : Type u) (D : Type v) where
  neighbors : V → List V
  /-- The vertices that the search enters. -/
  live : V → Bool
  dist : V → D

structure State (V : Type u) (D : Type v) where
  candidates : List (D × V)
  results : List (D × V)
  visited : List V

variable (g : Graph V D) (ef : ℕ)

/-- A neighbor is looked at once, and kept if there is room or if it is nearer than the farthest of
the results, which then goes. -/
def visit (s : State V D) (neighbor : V) : State V D :=
  if neighbor ∈ s.visited then s
  else
    let s := { s with visited := neighbor :: s.visited }
    if g.live neighbor = false then s
    else
      let e := (g.dist neighbor, neighbor)
      if s.results.length < ef then
        { s with candidates := pushMin e s.candidates, results := pushMax e s.results }
      else
        match s.results with
        | [] => s
        | farthest :: _ =>
          if e.1 < farthest.1 then
            { s with
              candidates := pushMin e s.candidates
              results := (pushMax e s.results).tail }
          else s

/-- The nearest candidate is expanded, unless it is farther than all of the results and these are
enough. -/
def step (s : State V D) : Option (State V D) :=
  match s.candidates with
  | [] => none
  | c :: candidates =>
    if (s.results.head?.any fun farthest => farthest.1 < c.1) ∧ ef ≤ s.results.length then none
    else some ((g.neighbors c.2).foldl (visit g ef) { s with candidates := candidates })

def start (v : V) : State V D where
  candidates := [(g.dist v, v)]
  results := [(g.dist v, v)]
  visited := [v]

def search (fuel : ℕ) (v : V) : State V D := untilDone (step g ef) fuel (start g v)

/-- There is a way through vertices that the search may enter. -/
def Leads (v w : V) : Prop := Relation.ReflTransGen (fun a b => b ∈ g.neighbors a ∧ g.live b = true) v w

/-- While the search from `v` has the neighbors `pending` of `x` to look at.  As long as there is
room nothing that was met has been dropped, and what is not a candidate any more has been
expanded. -/
structure Searching (v x : V) (pending : List V) (s : State V D) : Prop where
  dist : ∀ e ∈ s.results, e.1 = g.dist e.2
  leads : ∀ e ∈ s.candidates ++ s.results, Leads g v e.2
  visited : ∀ e ∈ s.candidates ++ s.results, e.2 ∈ s.visited
  leadsVia : pending ≠ [] → Leads g v x
  neighbors : ∀ n ∈ pending, n ∈ g.neighbors x
  nodup : (s.results.map Prod.snd).Nodup
  pos : 0 < s.results.length
  le : s.results.length ≤ max ef 1
  started : v ∈ s.visited
  met : s.results.length < ef →
    ∀ w ∈ s.visited, w = v ∨ g.live w = true → w ∈ s.results.map Prod.snd
  expanded : s.results.length < ef →
    ∀ e ∈ s.results, e ∈ s.candidates ∨
      ∀ n ∈ g.neighbors e.2, n ∈ s.visited ∨ (e.2 = x ∧ n ∈ pending)

variable {g ef} {v x n : V} {pending : List V} {s : State V D}

theorem mem_pushMin {e e' : D × V} {heap : List (D × V)} :
    e' ∈ pushMin e heap ↔ e' = e ∨ e' ∈ heap :=
  List.mem_orderedInsert _

theorem perm_pushMax (e : D × V) (heap : List (D × V)) : (pushMax e heap).Perm (e :: heap) :=
  List.perm_orderedInsert _ _ _

theorem mem_pushMax {e e' : D × V} {heap : List (D × V)} :
    e' ∈ pushMax e heap ↔ e' = e ∨ e' ∈ heap :=
  List.mem_orderedInsert _

/-- What a look at a neighbor can do: nothing, no more than note it, or keep it, in which case it
may take the place of another result. -/
theorem visit_cases (g : Graph V D) (ef : ℕ) (s : State V D) (n : V) (hpos : 0 < s.results.length) :
    (n ∈ s.visited ∧ visit g ef s n = s) ∨
    n ∉ s.visited ∧ (
      ((g.live n = false ∨ ef ≤ s.results.length) ∧
        visit g ef s n = { s with visited := n :: s.visited }) ∨
      (g.live n = true ∧ ∃ results, visit g ef s n =
          { candidates := pushMin (g.dist n, n) s.candidates
            results := results
            visited := n :: s.visited } ∧
        ((s.results.length < ef ∧ results = pushMax (g.dist n, n) s.results) ∨
          (ef ≤ s.results.length ∧ results = (pushMax (g.dist n, n) s.results).tail)))) := by
  unfold visit
  by_cases hvisited : n ∈ s.visited
  · exact Or.inl ⟨hvisited, by simp [hvisited]⟩
  · refine Or.inr ⟨hvisited, ?_⟩
    cases hlive : g.live n with
    | false => simp [hvisited]
    | true =>
      by_cases hroom : s.results.length < ef
      · exact Or.inr ⟨rfl, _, by simp [hvisited, hroom], Or.inl ⟨hroom, rfl⟩⟩
      · have hfull := not_lt.mp hroom
        cases hresults : s.results with
        | nil => simp [hresults] at hpos
        | cons farthest results =>
          rw [hresults] at hfull
          have hlength : ¬results.length + 1 < ef := not_lt.mpr hfull
          by_cases hnearer : g.dist n < farthest.1
          · exact Or.inr ⟨rfl, _, by simp [hvisited, hlength, hnearer], Or.inr ⟨hfull, rfl⟩⟩
          · exact Or.inl ⟨Or.inr hfull, by simp [hvisited, hlength, hnearer]⟩

/-- A kept neighbor leaves results that are old ones or itself, as many as before or one more. -/
theorem kept {results : List (D × V)} {e : D × V}
    (h : (s.results.length < ef ∧ results = pushMax e s.results) ∨
      (ef ≤ s.results.length ∧ results = (pushMax e s.results).tail)) :
    results.Sublist (pushMax e s.results) ∧ s.results.length ≤ results.length ∧
      (results.length < ef → s.results.length < ef ∧ results = pushMax e s.results) ∧
      results.length ≤ max ef s.results.length := by
  have hlength : (pushMax e s.results).length = s.results.length + 1 :=
    (perm_pushMax e s.results).length_eq
  rcases h with ⟨hroom, rfl⟩ | ⟨hfull, rfl⟩
  · refine ⟨List.Sublist.refl _, by omega, fun _ => ⟨hroom, rfl⟩, by omega⟩
  · rw [List.length_tail]
    exact ⟨List.tail_sublist _, by omega, fun hlt => by omega, by omega⟩

omit [LinearOrder V] [LinearOrder D] in
/-- A neighbor that had been looked at before. -/
theorem Searching.skip (h : Searching g ef v x (n :: pending) s) (hvisited : n ∈ s.visited) :
    Searching g ef v x pending s :=
  { h with
    leadsVia := fun _ => h.leadsVia (List.cons_ne_nil _ _)
    neighbors := fun m hm => h.neighbors m (List.mem_cons_of_mem _ hm)
    expanded := fun hroom e he => by
      rcases h.expanded hroom e he with hcandidate | hexpanded
      · exact Or.inl hcandidate
      · refine Or.inr fun m hm => ?_
        rcases hexpanded m hm with hold | ⟨hx, hpending⟩
        · exact Or.inl hold
        · rcases List.mem_cons.mp hpending with rfl | hrest
          · exact Or.inl hvisited
          · exact Or.inr ⟨hx, hrest⟩ }

omit [LinearOrder V] [LinearOrder D] in
/-- A neighbor that is noted only. -/
theorem Searching.note (h : Searching g ef v x (n :: pending) s) (hnew : n ∉ s.visited)
    (hdropped : g.live n = false ∨ ef ≤ s.results.length) :
    Searching g ef v x pending { s with visited := n :: s.visited } := by
  have hwider : Searching g ef v x (n :: pending) { s with visited := n :: s.visited } :=
    { h with
      visited := fun e he => List.mem_cons_of_mem _ (h.visited e he)
      started := List.mem_cons_of_mem _ h.started
      met := fun hroom w hw hlive => by
        rcases List.mem_cons.mp hw with rfl | hold
        · rcases hlive with rfl | hlive
          · exact absurd h.started hnew
          · rcases hdropped with hdead | hfull
            · rw [hlive] at hdead
              cases hdead
            · exact absurd hroom (not_lt.mpr hfull)
        · exact h.met hroom w hold hlive
      expanded := fun hroom e he => by
        rcases h.expanded hroom e he with hcandidate | hexpanded
        · exact Or.inl hcandidate
        · refine Or.inr fun m hm => ?_
          rcases hexpanded m hm with hold | hpending
          · exact Or.inl (List.mem_cons_of_mem _ hold)
          · exact Or.inr hpending }
  exact hwider.skip (List.mem_cons_self)

/-- A neighbor that is kept. -/
theorem Searching.keep (h : Searching g ef v x (n :: pending) s) (hnew : n ∉ s.visited)
    (hlive : g.live n = true) {results : List (D × V)}
    (hkept : (s.results.length < ef ∧ results = pushMax (g.dist n, n) s.results) ∨
      (ef ≤ s.results.length ∧ results = (pushMax (g.dist n, n) s.results).tail)) :
    Searching g ef v x pending
      { candidates := pushMin (g.dist n, n) s.candidates
        results := results
        visited := n :: s.visited } := by
  obtain ⟨hsub, hle, hroom, hmax⟩ := kept hkept
  have hmem (e : D × V) (he : e ∈ results) : e = (g.dist n, n) ∨ e ∈ s.results :=
    mem_pushMax.mp (hsub.subset he)
  have hway : Leads g v n :=
    (h.leadsVia (List.cons_ne_nil _ _)).tail ⟨h.neighbors n List.mem_cons_self, hlive⟩
  have hboth (e : D × V) (he : e ∈ pushMin (g.dist n, n) s.candidates ++ results) :
      e = (g.dist n, n) ∨ e ∈ s.candidates ++ s.results := by
    rcases List.mem_append.mp he with hc | hr
    · exact (mem_pushMin.mp hc).imp id (List.mem_append_left _)
    · exact (hmem e hr).imp id (List.mem_append_right _)
  have hwider : Searching g ef v x (n :: pending)
      { candidates := pushMin (g.dist n, n) s.candidates
        results := results
        visited := n :: s.visited } :=
    { dist := fun e he => by
        rcases hmem e he with rfl | hold
        · rfl
        · exact h.dist e hold
      leads := fun e he => by
        rcases hboth e he with rfl | hold
        · exact hway
        · exact h.leads e hold
      visited := fun e he => by
        rcases hboth e he with rfl | hold
        · exact List.mem_cons_self
        · exact List.mem_cons_of_mem _ (h.visited e hold)
      leadsVia := h.leadsVia
      neighbors := h.neighbors
      nodup := by
        apply (hsub.map Prod.snd).nodup
        rw [((perm_pushMax _ _).map Prod.snd).nodup_iff, List.map_cons, List.nodup_cons]
        refine ⟨fun hin => ?_, h.nodup⟩
        obtain ⟨e, he, heq⟩ := List.mem_map.mp hin
        have hvisited := h.visited e (List.mem_append_right _ he)
        rw [heq] at hvisited
        exact hnew hvisited
      pos := h.pos.trans_le hle
      le := hmax.trans (max_le (le_max_left _ _) h.le)
      started := List.mem_cons_of_mem _ h.started
      met := fun hlt w hw hw' => by
        obtain ⟨hold, rfl⟩ := hroom hlt
        rw [((perm_pushMax _ _).map Prod.snd).mem_iff, List.map_cons]
        rcases List.mem_cons.mp hw with rfl | hin
        · exact List.mem_cons_self
        · exact List.mem_cons_of_mem _ (h.met hold w hin hw')
      expanded := fun hlt e he => by
        obtain ⟨hold, rfl⟩ := hroom hlt
        rcases hmem e he with rfl | hin
        · exact Or.inl (mem_pushMin.mpr (Or.inl rfl))
        · rcases h.expanded hold e hin with hcandidate | hexpanded
          · exact Or.inl (mem_pushMin.mpr (Or.inr hcandidate))
          · refine Or.inr fun m hm => ?_
            rcases hexpanded m hm with hvisited | hpending
            · exact Or.inl (List.mem_cons_of_mem _ hvisited)
            · exact Or.inr hpending }
  exact hwider.skip (List.mem_cons_self)

theorem Searching.visit (h : Searching g ef v x (n :: pending) s) :
    Searching g ef v x pending (visit g ef s n) := by
  rcases visit_cases g ef s n h.pos with ⟨hvisited, heq⟩ | ⟨hnew, ⟨hdropped, heq⟩ |
    ⟨hlive, results, heq, hkept⟩⟩
  · rw [heq]
    exact h.skip hvisited
  · rw [heq]
    exact h.note hnew hdropped
  · rw [heq]
    exact h.keep hnew hlive hkept

theorem Searching.foldl_visit (h : Searching g ef v x pending s) :
    Searching g ef v x [] (pending.foldl (BestFirst.visit g ef) s) := by
  induction pending generalizing s with
  | nil => exact h
  | cons n pending ih => exact ih h.visit

omit [LinearOrder V] [LinearOrder D] in
theorem searching_start (g : Graph V D) (ef : ℕ) (v : V) :
    Searching g ef v v [] (start g v) where
  dist := by simp [start]
  leads := by simp [start, Leads, Relation.ReflTransGen.refl]
  visited := by simp [start]
  leadsVia := nofun
  neighbors := nofun
  nodup := by simp [start]
  pos := by simp [start]
  le := le_max_right _ _
  started := by simp [start]
  met := by simp [start]
  expanded := by simp [start]

omit [LinearOrder V] [LinearOrder D] in
/-- The candidate that is expanded. -/
theorem Searching.pop {c : D × V} {candidates : List (D × V)}
    (h : Searching g ef v x [] s) (hs : s.candidates = c :: candidates) :
    Searching g ef v c.2 (g.neighbors c.2) { s with candidates := candidates } :=
  have hmem (e : D × V) (he : e ∈ candidates ++ s.results) : e ∈ s.candidates ++ s.results := by
    rw [hs]
    exact List.mem_cons_of_mem _ he
  { h with
    leads := fun e he => h.leads e (hmem e he)
    visited := fun e he => h.visited e (hmem e he)
    leadsVia := fun _ => h.leads c (by simp [hs])
    neighbors := fun n hn => hn
    expanded := fun hroom e he => by
      rcases h.expanded hroom e he with hcandidate | hexpanded
      · rw [hs] at hcandidate
        rcases List.mem_cons.mp hcandidate with rfl | hrest
        · exact Or.inr fun n hn => Or.inr ⟨rfl, hn⟩
        · exact Or.inl hrest
      · exact Or.inr fun n hn => Or.inl ((hexpanded n hn).resolve_right nofun) }

/-- A step of the search, or why there is none. -/
theorem step_cases (g : Graph V D) (ef : ℕ) (s : State V D) :
    (∃ c candidates, s.candidates = c :: candidates ∧ step g ef s =
      some ((g.neighbors c.2).foldl (visit g ef) { s with candidates := candidates })) ∨
    (step g ef s = none ∧ (s.candidates = [] ∨ ef ≤ s.results.length)) := by
  unfold step
  cases hs : s.candidates with
  | nil => exact Or.inr ⟨rfl, Or.inl rfl⟩
  | cons c candidates =>
    dsimp only
    split
    · next hfar => exact Or.inr ⟨rfl, Or.inr hfar.2⟩
    · exact Or.inl ⟨c, candidates, rfl, rfl⟩

theorem Searching.step {s' : State V D} (h : Searching g ef v x [] s)
    (hs : step g ef s = some s') : ∃ y, Searching g ef v y [] s' := by
  rcases step_cases g ef s with ⟨c, candidates, hc, hstep⟩ | ⟨hnone, -⟩
  · rw [hs] at hstep
    cases hstep
    exact ⟨c.2, (h.pop hc).foldl_visit⟩
  · rw [hs] at hnone
    cases hnone

theorem searching_search (g : Graph V D) (ef fuel : ℕ) (v : V) :
    ∃ x, Searching g ef v x [] (search g ef fuel v) :=
  untilDone_induction (P := fun s => ∃ x, Searching g ef v x [] s)
    (fun _ _ ⟨_, h⟩ hs => h.step hs) ⟨v, searching_start g ef v⟩ fuel

/-- A search that is done and has room has found all there is to find. -/
theorem Searching.complete (h : Searching g ef v x [] s) (hdone : BestFirst.step g ef s = none)
    (hroom : s.results.length < ef) {w : V} (hw : Leads g v w) : w ∈ s.results.map Prod.snd := by
  have hcandidates : s.candidates = [] := by
    rcases step_cases g ef s with ⟨c, candidates, -, hstep⟩ | ⟨-, hempty | hfull⟩
    · rw [hdone] at hstep
      cases hstep
    · exact hempty
    · exact absurd hroom (not_lt.mpr hfull)
  induction hw with
  | refl => exact h.met hroom v h.started (Or.inl rfl)
  | @tail a b _ hstep ih =>
    obtain ⟨e, he, rfl⟩ := List.mem_map.mp ih
    rcases h.expanded hroom e he with hcandidate | hexpanded
    · rw [hcandidates] at hcandidate
      cases hcandidate
    · have hvisited := (hexpanded b hstep.1).resolve_right nofun
      exact h.met hroom b hvisited (Or.inr hstep.2)

section Fuel

/-- What a search may still do: candidates to expand, and vertices to meet. -/
def rest (vertices : Finset V) (s : State V D) : ℕ :=
  s.candidates.length + (vertices.filter (· ∉ s.visited)).card

variable {vertices : Finset V}

theorem unvisited_cons (n : V) (visited : List V) :
    vertices.filter (· ∉ n :: visited) = (vertices.filter (· ∉ visited)).erase n := by
  ext w
  simp only [Finset.mem_filter, Finset.mem_erase, List.mem_cons, not_or]
  tauto

theorem Searching.rest_visit_le (h : Searching g ef v x (n :: pending) s)
    (hlive : ∀ w, g.live w = true → w ∈ vertices) :
    rest vertices (BestFirst.visit g ef s n) ≤ rest vertices s := by
  have hle := Finset.card_erase_le (s := vertices.filter (· ∉ s.visited)) (a := n)
  rcases visit_cases g ef s n h.pos with ⟨-, heq⟩ | ⟨hnew, ⟨-, heq⟩ | ⟨hn, results, heq, -⟩⟩
  · rw [heq]
  · rw [heq, rest, rest, unvisited_cons]
    exact Nat.add_le_add_left hle _
  · have hmem : n ∈ vertices.filter (· ∉ s.visited) := by simp [hlive n hn, hnew]
    have hcard := Finset.card_erase_add_one hmem
    rw [heq, rest, rest, unvisited_cons, pushMin, List.orderedInsert_length]
    omega

theorem Searching.rest_foldl_le (h : Searching g ef v x pending s)
    (hlive : ∀ w, g.live w = true → w ∈ vertices) :
    rest vertices (pending.foldl (BestFirst.visit g ef) s) ≤ rest vertices s := by
  induction pending generalizing s with
  | nil => exact le_rfl
  | cons n pending ih => exact (ih h.visit).trans (h.rest_visit_le hlive)

/-- Fuel for one step more than there are vertices lets the search come to its end. -/
theorem step_search (hlive : ∀ w, g.live w = true → w ∈ vertices) {fuel : ℕ}
    (hfuel : vertices.card + 1 < fuel) (v : V) :
    BestFirst.step g ef (search g ef fuel v) = none := by
  apply step_untilDone (P := fun s => ∃ x, Searching g ef v x [] s) (μ := rest vertices) _
    ⟨v, searching_start g ef v⟩
  · refine lt_of_le_of_lt ?_ hfuel
    rw [rest, start, List.length_singleton, Nat.add_comm]
    exact Nat.add_le_add_right (Finset.card_filter_le _ _) 1
  · rintro s s' ⟨x, h⟩ hs
    refine ⟨h.step hs, ?_⟩
    rcases step_cases g ef s with ⟨c, candidates, hc, hstep⟩ | ⟨hnone, -⟩
    · rw [hs] at hstep
      cases hstep
      refine lt_of_le_of_lt ((h.pop hc).rest_foldl_le hlive) ?_
      rw [rest, rest, hc, List.length_cons]
      exact Nat.add_lt_add_right (Nat.lt_succ_self _) _
    · rw [hs] at hnone
      cases hnone

end Fuel

end BestFirst
