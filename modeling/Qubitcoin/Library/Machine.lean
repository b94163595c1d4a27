import Mathlib

/-! Deterministic machines: a step function folded over a list of inputs, with a
history of what each step lets an observer see. -/

universe u v w

namespace Machine

variable {σ : Type u} {ι : Type v} {ω : Type w}

def run (step : σ → ι → σ) (s : σ) (is : List ι) : σ := is.foldl step s

/-- The observations along a run, each taken in the state the input meets. -/
def history (step : σ → ι → σ) (obs : σ → ι → List ω) (s : σ) : List ι → List ω
  | [] => []
  | i :: is => obs s i ++ history step obs (step s i) is

variable {step : σ → ι → σ} {obs : σ → ι → List ω}

@[simp] theorem run_nil (s : σ) : run step s [] = s := rfl

@[simp] theorem run_cons (s : σ) (i : ι) (is : List ι) :
    run step s (i :: is) = run step (step s i) is := rfl

theorem run_append (s : σ) (is js : List ι) :
    run step s (is ++ js) = run step (run step s is) js := by
  simp [run]

theorem history_append (s : σ) (is js : List ι) :
    history step obs s (is ++ js) =
      history step obs s is ++ history step obs (run step s is) js := by
  induction is generalizing s with
  | nil => rfl
  | cons i is ih => simp [history, ih]

theorem history_snoc (s : σ) (is : List ι) (i : ι) :
    history step obs s (is ++ [i]) = history step obs s is ++ obs (run step s is) i := by
  simp [history_append, history]

/-- What a step preserves, a run preserves. -/
theorem run_induction {P : σ → Prop} (hstep : ∀ s i, P s → P (step s i)) {s : σ} (h : P s)
    (is : List ι) : P (run step s is) := by
  induction is generalizing s with
  | nil => exact h
  | cons i is ih => exact ih (hstep s i h)

/-- What each step of a run preserves as long as it meets its condition, holds at
every state the run passes through. -/
theorem run_guarded {P : σ → Prop} {G : σ → ι → Prop}
    (hstep : ∀ s i, P s → G s i → P (step s i)) {s : σ} (hinit : P s) {is : List ι}
    (hG : ∀ before i, before ++ [i] <+: is → G (run step s before) i) {before : List ι}
    (hle : before <+: is) : P (run step s before) := by
  induction before using List.reverseRecOn with
  | nil => exact hinit
  | append_singleton before i ih =>
    rw [run_append]
    exact hstep _ _ (ih ((List.prefix_append _ _).trans hle)) (hG before i hle)

omit σ ω in
theorem forall_before_nil {P : List ι → ι → Prop} :
    (∀ before i, before ++ [i] <+: [] → P before i) ↔ True := by
  simp

omit σ ω in
/-- The inputs of a list, each with those before it. -/
theorem forall_before_cons {P : List ι → ι → Prop} {j : ι} {is : List ι} :
    (∀ before i, before ++ [i] <+: j :: is → P before i) ↔
      P [] j ∧ ∀ before i, before ++ [i] <+: is → P (j :: before) i := by
  constructor
  · intro h
    refine ⟨h [] j (by simp), ?_⟩
    intro before i hle
    exact h (j :: before) i (by simpa using hle)
  · rintro ⟨hhead, htail⟩ before i hle
    cases before with
    | nil =>
      cases (List.cons_prefix_cons.mp hle).1
      exact hhead
    | cons k before =>
      obtain ⟨hhead', htail'⟩ := List.cons_prefix_cons.mp hle
      cases hhead'
      exact htail before i htail'

/-- The rule for an invariant that speaks of the history so far.  `Q` is an
assumption on the whole history; a step may use it of its own prefix. -/
theorem history_induction {P : σ → List ω → Prop} {Q : List ω → Prop}
    (hclosed : ∀ h h', Q (h ++ h') → Q h)
    (hstep : ∀ s h i, P s h → Q (h ++ obs s i) → P (step s i) (h ++ obs s i))
    {s : σ} (hinit : P s []) (is : List ι) (hQ : Q (history step obs s is)) :
    P (run step s is) (history step obs s is) := by
  induction is using List.reverseRecOn with
  | nil => exact hinit
  | append_singleton is i ih =>
    rw [history_snoc] at hQ ⊢
    rw [run_append]
    exact hstep _ _ _ (ih (hclosed _ _ hQ)) hQ

/-- The history rule without an assumption on the history. -/
theorem history_invariant {P : σ → List ω → Prop}
    (hstep : ∀ s h i, P s h → P (step s i) (h ++ obs s i)) {s : σ} (hinit : P s [])
    (is : List ι) : P (run step s is) (history step obs s is) :=
  history_induction (Q := fun _ => True) (fun _ _ _ => trivial)
    (fun s h i hP _ => hstep s h i hP) hinit is trivial

/-- What is observed at some point of a run. -/
theorem mem_history {s : σ} {is : List ι} {x : ω} :
    x ∈ history step obs s is ↔
      ∃ before i after, is = before ++ i :: after ∧ x ∈ obs (run step s before) i := by
  induction is generalizing s with
  | nil => simp [history]
  | cons j is ih =>
    rw [history, List.mem_append, ih]
    constructor
    · rintro (hx | ⟨before, i, after, rfl, hx⟩)
      · exact ⟨[], j, is, rfl, hx⟩
      · exact ⟨j :: before, i, after, rfl, hx⟩
    · rintro ⟨before, i, after, heq, hx⟩
      cases before with
      | nil =>
        cases heq
        exact Or.inl hx
      | cons k before =>
        cases heq
        exact Or.inr ⟨before, i, after, rfl, hx⟩

/-- A history repeats nothing if no step observes what an earlier one has. -/
theorem history_nodup_iff {s : σ} {is : List ι} :
    (history step obs s is).Nodup ↔ ∀ before i, before ++ [i] <+: is →
      (obs (run step s before) i).Nodup ∧
        List.Disjoint (history step obs s before) (obs (run step s before) i) := by
  induction is using List.reverseRecOn with
  | nil => simp [history]
  | append_singleton is i ih =>
    rw [history_snoc, List.nodup_append', ih]
    constructor
    · rintro ⟨hold, hnew, hapart⟩ before j hle
      cases List.prefix_concat_iff.mp hle with
      | inl heq =>
        obtain ⟨rfl, hlast⟩ := List.append_inj' heq rfl
        cases List.singleton_inj.mp hlast
        exact ⟨hnew, hapart⟩
      | inr hle => exact hold before j hle
    · intro h
      obtain ⟨hnew, hapart⟩ := h is i (List.prefix_refl _)
      refine ⟨?_, hnew, hapart⟩
      intro before j hle
      exact h before j (hle.trans (List.prefix_append _ _))

end Machine
