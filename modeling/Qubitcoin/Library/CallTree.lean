import Mathlib

/-! The tree of a run that starts others.  Each of its frames emits effects, and the effects of a
frame that is dropped are lost with those below it. -/

universe u

/-- What a frame emits and the frames it starts, in order, each kept or dropped. -/
inductive CallTree (ε : Type u)
  | done
  | emit (e : ε) (rest : CallTree ε)
  | sub (kept : Bool) (child rest : CallTree ε)
  deriving DecidableEq

namespace CallTree

variable {ε : Type u}

def emitAll (es : List ε) (rest : CallTree ε) : CallTree ε := es.foldr emit rest

/-- The effects of the frame itself. -/
def own : CallTree ε → List ε
  | .done => []
  | .emit e rest => e :: rest.own
  | .sub _ _ rest => rest.own

/-- The effects of the frame and of the frames below it that are kept. -/
def survivors : CallTree ε → List ε
  | .done => []
  | .emit e rest => e :: rest.survivors
  | .sub kept child rest => (if kept then child.survivors else []) ++ rest.survivors

/-- The effects of all frames, kept or dropped. -/
def all : CallTree ε → List ε
  | .done => []
  | .emit e rest => e :: rest.all
  | .sub _ child rest => child.all ++ rest.all

/-- No frame that is kept below this one has effects that survive. -/
def Quiet : CallTree ε → Prop
  | .done => True
  | .emit _ rest => rest.Quiet
  | .sub kept child rest => (kept = true → child.survivors = []) ∧ rest.Quiet

@[simp] theorem own_emitAll (es : List ε) (rest : CallTree ε) :
    (emitAll es rest).own = es ++ rest.own := by
  induction es with
  | nil => rfl
  | cons e es ih => exact congrArg (e :: ·) ih

@[simp] theorem survivors_emitAll (es : List ε) (rest : CallTree ε) :
    (emitAll es rest).survivors = es ++ rest.survivors := by
  induction es with
  | nil => rfl
  | cons e es ih => exact congrArg (e :: ·) ih

@[simp] theorem all_emitAll (es : List ε) (rest : CallTree ε) :
    (emitAll es rest).all = es ++ rest.all := by
  induction es with
  | nil => rfl
  | cons e es ih => exact congrArg (e :: ·) ih

theorem Quiet.survivors_eq {t : CallTree ε} (h : t.Quiet) : t.survivors = t.own := by
  induction t with
  | done => rfl
  | emit e rest ih => exact congrArg (e :: ·) (ih h)
  | sub kept child rest _ ih =>
    have hchild : (if kept then child.survivors else []) = [] := by
      split
      · next hkept => exact h.1 hkept
      · rfl
    rw [survivors, own, hchild, ih h.2, List.nil_append]

section Weight

variable {w : ε → Nat}

theorem sum_own_le (t : CallTree ε) : (t.own.map w).sum ≤ (t.survivors.map w).sum := by
  induction t with
  | done => exact Nat.le_refl _
  | emit e rest ih =>
    simp only [own, survivors, List.map_cons, List.sum_cons]
    exact Nat.add_le_add_left ih _
  | sub kept child rest _ ih =>
    simp only [own, survivors, List.map_append, List.sum_append]
    exact ih.trans (Nat.le_add_left _ _)

/-- What survives weighs no more than the frame's own effects only if nothing else does. -/
theorem quiet_of_sum_le (hw : ∀ e, 0 < w e) {t : CallTree ε}
    (h : (t.survivors.map w).sum ≤ (t.own.map w).sum) : t.Quiet := by
  induction t with
  | done => trivial
  | emit e rest ih =>
    simp only [own, survivors, List.map_cons, List.sum_cons] at h
    exact ih (Nat.le_of_add_le_add_left h)
  | sub kept child rest _ ih =>
    have hown : (rest.own.map w).sum ≤ (rest.survivors.map w).sum := sum_own_le rest
    simp only [own, survivors, List.map_append, List.sum_append] at h
    refine ⟨fun hkept => ?_, ih (by omega)⟩
    rw [if_pos hkept] at h
    cases hchild : child.survivors with
    | nil => rfl
    | cons e es =>
      have hpos := hw e
      rw [hchild, List.map_cons, List.sum_cons] at h
      omega

end Weight

end CallTree
