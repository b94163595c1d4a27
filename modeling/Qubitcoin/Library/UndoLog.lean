import Mathlib

/-! Undo logs.  A log lists records, the oldest first; a record says what it puts back
at a location, if it touches it.  Undoing the log from its newest record on, the oldest
record of a location decides. -/

universe u v w x

namespace UndoLog

variable {E : Type u} {σ : Type v} {L : Type w} {V : Type x}

/-- What the oldest record of `l` puts back. -/
def oldest (old : E → L → Option V) (log : List E) (l : L) : Option V :=
  log.findSome? fun e => old e l

/-- By the log, `l` held `v` before the first record. -/
def Recalls (old : E → L → Option V) (read : σ → L → V) (log : List E) (s : σ) (l : L) (v : V) :
    Prop :=
  (oldest old log l).getD (read s l) = v

variable {old : E → L → Option V} {read : σ → L → V} {undo : E → σ → σ} {log : List E} {l : L}
  {v : V}

theorem oldest_append (log log' : List E) :
    oldest old (log ++ log') l = (oldest old log l).or (oldest old log' l) :=
  List.findSome?_append

/-- Undoing is right at `l` for the value `v` in the states `Good`: a record that puts `v`
back does so, one that does not touch `l` leaves it. -/
structure Undoes (old : E → L → Option V) (read : σ → L → V) (undo : E → σ → σ) (Good : σ → Prop)
    (e : E) (l : L) (v : V) : Prop where
  put : ∀ s, Good s → old e l = some v → read (undo e s) l = v
  skip : ∀ s, Good s → old e l = none → read (undo e s) l = read s l
  good : ∀ s, Good s → Good (undo e s)

variable {Good : σ → Prop}

theorem good_foldr (h : ∀ e ∈ log, Undoes old read undo Good e l v) {s : σ} (hs : Good s) :
    Good (log.foldr undo s) := by
  induction log with
  | nil => exact hs
  | cons e log ih =>
    apply (h e List.mem_cons_self).good
    exact ih fun e' he' => h e' (List.mem_cons_of_mem e he')

/-- Undoing the whole log brings the recalled value back. -/
theorem read_foldr (h : ∀ e ∈ log, Undoes old read undo Good e l v) {s : σ} (hs : Good s)
    (hrecalls : Recalls old read log s l v) : read (log.foldr undo s) l = v := by
  induction log with
  | nil => exact hrecalls
  | cons e log ih =>
    have htail : ∀ e' ∈ log, Undoes old read undo Good e' l v := fun e' he' =>
      h e' (List.mem_cons_of_mem e he')
    have hgood := good_foldr htail hs
    have he := h e List.mem_cons_self
    unfold Recalls oldest at hrecalls
    rw [List.findSome?_cons] at hrecalls
    rw [List.foldr_cons]
    cases hold : old e l with
    | some v' =>
      rw [hold] at hrecalls
      exact he.put _ hgood (hold.trans (congrArg some hrecalls))
    | none =>
      rw [hold] at hrecalls
      rw [he.skip _ hgood hold]
      exact ih htail hrecalls

/-- Undoing the newer part of a log keeps what the older part recalls. -/
theorem Recalls.undo_newer {newer : List E} {s : σ}
    (h : ∀ e ∈ newer, Undoes old read undo Good e l v) (hs : Good s)
    (hrecalls : Recalls old read (log ++ newer) s l v) :
    Recalls old read log (newer.foldr undo s) l v := by
  unfold Recalls at hrecalls ⊢
  rw [oldest_append] at hrecalls
  cases holdest : oldest old log l with
  | some v' =>
    rw [holdest] at hrecalls
    exact hrecalls
  | none =>
    rw [holdest] at hrecalls
    exact read_foldr h hs hrecalls

/-- A step that records what it finds before it changes it keeps what the log recalls. -/
theorem Recalls.record {s t : σ} {e : E} (hrecalls : Recalls old read log s l v)
    (hold : ∀ v', old e l = some v' → v' = v ∨ v' = read s l)
    (hkeep : old e l = none → read t l = read s l) : Recalls old read (log ++ [e]) t l v := by
  unfold Recalls at hrecalls ⊢
  rw [oldest_append]
  cases holdest : oldest old log l with
  | some v' =>
    rw [holdest] at hrecalls
    exact hrecalls
  | none =>
    rw [holdest] at hrecalls
    have hread : read s l = v := hrecalls
    have hlast : oldest old [e] l = old e l := by
      unfold oldest
      rw [List.findSome?_cons]
      cases old e l <;> rfl
    rw [hlast]
    cases hrec : old e l with
    | some v' =>
      cases hold v' hrec with
      | inl heq => exact heq
      | inr heq => exact heq.trans hread
    | none => exact (hkeep hrec).trans hread

/-- A step that records nothing and changes nothing at `l`. -/
theorem Recalls.keep {s t : σ} (hrecalls : Recalls old read log s l v)
    (hkeep : read t l = read s l) : Recalls old read log t l v := by
  unfold Recalls at hrecalls ⊢
  rw [hkeep]
  exact hrecalls

end UndoLog
