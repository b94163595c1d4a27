import Mathlib

/-! A map kept in several parts: when a look through the parts, in any order, finds what was
last written. -/

universe u v w

namespace ScatteredMap

variable {P : Type u} {K : Type v} {V : Type w}

/-- No key is in two parts. -/
def Apart (parts : P → K → Option V) : Prop :=
  ∀ p q k, (parts p k).isSome = true → (parts q k).isSome = true → p = q

/-- Each key of `m` is in one part, with its value, and the parts hold no other keys. -/
structure Holds (parts : P → K → Option V) (m : K → Option V) : Prop where
  apart : Apart parts
  eq_some_iff : ∀ k v, m k = some v ↔ ∃ p, parts p k = some v

variable {parts : P → K → Option V} {m : K → Option V}

theorem holds_empty : Holds (fun (_ : P) (_ : K) => (none : Option V)) fun _ => none where
  apart := by simp [Apart]
  eq_some_iff := by simp

theorem Holds.eq_none_iff (h : Holds parts m) (k : K) : m k = none ↔ ∀ p, parts p k = none := by
  constructor
  · intro hnone p
    cases hp : parts p k with
    | none => rfl
    | some v => exact absurd ((h.eq_some_iff k v).mpr ⟨p, hp⟩) (by simp [hnone])
  · intro hparts
    cases hm : m k with
    | none => rfl
    | some v =>
      obtain ⟨p, hp⟩ := (h.eq_some_iff k v).mp hm
      simp [hparts p] at hp

/-- A look through parts among which is the one that has the key. -/
theorem Holds.findSome?_eq (h : Holds parts m) {order : List P} {k : K}
    (horder : ∀ p, (parts p k).isSome = true → p ∈ order) :
    (order.findSome? fun p => parts p k) = m k := by
  cases hfound : order.findSome? fun p => parts p k with
  | none =>
    rw [List.findSome?_eq_none_iff] at hfound
    symm
    rw [h.eq_none_iff]
    intro p
    by_contra hp
    exact hp (hfound p (horder p (Option.isSome_iff_ne_none.mpr hp)))
  | some v =>
    obtain ⟨p, -, hp⟩ := List.exists_of_findSome?_eq_some hfound
    exact ((h.eq_some_iff k v).mpr ⟨p, hp⟩).symm

section Write

variable [DecidableEq P] [DecidableEq K]

/-- The parts after one of them has `v` under `k`, or nothing. -/
def write (parts : P → K → Option V) (p : P) (k : K) (v : Option V) : P → K → Option V :=
  fun q l => if q = p ∧ l = k then v else parts q l

theorem write_self (p : P) (k : K) (v : Option V) : write parts p k v p k = v := by
  simp [write]

theorem write_of_ne (p q : P) {k l : K} (h : l ≠ k) (v : Option V) :
    write parts p k v q l = parts q l := by
  simp [write, h]

theorem write_eq_self {p : P} {k : K} {v : Option V} (h : parts p k = v) :
    write parts p k v = parts := by
  funext q l
  unfold write
  split
  · next heq => rw [heq.1, heq.2, h]
  · rfl

/-- After a key is written no other part may have it. -/
theorem Apart.of_write {p : P} {k : K} {v : V} (h : Apart (write parts p k (some v))) {q : P}
    (hq : (parts q k).isSome = true) : q = p := by
  by_contra hne
  apply hne
  apply h q p k
  · simpa [write, hne] using hq
  · simp [write_self]

theorem Holds.write (h : Holds parts m) {p : P} {k : K}
    (hp : ∀ q, (parts q k).isSome = true → q = p) (v : Option V) :
    Holds (write parts p k v) (Function.update m k v) where
  apart q r l hq hr := by
    by_cases hl : l = k
    · subst hl
      have key (q : P) (hq : (ScatteredMap.write parts p l v q l).isSome = true) : q = p := by
        by_contra hne
        simp only [ScatteredMap.write, hne, false_and, if_false] at hq
        exact hne (hp q hq)
      rw [key q hq, key r hr]
    · rw [write_of_ne _ _ hl] at hq hr
      exact h.apart q r l hq hr
  eq_some_iff l w := by
    by_cases hl : l = k
    · subst hl
      rw [Function.update_self]
      constructor
      · rintro rfl
        exact ⟨p, write_self p l (some w)⟩
      · rintro ⟨q, hq⟩
        by_cases hqp : q = p
        · rw [hqp, write_self] at hq
          exact hq
        · simp only [ScatteredMap.write, hqp, false_and, if_false] at hq
          exact absurd (hp q (by simp [hq])) hqp
    · simp only [Function.update_of_ne hl, write_of_ne p _ hl]
      exact h.eq_some_iff l w

theorem Holds.write_none (h : Holds parts m) {p : P} {k : K} (hk : (parts p k).isSome = true) :
    Holds (ScatteredMap.write parts p k none) (Function.update m k none) :=
  h.write (fun q hq => h.apart q p k hq hk) none

end Write

end ScatteredMap
