import Mathlib

/-! Binary Merkle trees over a two-to-one function.  A tree of depth `d` is a list of
`2 ^ d` leaves; it is folded level by level.  Assumptions on the function are about the
pairs that a computation combines, and equality of leaves is up to `canon`. -/

universe u

namespace Merkle

variable {α : Type u} (f : α → α → α)

/-- The level above. -/
def level : List α → List α
  | a :: b :: rest => f a b :: level rest
  | _ => []

def levels : Nat → List α → List α
  | 0, xs => xs
  | d + 1, xs => levels d (level f xs)

def pairs : List α → List (α × α)
  | a :: b :: rest => (a, b) :: pairs rest
  | _ => []

/-- The pairs a tree combines. -/
def combined : Nat → List α → List (α × α)
  | 0, _ => []
  | d + 1, xs => pairs xs ++ combined d (level f xs)

/-- From a leaf to the root along its siblings; the bits of the index say which side
the leaf is on. -/
def climb : α → Nat → List α → α
  | leaf, _, [] => leaf
  | leaf, i, s :: path => climb (if i % 2 = 0 then f leaf s else f s leaf) (i / 2) path

/-- The siblings of a place and of the nodes above it. -/
def siblings : Nat → Nat → List α → List α
  | 0, _, _ => []
  | d + 1, i, xs =>
    xs[if i % 2 = 0 then i + 1 else i - 1]?.toList ++ siblings d (i / 2) (level f xs)

/-- The pairs a climb combines. -/
def climbed : α → Nat → List α → List (α × α)
  | _, _, [] => []
  | leaf, i, s :: path =>
    (if i % 2 = 0 then (leaf, s) else (s, leaf)) ::
      climbed (if i % 2 = 0 then f leaf s else f s leaf) (i / 2) path

/-- Among these pairs equal results come from equal inputs. -/
def CollisionFree (canon : α → α) (ps : List (α × α)) : Prop :=
  ∀ p ∈ ps, ∀ q ∈ ps, f p.1 p.2 = f q.1 q.2 → canon p.1 = canon q.1 ∧ canon p.2 = canon q.2

variable {f} {canon : α → α} {xs ys : List α} {ps qs : List (α × α)}

theorem CollisionFree.mono (h : CollisionFree f canon ps) (hle : qs ⊆ ps) :
    CollisionFree f canon qs :=
  fun p hp q hq => h p (hle hp) q (hle hq)

theorem CollisionFree.of_same {a b : α} (h : ∀ p ∈ ps, canon p.1 = a ∧ canon p.2 = b) :
    CollisionFree f canon ps := by
  intro p hp q hq _
  rw [(h p hp).1, (h q hq).1, (h p hp).2, (h q hq).2]
  exact ⟨rfl, rfl⟩

theorem length_level_eq_div (xs : List α) : (level f xs).length = xs.length / 2 := by
  induction xs using level.induct with
  | case1 a b rest ih =>
    simp only [level, List.length_cons, ih]
    omega
  | case2 xs h =>
    rcases xs with _ | ⟨a, _ | ⟨b, rest⟩⟩
    · simp [level]
    · simp [level]
    · exact absurd rfl (h a b rest)

theorem length_level {n : Nat} (h : xs.length = 2 * n) : (level f xs).length = n := by
  rw [length_level_eq_div, h]
  omega

theorem length_levels {d : Nat} (h : xs.length = 2 ^ d) : (levels f d xs).length = 1 := by
  induction d generalizing xs with
  | zero => exact h
  | succ d ih =>
    rw [Nat.pow_succ, Nat.mul_comm] at h
    exact ih (length_level h)

/-- What a node of the next level was made of. -/
theorem exists_of_level {j : Nat} {y : α} (h : (level f xs)[j]? = some y) :
    ∃ a b, xs[2 * j]? = some a ∧ xs[2 * j + 1]? = some b ∧ y = f a b ∧ (a, b) ∈ pairs xs := by
  induction j generalizing xs with
  | zero =>
    match xs, h with
    | a :: b :: rest, h =>
      simp only [level, List.getElem?_cons_zero, Option.some.injEq] at h
      exact ⟨a, b, rfl, rfl, h.symm, List.mem_cons_self⟩
  | succ j ih =>
    match xs, h with
    | a :: b :: rest, h =>
      simp only [level, List.getElem?_cons_succ] at h
      obtain ⟨c, d, hc, hd, hy, hmem⟩ := ih h
      exact ⟨c, d, hc, hd, hy, List.mem_cons_of_mem _ hmem⟩

theorem level_getElem? {j : Nat} {a b : α} (ha : xs[2 * j]? = some a)
    (hb : xs[2 * j + 1]? = some b) : (level f xs)[j]? = some (f a b) := by
  induction j generalizing xs with
  | zero =>
    match xs, ha, hb with
    | a :: b :: rest, rfl, rfl => rfl
  | succ j ih =>
    match xs, ha, hb with
    | c :: d :: rest, ha, hb => exact ih ha hb

/-- Equal levels above come from equal levels below. -/
theorem map_canon_of_level {n : Nat} (hxs : xs.length = 2 * n) (hys : ys.length = 2 * n)
    (hfree : CollisionFree f canon (pairs xs ++ pairs ys)) (h : level f xs = level f ys) :
    xs.map canon = ys.map canon := by
  induction n generalizing xs ys with
  | zero => rw [List.eq_nil_of_length_eq_zero hxs, List.eq_nil_of_length_eq_zero hys]
  | succ n ih =>
    match xs, ys, hxs, hys with
    | a :: b :: xs, c :: d :: ys, hxs, hys =>
      simp only [level, List.cons.injEq] at h
      simp only [List.length_cons] at hxs hys
      obtain ⟨hleft, hright⟩ := hfree (a, b) (by simp [pairs]) (c, d) (by simp [pairs]) h.1
      have hrest : pairs xs ++ pairs ys ⊆ pairs (a :: b :: xs) ++ pairs (c :: d :: ys) := by
        intro p hp
        simp only [pairs, List.mem_append, List.mem_cons] at hp ⊢
        exact hp.elim (fun h => .inl (.inr h)) (fun h => .inr (.inr h))
      rw [List.map_cons, List.map_cons, List.map_cons, List.map_cons, hleft, hright,
        ih (by omega) (by omega) (hfree.mono hrest) h.2]

theorem map_canon_level (hcanon : ∀ a b, canon (f a b) = f a b) :
    (level f xs).map canon = level f xs := by
  induction xs using level.induct with
  | case1 a b rest ih => simp [level, hcanon, ih]
  | case2 xs h => simp [level]

/-- Trees of one depth with the same root have the same leaves. -/
theorem binding {d : Nat} (hcanon : ∀ a b, canon (f a b) = f a b)
    (hxs : xs.length = 2 ^ d) (hys : ys.length = 2 ^ d)
    (hfree : CollisionFree f canon (combined f d xs ++ combined f d ys))
    (h : levels f d xs = levels f d ys) : xs.map canon = ys.map canon := by
  induction d generalizing xs ys with
  | zero => exact congrArg _ h
  | succ d ih =>
    rw [Nat.pow_succ, Nat.mul_comm] at hxs hys
    simp only [combined] at hfree
    have hbelow : pairs xs ++ pairs ys ⊆ pairs xs ++ combined f d (level f xs) ++
        (pairs ys ++ combined f d (level f ys)) := by
      intro p hp
      simp only [List.mem_append] at hp ⊢
      exact hp.elim (fun h => .inl (.inl h)) (fun h => .inr (.inl h))
    have habove : combined f d (level f xs) ++ combined f d (level f ys) ⊆
        pairs xs ++ combined f d (level f xs) ++ (pairs ys ++ combined f d (level f ys)) := by
      intro p hp
      simp only [List.mem_append] at hp ⊢
      exact hp.elim (fun h => .inl (.inr h)) (fun h => .inr (.inr h))
    have hlevel := ih (length_level hxs) (length_level hys) (hfree.mono habove) h
    rw [map_canon_level hcanon, map_canon_level hcanon] at hlevel
    exact map_canon_of_level hxs hys (hfree.mono hbelow) hlevel

/-- A climb from a leaf along its own siblings ends at the root. -/
theorem completeness {d i : Nat} {x : α} (hxs : xs.length = 2 ^ d) (hx : xs[i]? = some x) :
    levels f d xs = [climb f x i (siblings f d i xs)] := by
  induction d generalizing xs i x with
  | zero =>
    match xs, hxs with
    | [y], _ =>
      have hi : i < 1 := (List.getElem?_eq_some_iff.mp hx).1
      rw [Nat.lt_one_iff.mp hi] at hx
      cases hx
      rfl
  | succ d ih =>
    rw [Nat.pow_succ, Nat.mul_comm] at hxs
    have hi : i < xs.length := (List.getElem?_eq_some_iff.mp hx).1
    rw [levels, siblings]
    by_cases heven : i % 2 = 0
    · have hs : i + 1 < xs.length := by omega
      have hnode : (level f xs)[i / 2]? = some (f x xs[i + 1]) := by
        apply level_getElem?
        · rw [Nat.mul_div_cancel' (Nat.dvd_of_mod_eq_zero heven)]
          exact hx
        · rw [Nat.mul_div_cancel' (Nat.dvd_of_mod_eq_zero heven)]
          exact List.getElem?_eq_getElem hs
      rw [if_pos heven, List.getElem?_eq_getElem hs, Option.toList_some, List.singleton_append,
        climb, if_pos heven]
      exact ih (length_level hxs) hnode
    · have hs : i - 1 < xs.length := by omega
      have hnode : (level f xs)[i / 2]? = some (f xs[i - 1] x) := by
        apply level_getElem?
        · rw [show 2 * (i / 2) = i - 1 by omega]
          exact List.getElem?_eq_getElem hs
        · rw [show 2 * (i / 2) + 1 = i by omega]
          exact hx
      rw [if_neg heven, List.getElem?_eq_getElem hs, Option.toList_some, List.singleton_append,
        climb, if_neg heven]
      exact ih (length_level hxs) hnode

/-- A climb that ends at the root starts at the leaf its index names. -/
theorem opening {d i : Nat} {leaf : α} {path : List α}
    (hcanon : ∀ a b, canon (f a b) = f a b) (hxs : xs.length = 2 ^ d) (hpath : path.length = d)
    (hfree : CollisionFree f canon (combined f d xs ++ climbed f leaf i path))
    (h : levels f d xs = [climb f leaf i path]) :
    ∃ x, xs[i % 2 ^ d]? = some x ∧ canon x = canon leaf := by
  induction d generalizing xs leaf i path with
  | zero =>
    rw [List.eq_nil_of_length_eq_zero hpath] at h
    have hxs : xs = [leaf] := h
    exact ⟨leaf, by simp [hxs, Nat.mod_one], rfl⟩
  | succ d ih =>
    match path, hpath with
    | s :: path, hpath =>
      rw [Nat.pow_succ, Nat.mul_comm] at hxs
      simp only [combined, climbed] at hfree
      have habove : combined f d (level f xs) ++
          climbed f (if i % 2 = 0 then f leaf s else f s leaf) (i / 2) path ⊆
          pairs xs ++ combined f d (level f xs) ++
            (if i % 2 = 0 then (leaf, s) else (s, leaf)) ::
              climbed f (if i % 2 = 0 then f leaf s else f s leaf) (i / 2) path := by
        intro p hp
        simp only [List.mem_append, List.mem_cons] at hp ⊢
        exact hp.elim (fun h => .inl (.inr h)) (fun h => .inr (.inr h))
      obtain ⟨y, hy, hsame⟩ := ih (length_level hxs) (Nat.succ.inj hpath)
        (hfree.mono habove) h
      obtain ⟨a, b, ha, hb, rfl, hpair⟩ := exists_of_level hy
      have hmem : (a, b) ∈ pairs xs ++ combined f d (level f xs) ++
          (if i % 2 = 0 then (leaf, s) else (s, leaf)) ::
            climbed f (if i % 2 = 0 then f leaf s else f s leaf) (i / 2) path := by
        simp only [List.mem_append]
        exact .inl (.inl hpair)
      have hindex : i % 2 ^ (d + 1) = i % 2 + 2 * (i / 2 % 2 ^ d) := by
        rw [Nat.pow_succ, Nat.mul_comm, Nat.mod_mul]
      rw [hindex]
      by_cases heven : i % 2 = 0
      · simp only [heven, if_true, hcanon] at hsame hfree hmem
        obtain ⟨hleft, _⟩ := hfree (a, b) hmem (leaf, s) (by simp) hsame
        exact ⟨a, by rw [heven, Nat.zero_add]; exact ha, hleft⟩
      · have hodd : i % 2 = 1 := by omega
        simp only [heven, if_false, hcanon] at hsame hfree hmem
        obtain ⟨_, hright⟩ := hfree (a, b) hmem (s, leaf) (by simp) hsame
        exact ⟨b, by rw [hodd, Nat.add_comm]; exact hb, hright⟩

end Merkle
