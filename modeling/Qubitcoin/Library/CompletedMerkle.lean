import Qubitcoin.Library.PaddedMerkle
import Qubitcoin.Library.PrefixCode

/-! What the root of a Merkle tree of any number of leaves says of them: it tells the leaves of the
complete tree, in which the last nodes stand as often as the levels repeat them. -/

universe u

namespace Merkle

/-- The leaves of the complete tree of `d` levels. -/
def complete : (d : Nat) → {α : Type u} → List α → List α
  | 0, _, xs => xs
  | d + 1, _, xs => (complete d (pairs (pad xs))).flatMap fun p => [p.1, p.2]

section Lists

variable {α β : Type u}

theorem pairs_map (g : α → β) (xs : List α) :
    pairs (xs.map g) = (pairs xs).map fun p => (g p.1, g p.2) := by
  induction xs using pairs.induct with
  | case1 a b rest ih => simp [pairs, ih]
  | case2 xs h =>
    rcases xs with _ | ⟨a, _ | ⟨b, rest⟩⟩
    · rfl
    · rfl
    · exact absurd rfl (h a b rest)

theorem pad_map (g : α → β) (xs : List α) : pad (xs.map g) = (pad xs).map g := by
  rw [pad, pad, List.length_map]
  split
  · rw [List.map_append, List.getLast?_map]
    cases xs.getLast? <;> rfl
  · rfl

theorem flatMap_pairs {xs : List α} (h : xs.length % 2 = 0) :
    ((pairs xs).flatMap fun p => [p.1, p.2]) = xs := by
  induction xs using pairs.induct with
  | case1 a b rest ih =>
    rw [List.length_cons, List.length_cons] at h
    rw [pairs, List.flatMap_cons, ih (by omega)]
    rfl
  | case2 xs hxs =>
    rcases xs with _ | ⟨a, _ | ⟨b, rest⟩⟩
    · rfl
    · cases h
    · exact absurd rfl (hxs a b rest)

theorem flatMap_pair_inj {ps qs : List (α × α)}
    (h : (ps.flatMap fun p => [p.1, p.2]) = qs.flatMap fun p => [p.1, p.2]) : ps = qs := by
  have hcode : PrefixFree (fun _ : α × α => True) fun p => [p.1, p.2] := by
    intro p q _ _ hle
    have heq := hle.eq_of_length rfl
    simp only [List.cons.injEq, and_true] at heq
    exact Prod.ext heq.1 heq.2
  exact hcode.flatMap_inj (fun _ => List.cons_ne_nil _ _) (fun _ _ => trivial)
    (fun _ _ => trivial) h

theorem flatMap_prefix {xs ys : List α} (h : xs <+: ys) (g : α → List β) :
    xs.flatMap g <+: ys.flatMap g := by
  obtain ⟨rest, rfl⟩ := h
  exact ⟨rest.flatMap g, List.flatMap_append.symm⟩

theorem prefix_pad (xs : List α) : xs <+: pad xs := by
  unfold pad
  split
  · exact List.prefix_append _ _
  · exact List.prefix_rfl

end Lists

theorem complete_map (d : Nat) :
    ∀ {α β : Type u} (g : α → β) (xs : List α), complete d (xs.map g) = (complete d xs).map g := by
  induction d with
  | zero =>
    intro α β g xs
    rfl
  | succ d ih =>
    intro α β g xs
    rw [complete, complete, pad_map, pairs_map, ih, List.flatMap_map, List.map_flatMap]
    rfl

/-- The leaves stand in front. -/
theorem prefix_complete (d : Nat) : ∀ {α : Type u} (xs : List α), xs <+: complete d xs := by
  induction d with
  | zero =>
    intro α xs
    exact List.prefix_rfl
  | succ d ih =>
    intro α xs
    have heven : (pad xs).length % 2 = 0 := by
      rw [length_pad]
      omega
    have hpairs := flatMap_prefix (ih (pairs (pad xs))) fun p => [p.1, p.2]
    rw [flatMap_pairs heven] at hpairs
    exact (prefix_pad xs).trans hpairs

/-- Nothing else than leaves stands there. -/
theorem mem_complete (d : Nat) :
    ∀ {α : Type u} {xs : List α} {x : α}, x ∈ complete d xs → x ∈ xs := by
  induction d with
  | zero =>
    intro α xs x h
    exact h
  | succ d ih =>
    intro α xs x h
    rw [complete, List.mem_flatMap] at h
    obtain ⟨p, hp, hx⟩ := h
    obtain ⟨hleft, hright⟩ := mem_of_mem_pairs (ih hp)
    simp only [List.mem_cons, List.not_mem_nil, or_false] at hx
    rcases hx with rfl | rfl
    · exact mem_pad hleft
    · exact mem_pad hright

section Trees

variable {α : Type u} {f : α → α → α} {xs ys : List α}

theorem length_complete (f : α → α → α) (d : Nat) (xs : List α) :
    (complete d xs).length = 2 ^ d * (rise f d xs).length := by
  induction d generalizing xs with
  | zero => rw [complete, rise, Nat.pow_zero, Nat.one_mul]
  | succ d ih =>
    have hmap := complete_map d (fun p : α × α => f p.1 p.2) (pairs (pad xs))
    rw [← level_eq_map] at hmap
    have hlength : (complete d (pairs (pad xs))).length = 2 ^ d * (rise f (d + 1) xs).length := by
      rw [rise, ← ih, paddedLevel, hmap, List.length_map]
    rw [complete, List.length_flatMap]
    simp only [List.length_cons, List.length_nil, List.map_const', List.sum_replicate, smul_eq_mul]
    rw [hlength, Nat.pow_succ]
    ring

/-- The list `d` levels above tells the leaves of the complete tree, and nothing else. -/
theorem rise_eq_iff {d : Nat} (hfree : CollisionFree f id (risen f d xs ++ risen f d ys)) :
    rise f d xs = rise f d ys ↔ complete d xs = complete d ys := by
  induction d generalizing xs ys with
  | zero => rfl
  | succ d ih =>
    have hbelow : CollisionFree f id (pairs (pad xs) ++ pairs (pad ys)) := by
      apply hfree.mono
      intro p hp
      simp only [risen, List.mem_append] at hp ⊢
      exact hp.imp .inl .inl
    have habove : CollisionFree f id
        (risen f d (paddedLevel f xs) ++ risen f d (paddedLevel f ys)) := by
      apply hfree.mono
      intro p hp
      simp only [risen, List.mem_append] at hp ⊢
      exact hp.imp .inr .inr
    rw [rise, rise, ih habove, paddedLevel, paddedLevel, level_eq_map, level_eq_map,
      complete_map, complete_map, complete, complete]
    constructor
    · intro h
      congr 1
      apply eq_of_map_eq _ h
      intro p hp q hq heq
      obtain ⟨hleft, hright⟩ := hbelow p (List.mem_append_left _ (mem_complete d hp)) q
        (List.mem_append_right _ (mem_complete d hq)) heq
      exact Prod.ext hleft hright
    · intro h
      rw [flatMap_pair_inj h]

/-- A tree of no more levels than another one, with the same root, has as many. -/
theorem levels_eq_of_rise {d k : Nat} (hne : xs ≠ [])
    (hfree : CollisionFree f id (risen f d xs ++ risen f (k + d) ys))
    (hapart : ∀ p ∈ risen f (k + d) ys, f p.1 p.2 ∉ xs)
    (h : rise f d xs = rise f (k + d) ys) : k = 0 := by
  rw [risen_add] at hfree hapart
  rw [rise_add] at h
  have hhigh : CollisionFree f id (risen f d xs ++ risen f d (rise f k ys)) := by
    apply hfree.mono
    intro p hp
    simp only [List.mem_append] at hp ⊢
    exact hp.imp_right .inr
  have hcomplete := (rise_eq_iff hhigh).mp h
  cases k with
  | zero => rfl
  | succ k =>
    exfalso
    obtain ⟨x, hx⟩ := List.exists_mem_of_ne_nil xs hne
    have hmem := (prefix_complete d xs).subset hx
    rw [hcomplete] at hmem
    obtain ⟨p, hp, hpx⟩ := mem_rise (mem_complete d hmem)
    apply hapart p (List.mem_append_left _ hp)
    rwa [hpx]

/-- The leaves, with the last nodes as often as the tree repeats them. -/
def completed (xs : List α) : List α := complete (Nat.clog 2 xs.length) xs

theorem length_completed (hne : xs ≠ []) : (completed xs).length = 2 ^ Nat.clog 2 xs.length := by
  rw [completed, length_complete fun a _ => a, length_rise_clog hne, Nat.mul_one]

theorem eq_of_completed_eq (hlength : xs.length = ys.length) (h : completed xs = completed ys) :
    xs = ys := by
  have hxs := prefix_complete (Nat.clog 2 xs.length) xs
  have hys := prefix_complete (Nat.clog 2 ys.length) ys
  rw [completed, completed] at h
  rw [h] at hxs
  exact List.prefix_of_prefix_length_le hxs hys hlength.le |>.eq_of_length hlength

/-- Completing hides nothing where no leaf stands twice. -/
theorem eq_of_completed_nodup (hxs : xs.Nodup) (hys : ys.Nodup) (h : completed xs = completed ys) :
    xs = ys := by
  have hshort {zs ws : List α} (hws : ws.Nodup) (h : completed zs = completed ws)
      (hle : zs <+: ws) : zs = ws := by
    obtain ⟨rest, rfl⟩ := hle
    cases rest with
    | nil => rw [List.append_nil]
    | cons x rest =>
      have hmem : x ∈ completed zs := by
        rw [h]
        exact (prefix_complete _ _).subset (by simp)
      exact absurd List.mem_cons_self ((List.nodup_append'.mp hws).2.2 (mem_complete _ hmem))
  have hxs' : xs <+: completed ys := h ▸ prefix_complete _ xs
  cases List.prefix_or_prefix_of_prefix hxs' (prefix_complete _ ys) with
  | inl hle => exact hshort hys h hle
  | inr hle => exact (hshort hxs h.symm hle).symm

/-- The root tells the completed leaves, and nothing else. -/
theorem build_eq_iff {m n : Nat} (hxne : xs ≠ []) (hyne : ys ≠ []) (hm : xs.length ≤ 2 ^ m)
    (hn : ys.length ≤ 2 ^ n) (hfree : CollisionFree f id (built f m xs ++ built f n ys))
    (hapart : ∀ p ∈ built f m xs ++ built f n ys, f p.1 p.2 ∉ xs ++ ys) :
    build f m xs = build f n ys ↔ completed xs = completed ys := by
  rw [(build_eq_rise hm).1, (build_eq_rise hn).1]
  rw [(build_eq_rise hm).2, (build_eq_rise hn).2] at hfree hapart
  have hswap : CollisionFree f id (risen f (Nat.clog 2 ys.length) ys ++
      risen f (Nat.clog 2 xs.length) xs) := by
    apply hfree.mono
    intro p hp
    rw [List.mem_append] at hp ⊢
    exact hp.symm
  have hsame (h : Nat.clog 2 xs.length = Nat.clog 2 ys.length) :
      rise f (Nat.clog 2 xs.length) xs = rise f (Nat.clog 2 ys.length) ys ↔
        completed xs = completed ys := by
    rw [completed, completed, h]
    rw [h] at hfree
    exact rise_eq_iff hfree
  constructor
  · intro h
    apply (hsame _).mp h
    rcases Nat.le_total (Nat.clog 2 xs.length) (Nat.clog 2 ys.length) with hle | hle
    · obtain ⟨k, hk⟩ := Nat.exists_eq_add_of_le' hle
      rw [hk] at h hfree hapart
      have hzero := levels_eq_of_rise hxne hfree (fun p hp hmem =>
        hapart p (List.mem_append_right _ hp) (List.mem_append_left _ hmem)) h
      omega
    · obtain ⟨k, hk⟩ := Nat.exists_eq_add_of_le' hle
      rw [hk] at h hswap hapart
      have hzero := levels_eq_of_rise hyne hswap (fun p hp hmem =>
        hapart p (List.mem_append_left _ hp) (List.mem_append_right _ hmem)) h.symm
      omega
  · intro h
    apply (hsame _).mpr h
    have hlength := congrArg List.length h
    rw [length_completed hxne, length_completed hyne] at hlength
    exact Nat.pow_right_injective le_rfl hlength

end Trees

end Merkle
