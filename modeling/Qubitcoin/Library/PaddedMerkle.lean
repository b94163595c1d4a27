import Qubitcoin.Library.Merkle

/-! Merkle trees of any number of leaves: a level of odd length repeats its last node.  The padding
hides nothing as long as the leaves are all different. -/

universe u

namespace Merkle

variable {α : Type u} (f : α → α → α)

def pad (xs : List α) : List α := if xs.length % 2 = 1 then xs ++ xs.getLast?.toList else xs

def paddedLevel (xs : List α) : List α := level f (pad xs)

/-- The loop that builds the tree, for at most `fuel` levels. -/
def build : Nat → List α → List α
  | 0, xs => xs
  | fuel + 1, xs => if xs.length ≤ 1 then xs else build fuel (paddedLevel f xs)

/-- The pairs the loop combines. -/
def built : Nat → List α → List (α × α)
  | 0, _ => []
  | fuel + 1, xs => if xs.length ≤ 1 then [] else pairs (pad xs) ++ built fuel (paddedLevel f xs)

/-- The list `d` levels above. -/
def rise : Nat → List α → List α
  | 0, xs => xs
  | d + 1, xs => rise d (paddedLevel f xs)

/-- The pairs combined on the way. -/
def risen : Nat → List α → List (α × α)
  | 0, _ => []
  | d + 1, xs => pairs (pad xs) ++ risen d (paddedLevel f xs)

variable {f} {xs ys : List α} {ps : List (α × α)}

theorem length_pad (xs : List α) : (pad xs).length = 2 * ((xs.length + 1) / 2) := by
  unfold pad
  split
  · next hodd =>
    have hne : xs ≠ [] := by
      rintro rfl
      cases hodd
    rw [List.length_append, List.getLast?_eq_some_getLast hne]
    simp only [Option.toList_some, List.length_singleton]
    omega
  · omega

theorem length_paddedLevel (xs : List α) : (paddedLevel f xs).length = (xs.length + 1) / 2 :=
  length_level (length_pad xs)

/-- What tells the members of two lists apart tells the lists apart. -/
theorem eq_of_map_eq {β : Type*} {g : α → β} (hg : ∀ x ∈ xs, ∀ y ∈ ys, g x = g y → x = y)
    (h : xs.map g = ys.map g) : xs = ys := by
  induction xs generalizing ys with
  | nil => exact (List.map_eq_nil_iff.mp h.symm).symm
  | cons x xs ih =>
    cases ys with
    | nil => cases h
    | cons y ys =>
      obtain ⟨hhead, htail⟩ := List.cons.inj h
      rw [hg x List.mem_cons_self y List.mem_cons_self hhead]
      congr 1
      apply ih _ htail
      intro a ha b hb
      exact hg a (List.mem_cons_of_mem _ ha) b (List.mem_cons_of_mem _ hb)

theorem level_eq_map (zs : List α) : level f zs = (pairs zs).map fun p => f p.1 p.2 := by
  induction zs using level.induct with
  | case1 a b rest ih => simp [level, pairs, ih]
  | case2 zs h =>
    rcases zs with _ | ⟨a, _ | ⟨b, rest⟩⟩
    · rfl
    · rfl
    · exact absurd rfl (h a b rest)

theorem firsts_sublist (zs : List α) : ((pairs zs).map Prod.fst).Sublist zs := by
  induction zs using level.induct with
  | case1 a b rest ih => exact (ih.cons b).cons_cons a
  | case2 zs h =>
    rcases zs with _ | ⟨a, _ | ⟨b, rest⟩⟩
    · exact List.Sublist.refl _
    · exact List.nil_sublist _
    · exact absurd rfl (h a b rest)

/-- A last element that only completes a pair is not the first of one. -/
theorem firsts_append_sublist (zs : List α) (x : α) (h : zs.length % 2 = 1) :
    ((pairs (zs ++ [x])).map Prod.fst).Sublist zs := by
  induction zs using level.induct with
  | case1 a b rest ih =>
    simp only [List.length_cons] at h
    exact ((ih (by omega)).cons b).cons_cons a
  | case2 zs hzs =>
    rcases zs with _ | ⟨a, _ | ⟨b, rest⟩⟩
    · cases h
    · exact List.Sublist.refl _
    · exact absurd rfl (hzs a b rest)

theorem pad_of_odd (h : xs.length % 2 = 1) : ∃ x ∈ xs, pad xs = xs ++ [x] := by
  have hne : xs ≠ [] := by
    rintro rfl
    cases h
  refine ⟨xs.getLast hne, List.getLast_mem hne, ?_⟩
  rw [pad, if_pos h, List.getLast?_eq_some_getLast hne]
  rfl

theorem pad_of_even (h : xs.length % 2 = 0) : pad xs = xs := by
  rw [pad, if_neg (by omega)]

theorem firsts_pad_sublist (xs : List α) : ((pairs (pad xs)).map Prod.fst).Sublist xs := by
  rcases Nat.mod_two_eq_zero_or_one xs.length with heven | hodd
  · rw [pad_of_even heven]
    exact firsts_sublist xs
  · obtain ⟨x, _, hpad⟩ := pad_of_odd hodd
    rw [hpad]
    exact firsts_append_sublist xs x hodd

/-- Different nodes make a level of different nodes. -/
theorem nodup_paddedLevel (hxs : xs.Nodup) (hfree : CollisionFree f id (pairs (pad xs))) :
    (paddedLevel f xs).Nodup := by
  have hfirsts : ((pairs (pad xs)).map Prod.fst).Nodup := hxs.sublist (firsts_pad_sublist xs)
  rw [paddedLevel, level_eq_map]
  apply List.Nodup.map_on _ (List.Nodup.of_map Prod.fst hfirsts)
  intro p hp q hq heq
  obtain ⟨hleft, hright⟩ := hfree p hp q hq heq
  exact Prod.ext hleft hright

/-- Padding is undone where no node stands twice. -/
theorem eq_of_pad_eq (hxs : xs.Nodup) (hys : ys.Nodup) (h : pad xs = pad ys) : xs = ys := by
  have hodd : ∀ {zs ws : List α}, ws.Nodup → zs.length % 2 = 1 → ws.length % 2 = 0 →
      pad zs ≠ pad ws := by
    intro zs ws hws hzs hlength heq
    obtain ⟨x, hx, hpad⟩ := pad_of_odd hzs
    rw [hpad, pad_of_even hlength] at heq
    rw [← heq] at hws
    exact (List.nodup_append'.mp hws).2.2 hx (List.mem_singleton_self x)
  rcases Nat.mod_two_eq_zero_or_one xs.length with hx | hx
  · rcases Nat.mod_two_eq_zero_or_one ys.length with hy | hy
    · rwa [pad_of_even hx, pad_of_even hy] at h
    · exact absurd h.symm (hodd hxs hy hx)
  · rcases Nat.mod_two_eq_zero_or_one ys.length with hy | hy
    · exact absurd h (hodd hys hx hy)
    · obtain ⟨x, _, hpad⟩ := pad_of_odd hx
      obtain ⟨y, _, hpad'⟩ := pad_of_odd hy
      rw [hpad, hpad'] at h
      exact (List.append_inj' h rfl).1

theorem eq_of_paddedLevel_eq (hxs : xs.Nodup) (hys : ys.Nodup)
    (hfree : CollisionFree f id (pairs (pad xs) ++ pairs (pad ys)))
    (h : paddedLevel f xs = paddedLevel f ys) : xs = ys := by
  have hlength : (ys.length + 1) / 2 = (xs.length + 1) / 2 := by
    rw [← length_paddedLevel (f := f) ys, ← h, length_paddedLevel]
  have hpad := map_canon_of_level (length_pad xs) (hlength ▸ length_pad ys) hfree h
  rw [List.map_id, List.map_id] at hpad
  exact eq_of_pad_eq hxs hys hpad

/-- The same number of levels below equal lists lie equal lists. -/
theorem eq_of_rise_eq {d : Nat} (hxs : xs.Nodup) (hys : ys.Nodup)
    (hfree : CollisionFree f id (risen f d xs ++ risen f d ys))
    (h : rise f d xs = rise f d ys) : xs = ys := by
  induction d generalizing xs ys with
  | zero => exact h
  | succ d ih =>
    simp only [risen] at hfree
    have hx := nodup_paddedLevel hxs (hfree.mono (fun p hp => by simp [hp]))
    have hy := nodup_paddedLevel hys (hfree.mono (fun p hp => by simp [hp]))
    apply eq_of_paddedLevel_eq hxs hys
    · apply hfree.mono
      intro p hp
      simp only [List.mem_append] at hp ⊢
      exact hp.elim (fun h => .inl (.inl h)) (fun h => .inr (.inl h))
    · apply ih hx hy _ h
      apply hfree.mono
      intro p hp
      simp only [List.mem_append] at hp ⊢
      exact hp.elim (fun h => .inl (.inr h)) (fun h => .inr (.inr h))

theorem rise_add (k d : Nat) (xs : List α) : rise f (k + d) xs = rise f d (rise f k xs) := by
  induction k generalizing xs with
  | zero => rw [Nat.zero_add, rise]
  | succ k ih =>
    rw [Nat.add_right_comm]
    exact ih (paddedLevel f xs)

theorem risen_add (k d : Nat) (xs : List α) :
    risen f (k + d) xs = risen f k xs ++ risen f d (rise f k xs) := by
  induction k generalizing xs with
  | zero => rw [Nat.zero_add, risen, rise, List.nil_append]
  | succ k ih =>
    rw [Nat.add_right_comm, risen, ih (paddedLevel f xs), risen, rise, List.append_assoc]

theorem nodup_rise {k : Nat} (hxs : xs.Nodup) (hfree : CollisionFree f id (risen f k xs)) :
    (rise f k xs).Nodup := by
  induction k generalizing xs with
  | zero => exact hxs
  | succ k ih =>
    simp only [risen] at hfree
    exact ih (nodup_paddedLevel hxs (hfree.mono (List.subset_append_left _ _)))
      (hfree.mono (List.subset_append_right _ _))

/-- Above the leaves every node comes from a pair. -/
theorem mem_rise {k : Nat} {x : α} (h : x ∈ rise f (k + 1) xs) :
    ∃ p ∈ risen f (k + 1) xs, f p.1 p.2 = x := by
  rw [rise_add, rise, rise, paddedLevel, level_eq_map, List.mem_map] at h
  obtain ⟨p, hp, hx⟩ := h
  refine ⟨p, ?_, hx⟩
  rw [risen_add, risen, risen, List.append_nil]
  exact List.mem_append_right _ hp

theorem length_rise_clog (hxs : xs ≠ []) : (rise f (Nat.clog 2 xs.length) xs).length = 1 := by
  induction hn : xs.length using Nat.strong_induction_on generalizing xs with
  | _ n ih =>
    have hpos := List.length_pos_of_ne_nil hxs
    rcases Nat.lt_or_ge n 2 with hsmall | hlarge
    · rw [Nat.clog_of_right_le_one (by omega), rise]
      omega
    · have hlength := length_paddedLevel (f := f) xs
      rw [Nat.clog_of_two_le one_lt_two hlarge, rise]
      have hne : paddedLevel f xs ≠ [] := by
        apply List.ne_nil_of_length_pos
        omega
      have hrise := ih _ (by omega) hne rfl
      rw [hlength, hn] at hrise
      exact hrise

theorem build_eq_rise {fuel : Nat} (h : xs.length ≤ 2 ^ fuel) :
    build f fuel xs = rise f (Nat.clog 2 xs.length) xs ∧
      built f fuel xs = risen f (Nat.clog 2 xs.length) xs := by
  induction fuel generalizing xs with
  | zero =>
    rw [Nat.clog_of_right_le_one h]
    exact ⟨rfl, rfl⟩
  | succ fuel ih =>
    rw [build, built]
    split
    · next hsmall =>
      rw [Nat.clog_of_right_le_one hsmall]
      exact ⟨rfl, rfl⟩
    · next hlarge =>
      have hlength := length_paddedLevel (f := f) xs
      rw [Nat.pow_succ] at h
      have hfits : (paddedLevel f xs).length ≤ 2 ^ fuel := by omega
      obtain ⟨hbuild, hbuilt⟩ := ih hfits
      rw [Nat.clog_of_two_le one_lt_two (by omega), hbuild, hbuilt, hlength]
      exact ⟨rfl, rfl⟩

/-- The root is a leaf or comes from a pair. -/
theorem exists_root {fuel : Nat} (hxs : xs ≠ []) (h : xs.length ≤ 2 ^ fuel) :
    ∃ r, build f fuel xs = [r] ∧ (r ∈ xs ∨ ∃ p ∈ built f fuel xs, f p.1 p.2 = r) := by
  obtain ⟨hbuild, hbuilt⟩ := build_eq_rise (f := f) h
  obtain ⟨r, hr⟩ := List.length_eq_one_iff.mp (length_rise_clog (f := f) hxs)
  refine ⟨r, hbuild.trans hr, ?_⟩
  rw [hbuilt]
  cases hlog : Nat.clog 2 xs.length with
  | zero =>
    rw [hlog, rise] at hr
    exact .inl (hr ▸ List.mem_singleton_self r)
  | succ k =>
    rw [hlog] at hr
    exact .inr (mem_rise (hr ▸ List.mem_singleton_self r))

theorem mem_pad {x : α} (h : x ∈ pad xs) : x ∈ xs := by
  unfold pad at h
  split at h
  · rcases List.mem_append.mp h with h | h
    · exact h
    · exact List.mem_of_getLast? (Option.mem_toList.mp h)
  · exact h

theorem mem_of_mem_pairs {zs : List α} {p : α × α} (h : p ∈ pairs zs) : p.1 ∈ zs ∧ p.2 ∈ zs := by
  induction zs using level.induct with
  | case1 a b rest ih =>
    simp only [pairs, List.mem_cons] at h ⊢
    rcases h with rfl | h
    · exact ⟨.inl rfl, .inr (.inl rfl)⟩
    · exact ⟨.inr (.inr (ih h).1), .inr (.inr (ih h).2)⟩
  | case2 zs hzs =>
    rcases zs with _ | ⟨a, _ | ⟨b, rest⟩⟩
    · cases h
    · cases h
    · exact absurd rfl (hzs a b rest)

/-- What the leaves and all that is combined have in common, the parts of every pair have. -/
theorem forall_built {P : α → Prop} (hf : ∀ a b, P (f a b)) {fuel : Nat} (hxs : ∀ x ∈ xs, P x)
    {p : α × α} (hp : p ∈ built f fuel xs) : P p.1 ∧ P p.2 := by
  induction fuel generalizing xs with
  | zero => cases hp
  | succ fuel ih =>
    rw [built] at hp
    split at hp
    · cases hp
    · rcases List.mem_append.mp hp with hp | hp
      · obtain ⟨hleft, hright⟩ := mem_of_mem_pairs hp
        exact ⟨hxs _ (mem_pad hleft), hxs _ (mem_pad hright)⟩
      · refine ih ?_ hp
        intro x hx
        rw [paddedLevel, level_eq_map] at hx
        obtain ⟨q, _, rfl⟩ := List.mem_map.mp hx
        exact hf _ _

/-- A tree of no more levels than another one, with the same root, has the same leaves. -/
theorem eq_of_rise_clog {d k : Nat} (hxs : xs.Nodup) (hys : ys.Nodup) (hne : xs ≠ [])
    (hfree : CollisionFree f id (risen f d xs ++ risen f (k + d) ys))
    (hapart : ∀ p ∈ risen f (k + d) ys, f p.1 p.2 ∉ xs)
    (h : rise f d xs = rise f (k + d) ys) : xs = ys := by
  rw [risen_add] at hfree hapart
  rw [rise_add] at h
  have hlow : CollisionFree f id (risen f k ys) := by
    apply hfree.mono
    intro p hp
    simp [hp]
  have hhigh : CollisionFree f id (risen f d xs ++ risen f d (rise f k ys)) := by
    apply hfree.mono
    intro p hp
    simp only [List.mem_append] at hp ⊢
    exact hp.elim .inl fun hp => .inr (.inr hp)
  have hsame := eq_of_rise_eq hxs (nodup_rise hys hlow) hhigh h
  cases k with
  | zero => exact hsame
  | succ k =>
    exfalso
    obtain ⟨x, hx⟩ := List.exists_mem_of_ne_nil xs hne
    rw [hsame] at hx
    obtain ⟨p, hp, hpx⟩ := mem_rise hx
    apply hapart p (List.mem_append_left _ hp)
    rw [hpx, hsame]
    exact hx

/-- Trees of different leaves have different roots. -/
theorem eq_of_build_eq {m n : Nat} (hxs : xs.Nodup) (hys : ys.Nodup) (hxne : xs ≠ [])
    (hyne : ys ≠ []) (hm : xs.length ≤ 2 ^ m) (hn : ys.length ≤ 2 ^ n)
    (hfree : CollisionFree f id (built f m xs ++ built f n ys))
    (hapart : ∀ p ∈ built f m xs ++ built f n ys, f p.1 p.2 ∉ xs ++ ys)
    (h : build f m xs = build f n ys) : xs = ys := by
  rw [(build_eq_rise hm).1, (build_eq_rise hn).1] at h
  rw [(build_eq_rise hm).2, (build_eq_rise hn).2] at hfree hapart
  rcases Nat.le_total (Nat.clog 2 xs.length) (Nat.clog 2 ys.length) with hle | hle
  · obtain ⟨k, hk⟩ := Nat.exists_eq_add_of_le' hle
    rw [hk] at h hfree hapart
    apply eq_of_rise_clog hxs hys hxne hfree _ h
    intro p hp hmem
    exact hapart p (List.mem_append_right _ hp) (List.mem_append_left _ hmem)
  · obtain ⟨k, hk⟩ := Nat.exists_eq_add_of_le' hle
    rw [hk] at h hfree hapart
    symm
    apply eq_of_rise_clog hys hxs hyne _ _ h.symm
    · apply hfree.mono
      intro p hp
      simp only [List.mem_append] at hp ⊢
      exact hp.symm
    · intro p hp hmem
      exact hapart p (List.mem_append_left _ hp) (List.mem_append_right _ hmem)

end Merkle
