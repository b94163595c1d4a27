import Qubitcoin.Library.PaddedMerkle

/-! Merkle trees of texts, whose nodes are the digests of two digests joined.  The texts of the
leaves have a mark that no digest has, so that a leaf is not taken for a pair. -/

namespace TextTree

/-- A digest of texts, of a fixed length and without the mark. -/
structure Digest (mark : Char) where
  hash : String → String
  size : ℕ
  length_hash : ∀ text, (hash text).toList.length = size
  mark_notMem : ∀ text, mark ∉ (hash text).toList

variable {mark : Char} (d : Digest mark)

def combine (a b : String) : String := d.hash (a ++ b)

/-- The loop that builds the tree. -/
def rootOf (leaves : List String) : String :=
  (Merkle.build (combine d) leaves.length leaves).headD ""

/-- The root over texts, or over a text of its own where there are none. -/
def root (empty : String) (texts : List String) : String :=
  if texts = [] then d.hash empty else rootOf d (texts.map d.hash)

def combinations (leaves : List String) : List (String × String) :=
  Merkle.built (combine d) leaves.length leaves

/-- The texts that a root hashes. -/
def asked (empty : String) (texts : List String) : List String :=
  if texts = [] then [empty]
  else texts ++ (combinations d (texts.map d.hash)).map fun p => p.1 ++ p.2

/-- Among these texts the digests tell which is which. -/
def NoCollision (texts : List String) : Prop :=
  ∀ s ∈ texts, ∀ t ∈ texts, d.hash s = d.hash t → s = t

/-- A text of the form of a digest. -/
structure IsDigest (text : String) : Prop where
  length : text.toList.length = d.size
  mark_notMem : mark ∉ text.toList

variable {d} {empty : String} {texts texts' : List String}

theorem isDigest_hash (text : String) : IsDigest d (d.hash text) :=
  ⟨d.length_hash text, d.mark_notMem text⟩

theorem isDigest_combined {p : String × String}
    (h : p ∈ combinations d (texts.map d.hash)) : IsDigest d p.1 ∧ IsDigest d p.2 := by
  refine Merkle.forall_built (P := IsDigest d) (fun _ _ => isDigest_hash _) (fun leaf hleaf => ?_) h
  obtain ⟨text, -, rfl⟩ := List.mem_map.mp hleaf
  exact isDigest_hash text

/-- The text of a pair tells its two digests apart. -/
theorem pair_ext {p q : String × String} (hp : IsDigest d p.1) (hq : IsDigest d q.1)
    (h : p.1 ++ p.2 = q.1 ++ q.2) : p.1 = q.1 ∧ p.2 = q.2 := by
  rw [← String.toList_inj, String.toList_append, String.toList_append] at h
  obtain ⟨hleft, hright⟩ := List.append_inj h (hp.length.trans hq.length.symm)
  exact ⟨String.toList_inj.mp hleft, String.toList_inj.mp hright⟩

theorem marked_ne_pair {p : String × String} (hp : IsDigest d p.1 ∧ IsDigest d p.2) {text : String}
    (h : mark ∈ text.toList) : text ≠ p.1 ++ p.2 := by
  rintro rfl
  rw [String.toList_append, List.mem_append] at h
  exact h.elim hp.1.mark_notMem hp.2.mark_notMem

theorem length_le_two_pow (leaves : List String) : leaves.length ≤ 2 ^ leaves.length :=
  Nat.lt_two_pow_self.le

theorem build_rootOf {leaves : List String} (h : leaves ≠ []) :
    Merkle.build (combine d) leaves.length leaves = [rootOf d leaves] := by
  obtain ⟨r, hr, -⟩ := Merkle.exists_root (f := combine d) h (length_le_two_pow leaves)
  rw [rootOf, hr]
  rfl

/-- The texts of the leaves have the mark, and the one that stands for none is like none of those
that are hashed otherwise. -/
structure Marked (d : Digest mark) (empty : String) (texts : List String) : Prop where
  marked : ∀ text ∈ texts, mark ∈ text.toList
  empty_notMarked : mark ∉ empty.toList
  empty_length : empty.toList.length < 2 * d.size

theorem mem_asked {text : String} (hne : texts ≠ []) (h : text ∈ texts) :
    text ∈ asked d empty texts := by
  rw [asked, if_neg hne]
  exact List.mem_append_left _ h

theorem pair_asked {p : String × String} (hne : texts ≠ [])
    (h : p ∈ combinations d (texts.map d.hash)) : p.1 ++ p.2 ∈ asked d empty texts := by
  rw [asked, if_neg hne]
  exact List.mem_append_right _ (List.mem_map_of_mem h)

/-- The root of some texts is the digest of one that is hashed and is not the empty one. -/
theorem exists_asked (hmarked : Marked d empty texts) (hne : texts ≠ []) :
    ∃ text ∈ asked d empty texts, text ≠ empty ∧ d.hash text = root d empty texts := by
  have hleaves : texts.map d.hash ≠ [] := List.map_eq_nil_iff.not.mpr hne
  rw [root, if_neg hne]
  obtain ⟨r, hr, hroot⟩ := Merkle.exists_root (f := combine d) hleaves (length_le_two_pow _)
  have hsame : rootOf d (texts.map d.hash) = r := by
    rw [rootOf, hr]
    rfl
  rw [hsame]
  rcases hroot with hleaf | ⟨p, hp, hpair⟩
  · obtain ⟨text, htext, hhash⟩ := List.mem_map.mp hleaf
    refine ⟨text, mem_asked hne htext, ?_, hhash⟩
    rintro rfl
    exact hmarked.empty_notMarked (hmarked.marked _ htext)
  · refine ⟨p.1 ++ p.2, pair_asked hne hp, ?_, hpair⟩
    rintro rfl
    obtain ⟨hfirst, hsecond⟩ := isDigest_combined hp
    have hlength := hmarked.empty_length
    rw [String.toList_append, List.length_append, hfirst.length, hsecond.length] at hlength
    omega

/-- No texts have the root of some. -/
theorem root_ne_empty (hmarked : Marked d empty texts) (hne : texts ≠ [])
    (hfree : NoCollision d (asked d empty texts ++ [empty])) :
    root d empty texts ≠ d.hash empty := by
  intro h
  obtain ⟨text, hasked, hother, hroot⟩ := exists_asked hmarked hne
  exact hother (hfree _ (List.mem_append_left _ hasked) _
    (List.mem_append_right _ (List.mem_singleton_self _)) (hroot.trans h))

/-- Different texts, none of them twice, have different roots. -/
theorem root_inj (hmarked : Marked d empty texts) (hmarked' : Marked d empty texts')
    (hnodup : texts.Nodup) (hnodup' : texts'.Nodup)
    (hfree : NoCollision d (asked d empty texts ++ asked d empty texts'))
    (h : root d empty texts = root d empty texts') : texts = texts' := by
  have hfree' : NoCollision d (asked d empty texts' ++ asked d empty texts) := by
    intro s hs t ht
    refine hfree s ?_ t ?_
    · exact List.mem_append.mpr (List.mem_append.mp hs).symm
    · exact List.mem_append.mpr (List.mem_append.mp ht).symm
  by_cases hne : texts = []
  · by_cases hne' : texts' = []
    · rw [hne, hne']
    · rw [asked, asked, if_pos hne, if_neg hne'] at hfree'
      have hroot := root_ne_empty hmarked' hne' (by rw [asked, if_neg hne']; exact hfree')
      rw [root, if_pos hne] at h
      exact absurd h.symm hroot
  · by_cases hne' : texts' = []
    · rw [asked, asked, if_neg hne, if_pos hne'] at hfree
      have hroot := root_ne_empty hmarked hne (by rw [asked, if_neg hne]; exact hfree)
      rw [root, root, if_pos hne'] at h
      exact absurd (by rw [root]; exact h) hroot
    · have hleaf : ∀ text ∈ texts ++ texts', mark ∈ text.toList ∧
          text ∈ asked d empty texts ++ asked d empty texts' := by
        intro text htext
        obtain htext | htext := List.mem_append.mp htext
        · exact ⟨hmarked.marked text htext, List.mem_append_left _ (mem_asked hne htext)⟩
        · exact ⟨hmarked'.marked text htext, List.mem_append_right _ (mem_asked hne' htext)⟩
      have hpair : ∀ p ∈ combinations d (texts.map d.hash) ++ combinations d (texts'.map d.hash),
          (IsDigest d p.1 ∧ IsDigest d p.2) ∧
            p.1 ++ p.2 ∈ asked d empty texts ++ asked d empty texts' := by
        intro p hp
        obtain hp | hp := List.mem_append.mp hp
        · exact ⟨isDigest_combined hp, List.mem_append_left _ (pair_asked hne hp)⟩
        · exact ⟨isDigest_combined hp, List.mem_append_right _ (pair_asked hne' hp)⟩
      have hinj : ∀ s ∈ texts ++ texts', ∀ t ∈ texts ++ texts', d.hash s = d.hash t → s = t :=
        fun s hs t ht => hfree s (hleaf s hs).2 t (hleaf t ht).2
      have hleaves : texts.map d.hash ≠ [] := List.map_eq_nil_iff.not.mpr hne
      have hleaves' : texts'.map d.hash ≠ [] := List.map_eq_nil_iff.not.mpr hne'
      have hsame : texts.map d.hash = texts'.map d.hash := by
        apply Merkle.eq_of_build_eq _ _ hleaves hleaves' (length_le_two_pow _) (length_le_two_pow _)
        · intro p hp q hq heq
          obtain ⟨hdigests, hasked⟩ := hpair p hp
          obtain ⟨hdigests', hasked'⟩ := hpair q hq
          exact pair_ext hdigests.1 hdigests'.1 (hfree _ hasked _ hasked' heq)
        · intro p hp hmem
          obtain ⟨hdigests, hasked⟩ := hpair p hp
          rw [← List.map_append] at hmem
          obtain ⟨text, htext, heq⟩ := List.mem_map.mp hmem
          obtain ⟨hmark, hasked'⟩ := hleaf text htext
          exact marked_ne_pair hdigests hmark (hfree _ hasked' _ hasked heq)
        · rw [build_rootOf hleaves, build_rootOf hleaves']
          rw [root, root, if_neg hne, if_neg hne'] at h
          rw [h]
        · exact hnodup.map_on fun s hs t ht =>
            hinj s (List.mem_append_left _ hs) t (List.mem_append_left _ ht)
        · exact hnodup'.map_on fun s hs t ht =>
            hinj s (List.mem_append_right _ hs) t (List.mem_append_right _ ht)
      exact Merkle.eq_of_map_eq (fun s hs t ht =>
        hinj s (List.mem_append_left _ hs) t (List.mem_append_right _ ht)) hsame

end TextTree
