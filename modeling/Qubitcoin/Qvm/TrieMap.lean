import Qubitcoin.Qvm.Trie

/-! The trie over paths of one length as a map, and its normal form: nodes in normal form with the
same entries are the same. -/

namespace Qubitcoin.Qvm

namespace TrieNode

/-- The node with `path` put before it. -/
def prepend (path : List Nibble) : TrieNode → TrieNode
  | empty => empty
  | leaf rest value => leaf (path ++ rest) value
  | extension rest nextNode => extension (path ++ rest) nextNode
  | branch children value => if path = [] then branch children value
    else extension path (branch children value)

/-- Over paths of length `n`: leaves hold values at full length, extensions end in branches, and
branches hold no value and have two children. -/
def Normal : TrieNode → ℕ → Prop
  | empty, _ => True
  | leaf path value, n => path.length = n ∧ value ≠ []
  | extension path nextNode, n =>
    path ≠ [] ∧ nextNode.isBranch = true ∧ ∃ m, n = path.length + m ∧ Normal nextNode m
  | branch children value, n =>
    value = [] ∧ (∃ m, n = m + 1 ∧ ∀ i, Normal (children i) m) ∧
      ∃ i j, i ≠ j ∧ children i ≠ empty ∧ children j ≠ empty

section Lookup

variable {t u : TrieNode} {path ks : List Nibble} {value v : Bytes} {n m : ℕ}

theorem get_extension_append (path ks : List Nibble) (t : TrieNode) :
    (extension path t).get (path ++ ks) = t.get ks := by
  rw [get, List.take_left, if_pos rfl, List.drop_left]

theorem get_extension_outside (h : ¬path <+: ks) : (extension path t).get ks = none := by
  rw [get, if_neg]
  intro heq
  exact h (heq ▸ List.take_prefix _ _)

/-- Below the path the lookups of the node, elsewhere nothing. -/
theorem get_prepend_append (path ks : List Nibble) (t : TrieNode) :
    (prepend path t).get (path ++ ks) = t.get ks := by
  cases t with
  | empty => rfl
  | leaf rest value => simp [prepend, get]
  | extension rest nextNode =>
    by_cases h : rest <+: ks
    · obtain ⟨ks, rfl⟩ := h
      rw [prepend, ← List.append_assoc, get_extension_append, get_extension_append]
    · rw [prepend, get_extension_outside h, get_extension_outside]
      rwa [List.prefix_append_right_inj]
  | branch children value =>
    rw [prepend]
    split
    · next hnil => rw [hnil, List.nil_append]
    · exact get_extension_append path ks _

theorem get_prepend_outside (h : ¬path <+: ks) : (prepend path t).get ks = none := by
  cases t with
  | empty => rfl
  | leaf rest value =>
    rw [prepend, get, if_neg]
    rintro rfl
    exact h (List.prefix_append _ _)
  | extension rest nextNode =>
    exact get_extension_outside fun hprefix =>
      h ((List.prefix_append path rest).trans hprefix)
  | branch children value =>
    rw [prepend, if_neg]
    · exact get_extension_outside h
    · rintro rfl
      exact h List.nil_prefix

theorem Normal.prepend (h : t.Normal m) (path : List Nibble) :
    (prepend path t).Normal (path.length + m) := by
  cases t with
  | empty => trivial
  | leaf rest value => exact ⟨by rw [List.length_append, h.1], h.2⟩
  | extension rest nextNode =>
    obtain ⟨hne, hbranch, k, rfl, hnext⟩ := h
    refine ⟨by simp [hne], hbranch, k, ?_, hnext⟩
    rw [List.length_append, Nat.add_assoc]
  | branch children value =>
    rw [TrieNode.prepend]
    split
    · next hnil =>
      rw [hnil, List.length_nil, Nat.zero_add]
      exact h
    · next hne => exact ⟨hne, rfl, m, rfl, h⟩

theorem prepend_eq_empty_iff : prepend path t = empty ↔ t = empty := by
  cases t with
  | branch children value =>
    rw [prepend]
    split <;> simp
  | empty | leaf | extension => simp [prepend]

/-- Entries have full length and values that are not empty. -/
theorem Normal.get_eq_some (h : t.Normal n) (hget : t.get ks = some v) :
    ks.length = n ∧ v ≠ [] := by
  induction t generalizing n ks with
  | empty => cases hget
  | leaf path value =>
    rw [get] at hget
    split at hget
    · next heq =>
      cases hget
      rw [heq]
      exact h
    · cases hget
  | extension path nextNode ih =>
    obtain ⟨-, -, m, rfl, hnext⟩ := h
    by_cases hprefix : path <+: ks
    · obtain ⟨ks, rfl⟩ := hprefix
      rw [get_extension_append] at hget
      obtain ⟨hlength, hne⟩ := ih hnext hget
      exact ⟨by rw [List.length_append, hlength], hne⟩
    · rw [get_extension_outside hprefix] at hget
      cases hget
  | branch children value ih =>
    obtain ⟨rfl, ⟨m, rfl, hchildren⟩, -⟩ := h
    cases ks with
    | nil => simp [get] at hget
    | cons i ks =>
      obtain ⟨hlength, hne⟩ := ih i (hchildren i) hget
      exact ⟨by rw [List.length_cons, hlength], hne⟩

theorem Normal.exists_entry (h : t.Normal n) (hne : t ≠ empty) : ∃ ks v, t.get ks = some v := by
  induction t generalizing n with
  | empty => exact absurd rfl hne
  | leaf path value => exact ⟨path, value, if_pos rfl⟩
  | extension path nextNode ih =>
    obtain ⟨-, hbranch, m, rfl, hnext⟩ := h
    obtain ⟨ks, v, hget⟩ := ih hnext (by rintro rfl; cases hbranch)
    exact ⟨path ++ ks, v, by rwa [get_extension_append]⟩
  | branch children value ih =>
    obtain ⟨-, ⟨m, rfl, hchildren⟩, i, -, -, hi, -⟩ := h
    obtain ⟨ks, v, hget⟩ := ih i (hchildren i) hi
    exact ⟨i :: ks, v, hget⟩

/-- Two entries of a branch that differ in the first nibble. -/
theorem Normal.exists_two (h : t.Normal n) (hbranch : t.isBranch = true) :
    ∃ i j as bs v w, i ≠ j ∧ t.get (i :: as) = some v ∧ t.get (j :: bs) = some w := by
  cases t with
  | empty | leaf | extension => cases hbranch
  | branch children value =>
    obtain ⟨-, ⟨m, rfl, hchildren⟩, i, j, hij, hi, hj⟩ := h
    obtain ⟨as, v, hv⟩ := (hchildren i).exists_entry hi
    obtain ⟨bs, w, hw⟩ := (hchildren j).exists_entry hj
    exact ⟨i, j, as, bs, v, w, hij, hv, hw⟩

theorem prefix_of_get_extension (h : (extension path t).get ks = some v) : path <+: ks := by
  by_contra hprefix
  rw [get_extension_outside hprefix] at h
  cases h

theorem eq_of_get_leaf (h : (leaf path value).get ks = some v) : ks = path ∧ v = value := by
  rw [get] at h
  split at h
  · next heq =>
    cases h
    exact ⟨heq, rfl⟩
  · cases h

theorem Normal.eq_empty (h : t.Normal n) (hnone : ∀ ks, t.get ks = none) : t = empty := by
  by_contra hne
  obtain ⟨ks, v, hget⟩ := h.exists_entry hne
  rw [hnone] at hget
  cases hget

/-- A node with one path has no branch. -/
theorem not_unique_of_branch (h : t.Normal n) (hbranch : t.isBranch = true) (p : List Nibble) :
    ¬∀ ks v, t.get ks = some v → ks = p := by
  intro hunique
  obtain ⟨i, j, as, bs, v, w, hij, hv, hw⟩ := h.exists_two hbranch
  have heq := (hunique _ _ hv).trans (hunique _ _ hw).symm
  exact hij (List.cons.inj heq).1

/-- All entries of an extension begin with its path, and the entries of the branch below it do not
begin alike; so the path is the longest shared one. -/
theorem prefix_path_of_entries {q : List Nibble} (h : (extension path t).Normal n)
    (hall : ∀ ks v, (extension path t).get ks = some v → q <+: ks) : q <+: path := by
  obtain ⟨-, hbranch, m, rfl, ht⟩ := h
  obtain ⟨i, j, as, bs, v, w, hij, hv, hw⟩ := ht.exists_two hbranch
  have hleft := hall (path ++ i :: as) v (by rwa [get_extension_append])
  have hright := hall (path ++ j :: bs) w (by rwa [get_extension_append])
  by_contra hnot
  have hlonger : path <+: q :=
    (List.prefix_or_prefix_of_prefix (List.prefix_append path (i :: as)) hleft).resolve_right hnot
  obtain ⟨rest, rfl⟩ := hlonger
  rw [List.prefix_append_right_inj] at hleft hright
  cases rest with
  | nil => exact hnot (by rw [List.append_nil])
  | cons k rest =>
    rw [List.cons_prefix_cons] at hleft hright
    exact hij (hleft.1.symm.trans hright.1)

theorem Normal.get_branch {children : Nibble → TrieNode} (h : (branch children value).Normal n)
    (u : TrieNode) (hu : u.Normal n) (hget : ∀ ks, (branch children value).get ks = u.get ks) :
    u.isBranch = true := by
  obtain ⟨i, j, as, bs, v, w, hij, hv, hw⟩ := h.exists_two rfl
  rw [hget] at hv hw
  cases u with
  | branch => rfl
  | empty => cases hv
  | leaf path value =>
    have heq := (eq_of_get_leaf hv).1.trans (eq_of_get_leaf hw).1.symm
    exact absurd (List.cons.inj heq).1 hij
  | extension path nextNode =>
    have hleft := prefix_of_get_extension hv
    have hright := prefix_of_get_extension hw
    cases path with
    | nil => exact absurd rfl hu.1
    | cons k path =>
      rw [List.cons_prefix_cons] at hleft hright
      exact absurd (hleft.1.symm.trans hright.1) hij

/-- The normal form is determined by the entries. -/
theorem Normal.ext (ht : t.Normal n) (hu : u.Normal n) (hget : ∀ ks, t.get ks = u.get ks) :
    t = u := by
  induction t generalizing n u with
  | empty => exact (hu.eq_empty fun ks => (hget ks).symm).symm
  | leaf path value =>
    have hself : u.get path = some value := (hget path).symm.trans (if_pos rfl)
    have hunique : ∀ ks v, u.get ks = some v → ks = path := by
      intro ks v hv
      rw [← hget] at hv
      exact (eq_of_get_leaf hv).1
    cases u with
    | empty => cases hself
    | leaf path' value' =>
      obtain ⟨rfl, rfl⟩ := eq_of_get_leaf hself
      rfl
    | extension path' nextNode =>
      obtain ⟨-, hbranch, m, rfl, hnext⟩ := hu
      obtain ⟨rest, rfl⟩ := prefix_of_get_extension hself
      refine absurd (fun ks v hv => ?_) (not_unique_of_branch hnext hbranch rest)
      exact List.append_cancel_left (hunique (path' ++ ks) v (by rwa [get_extension_append]))
    | branch children value' => exact absurd hunique (not_unique_of_branch hu rfl path)
  | extension path nextNode ih =>
    cases u with
    | empty => exact absurd (ht.eq_empty hget) nofun
    | leaf path' value' =>
      obtain ⟨-, hbranch, m, rfl, hnext⟩ := ht
      have hself : (extension path nextNode).get path' = some value' :=
        (hget path').trans (if_pos rfl)
      obtain ⟨rest, rfl⟩ := prefix_of_get_extension hself
      refine absurd (fun ks v hv => ?_) (not_unique_of_branch hnext hbranch rest)
      rw [← get_extension_append path, hget] at hv
      exact List.append_cancel_left (eq_of_get_leaf hv).1
    | branch children value' =>
      have := Normal.get_branch hu _ ht fun ks => (hget ks).symm
      cases this
    | extension path' nextNode' =>
      have hleft : path' <+: path := prefix_path_of_entries ht fun ks v hv =>
        prefix_of_get_extension (hget ks ▸ hv)
      have hright : path <+: path' := prefix_path_of_entries hu fun ks v hv =>
        prefix_of_get_extension ((hget ks).symm ▸ hv)
      obtain rfl : path' = path := hleft.eq_of_length (hleft.length_le.antisymm hright.length_le)
      obtain ⟨-, -, m, rfl, hnext⟩ := ht
      obtain ⟨-, -, m', hlength, hnext'⟩ := hu
      obtain rfl : m = m' := Nat.add_left_cancel hlength
      congr 1
      apply ih hnext hnext'
      intro ks
      rw [← get_extension_append path', hget, get_extension_append]
  | branch children value ih =>
    cases u with
    | branch children' value' =>
      obtain ⟨rfl, ⟨m, rfl, hchildren⟩, -⟩ := ht
      obtain ⟨rfl, ⟨m', hlength, hchildren'⟩, -⟩ := hu
      obtain rfl : m = m' := Nat.add_right_cancel hlength
      congr 1
      funext i
      exact ih i (hchildren i) (hchildren' i) fun ks => hget (i :: ks)
    | empty | leaf | extension =>
      have := ht.get_branch _ hu hget
      cases this

end Lookup

section Insertion

variable {t : TrieNode} {ks qs : List Nibble} {v : Bytes} {n m : ℕ}

theorem exists_shared (as bs : List Nibble) :
    ∃ common as' bs', as = common ++ as' ∧ bs = common ++ bs' ∧
      sharedPrefixLength as bs = common.length ∧
        ∀ a b as'' bs'', as' = a :: as'' → bs' = b :: bs'' → a ≠ b := by
  induction as generalizing bs with
  | nil => exact ⟨[], [], bs, rfl, rfl, rfl, nofun⟩
  | cons a as ih =>
    cases bs with
    | nil => exact ⟨[], a :: as, [], rfl, rfl, rfl, nofun⟩
    | cons b bs =>
      by_cases hab : a = b
      · obtain ⟨common, as', bs', rfl, rfl, hlength, hdiffer⟩ := ih bs
        subst hab
        refine ⟨a :: common, as', bs', rfl, rfl, ?_, hdiffer⟩
        rw [sharedPrefixLength, if_pos rfl, hlength, List.length_cons]
      · refine ⟨[], a :: as, b :: bs, rfl, rfl, ?_, ?_⟩
        · rw [sharedPrefixLength, if_neg hab]
          rfl
        · rintro _ _ _ _ ⟨⟩ ⟨⟩
          exact hab

/-- A branch of two children. -/
def fork (b : Nibble) (y : TrieNode) (a : Nibble) (x : TrieNode) : TrieNode :=
  branch (Function.update (Function.update noChildren b y) a x) []

theorem get_fork_cons (b : Nibble) (y : TrieNode) (a : Nibble) (x : TrieNode) (i : Nibble) :
    (fork b y a x).get (i :: qs) = if i = a then x.get qs else if i = b then y.get qs else none := by
  rw [fork, get, Function.update_apply, Function.update_apply]
  split
  · rfl
  · split <;> rfl

theorem Normal.fork {a b : Nibble} {x y : TrieNode} (hx : x.Normal m) (hy : y.Normal m)
    (hxne : x ≠ empty) (hyne : y ≠ empty) (hab : a ≠ b) : (fork b y a x).Normal (m + 1) := by
  refine ⟨rfl, ⟨m, rfl, fun i => ?_⟩, a, b, hab, ?_, ?_⟩
  · rw [Function.update_apply, Function.update_apply]
    split
    · exact hx
    · split
      · exact hy
      · trivial
  · rwa [Function.update_self]
  · rwa [Function.update_of_ne hab.symm, Function.update_self]

/-- A node below `c ++ b :: y` and a leaf below `c ++ a :: x`: the fork after `c` has the entries of
both. -/
theorem get_split {a b : Nibble} (hab : a ≠ b) (c x y : List Nibble) (t : TrieNode) (v : Bytes) :
    (prepend c (fork b (prepend y t) a (leaf x v))).get qs =
      if qs = c ++ a :: x then some v else (prepend (c ++ b :: y) t).get qs := by
  by_cases hc : c <+: qs
  · obtain ⟨q, rfl⟩ := hc
    simp only [get_prepend_append, List.append_cancel_left_eq]
    cases q with
    | nil =>
      rw [if_neg nofun, get_prepend_outside fun h => by simpa using h.length_le]
      rfl
    | cons i q =>
      rw [get_fork_cons]
      by_cases hia : i = a
      · subst hia
        have hout : ¬c ++ b :: y <+: c ++ i :: q := by
          rw [List.prefix_append_right_inj, List.cons_prefix_cons]
          exact fun h => hab h.1.symm
        rw [if_pos rfl, get_prepend_outside hout, get]
        simp
      · rw [if_neg hia, if_neg (fun h => hia (List.cons.inj h).1)]
        by_cases hib : i = b
        · subst hib
          rw [if_pos rfl]
          by_cases hy : y <+: q
          · obtain ⟨r, rfl⟩ := hy
            have happend : c ++ i :: (y ++ r) = (c ++ i :: y) ++ r := by simp
            rw [happend, get_prepend_append, get_prepend_append]
          · rw [get_prepend_outside hy, get_prepend_outside]
            rw [List.prefix_append_right_inj, List.cons_prefix_cons]
            exact fun h => hy h.2
        · rw [if_neg hib, get_prepend_outside]
          rw [List.prefix_append_right_inj, List.cons_prefix_cons]
          exact fun h => hib h.1.symm
  · rw [get_prepend_outside hc, if_neg, get_prepend_outside]
    · exact fun h => hc ((List.prefix_append _ _).trans h)
    · rintro rfl
      exact hc (List.prefix_append _ _)

theorem Normal.split {a b : Nibble} (hab : a ≠ b) {c x y : List Nibble} (ht : t.Normal m)
    (hne : t ≠ empty) (hv : v ≠ []) (hlength : x.length = y.length + m) :
    (TrieNode.prepend c (TrieNode.fork b (TrieNode.prepend y t) a (leaf x v))).Normal
      (c ++ a :: x).length := by
  have hfork := Normal.fork (x := leaf x v) ⟨hlength, hv⟩ (ht.prepend y) nofun
    (fun h => hne (prepend_eq_empty_iff.mp h)) hab
  rw [List.length_append, List.length_cons, hlength]
  exact hfork.prepend c

theorem underShared_eq (path : List Nibble) (children : Nibble → TrieNode) (value : Bytes) :
    underShared path (branch children value) = prepend path (branch children value) := by
  rw [underShared, prepend]
  cases path <;> simp

theorem splitLeaf_eq {a b : Nibble} {c x y : List Nibble} {old : Bytes}
    (hshared : sharedPrefixLength (c ++ a :: x) (c ++ b :: y) = c.length) :
    splitLeaf (c ++ b :: y) old (c ++ a :: x) v =
      prepend c (fork b (prepend y (leaf [] old)) a (leaf x v)) := by
  simp only [splitLeaf, hshared, List.drop_left, List.take_left, underShared_eq, fork, prepend,
    List.append_nil]

theorem put_extension_eq {a b : Nibble} {c x y : List Nibble}
    (hbranch : t.isBranch = true)
    (hshared : sharedPrefixLength (c ++ a :: x) (c ++ b :: y) = c.length) :
    (extension (c ++ b :: y) t).put (c ++ a :: x) v =
      prepend c (fork b (prepend y t) a (leaf x v)) := by
  have hbelow : (if y.length > 0 then extension y t else t) = prepend y t := by
    cases t with
    | empty | leaf | extension => cases hbranch
    | branch children value =>
      rw [prepend]
      cases y <;> simp
  simp only [put, hshared, List.drop_left, List.take_left, hbelow, underShared_eq, fork]

theorem put_extension_append (c x : List Nibble)
    (hshared : sharedPrefixLength (c ++ x) c = c.length) :
    (extension c t).put (c ++ x) v = extension c (t.put x v) := by
  simp only [put, hshared, List.drop_length, List.drop_left]

theorem put_ne_empty (t : TrieNode) (ks : List Nibble) (v : Bytes) : t.put ks v ≠ empty := by
  have hunder (path : List Nibble) (children : Nibble → TrieNode) (value : Bytes) :
      underShared path (branch children value) ≠ empty := by
    rw [underShared]
    split <;> nofun
  cases t with
  | empty => nofun
  | leaf path value =>
    simp only [put, splitLeaf]
    split
    · nofun
    all_goals exact hunder _ _ _
  | extension path nextNode =>
    simp only [put]
    split
    · nofun
    · split <;> exact hunder _ _ _
  | branch children value =>
    cases ks <;> nofun

theorem isBranch_put (h : t.isBranch = true) (ks : List Nibble) (v : Bytes) :
    (t.put ks v).isBranch = true := by
  cases t with
  | empty | leaf | extension => cases h
  | branch children value => cases ks <;> rfl

/-- The new entry is there, and the others as before. -/
theorem Normal.put (ht : t.Normal n) (hks : ks.length = n) (hv : v ≠ []) :
    (t.put ks v).Normal n ∧
      ∀ qs, (t.put ks v).get qs = if qs = ks then some v else t.get qs := by
  induction t generalizing n ks with
  | empty => exact ⟨⟨hks, hv⟩, fun qs => rfl⟩
  | leaf path old =>
    obtain ⟨c, x, y, rfl, rfl, hshared, hdiffer⟩ := exists_shared ks path
    obtain ⟨rfl, hold⟩ := ht
    rw [List.length_append, List.length_append, Nat.add_left_cancel_iff] at hks
    rw [TrieNode.put]
    match x, y, hks with
    | [], [], _ =>
      rw [List.append_nil] at hshared ⊢
      simp only [splitLeaf, hshared, List.drop_length]
      refine ⟨⟨rfl, hv⟩, fun qs => ?_⟩
      rw [get, get]
      split <;> rfl
    | a :: x, b :: y, hks =>
      have hab := hdiffer a b x y rfl rfl
      rw [List.length_cons, List.length_cons, Nat.add_right_cancel_iff] at hks
      rw [splitLeaf_eq hshared]
      constructor
      · have hnormal := Normal.split (c := c) (x := x) (y := y) hab (t := leaf [] old)
          ⟨rfl, hold⟩ nofun hv hks
        rwa [List.length_append, List.length_cons, hks, ← List.length_cons,
          ← List.length_append] at hnormal
      · intro qs
        rw [get_split hab, TrieNode.prepend, List.append_nil]
  | extension path nextNode ih =>
    obtain ⟨hne, hbranch, m, rfl, hnext⟩ := ht
    obtain ⟨c, x, y, rfl, rfl, hshared, hdiffer⟩ := exists_shared ks path
    rw [List.length_append, List.length_append, Nat.add_assoc, Nat.add_left_cancel_iff] at hks
    have hnextne : nextNode ≠ empty := by
      rintro rfl
      cases hbranch
    cases y with
    | nil =>
      rw [List.append_nil] at hshared hne ⊢
      rw [put_extension_append c x hshared]
      obtain ⟨hnormal, hget⟩ := ih hnext (by simpa using hks)
      refine ⟨⟨hne, isBranch_put hbranch x v, m, by simp, hnormal⟩, fun qs => ?_⟩
      by_cases hc : c <+: qs
      · obtain ⟨q, rfl⟩ := hc
        simp only [get_extension_append, hget, List.append_cancel_left_eq]
      · rw [get_extension_outside hc, get_extension_outside hc, if_neg]
        rintro rfl
        exact hc (List.prefix_append _ _)
    | cons b y =>
      cases x with
      | nil =>
        rw [List.length_nil, List.length_cons] at hks
        omega
      | cons a x =>
        have hab := hdiffer a b x y rfl rfl
        rw [put_extension_eq hbranch hshared]
        have hlength : x.length = y.length + m := by simpa [Nat.add_right_comm] using hks
        constructor
        · have hnormal := Normal.split (c := c) hab hnext hnextne hv hlength
          rw [List.length_append, List.length_cons, hlength] at hnormal
          rwa [List.length_append, List.length_cons, Nat.add_assoc, Nat.add_right_comm]
        · intro qs
          have hwhole : TrieNode.prepend (c ++ b :: y) nextNode = extension (c ++ b :: y) nextNode := by
            cases nextNode with
            | empty | leaf | extension => cases hbranch
            | branch children value => simp [TrieNode.prepend]
          rw [get_split hab, hwhole]
  | branch children old ih =>
    obtain ⟨rfl, ⟨m, rfl, hchildren⟩, i, j, hij, hi, hj⟩ := ht
    cases ks with
    | nil => simp at hks
    | cons idx ks =>
      rw [List.length_cons, Nat.add_right_cancel_iff] at hks
      obtain ⟨hnormal, hget⟩ := ih idx (hchildren idx) hks
      have hkeeps (k : Nibble) (hk : children k ≠ empty) :
          Function.update children idx ((children idx).put ks v) k ≠ empty := by
        rw [Function.update_apply]
        split
        · exact put_ne_empty _ _ _
        · exact hk
      constructor
      · refine ⟨rfl, ⟨m, rfl, fun k => ?_⟩, i, j, hij, hkeeps i hi, hkeeps j hj⟩
        rw [Function.update_apply]
        split
        · exact hnormal
        · exact hchildren k
      · intro qs
        cases qs with
        | nil => rfl
        | cons k qs =>
          rw [TrieNode.put, get, get, Function.update_apply]
          split
          · next heq => simp only [heq, hget, List.cons.injEq, true_and]
          · next hne => rw [if_neg fun h => hne (List.cons.inj h).1]

end Insertion

section Deletion

variable {t : TrieNode} {ks qs : List Nibble} {children : Nibble → TrieNode} {n m : ℕ}

theorem isEmpty_eq_false_iff : (!t.isEmpty) = true ↔ t ≠ empty := by
  cases t <;> simp [isEmpty]

theorem compactBranch_of_single {idx : Nibble} (hchild : children idx ≠ empty)
    (hfilter : ((List.finRange 16).filter fun i => !(children i).isEmpty) = [idx]) :
    compactBranch children [] = TrieNode.prepend [idx] (children idx) := by
  unfold compactBranch
  rw [hfilter]
  cases h : children idx with
  | empty => exact absurd h hchild
  | leaf | extension | branch => (simp only [h, if_pos, TrieNode.prepend]; rfl)

/-- A branch that has a child left is put into normal form. -/
theorem Normal.compactBranch (hchildren : ∀ i, (children i).Normal m)
    (hsome : ∃ i, children i ≠ empty) :
    (compactBranch children []).Normal (m + 1) ∧
      ∀ qs, (TrieNode.compactBranch children []).get qs = (branch children []).get qs := by
  have hmem (i : Nibble) :
      i ∈ ((List.finRange 16).filter fun i => !(children i).isEmpty) ↔ children i ≠ empty := by
    rw [List.mem_filter, isEmpty_eq_false_iff, and_iff_right (List.mem_finRange i)]
  have hnodup : ((List.finRange 16).filter fun i => !(children i).isEmpty).Nodup :=
    (List.nodup_finRange 16).filter _
  match hfilter : (List.finRange 16).filter fun i => !(children i).isEmpty with
  | [] =>
    obtain ⟨i, hi⟩ := hsome
    rw [← hmem, hfilter] at hi
    cases hi
  | [idx] =>
    rw [hfilter] at hmem
    have honly (k : Nibble) (hk : k ≠ idx) : children k = empty := by
      by_contra hne
      exact hk (List.mem_singleton.mp ((hmem k).mpr hne))
    rw [compactBranch_of_single ((hmem idx).mp List.mem_cons_self) hfilter]
    constructor
    · have hnormal := (hchildren idx).prepend [idx]
      rwa [List.length_singleton, Nat.add_comm] at hnormal
    · intro qs
      cases qs with
      | nil =>
        rw [get_prepend_outside fun h => by simpa using h.length_le]
        rfl
      | cons k qs =>
        by_cases hk : k = idx
        · subst hk
          exact get_prepend_append [k] qs (children k)
        · rw [get_prepend_outside, get, honly k hk, get]
          exact fun h => hk (List.cons_prefix_cons.mp h).1.symm
  | i :: j :: rest =>
    rw [hfilter] at hmem hnodup
    have hsame : TrieNode.compactBranch children [] = branch children [] := by
      unfold TrieNode.compactBranch
      rw [hfilter]
    rw [hsame]
    refine ⟨⟨rfl, ⟨m, rfl, hchildren⟩, i, j, ?_, ?_, ?_⟩, fun qs => rfl⟩
    · rintro rfl
      exact (List.nodup_cons.mp hnodup).1 List.mem_cons_self
    · exact (hmem i).mp List.mem_cons_self
    · exact (hmem j).mp (List.mem_cons_of_mem _ List.mem_cons_self)

theorem delete_extension_append (path ks : List Nibble) (hpath : path ≠ []) (t : TrieNode) :
    (extension path t).delete (path ++ ks) =
      if (t.delete ks).2 then (prepend path (t.delete ks).1, true) else (extension path t, false) := by
  rw [delete, List.take_left, if_pos rfl, List.drop_left]
  match t.delete ks with
  | (_, false) => rfl
  | (empty, true) | (leaf _ _, true) | (extension _ _, true) => rfl
  | (branch children value, true) => simp [prepend, hpath]

/-- What deleting a path from a node in normal form does. -/
structure Deletes (t : TrieNode) (n : ℕ) (ks : List Nibble) (result : TrieNode × Bool) : Prop where
  found : result.2 = (t.get ks).isSome
  kept : result.2 = false → result.1 = t
  normal : result.1.Normal n
  lookup : ∀ qs, result.1.get qs = if qs = ks then none else t.get qs

theorem Deletes.missed (ht : t.Normal n) (hnone : t.get ks = none) : Deletes t n ks (t, false) := by
  refine ⟨by rw [hnone]; rfl, fun _ => rfl, ht, fun qs => ?_⟩
  split
  · next heq => rw [heq, hnone]
  · rfl

theorem Normal.delete (ht : t.Normal n) (hks : ks.length = n) : Deletes t n ks (t.delete ks) := by
  induction t generalizing n ks with
  | empty => exact .missed ht rfl
  | leaf path value =>
    rw [TrieNode.delete]
    split
    · next heq =>
      subst heq
      refine ⟨by rw [get, if_pos rfl]; rfl, nofun, trivial, fun qs => ?_⟩
      rw [get, get]
      split <;> rfl
    · next hne => exact .missed ht (if_neg hne)
  | extension path nextNode ih =>
    have ht' := ht
    obtain ⟨hne, hbranch, m, rfl, hnext⟩ := ht
    by_cases hprefix : path <+: ks
    · obtain ⟨rest, rfl⟩ := hprefix
      rw [List.length_append, Nat.add_left_cancel_iff] at hks
      have hbelow := ih hnext hks
      rw [delete_extension_append path rest hne]
      split
      · next hdeleted =>
        refine ⟨?_, nofun, hbelow.normal.prepend path, fun qs => ?_⟩
        · rw [get_extension_append, ← hbelow.found, hdeleted]
        · by_cases hqs : path <+: qs
          · obtain ⟨q, rfl⟩ := hqs
            simp only [get_prepend_append, get_extension_append, hbelow.lookup,
              List.append_cancel_left_eq]
          · rw [get_prepend_outside hqs, get_extension_outside hqs, ite_self]
      · next hmissed =>
        apply Deletes.missed ht'
        have hfound := hbelow.found
        rw [Bool.eq_false_iff.mpr hmissed] at hfound
        rw [get_extension_append]
        exact Option.isSome_eq_false_iff.mp hfound.symm |> Option.isNone_iff_eq_none.mp
    · rw [TrieNode.delete, if_neg]
      · exact .missed ht' (get_extension_outside hprefix)
      · intro heq
        exact hprefix (heq ▸ List.take_prefix _ _)
  | branch children value ih =>
    have ht' := ht
    obtain ⟨rfl, ⟨m, rfl, hchildren⟩, i, j, hij, hi, hj⟩ := ht
    cases ks with
    | nil => cases hks
    | cons idx ks =>
      rw [List.length_cons, Nat.add_right_cancel_iff] at hks
      have hbelow := ih idx (hchildren idx) hks
      rw [TrieNode.delete]
      split
      · next newChild hdelete =>
        apply Deletes.missed ht'
        have hfound := hbelow.found
        rw [hdelete] at hfound
        exact Option.isSome_eq_false_iff.mp hfound.symm |> Option.isNone_iff_eq_none.mp
      · next newChild hdelete =>
        rw [hdelete] at hbelow
        -- one of the two children stays
        have hsome : ∃ k, Function.update children idx newChild k ≠ empty := by
          by_cases hidx : i = idx
          · refine ⟨j, ?_⟩
            rwa [Function.update_of_ne]
            rintro rfl
            exact hij hidx
          · exact ⟨i, by rwa [Function.update_of_ne hidx]⟩
        have hnormal (k : Nibble) : (Function.update children idx newChild k).Normal m := by
          rw [Function.update_apply]
          split
          · exact hbelow.normal
          · exact hchildren k
        obtain ⟨hcompact, hget⟩ := Normal.compactBranch hnormal hsome
        refine ⟨hbelow.found, nofun, hcompact, fun qs => ?_⟩
        rw [hget]
        cases qs with
        | nil => rfl
        | cons k qs =>
          rw [get, get, Function.update_apply]
          split
          · next heq => simp only [heq, hbelow.lookup, List.cons.injEq, true_and]
          · next hne => rw [if_neg fun h => hne (List.cons.inj h).1]

end Deletion

end TrieNode

end Qubitcoin.Qvm
