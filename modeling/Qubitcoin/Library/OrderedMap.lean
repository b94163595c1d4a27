import Qubitcoin.Library.StorageMap

/-! Storage in the order of the keys, and storage in two levels. -/

universe u v

namespace StorageMap

variable {K : Type u} {V : Type v} [LinearOrder K] {m n : StorageMap K V} {k : K}

/-- Insertion sort, which evaluates. -/
def sorted (ks : Multiset K) : List K :=
  Quotient.liftOn ks (List.insertionSort (· ≤ ·)) fun a b h =>
    ((List.perm_insertionSort (· ≤ ·) a).trans
      (h.trans (List.perm_insertionSort (· ≤ ·) b).symm)).eq_of_pairwise'
        (List.pairwise_insertionSort (· ≤ ·) a) (List.pairwise_insertionSort (· ≤ ·) b)

theorem mem_sorted {ks : Multiset K} : k ∈ sorted ks ↔ k ∈ ks := by
  induction ks using Quotient.inductionOn with
  | _ ks => exact List.mem_insertionSort (· ≤ ·)

def orderedKeys (m : StorageMap K V) : List K := sorted m.keys.val

def orderedValues (m : StorageMap K V) : List V := (orderedKeys m).filterMap m.lookup

theorem mem_orderedKeys : k ∈ orderedKeys m ↔ ∃ v, m.lookup k = some v := by
  rw [orderedKeys, mem_sorted, Finset.mem_val, Finmap.mem_keys, Finmap.mem_iff]

theorem nodup_orderedKeys (m : StorageMap K V) : (orderedKeys m).Nodup := by
  have hsorted (ks : Multiset K) (hks : ks.Nodup) : (sorted ks).Nodup := by
    induction ks using Quotient.inductionOn with
    | _ ks => exact (List.perm_insertionSort (· ≤ ·) ks).nodup_iff.mpr hks
  exact hsorted _ m.keys.nodup

theorem map_some_orderedValues (m : StorageMap K V) :
    (orderedValues m).map some = (orderedKeys m).map m.lookup := by
  have hpresent (ks : List K) (hks : ∀ k ∈ ks, ∃ v, m.lookup k = some v) :
      (ks.filterMap m.lookup).map some = ks.map m.lookup := by
    induction ks with
    | nil => rfl
    | cons k ks ih =>
      rw [List.forall_mem_cons] at hks
      obtain ⟨v, hv⟩ := hks.1
      rw [List.filterMap_cons, hv, List.map_cons, List.map_cons, ih hks.2, hv]
  exact hpresent _ fun k hk => mem_orderedKeys.mp hk

theorem length_orderedValues (m : StorageMap K V) :
    (orderedValues m).length = (orderedKeys m).length := by
  have h := congrArg List.length (map_some_orderedValues m)
  rwa [List.length_map, List.length_map] at h

/-- The value of the key in some place stands in that place. -/
theorem orderedValues_getElem? {i : ℕ} {v : V} (hk : (orderedKeys m)[i]? = some k)
    (hv : m.lookup k = some v) : (orderedValues m)[i]? = some v := by
  have h := congrArg (fun l => l[i]?) (map_some_orderedValues m)
  simp only [List.getElem?_map, hk, Option.map_some, hv] at h
  cases hi : (orderedValues m)[i]? with
  | none =>
    rw [hi] at h
    cases h
  | some w =>
    rw [hi] at h
    exact Option.some.inj h

theorem orderedValues_eq_nil : orderedValues m = [] ↔ m = ∅ := by
  constructor
  · intro h
    have hkeys : orderedKeys m = [] := by
      apply List.eq_nil_of_length_eq_zero
      rw [← length_orderedValues, h, List.length_nil]
    apply Finmap.ext_lookup
    intro k
    cases hk : m.lookup k with
    | none => rw [Finmap.lookup_empty]
    | some v =>
      have hmem := mem_orderedKeys.mpr ⟨v, hk⟩
      rw [hkeys] at hmem
      cases hmem
  · rintro rfl
    rfl

/-- Two maps with the same keys and the same values in order are the same. -/
theorem ext_ordered (hkeys : m.keys = n.keys) (hvalues : orderedValues m = orderedValues n) :
    m = n := by
  have hsame : orderedKeys m = orderedKeys n := by rw [orderedKeys, orderedKeys, hkeys]
  have hlookup := map_some_orderedValues m
  rw [hvalues, map_some_orderedValues, ← hsame] at hlookup
  apply Finmap.ext_lookup
  intro k
  by_cases hk : k ∈ orderedKeys m
  · exact (List.map_inj_left.mp hlookup k hk).symm
  · have habsent {p : StorageMap K V} (hp : k ∉ orderedKeys p) : p.lookup k = none := by
      rw [mem_orderedKeys] at hp
      push Not at hp
      exact Option.eq_none_iff_forall_ne_some.mpr hp
    rw [habsent hk, habsent (hsame ▸ hk)]

section Nested

variable {L : Type u} {W : Type v} [DecidableEq L]

omit [LinearOrder K] [DecidableEq L] in
theorem nodup_nested (m : StorageMap K (StorageMap L W)) :
    (m.entries.bind fun outer => outer.2.entries.map fun inner => (outer.1, inner.1)).Nodup := by
  rcases m with ⟨⟨outers⟩, hkeys⟩
  refine Multiset.nodup_bind.mpr ⟨fun outer _ => ?_, ?_⟩
  · have hinner : outer.2.entries.keys.Nodup := outer.2.nodupKeys.nodup_keys
    have hmap := hinner.map (Prod.mk_right_injective outer.1)
    rwa [Multiset.keys, Multiset.map_map] at hmap
  · refine ⟨outers, rfl, (List.nodupKeys_iff_pairwise.mp hkeys).imp fun {a b} hne => ?_⟩
    refine Multiset.disjoint_left.mpr fun hx hy => ?_
    obtain ⟨x, -, rfl⟩ := Multiset.mem_map.mp hx
    obtain ⟨y, -, heq⟩ := Multiset.mem_map.mp hy
    exact hne (congrArg Prod.fst heq).symm

/-- The map over pairs of keys. -/
def flatten (m : StorageMap K (StorageMap L W)) : StorageMap (K × L) W where
  entries := m.entries.bind fun outer =>
    outer.2.entries.map fun inner => ⟨(outer.1, inner.1), inner.2⟩
  nodupKeys := by
    rw [← Multiset.nodup_keys, Multiset.keys, Multiset.map_bind]
    simp only [Multiset.map_map]
    exact nodup_nested m

theorem lookup_flatten (m : StorageMap K (StorageMap L W)) (k : K) (l : L) :
    (flatten m).lookup (k, l) = (m.lookup k).bind fun inner => inner.lookup l := by
  ext v
  rw [← Option.mem_def, Finmap.mem_lookup_iff]
  change _ ∈ m.entries.bind _ ↔ _
  simp only [Multiset.mem_bind, Multiset.mem_map, Option.bind_eq_some_iff]
  constructor
  · rintro ⟨⟨k', inner⟩, houter, ⟨l', w⟩, hinner, heq⟩
    cases heq
    exact ⟨inner, Finmap.mem_lookup_iff.mpr houter, Finmap.mem_lookup_iff.mpr hinner⟩
  · rintro ⟨inner, houter, hinner⟩
    exact ⟨⟨k, inner⟩, Finmap.mem_lookup_iff.mp houter, ⟨l, v⟩, Finmap.mem_lookup_iff.mp hinner,
      rfl⟩

theorem lookup_union (m n : StorageMap L W) (l : L) :
    (m ∪ n).lookup l = (m.lookup l).or (n.lookup l) := by
  by_cases hl : l ∈ m
  · obtain ⟨v, hv⟩ := Finmap.mem_iff.mp hl
    rw [Finmap.lookup_union_left hl, hv]
    rfl
  · rw [Finmap.lookup_union_right hl, Finmap.lookup_eq_none.mpr hl]
    rfl

end Nested

end StorageMap
