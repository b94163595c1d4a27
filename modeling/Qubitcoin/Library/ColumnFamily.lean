import Mathlib

/-! Column families: finite maps that can be scanned and lose several keys in one batch. -/

universe u v

abbrev ColumnFamily (K : Type u) (V : Type v) := AList fun _ : K => V

namespace ColumnFamily

variable {K : Type u} {V : Type v} [DecidableEq K]

theorem lookup_insert_eq (cf : ColumnFamily K V) (k l : K) (v : V) :
    (cf.insert k v).lookup l = if l = k then some v else cf.lookup l := by
  by_cases h : l = k
  · subst h
    simp
  · simp [AList.lookup_insert_ne h, h]

theorem lookup_erase_eq (cf : ColumnFamily K V) (k l : K) :
    (cf.erase k).lookup l = if l = k then none else cf.lookup l := by
  by_cases h : l = k
  · subst h
    simp
  · simp [AList.lookup_erase_ne h, h]

theorem mem_iff_exists {cf : ColumnFamily K V} {k : K} : k ∈ cf ↔ ∃ v, cf.lookup k = some v := by
  rw [← AList.lookup_isSome, Option.isSome_iff_exists]

theorem length_insert_of_mem {cf : ColumnFamily K V} {k : K} (h : k ∈ cf) (v : V) :
    (cf.insert k v).keys.length = cf.keys.length := by
  have hpos := List.length_pos_of_mem (AList.mem_keys.mp h)
  rw [AList.keys_insert, List.length_cons, List.length_erase_of_mem (AList.mem_keys.mp h)]
  omega

theorem length_insert_of_notMem {cf : ColumnFamily K V} {k : K} (h : k ∉ cf) (v : V) :
    (cf.insert k v).keys.length = cf.keys.length + 1 := by
  rw [AList.keys_insert, List.length_cons, List.erase_of_not_mem (AList.mem_keys.not.mp h)]

theorem length_erase_of_mem {cf : ColumnFamily K V} {k : K} (h : k ∈ cf) :
    (cf.erase k).keys.length + 1 = cf.keys.length := by
  have hpos := List.length_pos_of_mem (AList.mem_keys.mp h)
  rw [AList.keys_erase, List.length_erase_of_mem (AList.mem_keys.mp h)]
  omega

/-- The entries that satisfy `p`, in the order of the scan. -/
def scan (cf : ColumnFamily K V) (p : K → V → Bool) : List (K × V) :=
  (cf.entries.map fun e => (e.1, e.2)).filter fun e => p e.1 e.2

def deleteAll (cf : ColumnFamily K V) (ks : List K) : ColumnFamily K V :=
  ks.foldl (fun cf k => cf.erase k) cf

theorem mem_scan {cf : ColumnFamily K V} {p : K → V → Bool} {e : K × V} :
    e ∈ cf.scan p ↔ cf.lookup e.1 = some e.2 ∧ p e.1 e.2 = true := by
  simp only [scan, List.mem_filter, List.mem_map]
  constructor
  · rintro ⟨⟨⟨k, v⟩, hmem, rfl⟩, hp⟩
    exact ⟨AList.mem_lookup_iff.mpr hmem, hp⟩
  · rintro ⟨hlookup, hp⟩
    exact ⟨⟨⟨e.1, e.2⟩, AList.mem_lookup_iff.mp hlookup, rfl⟩, hp⟩

theorem mem_map_scan {cf : ColumnFamily K V} {p : K → V → Bool} {k : K} :
    k ∈ (cf.scan p).map Prod.fst ↔ ∃ v, cf.lookup k = some v ∧ p k v = true := by
  rw [List.mem_map]
  constructor
  · rintro ⟨e, hmem, rfl⟩
    exact ⟨e.2, mem_scan.mp hmem⟩
  · rintro ⟨v, h⟩
    exact ⟨(k, v), mem_scan.mpr h, rfl⟩

omit [DecidableEq K] in
theorem nodup_map_scan (cf : ColumnFamily K V) (p : K → V → Bool) :
    ((cf.scan p).map Prod.fst).Nodup := by
  apply List.Nodup.sublist (List.filter_sublist.map Prod.fst)
  rw [List.map_map]
  exact cf.keys_nodup

theorem lookup_deleteAll (cf : ColumnFamily K V) (ks : List K) (l : K) :
    (cf.deleteAll ks).lookup l = if l ∈ ks then none else cf.lookup l := by
  induction ks generalizing cf with
  | nil => simp [deleteAll]
  | cons k ks ih =>
    have hrest := ih (cf.erase k)
    rw [lookup_erase_eq] at hrest
    by_cases hk : l = k
    · subst hk
      simpa [deleteAll] using hrest
    · simpa [deleteAll, hk] using hrest

theorem length_deleteAll {cf : ColumnFamily K V} {ks : List K} (hnodup : ks.Nodup)
    (hmem : ∀ k ∈ ks, k ∈ cf) : (cf.deleteAll ks).keys.length + ks.length = cf.keys.length := by
  induction ks generalizing cf with
  | nil => rfl
  | cons k ks ih =>
    rw [List.nodup_cons] at hnodup
    have hrest := @ih (cf.erase k) hnodup.2 fun l hl => by
      rw [AList.mem_erase]
      exact ⟨fun heq => hnodup.1 (heq ▸ hl), hmem l (List.mem_cons_of_mem k hl)⟩
    have hfirst := length_erase_of_mem (hmem k List.mem_cons_self)
    rw [List.length_cons]
    change (deleteAll (cf.erase k) ks).keys.length + _ = _
    omega

/-- A scan followed by the deletion of what it found. -/
theorem length_deleteAll_scan (cf : ColumnFamily K V) (p : K → V → Bool) :
    (cf.deleteAll ((cf.scan p).map Prod.fst)).keys.length + (cf.scan p).length =
      cf.keys.length := by
  rw [← List.length_map Prod.fst]
  apply length_deleteAll (cf.nodup_map_scan p)
  intro k hk
  rw [mem_iff_exists]
  exact (mem_map_scan.mp hk).imp fun _ h => h.1

end ColumnFamily
