import Mathlib

/-! Finite key-value storage.  A map is Mathlib's `Finmap`, so two maps with the
same lookups are equal; `weigh` sums a weight over its entries. -/

universe u v

abbrev StorageMap (K : Type u) (V : Type v) := Finmap fun _ : K => V

namespace StorageMap

variable {K : Type u} {V : Type v} [DecidableEq K]

/-- The stored value, or the default `d` at an absent key. -/
def value (d : V) (m : StorageMap K V) (k : K) : V := (m.lookup k).getD d

@[simp] theorem value_insert (d : V) (m : StorageMap K V) (k : K) (v : V) :
    value d (m.insert k v) k = v := by
  simp [value, Finmap.lookup_insert]

theorem value_insert_ne (d : V) (m : StorageMap K V) {k k' : K} (v : V) (h : k' ≠ k) :
    value d (m.insert k v) k' = value d m k' := by
  simp [value, Finmap.lookup_insert_of_ne m h]

@[simp] theorem value_empty (d : V) (k : K) : value d (∅ : StorageMap K V) k = d := by
  simp [value, Finmap.lookup_empty]

theorem lookup_insert_eq (m : StorageMap K V) (k k' : K) (v : V) :
    (m.insert k v).lookup k' = if k' = k then some v else m.lookup k' := by
  by_cases h : k' = k
  · subst h
    simp [Finmap.lookup_insert]
  · simp [Finmap.lookup_insert_of_ne m h, h]

theorem value_insert_eq (d : V) (m : StorageMap K V) (k k' : K) (v : V) :
    value d (m.insert k v) k' = if k' = k then v else value d m k' := by
  rw [value, lookup_insert_eq]
  split
  · rfl
  · rfl

theorem lookup_erase_eq (m : StorageMap K V) (k k' : K) :
    (m.erase k).lookup k' = if k' = k then none else m.lookup k' := by
  by_cases h : k' = k
  · subst h
    simp [Finmap.lookup_erase]
  · simp [Finmap.lookup_erase_ne h, h]

theorem value_erase_eq (d : V) (m : StorageMap K V) (k k' : K) :
    value d (m.erase k) k' = if k' = k then d else value d m k' := by
  rw [value, lookup_erase_eq]
  split
  · rfl
  · rfl

theorem lookup_foldl_erase (m : StorageMap K V) (ks : List K) (k : K) :
    (ks.foldl (fun m k => m.erase k) m).lookup k = if k ∈ ks then none else m.lookup k := by
  induction ks generalizing m with
  | nil => simp
  | cons k' ks ih =>
    rw [List.foldl_cons, ih, lookup_erase_eq]
    by_cases hmem : k ∈ ks <;> by_cases heq : k = k' <;> simp [hmem, heq]

theorem insert_erase {m : StorageMap K V} {k : K} {v : V} (h : m.lookup k = some v) :
    (m.erase k).insert k v = m := by
  apply Finmap.ext_lookup
  intro k'
  rw [lookup_insert_eq, lookup_erase_eq]
  split
  · next heq => rw [heq, h]
  · rfl

/-- The entries whose keys satisfy `p`. -/
def retain (p : K → Bool) (m : StorageMap K V) : StorageMap K V where
  entries := m.entries.filter fun e => p e.1
  nodupKeys := by
    rw [← Multiset.nodup_keys]
    exact Multiset.nodup_of_le (Multiset.map_le_map (Multiset.filter_le _ _))
      (Multiset.nodup_keys.mpr m.nodupKeys)

theorem lookup_retain (p : K → Bool) (m : StorageMap K V) (k : K) :
    (m.retain p).lookup k = if p k then m.lookup k else none := by
  ext v
  rw [← Option.mem_def, Finmap.mem_lookup_iff]
  change ⟨k, v⟩ ∈ m.entries.filter _ ↔ _
  rw [Multiset.mem_filter, ← Finmap.mem_lookup_iff]
  split
  · next hp => simp [hp]
  · next hp => simp [hp]

/-- The sum of `f` over the entries of a map. -/
def weigh (f : K → V → Nat) (m : StorageMap K V) : Nat :=
  (m.entries.map fun e => f e.1 e.2).sum

omit [DecidableEq K] in
@[simp] theorem weigh_empty (f : K → V → Nat) : weigh f (∅ : StorageMap K V) = 0 := rfl

theorem weigh_insert (f : K → V → Nat) {m : StorageMap K V} {k : K} (v : V) (h : k ∉ m) :
    weigh f (m.insert k v) = weigh f m + f k v := by
  rw [weigh, weigh, Finmap.entries_insert_of_notMem h, Multiset.map_cons, Multiset.sum_cons,
    Nat.add_comm]

theorem weigh_erase (f : K → V → Nat) {m : StorageMap K V} {k : K} {v : V}
    (h : m.lookup k = some v) : weigh f (m.erase k) + f k v = weigh f m := by
  rw [← weigh_insert f v Finmap.notMem_erase_self, insert_erase h]

theorem erase_of_notMem {m : StorageMap K V} {k : K} (h : k ∉ m) : m.erase k = m := by
  apply Finmap.ext_lookup
  intro k'
  rw [lookup_erase_eq]
  split
  · next heq => rw [heq, Finmap.lookup_eq_none.mpr h]
  · rfl

theorem weigh_erase_le (f : K → V → Nat) (m : StorageMap K V) (k : K) :
    weigh f (m.erase k) ≤ weigh f m := by
  cases h : m.lookup k with
  | none => rw [erase_of_notMem (Finmap.lookup_eq_none.mp h)]
  | some v => exact Nat.le_of_add_right_le (weigh_erase f h).le

theorem insert_erase_self (m : StorageMap K V) (k : K) (v : V) :
    (m.erase k).insert k v = m.insert k v := by
  apply Finmap.ext_lookup
  intro k'
  simp only [lookup_insert_eq, lookup_erase_eq]
  split <;> rfl

/-- Overwriting drops the old entry, so no freshness is needed for this bound. -/
theorem weigh_insert_le (f : K → V → Nat) (m : StorageMap K V) (k : K) (v : V) :
    weigh f (m.insert k v) ≤ weigh f m + f k v := by
  rw [← insert_erase_self, weigh_insert f v Finmap.notMem_erase_self]
  exact Nat.add_le_add_right (weigh_erase_le f m k) _

/-- What is read at a key weighs as much as its entry; the default weighs nothing. -/
theorem weigh_erase_value (f : K → V → Nat) (m : StorageMap K V) {k : K} {d : V} (hd : f k d = 0) :
    weigh f (m.erase k) + f k (m.value d k) = weigh f m := by
  cases h : m.lookup k with
  | none => rw [erase_of_notMem (Finmap.lookup_eq_none.mp h), value, h, Option.getD_none, hd,
      Nat.add_zero]
  | some v => rw [value, h, Option.getD_some, weigh_erase f h]

/-- Writing an entry replaces its weight. -/
theorem weigh_replace (f : K → V → Nat) (m : StorageMap K V) {k : K} {d : V} (v : V)
    (hd : f k d = 0) : weigh f (m.insert k v) + f k (m.value d k) = weigh f m + f k v := by
  rw [← insert_erase_self, weigh_insert f v Finmap.notMem_erase_self, ← weigh_erase_value f m hd]
  omega

theorem le_weigh (f : K → V → Nat) {m : StorageMap K V} {k : K} {v : V}
    (h : m.lookup k = some v) : f k v ≤ weigh f m := by
  rw [← weigh_erase f h]
  exact Nat.le_add_left _ _

omit [DecidableEq K] in
theorem weigh_mono {f g : K → V → Nat} (h : ∀ k v, f k v ≤ g k v) (m : StorageMap K V) :
    weigh f m ≤ weigh g m :=
  Multiset.sum_map_le_sum_map _ _ fun e _ => h e.1 e.2

/-- A weight as a sum over any set that holds the keys. -/
theorem weigh_eq_sum (f : K → V → Nat) (m : StorageMap K V) {S : Finset K} (h : m.keys ⊆ S) :
    weigh f m = ∑ k ∈ S, (m.lookup k).elim 0 (f k) := by
  have hentries : weigh f m = ∑ k ∈ m.keys, (m.lookup k).elim 0 (f k) := by
    change _ = ((m.entries.map Sigma.fst).map fun k => (m.lookup k).elim 0 (f k)).sum
    rw [weigh, Multiset.map_map]
    congr 1
    apply Multiset.map_congr rfl
    intro e he
    rw [Function.comp_apply, Finmap.mem_lookup_iff.mpr he]
    rfl
  rw [hentries]
  apply Finset.sum_subset h
  intro k _ hk
  rw [Finmap.mem_keys] at hk
  rw [Finmap.lookup_eq_none.mpr hk]
  rfl

theorem weigh_le {f g : K → V → Nat} {m : StorageMap K V}
    (h : ∀ k v, m.lookup k = some v → f k v ≤ g k v) : weigh f m ≤ weigh g m :=
  Multiset.sum_map_le_sum_map _ _ fun _ he => h _ _ (Finmap.mem_lookup_iff.mpr he)

theorem weigh_congr {f g : K → V → Nat} {m : StorageMap K V}
    (h : ∀ k v, m.lookup k = some v → f k v = g k v) : weigh f m = weigh g m :=
  le_antisymm (weigh_le fun k v hk => (h k v hk).le) (weigh_le fun k v hk => (h k v hk).ge)

omit [DecidableEq K] in
theorem weigh_add (f g : K → V → Nat) (m : StorageMap K V) :
    weigh (fun k v => f k v + g k v) m = weigh f m + weigh g m :=
  Multiset.sum_map_add

omit [DecidableEq K] in
theorem weigh_mul_right (f : K → V → Nat) (m : StorageMap K V) (c : Nat) :
    weigh (fun k v => f k v * c) m = weigh f m * c :=
  Multiset.sum_map_mul_right

end StorageMap
