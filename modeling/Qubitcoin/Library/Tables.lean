import Mathlib

/-! Tables as lists of rows: insertions at the end, updates in place, and the two together for a
row whose key may be taken. -/

universe u v

namespace Table

variable {ρ : Type u} {κ : Type v} [DecidableEq κ] {key : ρ → κ}

/-- The first row with a key. -/
def find (key : ρ → κ) (t : List ρ) (k : κ) : Option ρ := t.find? fun r => key r = k

def update (key : ρ → κ) (t : List ρ) (k : κ) (f : ρ → ρ) : List ρ :=
  t.map fun r => if key r = k then f r else r

/-- Inserts the row, or updates the rows that have its key. -/
def upsert (key : ρ → κ) (t : List ρ) (row : ρ) (f : ρ → ρ) : List ρ :=
  if key row ∈ t.map key then update key t (key row) f else t ++ [row]

theorem find_eq_none {t : List ρ} {k : κ} : find key t k = none ↔ k ∉ t.map key := by
  simp [find]

theorem find_update {t : List ρ} {k : κ} {f : ρ → ρ} (hf : ∀ r, key (f r) = key r) (k' : κ) :
    find key (update key t k f) k' =
      if k' = k then (find key t k').map f else find key t k' := by
  induction t with
  | nil => simp [find, update]
  | cons r t ih =>
    simp only [find, update, List.map_cons, List.find?_cons] at ih ⊢
    by_cases hk : key r = k
    · by_cases hk' : key r = k'
      · subst hk hk'
        simp [hf]
      · simp [hk, hf, ih]
        simp [← hk, hk']
    · by_cases hk' : key r = k'
      · subst hk'
        simp [hk]
      · simp [hk, hk', ih]

theorem find_append {t t' : List ρ} (k : κ) :
    find key (t ++ t') k = (find key t k).or (find key t' k) := by
  simp [find, List.find?_append]

/-- What an upsert leaves at a key. -/
theorem find_upsert {t : List ρ} {row : ρ} {f : ρ → ρ} (hf : ∀ r, key (f r) = key r) (k : κ) :
    find key (upsert key t row f) k =
      if k = key row then some ((find key t k).elim row f) else find key t k := by
  unfold upsert
  split
  · next hmem =>
    rw [find_update hf]
    split
    · next hk =>
      subst hk
      cases hfind : find key t (key row) with
      | none => exact absurd hmem (find_eq_none.mp hfind)
      | some r => rfl
    · rfl
  · next hmem =>
    have hnone := find_eq_none.mpr hmem
    rw [find_append]
    split
    · next hk =>
      subst hk
      rw [hnone]
      simp [find]
    · next hk =>
      simp [find, Ne.symm hk]

theorem map_key_update {t : List ρ} {k : κ} {f : ρ → ρ} (hf : ∀ r, key (f r) = key r) :
    (update key t k f).map key = t.map key := by
  unfold update
  rw [List.map_map]
  apply List.map_congr_left
  intro r _
  change key (if key r = k then f r else r) = key r
  split
  · exact hf r
  · rfl

theorem mem_update {t : List ρ} {k : κ} {f : ρ → ρ} {r' : ρ} :
    r' ∈ update key t k f ↔ ∃ r ∈ t, (if key r = k then f r else r) = r' := List.mem_map

theorem update_of_notMem {t : List ρ} {k : κ} (h : k ∉ t.map key) (f : ρ → ρ) :
    update key t k f = t := by
  apply (List.map_congr_left _).trans (List.map_id t)
  intro r hr
  apply if_neg
  intro hk
  exact h (hk ▸ List.mem_map_of_mem hr)

section Sums

variable {M : Type*} [AddCommMonoid M]

/-- Where a key has one row, an update moves a sum by what it does to that row. -/
theorem sum_update {t : List ρ} (hkeys : (t.map key).Nodup) {r : ρ} (hr : r ∈ t) (f : ρ → ρ)
    (g : ρ → M) :
    ((update key t (key r) f).map g).sum + g r = (t.map g).sum + g (f r) := by
  induction t with
  | nil => cases hr
  | cons x t ih =>
    obtain ⟨hx, hkeys⟩ := List.nodup_cons.mp hkeys
    cases hr with
    | head =>
      have hrest : update key t (key r) f = t := update_of_notMem hx f
      simp only [update, List.map_cons, List.sum_cons, if_true] at hrest ⊢
      rw [hrest]
      abel
    | tail _ hr =>
      have hne : key x ≠ key r := fun heq => hx (heq ▸ List.mem_map_of_mem hr)
      have hrest := ih hkeys hr
      simp only [update, List.map_cons, List.sum_cons, if_neg hne] at hrest ⊢
      rw [add_assoc, hrest, add_assoc]

/-- An upsert that adds to a row, or brings a new one of as much. -/
theorem sum_upsert {N : Type*} [AddCommGroup N] {t : List ρ} (hkeys : (t.map key).Nodup) {row : ρ}
    {f : ρ → ρ} {g : ρ → N} {d : N} (hrow : g row = d) (hf : ∀ r, g (f r) = g r + d) :
    ((upsert key t row f).map g).sum = (t.map g).sum + d := by
  unfold upsert
  split
  · next hmem =>
    obtain ⟨r, hr, heq⟩ := List.mem_map.mp hmem
    have hsum := sum_update hkeys hr f g
    rw [heq, hf, ← add_assoc, add_right_comm] at hsum
    exact add_right_cancel hsum
  · simp [hrow]

end Sums

theorem mem_of_find {t : List ρ} {k : κ} {r : ρ} (h : find key t k = some r) :
    r ∈ t ∧ key r = k := by
  refine ⟨List.mem_of_find?_eq_some h, ?_⟩
  simpa using List.find?_some h

omit [DecidableEq κ] in
/-- Rows with the same key are the same row. -/
theorem eq_of_key {t : List ρ} (hkeys : (t.map key).Nodup) {r r' : ρ} (hr : r ∈ t) (hr' : r' ∈ t)
    (h : key r = key r') : r = r' :=
  List.inj_on_of_nodup_map hkeys hr hr' h

omit [DecidableEq κ] in
theorem nodup_append {t : List ρ} (hkeys : (t.map key).Nodup) {row : ρ}
    (h : key row ∉ t.map key) : ((t ++ [row]).map key).Nodup := by
  rw [List.map_append, List.map_singleton, List.nodup_append']
  exact ⟨hkeys, List.nodup_singleton _, by simpa using h⟩

theorem nodup_upsert {t : List ρ} (hkeys : (t.map key).Nodup) (row : ρ) {f : ρ → ρ}
    (hf : ∀ r, key (f r) = key r) : ((upsert key t row f).map key).Nodup := by
  unfold upsert
  split
  · rwa [map_key_update hf]
  · next h => exact nodup_append hkeys h

end Table
