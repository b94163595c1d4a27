import Qubitcoin.Library.StorageMap

/-! Write logs over finite storage.  A log is linear when only what is there is
removed and what was removed never comes back. -/

universe u v

namespace WriteLog

inductive Write (K : Type u) (V : Type v)
  | insert (key : K) (value : V)
  | remove (key : K) (value : V)
  deriving DecidableEq

variable {K : Type u} {V : Type v}

def Write.key : Write K V → K
  | .insert k _ => k
  | .remove k _ => k

variable [DecidableEq K]

def Write.apply (m : StorageMap K V) : Write K V → StorageMap K V
  | .insert k v => m.insert k v
  | .remove k _ => m.erase k

theorem Write.lookup_apply_ne {w : Write K V} {k : K} (h : w.key ≠ k) (m : StorageMap K V) :
    (w.apply m).lookup k = m.lookup k := by
  cases w with
  | insert k' v => exact Finmap.lookup_insert_of_ne m (Ne.symm h)
  | remove k' v => exact Finmap.lookup_erase_ne (Ne.symm h)

def replay (ws : List (Write K V)) : StorageMap K V := ws.foldl Write.apply ∅

@[simp] theorem replay_nil : replay ([] : List (Write K V)) = ∅ := rfl

@[simp] theorem replay_snoc (ws : List (Write K V)) (w : Write K V) :
    replay (ws ++ [w]) = w.apply (replay ws) := by
  simp [replay]

inductive Linear : List (Write K V) → Prop
  | nil : Linear []
  | insert {ws : List (Write K V)} {k : K} {v : V} :
      Linear ws → (∀ v', Write.remove k v' ∉ ws) → Linear (ws ++ [.insert k v])
  | remove {ws : List (Write K V)} {k : K} {v : V} :
      Linear ws → (replay ws).lookup k = some v → Linear (ws ++ [.remove k v])

theorem lookup_of_unwritten {ws : List (Write K V)} {k : K} (hnew : ∀ w ∈ ws, w.key ≠ k) :
    (replay ws).lookup k = none := by
  induction ws using List.reverseRecOn with
  | nil => exact Finmap.lookup_empty k
  | append_singleton ws w ih =>
    rw [replay_snoc, Write.lookup_apply_ne (hnew w (by simp))]
    exact ih fun w' h => hnew w' (List.mem_append_left _ h)

theorem Linear.lookup_of_removed {ws : List (Write K V)} (h : Linear ws) {k : K} {v : V}
    (hmem : Write.remove k v ∈ ws) : (replay ws).lookup k = none := by
  induction h with
  | nil => cases hmem
  | @insert ws k' v' _ hnew ih =>
    have hold : Write.remove k v ∈ ws := by simpa using hmem
    have hne : k ≠ k' := by
      intro heq
      exact hnew v (heq ▸ hold)
    rw [replay_snoc, Write.apply, Finmap.lookup_insert_of_ne _ hne, ih hold]
  | @remove ws k' v' _ _ ih =>
    rw [replay_snoc, Write.apply, StorageMap.lookup_erase_eq]
    split
    · rfl
    · next hne =>
      have hold : Write.remove k v ∈ ws := by simpa [hne] using hmem
      exact ih hold

/-- Nothing is written at a key after its removal. -/
theorem Linear.removed_last {ws : List (Write K V)} (h : Linear ws) {before after : List (Write K V)}
    {k : K} {v : V} (heq : ws = before ++ Write.remove k v :: after) :
    ∀ w ∈ after, w.key ≠ k := by
  induction h generalizing after with
  | nil => simp at heq
  | @insert ws k' v' _ hnew ih =>
    cases after using List.reverseRecOn with
    | nil => simp at heq
    | append_singleton after w =>
      rw [← List.cons_append, ← List.append_assoc] at heq
      obtain ⟨hws, hlast⟩ := List.append_inj' heq rfl
      cases List.singleton_inj.mp hlast
      intro w hw
      cases List.mem_append.mp hw with
      | inl hw => exact ih hws w hw
      | inr hw =>
        rw [List.mem_singleton.mp hw]
        intro hk
        change k' = k at hk
        exact hnew v (by rw [hws, hk]; simp)
  | @remove ws k' v' hlin hpresent ih =>
    cases after using List.reverseRecOn with
    | nil => exact fun _ h => absurd h List.not_mem_nil
    | append_singleton after w =>
      rw [← List.cons_append, ← List.append_assoc] at heq
      obtain ⟨hws, hlast⟩ := List.append_inj' heq rfl
      cases List.singleton_inj.mp hlast
      intro w hw
      cases List.mem_append.mp hw with
      | inl hw => exact ih hws w hw
      | inr hw =>
        rw [List.mem_singleton.mp hw]
        intro hk
        change k' = k at hk
        have habsent := hlin.lookup_of_removed (k := k) (v := v) (by rw [hws]; simp)
        rw [← hk, hpresent] at habsent
        cases habsent

end WriteLog
