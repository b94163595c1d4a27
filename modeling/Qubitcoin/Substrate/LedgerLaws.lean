import Qubitcoin.Substrate.Ledger

/-! What puts and drops do to the worth of a ledger, to its log and to its caches. -/

namespace Qubitcoin.Substrate.Ledger

open WriteLog (Write replay Linear)

@[simp] theorem worth_nil : worth [] = 0 := rfl

@[simp] theorem worth_cons (u : Utxo) (us : List Utxo) :
    worth (u :: us) = u.amount.toNat + worth us := rfl

theorem worth_append (us vs : List Utxo) : worth (us ++ vs) = worth us + worth vs := by
  simp [worth]

theorem entryCount_eq (l : Ledger) : l.entryCount = l.utxoSet.weigh fun _ _ => 1 := by
  simp [entryCount, StorageMap.weigh]

theorem holdings_le_total (l : Ledger) (a : Address) : l.holdings a ≤ l.total := by
  apply StorageMap.weigh_mono
  intro _ u
  split
  · exact le_rfl
  · exact Nat.zero_le _

theorem Holds.tail {l : Ledger} {p : OutPoint × Utxo} {ps : List (OutPoint × Utxo)}
    (h : l.Holds (p :: ps)) : (l.drop p.1 p.2).Holds ps := by
  have hnodup := List.nodup_cons.mp h.nodup
  refine ⟨hnodup.2, ?_⟩
  intro q hq
  have hne : q.1 ≠ p.1 := by
    intro heq
    exact hnodup.1 (heq ▸ List.mem_map_of_mem hq)
  rw [drop, Finmap.lookup_erase_ne hne]
  exact h.lookup q (List.mem_cons_of_mem _ hq)

theorem Holds.cons {l : Ledger} {p : OutPoint × Utxo} {ps : List (OutPoint × Utxo)}
    (hp : l.utxoSet.lookup p.1 = some p.2) (h : (l.drop p.1 p.2).Holds ps) :
    l.Holds (p :: ps) := by
  have hne : ∀ q ∈ ps, q.1 ≠ p.1 ∧ l.utxoSet.lookup q.1 = some q.2 := by
    intro q hq
    have hlookup := h.lookup q hq
    rw [drop, StorageMap.lookup_erase_eq] at hlookup
    split at hlookup
    · cases hlookup
    · next hne => exact ⟨hne, hlookup⟩
  constructor
  · rw [List.map_cons, List.nodup_cons]
    refine ⟨?_, h.nodup⟩
    intro hmem
    obtain ⟨q, hq, heq⟩ := List.mem_map.mp hmem
    exact (hne q hq).1 heq
  · intro q hq
    cases List.mem_cons.mp hq with
    | inl heq => rw [heq, hp]
    | inr hq => exact (hne q hq).2

theorem Fresh.tail {l : Ledger} {u : Utxo} {us : List Utxo} (h : l.Fresh (u :: us)) :
    (l.put u).Fresh us := by
  have hnodup := List.nodup_cons.mp h.nodup
  refine ⟨hnodup.2, ?_⟩
  intro v hv w hw
  rw [put, List.mem_append, List.mem_singleton] at hw
  cases hw with
  | inl hw => exact h.unwritten v (List.mem_cons_of_mem _ hv) w hw
  | inr hw =>
    rw [hw]
    intro heq
    change u.key = v.key at heq
    exact hnodup.1 (heq ▸ List.mem_map_of_mem hv)

theorem Fresh.unremoved {l : Ledger} {u : Utxo} {us : List Utxo} (h : l.Fresh (u :: us))
    (v : Utxo) : Write.remove u.key v ∉ l.writes := by
  intro hmem
  exact h.unwritten u List.mem_cons_self _ hmem rfl

/-! ## Worth -/

theorem total_drop {l : Ledger} {k : OutPoint} {u : Utxo} (h : l.utxoSet.lookup k = some u) :
    (l.drop k u).total + u.amount.toNat = l.total :=
  StorageMap.weigh_erase (fun _ (u : Utxo) => u.amount.toNat) h

theorem total_dropAll {l : Ledger} {ps : List (OutPoint × Utxo)} (h : l.Holds ps) :
    (l.dropAll ps).total + worth (ps.map Prod.snd) = l.total := by
  induction ps generalizing l with
  | nil => rfl
  | cons p ps ih =>
    have hhead := total_drop (h.lookup p List.mem_cons_self)
    have htail := ih h.tail
    rw [dropAll_cons, List.map_cons, worth_cons]
    omega

/-- Overwriting can only lose value. -/
theorem total_put_le (l : Ledger) (u : Utxo) : (l.put u).total ≤ l.total + u.amount.toNat :=
  StorageMap.weigh_insert_le (fun _ (u : Utxo) => u.amount.toNat) l.utxoSet u.key u

theorem total_putAll_le (l : Ledger) (us : List Utxo) :
    (l.putAll us).total ≤ l.total + worth us := by
  induction us generalizing l with
  | nil => exact le_rfl
  | cons u us ih =>
    have hhead := l.total_put_le u
    have htail := ih (l.put u)
    rw [putAll_cons, worth_cons]
    omega

theorem Logged.notMem {l : Ledger} (hl : l.Logged) {k : OutPoint}
    (hnew : ∀ w ∈ l.writes, w.key ≠ k) : k ∉ l.utxoSet := by
  have habsent := WriteLog.lookup_of_unwritten hnew
  rw [hl.replay_writes] at habsent
  exact Finmap.lookup_eq_none.mp habsent

theorem Logged.put {l : Ledger} (hl : l.Logged) {u : Utxo}
    (hnew : ∀ v, Write.remove u.key v ∉ l.writes) : (l.put u).Logged where
  linear := .insert hl.linear hnew
  replay_writes := by
    change replay (l.writes ++ [_]) = _
    rw [WriteLog.replay_snoc, hl.replay_writes]
    rfl

theorem Logged.drop {l : Ledger} (hl : l.Logged) {k : OutPoint} {u : Utxo}
    (h : l.utxoSet.lookup k = some u) : (l.drop k u).Logged where
  linear := .remove hl.linear (by rw [hl.replay_writes, h])
  replay_writes := by
    change replay (l.writes ++ [_]) = _
    rw [WriteLog.replay_snoc, hl.replay_writes]
    rfl

theorem Logged.putAll {l : Ledger} (hl : l.Logged) {us : List Utxo} (h : l.Fresh us) :
    (l.putAll us).Logged := by
  induction us generalizing l with
  | nil => exact hl
  | cons u us ih => exact ih (hl.put h.unremoved) h.tail

theorem Logged.dropAll {l : Ledger} (hl : l.Logged) {ps : List (OutPoint × Utxo)}
    (h : l.Holds ps) : (l.dropAll ps).Logged := by
  induction ps generalizing l with
  | nil => exact hl
  | cons p ps ih => exact ih (hl.drop (h.lookup p List.mem_cons_self)) h.tail

theorem total_put {l : Ledger} (hl : l.Logged) {u : Utxo}
    (hnew : ∀ w ∈ l.writes, w.key ≠ u.key) : (l.put u).total = l.total + u.amount.toNat :=
  StorageMap.weigh_insert (fun _ (u : Utxo) => u.amount.toNat) u (hl.notMem hnew)

theorem total_putAll {l : Ledger} (hl : l.Logged) {us : List Utxo} (h : l.Fresh us) :
    (l.putAll us).total = l.total + worth us := by
  induction us generalizing l with
  | nil => rfl
  | cons u us ih =>
    have hnew := h.unwritten u List.mem_cons_self
    have hhead := total_put hl hnew
    have htail := ih (hl.put h.unremoved) h.tail
    rw [putAll_cons, worth_cons]
    omega

/-! ## The log -/

theorem writes_putAll (l : Ledger) (us : List Utxo) :
    (l.putAll us).writes = l.writes ++ us.map fun u => .insert u.key u := by
  induction us generalizing l with
  | nil => simp
  | cons u us ih =>
    rw [putAll_cons, ih]
    simp [put]

theorem writes_dropAll (l : Ledger) (ps : List (OutPoint × Utxo)) :
    (l.dropAll ps).writes = l.writes ++ ps.map fun p => .remove p.1 p.2 := by
  induction ps generalizing l with
  | nil => simp
  | cons p ps ih =>
    rw [dropAll_cons, ih]
    simp [drop]

/-- What is in the set was written. -/
theorem Logged.written {l : Ledger} (hl : l.Logged) {k : OutPoint} {u : Utxo}
    (h : l.utxoSet.lookup k = some u) : ∃ w ∈ l.writes, w.key = k := by
  by_contra hnone
  have habsent := hl.notMem (k := k) (fun w hw hk => hnone ⟨w, hw, hk⟩)
  rw [← Finmap.lookup_eq_none, h] at habsent
  cases habsent

theorem Logged.lookup_of_removed {l : Ledger} (hl : l.Logged) {k : OutPoint} {u : Utxo}
    (h : Write.remove k u ∈ l.writes) : l.utxoSet.lookup k = none := by
  rw [← hl.replay_writes]
  exact hl.linear.lookup_of_removed h

/-! ## Lookups -/

/-- An entry found after puts is one of those put, or was there before and none of
them was put over it. -/
theorem lookup_putAll {l : Ledger} {us : List Utxo} {k : OutPoint} {u : Utxo}
    (h : (l.putAll us).utxoSet.lookup k = some u) :
    (u ∈ us ∧ u.key = k) ∨ (l.utxoSet.lookup k = some u ∧ ∀ w ∈ us, w.key ≠ k) := by
  induction us generalizing l with
  | nil => exact Or.inr ⟨h, fun _ hw => absurd hw List.not_mem_nil⟩
  | cons v vs ih =>
    cases ih h with
    | inl hnew => exact Or.inl ⟨List.mem_cons_of_mem _ hnew.1, hnew.2⟩
    | inr hold =>
      obtain ⟨hlookup, hother⟩ := hold
      have hlookup := (StorageMap.lookup_insert_eq _ _ _ _).symm.trans hlookup
      split at hlookup
      · next hk =>
        cases hlookup
        exact Or.inl ⟨List.mem_cons_self, hk.symm⟩
      · next hk =>
        exact Or.inr ⟨hlookup, List.forall_mem_cons.mpr ⟨Ne.symm hk, hother⟩⟩

theorem lookup_dropAll {l : Ledger} {ps : List (OutPoint × Utxo)} {k : OutPoint} {u : Utxo}
    (h : (l.dropAll ps).utxoSet.lookup k = some u) : l.utxoSet.lookup k = some u := by
  induction ps generalizing l with
  | nil => exact h
  | cons p ps ih =>
    have hlookup := (StorageMap.lookup_erase_eq _ _ _).symm.trans (ih h)
    split at hlookup
    · cases hlookup
    · exact hlookup

/-! ## Caches -/

theorem balanceOf_put (l : Ledger) (u : Utxo) (a : Address) :
    (l.put u).balanceOf a =
      if a = u.address then (l.balanceOf u.address).saturatingAdd u.amount
      else l.balanceOf a := by
  rw [balanceOf, put]
  split
  · next h => rw [h, StorageMap.value_insert]
  · next h => rw [StorageMap.value_insert_ne _ _ _ h, balanceOf]

theorem balanceOf_drop (l : Ledger) (k : OutPoint) (u : Utxo) (a : Address) :
    (l.drop k u).balanceOf a =
      if a = u.address then (l.balanceOf u.address).saturatingSub u.amount
      else l.balanceOf a := by
  rw [balanceOf, drop]
  split
  · next h => rw [h, StorageMap.value_insert]
  · next h => rw [StorageMap.value_insert_ne _ _ _ h, balanceOf]

theorem holdings_put {l : Ledger} {u : Utxo} (h : u.key ∉ l.utxoSet) (a : Address) :
    (l.put u).holdings a = l.holdings a + if u.address = a then u.amount.toNat else 0 :=
  StorageMap.weigh_insert
    (fun _ (u : Utxo) => if u.address = a then u.amount.toNat else 0) u h

theorem holdings_drop {l : Ledger} {k : OutPoint} {u : Utxo}
    (h : l.utxoSet.lookup k = some u) (a : Address) :
    (l.drop k u).holdings a + (if u.address = a then u.amount.toNat else 0) = l.holdings a :=
  StorageMap.weigh_erase
    (fun _ (u : Utxo) => if u.address = a then u.amount.toNat else 0) h

theorem entryCount_put {l : Ledger} {u : Utxo} (h : u.key ∉ l.utxoSet) :
    (l.put u).entryCount = l.entryCount + 1 := by
  rw [entryCount_eq, entryCount_eq]
  exact StorageMap.weigh_insert (fun _ _ => 1) u h

theorem entryCount_drop {l : Ledger} {k : OutPoint} {u : Utxo}
    (h : l.utxoSet.lookup k = some u) : (l.drop k u).entryCount + 1 = l.entryCount := by
  rw [entryCount_eq, entryCount_eq]
  exact StorageMap.weigh_erase (fun _ _ => 1) h

theorem Exact.drop {l : Ledger} (he : l.Exact) {k : OutPoint} {u : Utxo}
    (h : l.utxoSet.lookup k = some u) : (l.drop k u).Exact where
  balance a := by
    have hsum := holdings_drop h a
    rw [balanceOf_drop]
    split
    · next ha =>
      rw [BitVec.toNat_saturatingSub, ← ha, he.balance]
      rw [if_pos ha.symm] at hsum
      omega
    · next ha =>
      rw [he.balance]
      rw [if_neg (Ne.symm ha)] at hsum
      omega
  count := by
    have hcount := entryCount_drop h
    change (l.utxoCount.saturatingSub 1).toNat = _
    rw [BitVec.toNat_saturatingSub, he.count]
    change l.entryCount - 1 = _
    omega

/-- Neither cache may saturate: the worth and the entry count after the put fit. -/
theorem Exact.put {l : Ledger} (he : l.Exact) {u : Utxo} (h : u.key ∉ l.utxoSet)
    (htotal : (l.put u).total < 2 ^ 128) (hcount : (l.put u).entryCount < 2 ^ 64) :
    (l.put u).Exact where
  balance a := by
    have hsum := holdings_put h a
    have hle := (l.put u).holdings_le_total a
    rw [balanceOf_put]
    split
    · next ha =>
      rw [if_pos ha.symm] at hsum
      rw [← ha, BitVec.toNat_saturatingAdd_of_lt, he.balance, hsum]
      rw [he.balance]
      omega
    · next ha =>
      rw [if_neg (Ne.symm ha)] at hsum
      rw [he.balance, hsum, Nat.add_zero]
  count := by
    rw [entryCount_put h] at hcount ⊢
    change (l.utxoCount.saturatingAdd 1).toNat = _
    rw [BitVec.toNat_saturatingAdd_of_lt, he.count]
    · rfl
    · rw [he.count]
      exact hcount

theorem Exact.dropAll {l : Ledger} (he : l.Exact) {ps : List (OutPoint × Utxo)}
    (h : l.Holds ps) : (l.dropAll ps).Exact := by
  induction ps generalizing l with
  | nil => exact he
  | cons p ps ih => exact ih (he.drop (h.lookup p List.mem_cons_self)) h.tail

theorem total_le_putAll {l : Ledger} (hl : l.Logged) {us : List Utxo} (h : l.Fresh us) :
    l.total ≤ (l.putAll us).total := by
  rw [total_putAll hl h]
  exact Nat.le_add_right _ _

theorem entryCount_le_putAll {l : Ledger} (hl : l.Logged) {us : List Utxo} (h : l.Fresh us) :
    l.entryCount ≤ (l.putAll us).entryCount := by
  induction us generalizing l with
  | nil => exact le_rfl
  | cons u us ih =>
    have hnew := h.unwritten u List.mem_cons_self
    have hhead := entryCount_put (hl.notMem hnew)
    have htail := ih (hl.put h.unremoved) h.tail
    rw [putAll_cons]
    omega

/-- Puts only raise the worth and the count, so the bounds on the last ledger
cover all those on the way. -/
theorem Exact.putAll {l : Ledger} (he : l.Exact) (hl : l.Logged) {us : List Utxo}
    (h : l.Fresh us) (htotal : (l.putAll us).total < 2 ^ 128)
    (hcount : (l.putAll us).entryCount < 2 ^ 64) : (l.putAll us).Exact := by
  induction us generalizing l with
  | nil => exact he
  | cons u us ih =>
    have hnew := h.unwritten u List.mem_cons_self
    have hl' := hl.put h.unremoved
    apply ih _ hl' h.tail htotal hcount
    apply he.put (hl.notMem hnew)
    · exact (total_le_putAll hl' h.tail).trans_lt htotal
    · exact (entryCount_le_putAll hl' h.tail).trans_lt hcount

/-! ## Transfers -/

/-- Drops first, puts after: the shape of every movement of funds. -/
def transfer (l : Ledger) (spent : List (OutPoint × Utxo)) (made : List Utxo) : Ledger :=
  (l.dropAll spent).putAll made

/-- The keys a ledger drops are in its log already. -/
theorem Fresh.dropAll {l : Ledger} (hl : l.Logged) {spent : List (OutPoint × Utxo)}
    (hs : l.Holds spent) {made : List Utxo} (h : l.Fresh made) :
    (l.dropAll spent).Fresh made := by
  induction spent generalizing l with
  | nil => exact h
  | cons p ps ih =>
    have hp := hs.lookup p List.mem_cons_self
    apply ih (hl.drop hp) hs.tail
    refine ⟨h.nodup, ?_⟩
    intro u hu w hw
    rw [drop, List.mem_append, List.mem_singleton] at hw
    cases hw with
    | inl hw => exact h.unwritten u hu w hw
    | inr hw =>
      rw [hw]
      intro heq
      change p.1 = u.key at heq
      have habsent := hl.notMem (h.unwritten u hu)
      rw [← heq, ← Finmap.lookup_eq_none, hp] at habsent
      cases habsent

section Transfer

variable {l : Ledger} {spent : List (OutPoint × Utxo)} {made : List Utxo}

theorem writes_transfer (l : Ledger) (spent : List (OutPoint × Utxo)) (made : List Utxo) :
    (l.transfer spent made).writes =
      l.writes ++ (spent.map fun p => .remove p.1 p.2) ++ made.map fun u => .insert u.key u := by
  rw [transfer, writes_putAll, writes_dropAll]

theorem total_transfer_le (made : List Utxo) (hs : l.Holds spent) :
    (l.transfer spent made).total + worth (spent.map Prod.snd) ≤ l.total + worth made := by
  have hdrop := total_dropAll hs
  have hput := (l.dropAll spent).total_putAll_le made
  rw [transfer]
  omega

variable (hl : l.Logged) (hs : l.Holds spent) (hm : l.Fresh made)

include hl hs hm

theorem Logged.transfer : (l.transfer spent made).Logged :=
  (hl.dropAll hs).putAll (hm.dropAll hl hs)

theorem total_transfer :
    (l.transfer spent made).total + worth (spent.map Prod.snd) = l.total + worth made := by
  have hdrop := total_dropAll hs
  have hput := total_putAll (hl.dropAll hs) (hm.dropAll hl hs)
  rw [Ledger.transfer]
  omega

theorem Exact.transfer (he : l.Exact) (htotal : (l.transfer spent made).total < 2 ^ 128)
    (hcount : (l.transfer spent made).entryCount < 2 ^ 64) : (l.transfer spent made).Exact :=
  (he.dropAll hs).putAll (hl.dropAll hs) (hm.dropAll hl hs) htotal hcount

end Transfer

end Qubitcoin.Substrate.Ledger
