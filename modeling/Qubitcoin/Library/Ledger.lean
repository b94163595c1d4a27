import Qubitcoin.Library.StorageMap

/-! Weighted electorates.  A map gives each member a weight; a list of distinct members
weighs at most the whole, so two heavy ones have a member in common. -/

universe u v

namespace Weights

variable {K : Type u} {M : Type v} [DecidableEq K] [AddCommMonoid M]

def total (m : StorageMap K M) : M := ∑ k ∈ m.keys, m.value 0 k

/-- Members outside the map weigh nothing. -/
def weight (m : StorageMap K M) (ks : List K) : M := (ks.map (m.value 0)).sum

variable {m : StorageMap K M} {k : K} {ks ls : List K}

@[simp] theorem weight_nil : weight m [] = 0 := rfl

@[simp] theorem weight_cons : weight m (k :: ks) = m.value 0 k + weight m ks := by
  simp [weight]

@[simp] theorem weight_append : weight m (ks ++ ls) = weight m ks + weight m ls := by
  simp [weight]

theorem sum_filterMap_lookup (m : StorageMap K M) (ks : List K) :
    (ks.filterMap m.lookup).sum = weight m ks := by
  induction ks with
  | nil => rfl
  | cons k ks ih =>
    cases h : m.lookup k with
    | none => simp [h, ih, StorageMap.value]
    | some v => simp [h, ih, StorageMap.value]

section Order

variable [LinearOrder M] [CanonicallyOrderedAdd M]

theorem weight_le_total (h : ks.Nodup) : weight m ks ≤ total m := by
  have hsum : weight m ks = ∑ k ∈ ks.toFinset, m.value 0 k := (List.sum_toFinset _ h).symm
  rw [hsum]
  apply Finset.sum_le_sum_of_ne_zero
  intro k _ hne
  rw [Finmap.mem_keys]
  by_contra habsent
  apply hne
  simp [StorageMap.value, Finmap.lookup_eq_none.mpr habsent]

/-- Two lists that together outweigh the whole share a member. -/
theorem exists_common (hks : ks.Nodup) (hls : ls.Nodup)
    (h : total m < weight m ks + weight m ls) : ∃ k ∈ ks, k ∈ ls := by
  by_contra hapart
  push Not at hapart
  have hnodup : (ks ++ ls).Nodup := by
    rw [List.nodup_append']
    exact ⟨hks, hls, hapart⟩
  have hle := weight_le_total (m := m) hnodup
  rw [weight_append] at hle
  exact absurd h (not_lt.mpr hle)

end Order

end Weights

/-! Ledgers: a balance for each account, zero at an absent one, and what they add up to. -/

abbrev Ledger (K : Type u) := StorageMap K Nat

namespace Ledger

variable {K : Type u} [DecidableEq K]

def balance (m : Ledger K) (a : K) : Nat := m.value 0 a

def set (m : Ledger K) (a : K) (n : Nat) : Ledger K := m.insert a n

def credit (m : Ledger K) (a : K) (n : Nat) : Ledger K := m.set a (m.balance a + n)

def debit (m : Ledger K) (a : K) (n : Nat) : Ledger K := m.set a (m.balance a - n)

def total (m : Ledger K) : Nat := ∑ a ∈ m.keys, m.balance a

variable {m : Ledger K} {a b : K} {n : Nat}

@[simp] theorem balance_empty (a : K) : balance (∅ : Ledger K) a = 0 :=
  StorageMap.value_empty 0 a

@[simp] theorem balance_set (m : Ledger K) (a b : K) (n : Nat) :
    (m.set a n).balance b = if b = a then n else m.balance b :=
  StorageMap.value_insert_eq 0 m a b n

@[simp] theorem balance_credit (m : Ledger K) (a b : K) (n : Nat) :
    (m.credit a n).balance b = if b = a then m.balance a + n else m.balance b :=
  balance_set m a b _

@[simp] theorem balance_debit (m : Ledger K) (a b : K) (n : Nat) :
    (m.debit a n).balance b = if b = a then m.balance a - n else m.balance b :=
  balance_set m a b _

theorem balance_credit_add (m : Ledger K) (a b : K) (n : Nat) :
    (m.credit a n).balance b = m.balance b + if b = a then n else 0 := by
  rw [balance_credit]
  split
  · next heq => rw [heq]
  · rfl

theorem balance_debit_add (h : n ≤ m.balance a) (b : K) :
    (m.debit a n).balance b + (if b = a then n else 0) = m.balance b := by
  rw [balance_debit]
  split
  · next heq => rw [heq, Nat.sub_add_cancel h]
  · rfl

theorem total_eq_sum (m : Ledger K) {S : Finset K} (h : m.keys ⊆ S) :
    m.total = ∑ a ∈ S, m.balance a := by
  apply Finset.sum_subset h
  intro a _ ha
  rw [Finmap.mem_keys] at ha
  simp [balance, StorageMap.value, Finmap.lookup_eq_none.mpr ha]

theorem total_set (m : Ledger K) (a : K) (n : Nat) :
    (m.set a n).total + m.balance a = m.total + n := by
  let S := insert a (m.keys ∪ (m.set a n).keys)
  have hnew : (m.set a n).total = ∑ b ∈ S, (m.set a n).balance b :=
    total_eq_sum _ (Finset.subset_union_right.trans (Finset.subset_insert _ _))
  have hold : m.total = ∑ b ∈ S, m.balance b :=
    total_eq_sum _ (Finset.subset_union_left.trans (Finset.subset_insert _ _))
  have ha : a ∈ S := Finset.mem_insert_self _ _
  have hrest : ∑ b ∈ S.erase a, (m.set a n).balance b = ∑ b ∈ S.erase a, m.balance b := by
    apply Finset.sum_congr rfl
    intro b hb
    rw [balance_set, if_neg (Finset.ne_of_mem_erase hb)]
  rw [hnew, hold, ← Finset.add_sum_erase S _ ha, ← Finset.add_sum_erase S _ ha, hrest,
    balance_set, if_pos rfl]
  omega

@[simp] theorem total_empty : total (∅ : Ledger K) = 0 := rfl

@[simp] theorem total_credit (m : Ledger K) (a : K) (n : Nat) :
    (m.credit a n).total = m.total + n := by
  have h := m.total_set a (m.balance a + n)
  unfold credit
  omega

theorem total_debit (h : n ≤ m.balance a) : (m.debit a n).total + n = m.total := by
  have h' := m.total_set a (m.balance a - n)
  unfold debit
  omega

theorem balance_le_total (m : Ledger K) (a : K) : m.balance a ≤ m.total := by
  rw [m.total_eq_sum (Finset.subset_insert a _)]
  exact Finset.single_le_sum (fun b _ => Nat.zero_le _) (Finset.mem_insert_self _ _)

/-- What a set of accounts holds. -/
theorem sum_balance_le_total (m : Ledger K) (S : Finset K) : ∑ a ∈ S, m.balance a ≤ m.total := by
  have hkeys : m.keys ⊆ m.keys ∪ S := Finset.subset_union_left
  rw [m.total_eq_sum hkeys]
  exact Finset.sum_le_sum_of_subset Finset.subset_union_right

omit [DecidableEq K] in
/-- A sum after one of its terms has changed. -/
theorem sum_replace [Fintype K] {f g : K → Nat} (a : K) (h : ∀ b, b ≠ a → g b = f b) :
    ∑ b, g b + f a = ∑ b, f b + g a := by
  classical
  have hrest : ∑ b ∈ Finset.univ.erase a, g b = ∑ b ∈ Finset.univ.erase a, f b := by
    apply Finset.sum_congr rfl
    intro b hb
    exact h b (Finset.ne_of_mem_erase hb)
  rw [← Finset.add_sum_erase _ f (Finset.mem_univ a), ← Finset.add_sum_erase _ g (Finset.mem_univ a),
    hrest]
  omega

/-- Parts of the balances. -/
theorem sum_le_total [Fintype K] {f : K → Nat} (h : ∀ a, f a ≤ m.balance a) :
    ∑ a, f a ≤ m.total :=
  (Finset.sum_le_sum fun a _ => h a).trans (m.sum_balance_le_total Finset.univ)

/-- Moving `n` from `a` to `b`, which may be the same account. -/
theorem total_move (h : n ≤ m.balance a) (b : K) : ((m.debit a n).credit b n).total = m.total := by
  rw [total_credit, total_debit h]

end Ledger
