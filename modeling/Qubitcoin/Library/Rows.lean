import Qubitcoin.Library.StorageMap

/-! Maps whose entries are growing arrays, empty at an absent key, and sums over all their rows. -/

universe u v

abbrev Rows (K : Type u) (R : Type v) := StorageMap K (List R)

namespace Rows

variable {K : Type u} [DecidableEq K] {R : Type v}

def rows (m : Rows K R) (k : K) : List R := m.value [] k

def push (m : Rows K R) (k : K) (r : R) : Rows K R := m.insert k (rows m k ++ [r])

def put (m : Rows K R) (k : K) (i : Nat) (r : R) : Rows K R := m.insert k ((rows m k).set i r)

/-- The sum of `f` over all rows. -/
def sum (f : R → Nat) (m : Rows K R) : Nat := StorageMap.weigh (fun _ rs => (rs.map f).sum) m

variable {m : Rows K R} {k l : K} {i : Nat} {r r' : R} {f g : R → Nat}

omit [DecidableEq K] in
@[simp] theorem sum_empty (f : R → Nat) : sum f (∅ : Rows K R) = 0 := rfl

theorem rows_push (m : Rows K R) (k l : K) (r : R) :
    rows (push m k r) l = if l = k then rows m k ++ [r] else rows m l :=
  StorageMap.value_insert_eq [] m k l _

theorem rows_put (m : Rows K R) (k l : K) (i : Nat) (r : R) :
    rows (put m k i r) l = if l = k then (rows m k).set i r else rows m l :=
  StorageMap.value_insert_eq [] m k l _

theorem sum_insert (f : R → Nat) (m : Rows K R) (k : K) (rs : List R) :
    sum f (m.insert k rs) + ((rows m k).map f).sum = sum f m + (rs.map f).sum :=
  StorageMap.weigh_replace (fun _ rs => (rs.map f).sum) m rs rfl

@[simp] theorem sum_push (f : R → Nat) (m : Rows K R) (k : K) (r : R) :
    sum f (push m k r) = sum f m + f r := by
  have h := sum_insert f m k (rows m k ++ [r])
  rw [List.map_append, List.sum_append, List.map_singleton, List.sum_singleton] at h
  unfold push
  omega

theorem sum_map_set {rs : List R} (h : rs[i]? = some r) (r' : R) :
    ((rs.set i r').map f).sum + f r = (rs.map f).sum + f r' := by
  induction rs generalizing i with
  | nil => cases h
  | cons x rs ih =>
    cases i with
    | zero =>
      cases h
      simp only [List.set_cons_zero, List.map_cons, List.sum_cons]
      omega
    | succ i =>
      have hrest := ih h
      simp only [List.set_cons_succ, List.map_cons, List.sum_cons]
      omega

theorem sum_put (f : R → Nat) (h : (rows m k)[i]? = some r) (r' : R) :
    sum f (put m k i r') + f r = sum f m + f r' := by
  have hinsert := sum_insert f m k ((rows m k).set i r')
  have hset := sum_map_set (f := f) h r'
  unfold put
  omega

theorem sum_put_of_eq (h : (rows m k)[i]? = some r) (heq : f r' = f r) :
    sum f (put m k i r') = sum f m := by
  have hput := sum_put f h r'
  omega

omit [DecidableEq K] in
theorem sum_add (f g : R → Nat) (m : Rows K R) :
    sum (fun r => f r + g r) m = sum f m + sum g m := by
  rw [sum, sum, sum, ← StorageMap.weigh_add]
  congr 1
  funext k rs
  exact List.sum_map_add

/-- Every row of every entry satisfies `P`. -/
def All (P : R → Prop) (m : Rows K R) : Prop := ∀ k, ∀ r ∈ rows m k, P r

variable {P Q : R → Prop}

theorem All.get (h : All P m) (hget : (rows m k)[i]? = some r) : P r :=
  h k r (List.mem_of_getElem? hget)

theorem all_empty : All P (∅ : Rows K R) := by
  intro k r hmem
  rw [rows, StorageMap.value_empty] at hmem
  cases hmem

theorem All.push (h : All P m) (hr : P r) : All P (push m k r) := by
  intro l x hmem
  rw [rows_push] at hmem
  split at hmem
  · rcases List.mem_append.mp hmem with hmem | hmem
    · exact h k x hmem
    · rwa [List.mem_singleton.mp hmem]
  · exact h l x hmem

theorem All.put (h : All P m) (hr : P r) : All P (put m k i r) := by
  intro l x hmem
  rw [rows_put] at hmem
  split at hmem
  · rcases List.mem_or_eq_of_mem_set hmem with hmem | rfl
    · exact h k x hmem
    · exact hr
  · exact h l x hmem

theorem All.mono (h : All P m) (hPQ : ∀ r, P r → Q r) : All Q m :=
  fun k r hmem => hPQ r (h k r hmem)

theorem All.of_lookup (h : All P m) {rs : List R} (hk : m.lookup k = some rs) : ∀ r ∈ rs, P r := by
  intro r hmem
  exact h k r (by rwa [rows, StorageMap.value, hk])

theorem sum_le_sum (h : All (fun r => f r ≤ g r) m) : sum f m ≤ sum g m := by
  apply StorageMap.weigh_le
  intro k rs hk
  exact List.sum_le_sum (h.of_lookup hk)

theorem sum_congr (h : All (fun r => f r = g r) m) : sum f m = sum g m :=
  le_antisymm (sum_le_sum (h.mono fun _ => le_of_eq)) (sum_le_sum (h.mono fun _ => ge_of_eq))

/-- A row is part of the sum. -/
theorem le_sum (f : R → Nat) (h : (rows m k)[i]? = some r) : f r ≤ sum f m := by
  have hrows : f r ≤ ((rows m k).map f).sum :=
    List.single_le_sum (fun _ _ => Nat.zero_le _) _ (List.mem_map_of_mem (List.mem_of_getElem? h))
  cases hk : m.lookup k with
  | none =>
    rw [rows, StorageMap.value, hk] at h
    cases h
  | some rs =>
    rw [rows, StorageMap.value, hk] at hrows
    exact hrows.trans (StorageMap.le_weigh (fun _ rs => (rs.map f).sum) hk)

end Rows
