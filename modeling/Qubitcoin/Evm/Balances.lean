import Qubitcoin.Evm.Snapshots

/-! The sum of the balances, and how the journal brings it back. -/

namespace Qubitcoin.Evm

namespace StateDB

/-- The balance as a natural number. -/
def funds (s : StateDB) (a : Address) : Nat :=
  (s.accounts.lookup a).elim 0 fun acc => acc.balance.toNat

def total (s : StateDB) : Nat := s.accounts.weigh fun _ acc => acc.balance.toNat

theorem getBalance_eq (s : StateDB) (a : Address) : s.getBalance a = s.funds a := by
  unfold getBalance funds
  cases s.accounts.lookup a <;> rfl

theorem funds_lt (s : StateDB) (a : Address) : s.funds a < 2 ^ 256 := by
  unfold funds
  cases s.accounts.lookup a with
  | none => decide
  | some acc => exact acc.balance.isLt

theorem total_eq_sum (s : StateDB) {S : Finset Address} (h : s.accounts.keys ⊆ S) :
    s.total = ∑ a ∈ S, s.funds a :=
  StorageMap.weigh_eq_sum _ s.accounts h

theorem total_congr {s t : StateDB} (h : t.funds = s.funds) : t.total = s.total := by
  rw [t.total_eq_sum Finset.subset_union_left, s.total_eq_sum Finset.subset_union_right, h]

/-- One balance replaced. -/
theorem total_update {s t : StateDB} {a : Address} {v : Nat}
    (h : t.funds = Function.update s.funds a v) : t.total + s.funds a = s.total + v := by
  let S := insert a (t.accounts.keys ∪ s.accounts.keys)
  have ha : a ∈ S := Finset.mem_insert_self _ _
  have ht : t.total = ∑ b ∈ S, t.funds b :=
    t.total_eq_sum (Finset.subset_union_left.trans (Finset.subset_insert _ _))
  have hs : s.total = ∑ b ∈ S, s.funds b :=
    s.total_eq_sum (Finset.subset_union_right.trans (Finset.subset_insert _ _))
  rw [ht, hs, h, Finset.sum_update_of_mem ha, ← Finset.add_sum_erase S _ ha,
    Finset.sdiff_singleton_eq_erase]
  omega

theorem funds_le_total (s : StateDB) (a : Address) : s.funds a ≤ s.total := by
  rw [s.total_eq_sum (Finset.subset_insert a _)]
  exact Finset.single_le_sum (fun b _ => Nat.zero_le _) (Finset.mem_insert_self _ _)

theorem funds_add_le_total (s : StateDB) {a b : Address} (h : a ≠ b) :
    s.funds a + s.funds b ≤ s.total := by
  have hsub : ({a, b} : Finset Address) ⊆ s.accounts.keys ∪ {a, b} := Finset.subset_union_right
  rw [s.total_eq_sum Finset.subset_union_left, ← Finset.sum_pair h]
  exact Finset.sum_le_sum_of_subset hsub

end StateDB

/-- What undoing the entry does to the balances. -/
def JournalEntry.undoFunds : JournalEntry → (Address → Nat) → Address → Nat
  | .storage _ _ _, f => f
  | .balance addr prevAcc, f | .nonce addr prevAcc, f | .code addr prevAcc, f =>
    Function.update f addr prevAcc.balance.toNat
  | .create addr, f => Function.update f addr 0

namespace StateDB

theorem funds_insert {s : StateDB} {accounts : StorageMap Address Account} {a : Address}
    {acc : Account} (h : accounts = s.accounts.insert a acc) (b : Address) :
    (accounts.lookup b).elim 0 (fun acc => acc.balance.toNat) =
      Function.update s.funds a acc.balance.toNat b := by
  rw [h, StorageMap.lookup_insert_eq, Function.update_apply]
  split <;> rfl

theorem funds_undo (e : JournalEntry) (s : StateDB) : (undo e s).funds = e.undoFunds s.funds := by
  cases e with
  | storage addr key prevVal =>
    simp only [undo]
    split <;> rfl
  | balance addr prevAcc | nonce addr prevAcc | code addr prevAcc =>
    funext b
    exact funds_insert rfl b
  | create addr =>
    funext b
    simp only [undo, funds, JournalEntry.undoFunds, StorageMap.lookup_erase_eq,
      Function.update_apply]
    split <;> rfl

theorem funds_foldr (log : List JournalEntry) (s : StateDB) :
    (log.foldr undo s).funds = log.foldr JournalEntry.undoFunds s.funds := by
  induction log with
  | nil => rfl
  | cons e log ih => rw [List.foldr_cons, funds_undo, ih, List.foldr_cons]

theorem funds_setAccount (s : StateDB) (addr : Address) (entry : Address → Account → JournalEntry)
    (change : Account → Account) :
    (s.setAccount addr entry change).funds =
      Function.update s.funds addr (change (s.getOrCreateAccount addr)).balance.toNat :=
  funext fun _ => funds_insert rfl _

theorem balance_getOrCreateAccount (s : StateDB) (addr : Address) :
    (s.getOrCreateAccount addr).balance.toNat = s.funds addr := by
  unfold getOrCreateAccount funds
  cases s.accounts.lookup addr <;> rfl

theorem funds_setBalance (s : StateDB) (addr : Address) (balance : Nat) (h : balance < 2 ^ 256) :
    (s.setBalance addr balance).funds = Function.update s.funds addr balance := by
  rw [setBalance, funds_setAccount]
  congr 1
  change (BitVec.ofNat 256 balance).toNat = balance
  rw [BitVec.toNat_ofNat, Nat.mod_eq_of_lt h]

theorem funds_setNonce (s : StateDB) (addr : Address) (nonce : U64) :
    (s.setNonce addr nonce).funds = s.funds := by
  rw [setNonce, funds_setAccount, balance_getOrCreateAccount, Function.update_eq_self]

theorem funds_setCode (keccak256 : Bytes → Word) (s : StateDB) (addr : Address) (code : Bytes) :
    (s.setCode keccak256 addr code).funds = s.funds := by
  change (s.setAccount addr .code fun acc => { acc with codeHash := keccak256 code }).funds = _
  rw [funds_setAccount, balance_getOrCreateAccount, Function.update_eq_self]

theorem funds_createAccount (s : StateDB) (addr : Address) :
    (s.createAccount addr).funds = Function.update s.funds addr 0 :=
  funext fun _ => funds_insert rfl _

/-- The transfers of `CALL` and `CREATE`. -/
def transfer (s : StateDB) (sender toAddr : Address) (val : Int) : StateDB :=
  let debited := s.setBalance sender (s.getBalance sender - val)
  debited.setBalance toAddr (debited.getBalance toAddr + val)

/-- The credit of a transfer that can be paid does not fit a balance. -/
def Wraps (s : StateDB) (debtor creditor : Address) (val : Int) : Prop :=
  creditor ≠ debtor ∧ val ≤ s.getBalance debtor ∧ 2 ^ 256 ≤ s.getBalance creditor + val

theorem not_wraps_of_total_lt {s : StateDB} (h : s.total < 2 ^ 256) (debtor creditor : Address)
    (val : Int) : ¬s.Wraps debtor creditor val := by
  rintro ⟨hne, hpays, hwraps⟩
  have hle := s.funds_add_le_total hne
  rw [getBalance_eq] at hpays hwraps
  omega

/-- A transfer that the sender can pay, to himself too, keeps the total. -/
theorem total_transfer (s : StateDB) {sender toAddr : Address} {val : Nat}
    (hpays : val ≤ s.funds sender) (hfits : ¬s.Wraps sender toAddr val) :
    (s.transfer sender toAddr val).total = s.total := by
  have hword := s.funds_lt sender
  have hbalance : s.getBalance sender - val = ((s.funds sender - val : Nat) : Int) := by
    rw [getBalance_eq, Nat.cast_sub hpays]
  have hupdate := s.funds_setBalance sender (s.funds sender - val) (by omega)
  have hdebit := total_update hupdate
  rw [transfer, hbalance]
  generalize s.setBalance sender ((s.funds sender - val : Nat) : Int) = debited at hupdate hdebit
  have hcredit : debited.funds toAddr + val < 2 ^ 256 := by
    by_cases hself : toAddr = sender
    · rw [hupdate, hself, Function.update_self]
      omega
    · rw [hupdate, Function.update_of_ne hself]
      by_contra hwraps
      apply hfits
      refine ⟨hself, ?_, ?_⟩
      · rw [getBalance_eq]
        exact_mod_cast hpays
      · rw [getBalance_eq]
        exact_mod_cast not_lt.mp hwraps
  have hcredited := total_update (debited.funds_setBalance toAddr _ hcredit)
  rw [getBalance_eq, ← Nat.cast_add]
  omega

theorem total_foldr_congr (log : List JournalEntry) {s t : StateDB} (h : t.funds = s.funds) :
    (log.foldr undo t).total = (log.foldr undo s).total := by
  apply total_congr
  rw [funds_foldr, funds_foldr, h]

/-- What `SELFDESTRUCT` does to the balances. -/
def destroy (s : StateDB) (self beneficiary : Address) : StateDB :=
  (s.setBalance beneficiary (s.getBalance beneficiary + s.getBalance self)).setBalance self 0

theorem total_destroy (s : StateDB) {self beneficiary : Address} (h : beneficiary ≠ self)
    (hfits : ¬s.Wraps self beneficiary (s.getBalance self)) :
    (s.destroy self beneficiary).total = s.total := by
  have hcredit : s.funds beneficiary + s.funds self < 2 ^ 256 := by
    by_contra hwraps
    apply hfits
    refine ⟨h, le_refl _, ?_⟩
    rw [getBalance_eq, getBalance_eq]
    exact_mod_cast not_lt.mp hwraps
  have hcredited := s.funds_setBalance beneficiary (s.funds beneficiary + s.funds self) hcredit
  have htotal := total_update hcredited
  rw [destroy, getBalance_eq, getBalance_eq, ← Nat.cast_add]
  generalize s.setBalance beneficiary ((s.funds beneficiary + s.funds self : Nat) : Int) = credited
    at hcredited htotal
  have hclear := total_update (credited.funds_setBalance self 0 (by decide))
  rw [hcredited, Function.update_of_ne h.symm] at hclear
  rw [Nat.cast_zero] at hclear
  omega

/-- Naming itself, the contract loses what it had. -/
theorem total_destroy_self (s : StateDB) (self : Address) :
    (s.destroy self self).total + s.funds self = s.total := by
  have hclear : (s.destroy self self).funds = Function.update s.funds self 0 := by
    rw [destroy, ← Nat.cast_zero, funds_setBalance _ self 0 (by decide), setBalance,
      funds_setAccount, Function.update_idem]
  exact total_update hclear

/-- The journal of `t` leads back to the balances of `s`. -/
structure Recorded (s t : StateDB) : Prop where
  snapshots : t.snapshots = s.snapshots
  journal : ∃ newer, t.journal = s.journal ++ newer ∧
    newer.foldr JournalEntry.undoFunds t.funds = s.funds

namespace Recorded

theorem refl (s : StateDB) : Recorded s s := ⟨rfl, [], by simp, rfl⟩

theorem trans {s t r : StateDB} (h : Recorded s t) (h' : Recorded t r) : Recorded s r := by
  obtain ⟨newer, hjournal, hfunds⟩ := h.journal
  obtain ⟨newer', hjournal', hfunds'⟩ := h'.journal
  refine ⟨h'.snapshots.trans h.snapshots, newer ++ newer', ?_, ?_⟩
  · rw [hjournal', hjournal, List.append_assoc]
  · rw [List.foldr_append, hfunds', hfunds]

theorem setStorage (s : StateDB) (addr : Address) (key val : Word) :
    Recorded s (s.setStorage addr key val) := ⟨rfl, [_], rfl, rfl⟩

theorem setAccount (s : StateDB) {addr : Address} {entry : Address → Account → JournalEntry}
    (hentry : ∀ acc f, (entry addr acc).undoFunds f = Function.update f addr acc.balance.toNat)
    (change : Account → Account) : Recorded s (s.setAccount addr entry change) := by
  refine ⟨rfl, [entry addr (s.getOrCreateAccount addr)], rfl, ?_⟩
  rw [List.foldr_cons, List.foldr_nil, hentry, funds_setAccount, Function.update_idem,
    balance_getOrCreateAccount, Function.update_eq_self]

theorem setBalance (s : StateDB) (addr : Address) (balance : Int) :
    Recorded s (s.setBalance addr balance) := setAccount s (fun _ _ => rfl) _

theorem setNonce (s : StateDB) (addr : Address) (nonce : U64) :
    Recorded s (s.setNonce addr nonce) := setAccount s (fun _ _ => rfl) _

theorem setCode (keccak256 : Bytes → Word) (s : StateDB) (addr : Address) (code : Bytes) :
    Recorded s (s.setCode keccak256 addr code) := by
  have h := @setAccount s addr .code (fun _ _ => rfl) fun acc =>
    { acc with codeHash := keccak256 code }
  exact ⟨h.snapshots, h.journal⟩

theorem createAccount (s : StateDB) {addr : Address} (h : s.funds addr = 0) :
    Recorded s (s.createAccount addr) := by
  refine ⟨rfl, [.create addr], rfl, ?_⟩
  rw [List.foldr_cons, List.foldr_nil, funds_createAccount]
  change Function.update (Function.update s.funds addr 0) addr 0 = s.funds
  rw [Function.update_idem, ← h, Function.update_eq_self]

theorem transfer (s : StateDB) (sender toAddr : Address) (val : Int) :
    Recorded s (s.transfer sender toAddr val) := (setBalance s _ _).trans (setBalance _ _ _)

theorem destroy (s : StateDB) (self beneficiary : Address) :
    Recorded s (s.destroy self beneficiary) := (setBalance s _ _).trans (setBalance _ _ _)

end Recorded

/-- The total satisfies `P`, now and after a revert to any of the snapshots taken since there
were `old` ones. -/
structure Ledgered (P : Nat → Prop) (old : Nat) (s : StateDB) : Prop where
  total : P s.total
  old_le : old ≤ s.snapshots.length
  sorted : (s.snapshots.drop old).Pairwise (· ≤ ·)
  reverted : ∀ n ∈ s.snapshots.drop old,
    n ≤ s.journal.length ∧ P ((s.journal.drop n).foldr undo s).total

namespace Ledgered

variable {P : Nat → Prop} {old : Nat} {s t : StateDB}

theorem start (h : P s.total) : Ledgered P s.snapshots.length s where
  total := h
  old_le := Nat.le_refl _
  sorted := by simp
  reverted := by simp

theorem record (h : Ledgered P old s) (hrecorded : Recorded s t) (htotal : P t.total) :
    Ledgered P old t := by
  obtain ⟨newer, hjournal, hfunds⟩ := hrecorded.journal
  refine ⟨htotal, ?_, ?_, ?_⟩
  · rw [hrecorded.snapshots]
    exact h.old_le
  · rw [hrecorded.snapshots]
    exact h.sorted
  · intro n hn
    rw [hrecorded.snapshots] at hn
    obtain ⟨hle, hP⟩ := h.reverted n hn
    have hsame : ((t.journal.drop n).foldr undo t).total =
        ((s.journal.drop n).foldr undo s).total := by
      apply total_congr
      rw [hjournal, List.drop_append_of_le_length hle, funds_foldr, List.foldr_append, hfunds,
        funds_foldr]
    rw [hsame, hjournal, List.length_append]
    exact ⟨hle.trans (Nat.le_add_right _ _), hP⟩

theorem snapshot (h : Ledgered P old s) : Ledgered P old s.snapshot := by
  have hdrop : s.snapshot.snapshots.drop old = s.snapshots.drop old ++ [s.journal.length] :=
    List.drop_append_of_le_length h.old_le
  refine ⟨h.total, ?_, ?_, ?_⟩
  · change old ≤ (s.snapshots ++ [_]).length
    rw [List.length_append]
    exact h.old_le.trans (Nat.le_add_right _ _)
  · rw [hdrop, List.pairwise_append]
    refine ⟨h.sorted, List.pairwise_singleton _ _, ?_⟩
    intro n hn m hm
    rw [List.mem_singleton.mp hm]
    exact (h.reverted n hn).1
  · intro n hn
    rw [hdrop, List.mem_append, List.mem_singleton] at hn
    cases hn with
    | inl hn =>
      obtain ⟨hle, hP⟩ := h.reverted n hn
      refine ⟨hle, ?_⟩
      rw [total_foldr_congr (s := s) (t := s.snapshot) _ rfl]
      exact hP
    | inr hn =>
      subst hn
      refine ⟨Nat.le_refl _, ?_⟩
      rw [total_foldr_congr (s := s) (t := s.snapshot) _ rfl]
      change P ((s.journal.drop s.journal.length).foldr undo s).total
      rw [List.drop_length]
      exact h.total

theorem revertToSnapshot (h : Ledgered P old s) {id : Nat} (hid : old ≤ id) :
    Ledgered P old (s.revertToSnapshot id) := by
  unfold StateDB.revertToSnapshot
  cases hget : s.snapshots[id]? with
  | none => exact h
  | some n =>
    have hold : (s.snapshots.drop old)[id - old]? = some n := by
      rw [List.getElem?_drop, Nat.add_sub_cancel' hid, hget]
    obtain ⟨hle, hP⟩ := h.reverted n (List.mem_of_getElem? hold)
    -- the journal and the snapshots are cut, which the balances do not see
    have hcut : ∀ log : List JournalEntry,
        (log.foldr undo { (s.journal.drop n).foldr undo s with
          journal := s.journal.take n, snapshots := s.snapshots.take id }).total =
        (log.foldr undo ((s.journal.drop n).foldr undo s)).total :=
      fun log => total_foldr_congr log rfl
    refine ⟨?_, ?_, ?_, ?_⟩
    · exact (hcut []).symm ▸ hP
    · have hlt := (List.getElem?_eq_some_iff.mp hget).1
      rw [List.length_take]
      omega
    · rw [List.drop_take]
      exact h.sorted.sublist (List.take_sublist _ _)
    · intro m hm
      rw [List.drop_take] at hm
      have hmn : m ≤ n := by
        obtain ⟨i, hi, rfl⟩ := List.mem_iff_getElem.mp hm
        rw [List.length_take] at hi
        obtain ⟨hlast, rfl⟩ := List.getElem?_eq_some_iff.mp hold
        rw [List.getElem_take]
        exact List.pairwise_iff_getElem.mp h.sorted i (id - old) _ _ (by omega)
      obtain ⟨_, hPm⟩ := h.reverted m (List.mem_of_mem_take hm)
      have hsplit : s.journal.drop m = (s.journal.take n).drop m ++ s.journal.drop n := by
        rw [← List.drop_append_of_le_length (by rw [List.length_take]; omega),
          List.take_append_drop]
      refine ⟨?_, ?_⟩
      · rw [List.length_take]
        omega
      · rw [hsplit, List.foldr_append] at hPm
        exact (hcut _).symm ▸ hPm

/-- `CREATE` up to the endowment, at an address without a balance. -/
theorem create (h : Ledgered P old s) (sender : Address) (nonce : U64) {newAddr : Address}
    (hfresh : s.funds newAddr = 0) :
    Ledgered P old ((s.setNonce sender nonce).snapshot.createAccount newAddr) := by
  have hnonce : (s.setNonce sender nonce).funds = s.funds := s.funds_setNonce sender nonce
  have hsnap : Ledgered P old (s.setNonce sender nonce).snapshot :=
    (h.record (.setNonce s sender nonce) ((total_congr hnonce).symm ▸ h.total)).snapshot
  have hzero : (s.setNonce sender nonce).snapshot.funds newAddr = 0 :=
    (congrFun hnonce newAddr).trans hfresh
  have hcreated : ((s.setNonce sender nonce).snapshot.createAccount newAddr).funds =
      (s.setNonce sender nonce).snapshot.funds := by
    rw [funds_createAccount, ← hzero, Function.update_eq_self]
  exact hsnap.record (.createAccount _ hzero) ((total_congr hcreated).symm ▸ hsnap.total)

end Ledgered

end StateDB

end Qubitcoin.Evm
