import Qubitcoin.Library.UndoLog
import Qubitcoin.Library.Machine
import Qubitcoin.Evm.StateDB

/-! When reverting to a snapshot restores what the state showed.  The setters do not
journal the account they create, and undoing `CreateAccount` removes the account and its
storage whatever was there before. -/

namespace Qubitcoin.Evm

open UndoLog

namespace JournalEntry

/-- The account that undoing the entry puts back at `a`. -/
def oldAccount (e : JournalEntry) (a : Address) : Option (Option Account) :=
  match e with
  | .balance addr prevAcc | .nonce addr prevAcc | .code addr prevAcc =>
    if a = addr then some (some prevAcc) else none
  | .create addr => if a = addr then some none else none
  | .storage _ _ _ => none

/-- The value that undoing the entry puts back at a slot. -/
def oldSlot (e : JournalEntry) (l : Address × Word) : Option Word :=
  match e with
  | .storage addr key prevVal => if l = (addr, key) then some prevVal else none
  | .create addr => if l.1 = addr then some 0 else none
  | .balance _ _ | .nonce _ _ | .code _ _ => none

end JournalEntry

namespace StateDB

def account (s : StateDB) (a : Address) : Option Account := s.accounts.lookup a

def slot (s : StateDB) (l : Address × Word) : Word := s.getStorage l.1 l.2

theorem slot_eq (s : StateDB) (l : Address × Word) :
    s.slot l = (s.storage.value ∅ l.1).value 0 l.2 := rfl

theorem account_of_not_exists {s : StateDB} {a : Address} (h : s.accountExists a = false) :
    s.account a = none :=
  Option.isSome_eq_false_iff.mp h |> Option.isNone_iff_eq_none.mp

theorem slot_of_notMem {s : StateDB} {l : Address × Word} (h : l.1 ∉ s.storage) :
    s.slot l = 0 := by
  have hempty : s.storage.value ∅ l.1 = ∅ := by
    rw [StorageMap.value, Finmap.lookup_eq_none.mpr h]
    rfl
  rw [slot_eq, hempty]
  exact StorageMap.value_empty 0 l.2

theorem slot_setStorage (s : StateDB) (addr : Address) (key val : Word) (l : Address × Word) :
    (s.setStorage addr key val).slot l = if l = (addr, key) then val else s.slot l := by
  rw [slot_eq, slot_eq, setStorage, StorageMap.value_insert_eq]
  by_cases haddr : l.1 = addr
  · rw [if_pos haddr, StorageMap.value_insert_eq, ← haddr]
    simp only [Prod.ext_iff, true_and]
  · have hne : l ≠ (addr, key) := fun h => haddr (congrArg Prod.fst h)
    rw [if_neg haddr, if_neg hne]

theorem account_setAccount (s : StateDB) (addr : Address)
    (entry : Address → Account → JournalEntry) (change : Account → Account) (a : Address) :
    (s.setAccount addr entry change).account a =
      if a = addr then some (change (s.getOrCreateAccount addr)) else s.account a := by
  rw [account, setAccount, StorageMap.lookup_insert_eq]
  rfl

theorem account_setCode (keccak256 : Bytes → Word) (s : StateDB) (addr : Address) (code : Bytes)
    (a : Address) :
    (s.setCode keccak256 addr code).account a =
      if a = addr then
        some { s.getOrCreateAccount addr with codeHash := keccak256 code }
      else s.account a :=
  account_setAccount s addr .code (fun acc => { acc with codeHash := keccak256 code }) a

theorem account_createAccount (s : StateDB) (addr a : Address) :
    (s.createAccount addr).account a =
      if a = addr then some (Account.new addr) else s.account a := by
  rw [account, createAccount, StorageMap.lookup_insert_eq]
  rfl

theorem undoes_account (e : JournalEntry) (a : Address) (v : Option Account) :
    Undoes JournalEntry.oldAccount account undo (fun _ => True) e a v where
  put s _ hold := by
    cases e with
    | storage addr key prevVal => cases hold
    | create addr =>
      simp only [JournalEntry.oldAccount] at hold
      split at hold
      · next heq =>
        cases hold
        rw [heq]
        exact Finmap.lookup_erase addr s.accounts
      · cases hold
    | balance addr prevAcc | nonce addr prevAcc | code addr prevAcc =>
      simp only [JournalEntry.oldAccount] at hold
      split at hold
      · next heq =>
        cases hold
        rw [heq]
        exact Finmap.lookup_insert s.accounts
      · cases hold
  skip s _ hold := by
    cases e with
    | storage addr key prevVal =>
      simp only [undo]
      split
      · rfl
      · rfl
    | create addr =>
      simp only [JournalEntry.oldAccount] at hold
      split at hold
      · cases hold
      · next hne => exact Finmap.lookup_erase_ne hne
    | balance addr prevAcc | nonce addr prevAcc | code addr prevAcc =>
      simp only [JournalEntry.oldAccount] at hold
      split at hold
      · cases hold
      · next hne => exact Finmap.lookup_insert_of_ne s.accounts hne
  good _ _ := trivial

/-- Zero is put back by deleting the key. -/
theorem value_putBack (slots : StorageMap Word Word) (key prevVal k : Word) :
    StorageMap.value 0 (if prevVal = 0 then slots.erase key else slots.insert key prevVal) k =
      if k = key then prevVal else StorageMap.value 0 slots k := by
  split
  · next hzero => rw [StorageMap.value_erase_eq, hzero]
  · rw [StorageMap.value_insert_eq]

theorem slot_undo_storage (s : StateDB) (addr : Address) (key prevVal : Word)
    (l : Address × Word) :
    (undo (.storage addr key prevVal) s).slot l =
      if l = (addr, key) ∧ addr ∈ s.storage then prevVal else s.slot l := by
  simp only [undo]
  split
  · next hnone =>
    have habsent : addr ∉ s.storage := Finmap.lookup_eq_none.mp hnone
    rw [if_neg fun h => habsent h.2]
  · next slots hsome =>
    have hpresent : addr ∈ s.storage := Finmap.mem_of_lookup_eq_some hsome
    have hslots : s.storage.value ∅ addr = slots := by rw [StorageMap.value, hsome]; rfl
    rw [slot_eq, slot_eq, StorageMap.value_insert_eq]
    by_cases haddr : l.1 = addr
    · rw [if_pos haddr, haddr, hslots, value_putBack]
      by_cases hkey : l.2 = key
      · have heq : l = (addr, key) := Prod.ext haddr hkey
        rw [if_pos hkey, if_pos (And.intro heq hpresent)]
      · have hne : l ≠ (addr, key) := fun h => hkey (congrArg Prod.snd h)
        rw [if_neg hkey, if_neg fun h => hne h.1]
    · have hne : l ≠ (addr, key) := fun h => haddr (congrArg Prod.fst h)
      rw [if_neg haddr, if_neg fun h => hne h.1]

theorem slot_undo_create (s : StateDB) (addr : Address) (l : Address × Word) :
    (undo (.create addr) s).slot l = if l.1 = addr then 0 else s.slot l := by
  rw [slot_eq, slot_eq]
  simp only [undo]
  rw [StorageMap.value_erase_eq]
  split
  · rw [StorageMap.value_empty]
  · rfl

theorem mem_storage_undo {s : StateDB} {addr : Address} {e : JournalEntry}
    (he : e ≠ .create addr) : addr ∈ (undo e s).storage ↔ addr ∈ s.storage := by
  cases e with
  | storage addr' key prevVal =>
    simp only [undo]
    split
    · rfl
    · next slots hsome =>
      have hpresent : addr' ∈ s.storage := Finmap.mem_of_lookup_eq_some hsome
      rw [Finmap.mem_insert]
      constructor
      · rintro (rfl | h)
        · exact hpresent
        · exact h
      · exact Or.inr
  | create addr' =>
    simp only [undo]
    rw [Finmap.mem_erase]
    have hne : addr ≠ addr' := fun h => he (h ▸ rfl)
    exact and_iff_right hne
  | balance addr' prevAcc | nonce addr' prevAcc | code addr' prevAcc => rfl

/-- A slot that was zero is zero again, whether its storage is still there or not. -/
theorem undoes_slot_zero (e : JournalEntry) (l : Address × Word) :
    Undoes JournalEntry.oldSlot slot undo (fun _ => True) e l 0 where
  put s _ hold := by
    cases e with
    | storage addr key prevVal =>
      simp only [JournalEntry.oldSlot] at hold
      split at hold
      · next heq =>
        cases hold
        rw [slot_undo_storage]
        split
        · rfl
        · next habsent =>
          apply slot_of_notMem
          intro hmem
          rw [heq] at hmem
          exact habsent ⟨heq, hmem⟩
      · cases hold
    | create addr =>
      simp only [JournalEntry.oldSlot] at hold
      split at hold
      · next heq => rw [slot_undo_create, if_pos heq]
      · cases hold
    | balance addr prevAcc | nonce addr prevAcc | code addr prevAcc => cases hold
  skip s _ hold := by
    cases e with
    | storage addr key prevVal =>
      simp only [JournalEntry.oldSlot] at hold
      split at hold
      · cases hold
      · next hne => rw [slot_undo_storage, if_neg fun h => hne h.1]
    | create addr =>
      simp only [JournalEntry.oldSlot] at hold
      split at hold
      · cases hold
      · next hne => rw [slot_undo_create, if_neg hne]
    | balance addr prevAcc | nonce addr prevAcc | code addr prevAcc => rfl
  good _ _ := trivial

/-- Any value comes back while the storage of the address is there. -/
theorem undoes_slot {e : JournalEntry} {l : Address × Word} (he : e ≠ .create l.1) (v : Word) :
    Undoes JournalEntry.oldSlot slot undo (fun s => l.1 ∈ s.storage) e l v where
  put s hs hold := by
    cases e with
    | storage addr key prevVal =>
      simp only [JournalEntry.oldSlot] at hold
      split at hold
      · next heq =>
        cases hold
        have hpresent : addr ∈ s.storage := by rw [heq] at hs; exact hs
        rw [slot_undo_storage, if_pos ⟨heq, hpresent⟩]
      · cases hold
    | create addr =>
      simp only [JournalEntry.oldSlot] at hold
      split at hold
      · next heq => exact absurd (congrArg _ heq.symm) he
      · cases hold
    | balance addr prevAcc | nonce addr prevAcc | code addr prevAcc => cases hold
  skip s hs hold := (undoes_slot_zero e l).skip s trivial hold
  good s hs := (mem_storage_undo he).mpr hs

/-- `Q` holds of every account, also of those in the journal. -/
structure Everywhere (Q : Account → Prop) (s : StateDB) : Prop where
  accounts : ∀ a acc, s.account a = some acc → Q acc
  journal : ∀ e ∈ s.journal, ∀ a acc, e.oldAccount a = some (some acc) → Q acc

/-- The account has no code or its code is filed. -/
def CodeFiled (s : StateDB) (acc : Account) : Prop := acc.codeHash = 0 ∨ acc.codeHash ∈ s.codes

def Filed (s : StateDB) : Prop := s.Everywhere s.CodeFiled

/-- What `t` is to the state `base` a snapshot was taken in: `log` is the journal since,
and by it every account and every slot was as it is in `base`. -/
structure Tracks (base t : StateDB) (log : List JournalEntry) : Prop where
  journal : t.journal = base.journal ++ log
  snapshots : ∃ later, t.snapshots = base.snapshots ++ base.journal.length :: later ∧
    ∀ n ∈ later, base.journal.length ≤ n
  account : ∀ a, Recalls JournalEntry.oldAccount StateDB.account log t a (base.account a)
  slot : ∀ l, Recalls JournalEntry.oldSlot StateDB.slot log t l (base.slot l)
  present : ∀ l, base.slot l ≠ 0 → l.1 ∈ t.storage
  uncreated : ∀ l, base.slot l ≠ 0 → ∀ e ∈ log, e ≠ .create l.1
  codes : ∀ h code, base.codes.lookup h = some code → t.codes.lookup h = some code
  noCode : t.codes.lookup 0 = base.codes.lookup 0

theorem codes_foldr_undo (log : List JournalEntry) (s : StateDB) :
    (log.foldr undo s).codes = s.codes := by
  induction log with
  | nil => rfl
  | cons e log ih =>
    rw [List.foldr_cons, ← ih]
    cases e with
    | storage addr key prevVal =>
      simp only [undo]
      split
      · rfl
      · rfl
    | create addr => rfl
    | balance addr prevAcc | nonce addr prevAcc | code addr prevAcc => rfl

theorem mem_storage_foldr_undo {log : List JournalEntry} {addr : Address}
    (h : ∀ e ∈ log, e ≠ .create addr) (s : StateDB) :
    addr ∈ (log.foldr undo s).storage ↔ addr ∈ s.storage := by
  induction log with
  | nil => rfl
  | cons e log ih =>
    rw [List.foldr_cons, mem_storage_undo (h e List.mem_cons_self)]
    exact ih fun e' he' => h e' (List.mem_cons_of_mem e he')

namespace Tracks

variable {base t : StateDB} {log : List JournalEntry}

theorem refl (base : StateDB) : Tracks base base.snapshot [] where
  journal := (List.append_nil _).symm
  snapshots := ⟨[], by simp [StateDB.snapshot], by simp⟩
  account _ := rfl
  slot _ := rfl
  present l hl := by
    by_contra habsent
    exact hl (slot_of_notMem habsent)
  uncreated _ _ _ he := absurd he List.not_mem_nil
  codes _ _ h := h
  noCode := rfl

/-- Undoing the newer part of the journal. -/
theorem undo_newer {newer : List JournalEntry} (h : Tracks base t (log ++ newer)) {later : List Nat}
    (hlater : ∀ n ∈ later, base.journal.length ≤ n) :
    Tracks base
      { newer.foldr undo t with
        journal := base.journal ++ log
        snapshots := base.snapshots ++ base.journal.length :: later } log where
  journal := rfl
  snapshots := ⟨later, rfl, hlater⟩
  account a := by
    have hundoes : ∀ e ∈ newer, Undoes JournalEntry.oldAccount StateDB.account undo
        (fun _ => True) e a (base.account a) := fun e _ => undoes_account e a _
    exact (h.account a).undo_newer hundoes trivial
  slot l := by
    by_cases hzero : base.slot l = 0
    · have hslot := h.slot l
      rw [hzero] at hslot ⊢
      exact hslot.undo_newer (fun e _ => undoes_slot_zero e l) trivial
    · exact (h.slot l).undo_newer
        (fun e he => undoes_slot (h.uncreated l hzero e (List.mem_append_right log he)) _)
        (h.present l hzero)
  present l hl := by
    have hnewer : ∀ e ∈ newer, e ≠ .create l.1 := fun e he =>
      h.uncreated l hl e (List.mem_append_right log he)
    exact (mem_storage_foldr_undo hnewer t).mpr (h.present l hl)
  uncreated l hl e he := h.uncreated l hl e (List.mem_append_left newer he)
  codes := by
    change ∀ hash code, base.codes.lookup hash = some code →
      (newer.foldr undo t).codes.lookup hash = some code
    rw [codes_foldr_undo]
    exact h.codes
  noCode := by
    change (newer.foldr undo t).codes.lookup 0 = _
    rw [codes_foldr_undo]
    exact h.noCode

theorem setStorage (h : Tracks base t log) (addr : Address) (key val : Word) :
    Tracks base (t.setStorage addr key val)
      (log ++ [.storage addr key (t.getStorage addr key)]) where
  journal := by simp [StateDB.setStorage, h.journal]
  snapshots := h.snapshots
  account a := (h.account a).record (fun _ hold => by cases hold) fun _ => rfl
  slot l := by
    apply (h.slot l).record
    · intro v hold
      simp only [JournalEntry.oldSlot] at hold
      split at hold
      · next heq =>
        cases hold
        rw [heq]
        exact .inr rfl
      · cases hold
    · intro hold
      simp only [JournalEntry.oldSlot] at hold
      split at hold
      · cases hold
      · next hne => rw [slot_setStorage, if_neg hne]
  present l hl := Finmap.mem_insert.mpr (.inr (h.present l hl))
  uncreated l hl e he := by
    cases List.mem_append.mp he with
    | inl he => exact h.uncreated l hl e he
    | inr he =>
      cases List.mem_singleton.mp he
      intro h
      cases h
  codes := h.codes
  noCode := h.noCode

/-- A setter on an account that exists journals the account as it is. -/
theorem setAccount (h : Tracks base t log) {addr : Address} (hexists : t.accountExists addr = true)
    (entry : Address → Account → JournalEntry) (change : Account → Account)
    (hentry : ∀ acc a, (entry addr acc).oldAccount a = if a = addr then some (some acc) else none)
    (hslot : ∀ acc l, (entry addr acc).oldSlot l = none)
    (hcreate : ∀ acc a, entry addr acc ≠ .create a) :
    Tracks base (t.setAccount addr entry change)
      (log ++ [entry addr (t.getOrCreateAccount addr)]) where
  journal := by simp [StateDB.setAccount, h.journal]
  snapshots := h.snapshots
  account a := by
    apply (h.account a).record
    · intro v hold
      rw [hentry] at hold
      split at hold
      · next heq =>
        cases hold
        obtain ⟨acc, hacc⟩ := Option.isSome_iff_exists.mp hexists
        rw [heq, getOrCreateAccount, hacc]
        exact .inr hacc.symm
      · cases hold
    · intro hold
      rw [hentry] at hold
      split at hold
      · cases hold
      · next hne => rw [account_setAccount, if_neg hne]
  slot l := (h.slot l).record (fun v hold => by rw [hslot] at hold; cases hold) fun _ => rfl
  present := h.present
  uncreated l hl e he := by
    cases List.mem_append.mp he with
    | inl he => exact h.uncreated l hl e he
    | inr he =>
      cases List.mem_singleton.mp he
      exact hcreate _ _
  codes := h.codes
  noCode := h.noCode

theorem setBalance (h : Tracks base t log) {addr : Address} (hexists : t.accountExists addr = true)
    (balance : Int) :
    Tracks base (t.setBalance addr balance)
      (log ++ [.balance addr (t.getOrCreateAccount addr)]) :=
  h.setAccount hexists .balance _ (fun _ _ => rfl) (fun _ _ => rfl) fun _ _ => nofun

theorem setNonce (h : Tracks base t log) {addr : Address} (hexists : t.accountExists addr = true)
    (nonce : U64) :
    Tracks base (t.setNonce addr nonce) (log ++ [.nonce addr (t.getOrCreateAccount addr)]) :=
  h.setAccount hexists .nonce _ (fun _ _ => rfl) (fun _ _ => rfl) fun _ _ => nofun

theorem createAccount (h : Tracks base t log) {addr : Address}
    (habsent : t.accountExists addr = false) (hzero : ∀ key, base.getStorage addr key = 0) :
    Tracks base (t.createAccount addr) (log ++ [.create addr]) where
  journal := by simp [StateDB.createAccount, h.journal]
  snapshots := h.snapshots
  account a := by
    apply (h.account a).record
    · intro v hold
      simp only [JournalEntry.oldAccount] at hold
      split at hold
      · next heq =>
        cases hold
        rw [heq]
        exact .inr (account_of_not_exists habsent).symm
      · cases hold
    · intro hold
      simp only [JournalEntry.oldAccount] at hold
      split at hold
      · cases hold
      · next hne => rw [account_createAccount, if_neg hne]
  slot l := by
    apply (h.slot l).record
    · intro v hold
      simp only [JournalEntry.oldSlot] at hold
      split at hold
      · next heq =>
        cases hold
        left
        rw [StateDB.slot, heq]
        exact (hzero l.2).symm
      · cases hold
    · exact fun _ => rfl
  present := h.present
  uncreated l hl e he := by
    cases List.mem_append.mp he with
    | inl he => exact h.uncreated l hl e he
    | inr he =>
      cases List.mem_singleton.mp he
      intro heq
      cases heq
      exact hl (hzero l.2)
  codes := h.codes
  noCode := h.noCode

theorem snapshot (h : Tracks base t log) : Tracks base t.snapshot log where
  journal := h.journal
  snapshots := by
    obtain ⟨later, hlater, hle⟩ := h.snapshots
    refine ⟨later ++ [t.journal.length], by simp [StateDB.snapshot, hlater], ?_⟩
    intro n hn
    cases List.mem_append.mp hn with
    | inl hn => exact hle n hn
    | inr hn =>
      rw [List.mem_singleton.mp hn, h.journal, List.length_append]
      exact Nat.le_add_right _ _
  account := h.account
  slot := h.slot
  present := h.present
  uncreated := h.uncreated
  codes := h.codes
  noCode := h.noCode

/-- Reverting to a snapshot that was taken later. -/
theorem revertToSnapshot (h : Tracks base t log) {id : Nat} (hid : base.snapshotId < id) :
    ∃ log', Tracks base (t.revertToSnapshot id) log' := by
  obtain ⟨later, hlater, hle⟩ := h.snapshots
  unfold StateDB.revertToSnapshot
  split
  · exact ⟨log, h⟩
  · next journalLen hsome =>
    obtain ⟨n, rfl⟩ : ∃ n, id = base.snapshots.length + (n + 1) :=
      ⟨id - base.snapshots.length - 1, by unfold snapshotId at hid; omega⟩
    rw [hlater, List.getElem?_append_right (Nat.le_add_right _ _), Nat.add_sub_cancel_left,
      List.getElem?_cons_succ] at hsome
    have hlen : base.journal.length ≤ journalLen := hle journalLen (List.mem_of_getElem? hsome)
    have hdrop : t.journal.drop journalLen = log.drop (journalLen - base.journal.length) := by
      rw [h.journal, List.drop_append, List.drop_eq_nil_of_le hlen, List.nil_append]
    have htake : t.journal.take journalLen =
        base.journal ++ log.take (journalLen - base.journal.length) := by
      rw [h.journal, List.take_append, List.take_of_length_le hlen]
    have hsnapshots : t.snapshots.take (base.snapshots.length + (n + 1)) =
        base.snapshots ++ base.journal.length :: later.take n := by
      rw [hlater, List.take_length_add_append, List.take_succ_cons]
    rw [← List.take_append_drop (journalLen - base.journal.length) log] at h
    rw [hdrop, htake, hsnapshots]
    exact ⟨_, h.undo_newer fun n hn => hle n (List.mem_of_mem_take hn)⟩

end Tracks

end StateDB

namespace StateOp

/-- The operation may come between a snapshot and the revert to it: it commits nothing
and reverts to later snapshots only. -/
def NestedIn (id : Nat) : StateOp → Prop
  | .revertToSnapshot id' => id < id'
  | .commit => False
  | _ => True

/-- The journal can undo the operation: a setter finds its account there, and an account is
created where there is none and where no slot was set at the snapshot `base`. -/
def Undoable (base s : StateDB) : StateOp → Prop
  | .setBalance addr _ | .setNonce addr _ | .setCode addr _ => s.accountExists addr = true
  | .createAccount addr =>
    s.accountExists addr = false ∧ ∀ key, base.getStorage addr key = 0
  | _ => True

/-- What Keccak is relied on for: a code does not share its hash with another code on file,
and none hashes to the zero that marks an account without code. -/
def HashesApart (keccak256 : Bytes → Word) (s : StateDB) : StateOp → Prop
  | .setCode _ code =>
    keccak256 code ≠ 0 ∧ ∀ other, s.codes.lookup (keccak256 code) = some other → other = code
  | _ => True

end StateOp

namespace StateDB

variable {keccak256 : Bytes → Word}

theorem Tracks.setCode {base t : StateDB} {log : List JournalEntry} (h : Tracks base t log)
    {addr : Address} {code : Bytes} (hexists : t.accountExists addr = true)
    (hhash : keccak256 code ≠ 0)
    (hcode : ∀ other, t.codes.lookup (keccak256 code) = some other → other = code) :
    Tracks base (t.setCode keccak256 addr code)
      (log ++ [.code addr (t.getOrCreateAccount addr)]) := by
  have hset := h.setAccount hexists .code (fun acc => { acc with codeHash := keccak256 code })
    (fun _ _ => rfl) (fun _ _ => rfl) (fun _ _ => nofun)
  exact
    { hset with
      codes := by
        intro hash filed hfiled
        have hkept := h.codes hash filed hfiled
        change (t.codes.insert (keccak256 code) code).lookup hash = some filed
        rw [StorageMap.lookup_insert_eq]
        split
        · next heq =>
          rw [heq] at hkept
          exact congrArg some (hcode filed hkept).symm
        · exact hkept
      noCode := by
        change (t.codes.insert (keccak256 code) code).lookup 0 = _
        rw [StorageMap.lookup_insert_eq, if_neg hhash.symm]
        exact h.noCode }

/-- One operation. -/
theorem Tracks.of_apply {base t : StateDB} {log : List JournalEntry} (h : Tracks base t log)
    {op : StateOp} (hnested : op.NestedIn base.snapshotId) (hundo : op.Undoable base t)
    (hhash : op.HashesApart keccak256 t) : ∃ log', Tracks base (op.apply keccak256 t) log' := by
  cases op with
  | setStorage addr key val => exact ⟨_, h.setStorage addr key val⟩
  | setBalance addr balance =>
    exact ⟨_, h.setBalance hundo balance⟩
  | setNonce addr nonce =>
    exact ⟨_, h.setNonce hundo nonce⟩
  | setCode addr code => exact ⟨_, h.setCode hundo hhash.1 hhash.2⟩
  | setBlockHash num hash => exact ⟨log, h.journal, h.snapshots, h.account, h.slot, h.present,
      h.uncreated, h.codes, h.noCode⟩
  | createAccount addr => exact ⟨_, h.createAccount hundo.1 hundo.2⟩
  | snapshot => exact ⟨_, h.snapshot⟩
  | revertToSnapshot id => exact h.revertToSnapshot hnested
  | commit => exact hnested.elim

/-- What the state shows is what it showed. -/
structure Restored (keccak256 : Bytes → Word) (s t : StateDB) : Prop where
  accountExists : ∀ a, t.accountExists a = s.accountExists a
  balance : ∀ a, t.getBalance a = s.getBalance a
  nonce : ∀ a, t.getNonce a = s.getNonce a
  code : ∀ a, t.getCode a = s.getCode a
  codeHash : ∀ a, t.getCodeHash a = s.getCodeHash a
  storage : ∀ a key, t.getStorage a key = s.getStorage a key
  accountCount : t.accountCount = s.accountCount
  stateRoot : t.computeStateRoot keccak256 = s.computeStateRoot keccak256

/-- Equal accounts and slots show the same, if the codes of the accounts are still filed. -/
theorem Restored.of_same {s t : StateDB} (haccounts : t.accounts = s.accounts)
    (hslot : ∀ l, t.slot l = s.slot l) (hfiled : s.Filed)
    (hcodes : ∀ h code, s.codes.lookup h = some code → t.codes.lookup h = some code)
    (hnoCode : t.codes.lookup 0 = s.codes.lookup 0) : Restored keccak256 s t where
  accountExists a := by simp [StateDB.accountExists, haccounts]
  balance a := by simp [getBalance, haccounts]
  nonce a := by simp [getNonce, haccounts]
  code a := by
    unfold getCode
    rw [haccounts]
    cases hacc : s.accounts.lookup a with
    | none => rfl
    | some acc =>
      have hlookup : t.codes.lookup acc.codeHash = s.codes.lookup acc.codeHash := by
        cases hfiled.accounts a acc hacc with
        | inl hzero => rw [hzero, hnoCode]
        | inr hmem =>
          obtain ⟨code, hcode⟩ := Finmap.mem_iff.mp hmem
          rw [hcode, hcodes _ _ hcode]
      simp [StorageMap.value, hlookup]
  codeHash a := by simp [getCodeHash, haccounts]
  storage a key := hslot (a, key)
  accountCount := by rw [StateDB.accountCount, haccounts]; rfl
  stateRoot := by
    have hinput : t.stateRootInput = s.stateRootInput := by
      simp [stateRootInput, sortedAddrs, haccounts]
    rw [computeStateRoot, hinput]
    rfl

theorem Tracks.restored {base t : StateDB} {log : List JournalEntry} (h : Tracks base t log)
    (hfiled : base.Filed) : Restored keccak256 base (t.revertToSnapshot base.snapshotId) := by
  obtain ⟨later, hlater, -⟩ := h.snapshots
  have hid : t.snapshots[base.snapshotId]? = some base.journal.length := by
    rw [hlater, snapshotId, List.getElem?_append_right (Nat.le_refl _), Nat.sub_self]
    rfl
  have hdrop : t.journal.drop base.journal.length = log := by
    rw [h.journal, List.drop_left]
  have hnone : ∀ n ∈ ([] : List Nat), base.journal.length ≤ n := nofun
  have hundone := Tracks.undo_newer (show Tracks base t ([] ++ log) from h) hnone
  unfold StateDB.revertToSnapshot
  rw [hid]
  dsimp only
  rw [hdrop]
  exact .of_same (Finmap.ext_lookup hundone.account) hundone.slot hfiled hundone.codes
    hundone.noCode

namespace Everywhere

variable {Q R : Account → Prop} {s : StateDB}

theorem new : Everywhere Q StateDB.new where
  accounts a acc h := by cases h
  journal e he := absurd he List.not_mem_nil

theorem imp (h : Everywhere Q s) (hQR : ∀ acc, Q acc → R acc) : Everywhere R s where
  accounts a acc hacc := hQR acc (h.accounts a acc hacc)
  journal e he a acc hold := hQR acc (h.journal e he a acc hold)

theorem getOrCreateAccount (h : Everywhere Q s) (hnew : ∀ a, Q (.new a)) (addr : Address) :
    Q (s.getOrCreateAccount addr) := by
  unfold StateDB.getOrCreateAccount
  cases hacc : s.accounts.lookup addr with
  | none => exact hnew addr
  | some acc => exact h.accounts addr acc hacc

/-- An entry is written to the journal and one account is put in place. -/
theorem record (h : Everywhere Q s) {t : StateDB} {e : JournalEntry} {addr : Address}
    {put : Account} (hjournal : t.journal = s.journal ++ [e])
    (hentry : ∀ a acc, e.oldAccount a = some (some acc) → Q acc)
    (haccount : ∀ a, t.account a = if a = addr then some put else s.account a) (hput : Q put) :
    Everywhere Q t where
  accounts a acc hacc := by
    rw [haccount] at hacc
    split at hacc
    · cases hacc
      exact hput
    · exact h.accounts a acc hacc
  journal e' he' a acc hold := by
    rw [hjournal] at he'
    cases List.mem_append.mp he' with
    | inl hmem => exact h.journal e' hmem a acc hold
    | inr hmem =>
      cases List.mem_singleton.mp hmem
      exact hentry a acc hold

theorem setAccount (h : Everywhere Q s) (hnew : ∀ a, Q (.new a)) (addr : Address)
    (entry : Address → Account → JournalEntry) (change : Account → Account)
    (hchange : ∀ acc, Q acc → Q (change acc))
    (hentry : ∀ acc a, (entry addr acc).oldAccount a = if a = addr then some (some acc) else none) :
    Everywhere Q (s.setAccount addr entry change) := by
  have hacc := h.getOrCreateAccount hnew addr
  refine h.record rfl ?_ (account_setAccount s addr entry change) (hchange _ hacc)
  intro a acc hold
  rw [hentry] at hold
  split at hold
  · cases hold
    exact hacc
  · cases hold

theorem account_foldr_undo {log : List JournalEntry}
    (hlog : ∀ e ∈ log, ∀ a acc, e.oldAccount a = some (some acc) → Q acc)
    (h : Everywhere Q s) {a : Address} {acc : Account}
    (hacc : (log.foldr undo s).account a = some acc) : Q acc := by
  induction log with
  | nil => exact h.accounts a acc hacc
  | cons e log ih =>
    have htail := ih fun e' he' => hlog e' (List.mem_cons_of_mem e he')
    rw [List.foldr_cons] at hacc
    have hundoes := undoes_account e a (some acc)
    cases hold : e.oldAccount a with
    | none =>
      rw [hundoes.skip _ trivial hold] at hacc
      exact htail hacc
    | some v =>
      rw [(undoes_account e a v).put _ trivial hold] at hacc
      rw [hacc] at hold
      exact hlog e List.mem_cons_self a acc hold

theorem revertToSnapshot (h : Everywhere Q s) (id : Nat) :
    Everywhere Q (s.revertToSnapshot id) := by
  unfold StateDB.revertToSnapshot
  split
  · exact h
  · constructor
    · intro a acc hacc
      exact account_foldr_undo (fun e he => h.journal e (List.mem_of_mem_drop he)) h hacc
    · intro e he a acc hold
      exact h.journal e (List.mem_of_mem_take he) a acc hold

/-- What holds of a new account and survives the three setters holds of every account. -/
theorem apply (h : Everywhere Q s) (hnew : ∀ a, Q (.new a))
    (hbalance : ∀ acc balance, Q acc → Q { acc with balance := balance })
    (hnonce : ∀ acc nonce, Q acc → Q { acc with nonce := nonce })
    (op : StateOp)
    (hcode : ∀ addr code, op = .setCode addr code →
      ∀ acc, Q acc → Q { acc with codeHash := keccak256 code }) :
    Everywhere Q (op.apply keccak256 s) := by
  cases op with
  | setStorage addr key val =>
    refine ⟨h.accounts, ?_⟩
    intro e he a acc hold
    cases List.mem_append.mp he with
    | inl he => exact h.journal e he a acc hold
    | inr he =>
      cases List.mem_singleton.mp he
      cases hold
  | setBalance addr balance =>
    exact h.setAccount hnew addr .balance
      (fun acc => { acc with balance := safeFillBytes balance })
      (fun acc hacc => hbalance acc _ hacc) fun _ _ => rfl
  | setNonce addr nonce =>
    exact h.setAccount hnew addr .nonce (fun acc => { acc with nonce := nonce })
      (fun acc hacc => hnonce acc nonce hacc) fun _ _ => rfl
  | setCode addr code =>
    have hset := h.setAccount hnew addr .code
      (fun acc => { acc with codeHash := keccak256 code }) (hcode addr code rfl) fun _ _ => rfl
    exact ⟨hset.accounts, hset.journal⟩
  | setBlockHash num hash => exact ⟨h.accounts, h.journal⟩
  | createAccount addr =>
    refine h.record rfl ?_ (account_createAccount s addr) (hnew addr)
    intro a acc hold
    simp only [JournalEntry.oldAccount] at hold
    split at hold
    · cases hold
    · cases hold
  | snapshot => exact ⟨h.accounts, h.journal⟩
  | revertToSnapshot id => exact h.revertToSnapshot id
  | commit => exact ⟨h.accounts, fun e he => absurd he List.not_mem_nil⟩

end Everywhere

theorem codes_apply (s : StateDB) (op : StateOp) :
    (op.apply keccak256 s).codes =
      match op with
      | .setCode _ code => s.codes.insert (keccak256 code) code
      | _ => s.codes := by
  cases op with
  | revertToSnapshot id =>
    simp only [StateOp.apply, StateDB.revertToSnapshot]
    split
    · rfl
    · exact codes_foldr_undo _ s
  | setStorage addr key val | setBalance addr balance | setNonce addr nonce | setCode addr code
  | setBlockHash num hash | createAccount addr | snapshot | commit => rfl

theorem Filed.apply {s : StateDB} (h : Filed s) (op : StateOp) :
    Filed (op.apply keccak256 s) := by
  have hgrow : ∀ acc, s.CodeFiled acc → (op.apply keccak256 s).CodeFiled acc := by
    intro acc hacc
    refine hacc.imp_right fun hmem => ?_
    rw [codes_apply]
    split
    · exact Finmap.mem_insert.mpr (.inr hmem)
    · exact hmem
  apply (Everywhere.imp h hgrow).apply
  · exact fun _ => .inl rfl
  · exact fun _ _ hacc => hacc
  · exact fun _ _ hacc => hacc
  · rintro addr code rfl acc -
    exact .inr (Finmap.mem_insert.mpr (.inl rfl))

/-- The state after a sequence of operations on a new database. -/
def after (keccak256 : Bytes → Word) (ops : List StateOp) : StateDB :=
  Machine.run (StateOp.apply keccak256) .new ops

theorem filed_after (ops : List StateOp) : (after keccak256 ops).Filed :=
  Machine.run_induction (P := Filed) (fun _ op h => h.apply op) Everywhere.new ops

/-- Every reachable state, and every sequence after a snapshot whose operations the journal
can undo. -/
theorem revert_restores (keccak256 : Bytes → Word) (before since : List StateOp)
    (hnested : ∀ op ∈ since, op.NestedIn (after keccak256 before).snapshotId)
    (hhash : ∀ early op, early ++ [op] <+: since → op.HashesApart keccak256
      (Machine.run (StateOp.apply keccak256) (after keccak256 before).snapshot early))
    (hundo : ∀ early op, early ++ [op] <+: since → op.Undoable (after keccak256 before)
      (Machine.run (StateOp.apply keccak256) (after keccak256 before).snapshot early)) :
    Restored keccak256 (after keccak256 before)
      ((Machine.run (StateOp.apply keccak256) (after keccak256 before).snapshot since).revertToSnapshot
        (after keccak256 before).snapshotId) := by
  have htracks : ∃ log, Tracks (after keccak256 before)
      (Machine.run (StateOp.apply keccak256) (after keccak256 before).snapshot since) log := by
    refine Machine.run_guarded (P := fun s => ∃ log, Tracks (after keccak256 before) s log)
      (G := fun s op => op.NestedIn (after keccak256 before).snapshotId ∧
        op.Undoable (after keccak256 before) s ∧ op.HashesApart keccak256 s)
      ?_ ⟨[], .refl _⟩ ?_ (List.prefix_refl since)
    · rintro s op ⟨log, h⟩ ⟨hop, hundo, hhash⟩
      exact h.of_apply hop hundo hhash
    · intro early op hle
      have hmem : op ∈ since := hle.subset (by simp)
      exact ⟨hnested op hmem, hundo early op hle, hhash early op hle⟩
  obtain ⟨log, htracks⟩ := htracks
  exact htracks.restored (filed_after before)

/-- Keccak-256 on the state root's input for account 1 with balance 5, on `60 01` and on the
empty string. -/
def sampleKeccak (data : Bytes) : Word :=
  if data.length = 116 then
    0x2aa724eb1314b42ed53ab5e311be109f47e7dc21aba4d0eb86af59360a5ec34d
  else if data = [0x60, 0x01] then
    0x309c67890bde4c575dc23d2cc3b5c3a3d599e312e980e9b61b5bc8f3cd87c8bb
  else
    0xc5d2460186f7233c927e7db2dcc703c0e500b653ca82273b7bfad8045d85a470

/-- Account 1 is changed, its storage written, code is set and account 2 is created. -/
theorem revert_restores_sample :
    Restored sampleKeccak (after sampleKeccak [.createAccount 1, .setBalance 1 5])
      ((Machine.run (StateOp.apply sampleKeccak)
        (after sampleKeccak [.createAccount 1, .setBalance 1 5]).snapshot
        [.setBalance 1 7, .setStorage 1 2 3, .createAccount 2, .snapshot,
          .setCode 2 [0x60, 0x01], .revertToSnapshot 1]).revertToSnapshot
        (after sampleKeccak [.createAccount 1, .setBalance 1 5]).snapshotId) := by
  apply revert_restores
  · simp only [List.forall_mem_cons]
    exact ⟨trivial, trivial, trivial, trivial, trivial, Nat.zero_lt_one, nofun⟩
  · simp only [Machine.forall_before_cons, Machine.forall_before_nil]
    refine ⟨trivial, trivial, trivial, trivial, ⟨by decide, ?_⟩, trivial, trivial⟩
    intro other hfiled
    cases hfiled
  · simp only [Machine.forall_before_cons, Machine.forall_before_nil]
    exact ⟨rfl, trivial, ⟨rfl, fun _ => rfl⟩, trivial, rfl, trivial, trivial⟩

/-- `SetBalance` on an absent account: the account is still there after the revert. -/
theorem revert_keeps_created_account :
    ¬ ∀ (keccak256 : Bytes → Word) (before since : List StateOp),
      (∀ op ∈ since, op.NestedIn (after keccak256 before).snapshotId) →
      Restored keccak256 (after keccak256 before)
        ((Machine.run (StateOp.apply keccak256) (after keccak256 before).snapshot
          since).revertToSnapshot (after keccak256 before).snapshotId) := by
  intro h
  have hrestored := h sampleKeccak [] [.setBalance 1 5] (by simp [StateOp.NestedIn])
  exact absurd (hrestored.accountExists 1) (by decide)

/-! ## What the state root says

An account's record has a field for the root of its storage, and no operation ever writes it, so
the storage stays outside the hash. -/

/-- The same accounts with the same balance, nonce and code hash, and the same non-zero
slots. -/
structure SameState (s t : StateDB) : Prop where
  account : ∀ a, (t.account a).map (fun acc => (acc.balance, acc.nonce, acc.codeHash)) =
    (s.account a).map fun acc => (acc.balance, acc.nonce, acc.codeHash)
  slot : ∀ a key val, val ≠ 0 → (t.getStorage a key = val ↔ s.getStorage a key = val)

/-- Every reachable state with the state root's input of `s` is the same state. -/
def RootBinds (keccak256 : Bytes → Word) (s : StateDB) : Prop :=
  ∀ ops, (after keccak256 ops).stateRootInput = s.stateRootInput → SameState s (after keccak256 ops)

/-- The input is a function of the accounts alone. -/
theorem stateRootInput_congr {s t : StateDB} (h : t.accounts = s.accounts) :
    t.stateRootInput = s.stateRootInput := by
  simp [stateRootInput, sortedAddrs, h]

/-- The storage root of an account is never written. -/
theorem root_eq_zero (keccak256 : Bytes → Word) (ops : List StateOp) {a : Address} {acc : Account}
    (h : (after keccak256 ops).account a = some acc) : acc.root = 0 := by
  have hroots : (after keccak256 ops).Everywhere fun acc => acc.root = 0 := by
    apply Machine.run_induction (P := Everywhere fun acc => acc.root = 0) _ Everywhere.new
    intro s op hs
    exact hs.apply (fun _ => rfl) (fun _ _ h => h) (fun _ _ h => h) op fun _ _ _ _ h => h
  exact hroots.accounts a acc h

theorem after_snoc (keccak256 : Bytes → Word) (ops : List StateOp) (op : StateOp) :
    after keccak256 (ops ++ [op]) = op.apply keccak256 (after keccak256 ops) := by
  rw [after, Machine.run_append]
  rfl

/-- No reachable state is bound by its root: one more `SetStorage` leads to another state
with the same input. -/
theorem not_rootBinds (keccak256 : Bytes → Word) (ops : List StateOp) :
    ¬ RootBinds keccak256 (after keccak256 ops) := by
  intro hbinds
  obtain ⟨val, hzero, hnew⟩ : ∃ val : Word, val ≠ 0 ∧ (after keccak256 ops).getStorage 0 0 ≠ val := by
    by_cases hone : (after keccak256 ops).getStorage 0 0 = 1
    · exact ⟨2, by decide, by rw [hone]; decide⟩
    · exact ⟨1, by decide, hone⟩
  have hsame := hbinds (ops ++ [.setStorage 0 0 val])
  rw [after_snoc] at hsame
  have hslot := (hsame (stateRootInput_congr rfl)).slot 0 0 val hzero
  have hset := slot_setStorage (after keccak256 ops) 0 0 val (0, 0)
  rw [if_pos rfl] at hset
  exact hnew (hslot.mp hset)

/-- A new database and one in which slot 2 of address 1 holds 3. -/
theorem stateRoot_misses_storage :
    ¬ ∀ (keccak256 : Bytes → Word) (ops ops' : List StateOp),
      (after keccak256 ops').stateRootInput = (after keccak256 ops).stateRootInput →
        SameState (after keccak256 ops) (after keccak256 ops') := by
  intro h
  have hsame := h sampleKeccak [] [.setStorage 1 2 3] rfl
  exact absurd ((hsame.slot 1 2 3 (by decide)).mp (by decide)) (by decide)

end StateDB

end Qubitcoin.Evm
