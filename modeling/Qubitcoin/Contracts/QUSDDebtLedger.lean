import Qubitcoin.Evm.Words
import Qubitcoin.Library.Ledger
import Qubitcoin.Library.Solidity

/-! The ledger of the debt that QUSD mints make and of what is paid back. -/

namespace Qubitcoin.Contracts

open Solidity Checked
open Evm (Address)

structure Snapshot where
  blockNumber : Nat
  totalMinted : Nat
  totalReserveValue : Nat
  backingBps : Nat

structure QUSDDebtLedger where
  owner : Address
  qusdToken : Address
  reservePool : Address
  totalMinted : Nat := 0
  totalReserveValue : Nat := 0
  totalPaybackEvents : Nat := 0
  paused : Bool := false
  milestoneReached : StorageMap Nat Bool := ∅
  snapshots : List Snapshot := []
  accountDebt : Ledger Address := ∅
  totalAccountDebt : Nat := 0

namespace QUSDDebtLedger

def bpsDenom : Nat := 10000

def milestones : List Nat := [500, 1500, 3000, 5000, 10000]

def initial (sender qusdToken reservePool : Address) : QUSDDebtLedger where
  owner := sender
  qusdToken := qusdToken
  reservePool := reservePool

variable (self : QUSDDebtLedger)

def onlyOwner (sender : Address) : Except String Unit :=
  ensure (sender = self.owner) "DebtLedger: not owner"

def onlyQUSD (sender : Address) : Except String Unit :=
  ensure (sender = self.qusdToken) "DebtLedger: not QUSD token"

def onlyReserve (sender : Address) : Except String Unit :=
  ensure (sender = self.reservePool) "DebtLedger: not reserve"

def whenNotPaused : Except String Unit := ensure (self.paused = false) "DebtLedger: paused"

def backingBps : Except String Nat :=
  if self.totalMinted = 0 then .ok 0
  else do
    let scaled ← mul self.totalReserveValue bpsDenom
    let bps ← div scaled self.totalMinted
    .ok (min bps 65535)

def reach (bps : Nat) (self : QUSDDebtLedger) (milestone : Nat) : QUSDDebtLedger :=
  if self.milestoneReached.value false milestone = false ∧ milestone ≤ bps then
    { self with milestoneReached := self.milestoneReached.insert milestone true }
  else self

def checkMilestones : Except String QUSDDebtLedger := do
  let bps ← self.backingBps
  .ok (milestones.foldl (reach bps) self)

def recordDebt (sender : Address) (amount : Nat) : Except String QUSDDebtLedger := do
  self.onlyQUSD sender
  self.whenNotPaused
  ensure (0 < amount) "DebtLedger: zero amount"
  let totalMinted ← add self.totalMinted amount
  .ok { self with totalMinted := totalMinted }

def recordPayback (sender : Address) (usdValue : Nat) : Except String QUSDDebtLedger := do
  self.onlyReserve sender
  self.whenNotPaused
  ensure (0 < usdValue) "DebtLedger: zero value"
  let totalReserveValue ← add self.totalReserveValue usdValue
  let totalPaybackEvents ← add self.totalPaybackEvents 1
  checkMilestones
    { self with totalReserveValue := totalReserveValue, totalPaybackEvents := totalPaybackEvents }

def recordAccountDebt (sender account : Address) (amount : Nat) :
    Except String QUSDDebtLedger := do
  self.onlyQUSD sender
  self.whenNotPaused
  ensure (account ≠ 0) "DebtLedger: zero address"
  ensure (0 < amount) "DebtLedger: zero amount"
  let debt ← add (self.accountDebt.balance account) amount
  let totalAccountDebt ← add self.totalAccountDebt amount
  .ok { self with
    accountDebt := self.accountDebt.set account debt
    totalAccountDebt := totalAccountDebt }

def paybackPartial (sender : Address) (amount : Nat) : Except String QUSDDebtLedger := do
  self.whenNotPaused
  ensure (0 < amount) "DebtLedger: zero amount"
  ensure (0 < self.accountDebt.balance sender) "DebtLedger: no debt"
  ensure (amount ≤ self.accountDebt.balance sender) "DebtLedger: exceeds debt"
  let totalAccountDebt ← sub self.totalAccountDebt amount
  let totalReserveValue ← add self.totalReserveValue amount
  let totalPaybackEvents ← add self.totalPaybackEvents 1
  checkMilestones
    { self with
      accountDebt := self.accountDebt.debit sender amount
      totalAccountDebt := totalAccountDebt
      totalReserveValue := totalReserveValue
      totalPaybackEvents := totalPaybackEvents }

def takeSnapshot (blockNumber : Nat) : Except String QUSDDebtLedger := do
  let bps ← self.backingBps
  .ok { self with
    snapshots := self.snapshots ++ [⟨blockNumber, self.totalMinted, self.totalReserveValue, bps⟩] }

def setQUSDToken (sender qusd : Address) : Except String QUSDDebtLedger := do
  self.onlyOwner sender
  ensure (qusd ≠ 0) "DebtLedger: zero address"
  .ok { self with qusdToken := qusd }

def setReservePool (sender reserve : Address) : Except String QUSDDebtLedger := do
  self.onlyOwner sender
  ensure (reserve ≠ 0) "DebtLedger: zero address"
  .ok { self with reservePool := reserve }

def setPaused (sender : Address) (paused : Bool) : Except String QUSDDebtLedger := do
  self.onlyOwner sender
  .ok { self with paused := paused }

inductive Call
  | recordDebt (amount : Nat)
  | recordPayback (usdValue : Nat)
  | recordAccountDebt (account : Address) (amount : Nat)
  | paybackPartial (amount : Nat)
  | takeSnapshot (blockNumber : Nat)
  | setQUSDToken (qusd : Address)
  | setReservePool (reserve : Address)
  | setPaused (paused : Bool)

def call (sender : Address) : Call → Except String QUSDDebtLedger
  | .recordDebt amount => self.recordDebt sender amount
  | .recordPayback usdValue => self.recordPayback sender usdValue
  | .recordAccountDebt account amount => self.recordAccountDebt sender account amount
  | .paybackPartial amount => self.paybackPartial sender amount
  | .takeSnapshot blockNumber => self.takeSnapshot blockNumber
  | .setQUSDToken qusd => self.setQUSDToken sender qusd
  | .setReservePool reserve => self.setReservePool sender reserve
  | .setPaused paused => self.setPaused sender paused

/-- What a call adds to the reserve value. -/
def paidBack : Call → Nat
  | .recordPayback usdValue => usdValue
  | .paybackPartial amount => amount
  | _ => 0

variable {self} {s t : QUSDDebtLedger} {sender : Address} {amount : Nat}

theorem onlyOwner_bind_eq_ok {k : Unit → Except String QUSDDebtLedger} :
    (s.onlyOwner sender >>= k) = .ok t ↔ sender = s.owner ∧ k () = .ok t :=
  ensure_bind_eq_ok

theorem onlyQUSD_bind_eq_ok {k : Unit → Except String QUSDDebtLedger} :
    (s.onlyQUSD sender >>= k) = .ok t ↔ sender = s.qusdToken ∧ k () = .ok t :=
  ensure_bind_eq_ok

theorem onlyReserve_bind_eq_ok {k : Unit → Except String QUSDDebtLedger} :
    (s.onlyReserve sender >>= k) = .ok t ↔ sender = s.reservePool ∧ k () = .ok t :=
  ensure_bind_eq_ok

theorem whenNotPaused_bind_eq_ok {k : Unit → Except String QUSDDebtLedger} :
    (s.whenNotPaused >>= k) = .ok t ↔ s.paused = false ∧ k () = .ok t :=
  ensure_bind_eq_ok

theorem totalReserveValue_reach (bps : Nat) (s : QUSDDebtLedger) (milestone : Nat) :
    (reach bps s milestone).totalReserveValue = s.totalReserveValue := by
  unfold reach
  split <;> rfl

theorem totalReserveValue_foldl_reach (bps : Nat) (l : List Nat) (s : QUSDDebtLedger) :
    (l.foldl (reach bps) s).totalReserveValue = s.totalReserveValue := by
  induction l generalizing s with
  | nil => rfl
  | cons m l ih => rw [List.foldl_cons, ih, totalReserveValue_reach]

theorem checkMilestones_eq_ok (h : s.checkMilestones = .ok t) :
    t.totalReserveValue = s.totalReserveValue := by
  rw [checkMilestones, bind_eq_ok] at h
  obtain ⟨bps, -, h⟩ := h
  cases h
  exact totalReserveValue_foldl_reach bps milestones s

theorem recordDebt_eq_ok (h : s.recordDebt sender amount = .ok t) :
    t.totalReserveValue = s.totalReserveValue := by
  simp only [recordDebt, onlyQUSD_bind_eq_ok, whenNotPaused_bind_eq_ok, ensure_bind_eq_ok,
    add_bind_eq_ok] at h
  cases h.2.2.2.2
  rfl

theorem recordAccountDebt_eq_ok {account : Address}
    (h : s.recordAccountDebt sender account amount = .ok t) :
    t.totalReserveValue = s.totalReserveValue := by
  simp only [recordAccountDebt, onlyQUSD_bind_eq_ok, whenNotPaused_bind_eq_ok,
    ensure_bind_eq_ok, add_bind_eq_ok] at h
  cases h.2.2.2.2.2.2
  rfl

theorem recordPayback_eq_ok (h : s.recordPayback sender amount = .ok t) :
    t.totalReserveValue = s.totalReserveValue + amount := by
  simp only [recordPayback, onlyReserve_bind_eq_ok, whenNotPaused_bind_eq_ok, ensure_bind_eq_ok,
    add_bind_eq_ok] at h
  exact checkMilestones_eq_ok h.2.2.2.2.2

theorem paybackPartial_eq_ok (h : s.paybackPartial sender amount = .ok t) :
    t.totalReserveValue = s.totalReserveValue + amount := by
  simp only [paybackPartial, whenNotPaused_bind_eq_ok, ensure_bind_eq_ok, sub_bind_eq_ok,
    add_bind_eq_ok] at h
  exact checkMilestones_eq_ok h.2.2.2.2.2.2.2

/-- The reserve value grows by what is paid back, and by nothing else. -/
theorem call_eq_ok {c : Call} (h : s.call sender c = .ok t) :
    t.totalReserveValue = s.totalReserveValue + paidBack c := by
  cases c with
  | recordDebt amount => exact recordDebt_eq_ok h
  | recordPayback usdValue => exact recordPayback_eq_ok h
  | recordAccountDebt account amount => exact recordAccountDebt_eq_ok h
  | paybackPartial amount => exact paybackPartial_eq_ok h
  | takeSnapshot blockNumber =>
    rw [call, takeSnapshot, bind_eq_ok] at h
    obtain ⟨bps, -, h⟩ := h
    cases h
    rfl
  | setQUSDToken qusd =>
    cases (ensure_bind_eq_ok.mp (onlyOwner_bind_eq_ok.mp h).2).2
    rfl
  | setReservePool reserve =>
    cases (ensure_bind_eq_ok.mp (onlyOwner_bind_eq_ok.mp h).2).2
    rfl
  | setPaused paused =>
    cases (onlyOwner_bind_eq_ok.mp h).2
    rfl

end QUSDDebtLedger

end Qubitcoin.Contracts
