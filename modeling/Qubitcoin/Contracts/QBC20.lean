import Qubitcoin.Evm.Words
import Qubitcoin.Library.Ledger
import Qubitcoin.Library.Solidity

/-! The reference token: no fee, and nobody's balance goes down without his call or his
allowance. -/

namespace Qubitcoin.Contracts

open Solidity Checked
open Evm (Address)

/-- The callers other than the contract at `this`. -/
abbrev Caller (this : Address) := { a : Address // a ≠ this }

structure QBC20 where
  totalSupply : Nat := 0
  owner : Address
  balances : Ledger Address := ∅
  allowances : Ledger (Address × Address) := ∅

namespace QBC20

variable (self : QBC20)

def initial (sender : Address) (initialSupply : Nat) : QBC20 where
  totalSupply := initialSupply
  owner := sender
  balances := Ledger.set ∅ sender initialSupply

def balanceOf (account : Address) : Nat := self.balances.balance account

def allowance (holder spender : Address) : Nat := self.allowances.balance (holder, spender)

def approve (sender spender : Address) (amount : Nat) : Except String QBC20 := do
  ensure (amount = 0 ∨ self.allowance sender spender = 0)
    "QBC20: approve from non-zero to non-zero, set to 0 first"
  .ok { self with allowances := self.allowances.set (sender, spender) amount }

def increaseAllowance (sender spender : Address) (addedValue : Nat) : Except String QBC20 := do
  let allowed ← add (self.allowance sender spender) addedValue
  .ok { self with allowances := self.allowances.set (sender, spender) allowed }

def decreaseAllowance (sender spender : Address) (subtractedValue : Nat) :
    Except String QBC20 := do
  ensure (subtractedValue ≤ self.allowance sender spender) "QBC20: decreased allowance below zero"
  .ok { self with
    allowances := self.allowances.set (sender, spender)
      (self.allowance sender spender - subtractedValue) }

/-- The two writes of a transfer. -/
def move (holder toAddr : Address) (amount : Nat) : Except String QBC20 := do
  let debited := self.balances.debit holder amount
  let credited ← add (debited.balance toAddr) amount
  .ok { self with balances := debited.set toAddr credited }

def transfer (sender toAddr : Address) (amount : Nat) : Except String QBC20 := do
  ensure (toAddr ≠ 0) "QBC20: to zero"
  ensure (amount ≤ self.balanceOf sender) "QBC20: insufficient"
  self.move sender toAddr amount

def transferFrom (sender holder toAddr : Address) (amount : Nat) : Except String QBC20 := do
  ensure (toAddr ≠ 0) "QBC20: to zero"
  ensure (amount ≤ self.balanceOf holder) "QBC20: insufficient"
  ensure (amount ≤ self.allowance holder sender) "QBC20: allowance"
  move { self with allowances := self.allowances.debit (holder, sender) amount } holder toAddr
    amount

def mint (sender toAddr : Address) (amount : Nat) : Except String QBC20 := do
  ensure (sender = self.owner) "QBC20: not owner"
  ensure (toAddr ≠ 0) "QBC20: to zero"
  let totalSupply ← add self.totalSupply amount
  let credited ← add (self.balanceOf toAddr) amount
  .ok { self with totalSupply := totalSupply, balances := self.balances.set toAddr credited }

def burn (sender : Address) (amount : Nat) : Except String QBC20 := do
  ensure (amount ≤ self.balanceOf sender) "QBC20: insufficient"
  let totalSupply ← sub self.totalSupply amount
  .ok { self with totalSupply := totalSupply, balances := self.balances.debit sender amount }

def transferOwnership (sender newOwner : Address) : Except String QBC20 := do
  ensure (sender = self.owner) "QBC20: not owner"
  ensure (newOwner ≠ 0) "QBC20: zero owner"
  .ok { self with owner := newOwner }

inductive Call
  | approve (spender : Address) (amount : Nat)
  | increaseAllowance (spender : Address) (addedValue : Nat)
  | decreaseAllowance (spender : Address) (subtractedValue : Nat)
  | transfer (toAddr : Address) (amount : Nat)
  | transferFrom (holder toAddr : Address) (amount : Nat)
  | mint (toAddr : Address) (amount : Nat)
  | burn (amount : Nat)
  | transferOwnership (newOwner : Address)

def call (sender : Address) : Call → Except String QBC20
  | .approve spender amount => self.approve sender spender amount
  | .increaseAllowance spender addedValue => self.increaseAllowance sender spender addedValue
  | .decreaseAllowance spender subtractedValue =>
    self.decreaseAllowance sender spender subtractedValue
  | .transfer toAddr amount => self.transfer sender toAddr amount
  | .transferFrom holder toAddr amount => self.transferFrom sender holder toAddr amount
  | .mint toAddr amount => self.mint sender toAddr amount
  | .burn amount => self.burn sender amount
  | .transferOwnership newOwner => self.transferOwnership sender newOwner

variable {self} {s t : QBC20} {this sender holder toAddr : Address} {amount : Nat}

/-- The whole amount arrives. -/
theorem balanceOf_of_move (h : s.move holder toAddr amount = .ok t)
    (hpays : amount ≤ s.balanceOf holder) (a : Address) :
    t.balanceOf a + (if a = holder then amount else 0) =
      s.balanceOf a + (if a = toAddr then amount else 0) := by
  unfold move at h
  rw [add_bind_eq_ok] at h
  cases h.2
  have hdebit := Ledger.balance_debit_add hpays a
  have hcredit := (s.balances.debit holder amount).balance_credit_add toAddr a amount
  change ((s.balances.debit holder amount).credit toAddr amount).balance a + _ =
    s.balances.balance a + _
  omega

theorem allowances_of_move (h : s.move holder toAddr amount = .ok t) :
    t.allowances = s.allowances := by
  unfold move at h
  rw [add_bind_eq_ok] at h
  cases h.2
  rfl

theorem transfer_eq_ok (h : s.transfer sender toAddr amount = .ok t) :
    amount ≤ s.balanceOf sender ∧ s.move sender toAddr amount = .ok t := by
  unfold transfer at h
  rw [ensure_bind_eq_ok, ensure_bind_eq_ok] at h
  exact h.2

theorem transfer_ne_insufficient (h : amount ≤ s.balanceOf sender) :
    s.transfer sender toAddr amount ≠ .error "QBC20: insufficient" := by
  unfold transfer
  apply bind_ne_error (ensure_ne_error (.inr (by decide)))
  intro _ _
  apply bind_ne_error (ensure_ne_error (.inl h))
  intro _ _
  apply bind_ne_error (add_ne_error (by decide))
  intro _ _
  exact nofun

theorem transferFrom_eq_ok (h : s.transferFrom sender holder toAddr amount = .ok t) :
    amount ≤ s.balanceOf holder ∧ amount ≤ s.allowance holder sender ∧
      move { s with allowances := s.allowances.debit (holder, sender) amount } holder toAddr amount =
        .ok t := by
  unfold transferFrom at h
  rw [ensure_bind_eq_ok, ensure_bind_eq_ok, ensure_bind_eq_ok] at h
  exact h.2

/-- `this` lets nobody spend what it holds. -/
def Closed (s : QBC20) (this : Address) : Prop := ∀ spender, s.allowance this spender = 0

theorem initial_closed (this sender : Address) (supply : Nat) : (initial sender supply).Closed this :=
  fun _ => Ledger.balance_empty _

theorem Closed.of_allowances (h : s.Closed this) (heq : t.allowances = s.allowances) :
    t.Closed this := by
  intro spender
  unfold allowance
  rw [heq]
  exact h spender

theorem Closed.debit (h : s.Closed this) (holder spender : Address) (amount : Nat) :
    Closed { s with allowances := s.allowances.debit (holder, spender) amount } this := by
  intro other
  have hother : s.allowances.balance (this, other) = 0 := h other
  unfold allowance
  rw [Ledger.balance_debit]
  split
  · next heq => rw [← heq, hother, Nat.zero_sub]
  · exact hother

/-- A contract takes in what it was allowed to. -/
theorem transferFrom_this (hholder : holder ≠ this)
    (h : s.transferFrom this holder this amount = .ok t) :
    t.balanceOf this = s.balanceOf this + amount ∧ (s.Closed this → t.Closed this) := by
  obtain ⟨hpays, -, hmove⟩ := transferFrom_eq_ok h
  have hbalance := balanceOf_of_move hmove hpays this
  rw [if_neg hholder.symm, if_pos rfl] at hbalance
  exact ⟨hbalance, fun hclosed => (hclosed.debit _ _ _).of_allowances (allowances_of_move hmove)⟩

/-- A contract pays. -/
theorem transfer_this (h : s.transfer this toAddr amount = .ok t) :
    s.balanceOf this ≤ t.balanceOf this + amount ∧ (s.Closed this → t.Closed this) := by
  obtain ⟨hpays, hmove⟩ := transfer_eq_ok h
  have hbalance := balanceOf_of_move hmove hpays this
  rw [if_pos rfl] at hbalance
  exact ⟨by omega, fun hclosed => hclosed.of_allowances (allowances_of_move hmove)⟩

/-- A call by somebody else takes nothing from a closed account. -/
theorem call_closed {c : Call} (hsender : sender ≠ this) (hclosed : s.Closed this)
    (h : s.call sender c = .ok t) : t.Closed this ∧ s.balanceOf this ≤ t.balanceOf this := by
  cases c with
  | approve spender amount =>
    simp only [call, approve, ensure_bind_eq_ok] at h
    cases h.2
    refine ⟨fun other => ?_, le_refl _⟩
    have hother := hclosed other
    simp [allowance, hsender.symm] at hother ⊢
    exact hother
  | increaseAllowance spender addedValue =>
    simp only [call, increaseAllowance, add_bind_eq_ok] at h
    cases h.2
    refine ⟨fun other => ?_, le_refl _⟩
    have hother := hclosed other
    simp [allowance, hsender.symm] at hother ⊢
    exact hother
  | decreaseAllowance spender subtractedValue =>
    simp only [call, decreaseAllowance, ensure_bind_eq_ok] at h
    cases h.2
    refine ⟨fun other => ?_, le_refl _⟩
    have hother := hclosed other
    simp [allowance, hsender.symm] at hother ⊢
    exact hother
  | transfer toAddr amount =>
    obtain ⟨hpays, hmove⟩ := transfer_eq_ok h
    have hbalance := balanceOf_of_move hmove hpays this
    rw [if_neg hsender.symm] at hbalance
    exact ⟨hclosed.of_allowances (allowances_of_move hmove), by omega⟩
  | transferFrom holder toAddr amount =>
    obtain ⟨hpays, hallowed, hmove⟩ := transferFrom_eq_ok h
    have hbalance := balanceOf_of_move hmove hpays this
    change _ = s.balanceOf this + _ at hbalance
    have hnothing : this = holder → amount = 0 := by
      rintro rfl
      rw [hclosed sender] at hallowed
      exact Nat.le_zero.mp hallowed
    refine ⟨(hclosed.debit _ _ _).of_allowances (allowances_of_move hmove), ?_⟩
    · by_cases hholder : this = holder
      · rw [hnothing hholder] at hbalance
        simp at hbalance
        omega
      · rw [if_neg hholder] at hbalance
        omega
  | mint toAddr amount =>
    simp only [call, mint, ensure_bind_eq_ok, add_bind_eq_ok] at h
    cases h.2.2.2.2
    refine ⟨hclosed, ?_⟩
    unfold balanceOf
    rw [Ledger.balance_set]
    split
    · next heq => exact heq ▸ Nat.le_add_right _ _
    · exact le_refl _
  | burn amount =>
    simp only [call, burn, ensure_bind_eq_ok, sub_bind_eq_ok] at h
    cases h.2.2
    refine ⟨hclosed, ?_⟩
    unfold balanceOf
    rw [Ledger.balance_debit, if_neg hsender.symm]
  | transferOwnership newOwner =>
    simp only [call, transferOwnership, ensure_bind_eq_ok] at h
    cases h.2.2
    exact ⟨hclosed, le_refl _⟩

end QBC20

end Qubitcoin.Contracts
