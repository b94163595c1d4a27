import Qubitcoin.Contracts.QUSD

/-! QUSD wrapped for other chains, and what backs it. -/

namespace Qubitcoin.Contracts

open Solidity Checked
open Evm (Address Word)

/-- The wrapper with the token under it. -/
structure WQUSD where
  owner : Address
  qusd : QUSD
  bridgeOperator : Address
  proofVerifier : Address := 0
  totalSupply : Nat := 0
  totalLocked : Nat := 0
  totalWrapped : Nat := 0
  totalUnwrapped : Nat := 0
  balances : Ledger Address := ∅
  allowances : Ledger (Address × Address) := ∅
  processedProofs : StorageMap Word Bool := ∅
  paused : Bool := false

namespace WQUSD

def initial (sender bridgeOperator : Address) (qusd : QUSD) : WQUSD where
  owner := sender
  qusd := qusd
  bridgeOperator := bridgeOperator

variable (this : Address) (self : WQUSD)

def balanceOf (account : Address) : Nat := self.balances.balance account

def allowance (holder spender : Address) : Nat := self.allowances.balance (holder, spender)

def whenNotPaused : Except String Unit := ensure (self.paused = false) "wQUSD: paused"

def wrap (sender : Address) (amount : Nat) : Except String WQUSD := do
  self.whenNotPaused
  ensure (0 < amount) "wQUSD: zero amount"
  let qusd ← self.qusd.transferFrom this sender this amount
  let totalLocked ← add self.totalLocked amount
  let totalWrapped ← add self.totalWrapped amount
  let totalSupply ← add self.totalSupply amount
  let received ← add (self.balanceOf sender) amount
  .ok { self with
    qusd := qusd
    totalLocked := totalLocked
    totalWrapped := totalWrapped
    totalSupply := totalSupply
    balances := self.balances.set sender received }

def unwrap (sender : Address) (amount : Nat) : Except String WQUSD := do
  self.whenNotPaused
  ensure (0 < amount) "wQUSD: zero amount"
  ensure (amount ≤ self.balanceOf sender) "wQUSD: insufficient balance"
  ensure (amount ≤ self.totalLocked) "wQUSD: insufficient locked QUSD"
  let totalSupply ← sub self.totalSupply amount
  let totalLocked ← sub self.totalLocked amount
  let totalUnwrapped ← add self.totalUnwrapped amount
  let qusd ← self.qusd.transfer this sender amount
  .ok { self with
    qusd := qusd
    totalSupply := totalSupply
    totalLocked := totalLocked
    totalUnwrapped := totalUnwrapped
    balances := self.balances.debit sender amount }

/-- `verified` is what the verifier contract answers, where there is one. -/
def bridgeMint (sender recipient : Address) (amount : Nat) (proofHash : Word) (verified : Bool) :
    Except String WQUSD := do
  ensure (sender = self.bridgeOperator) "wQUSD: not bridge operator"
  self.whenNotPaused
  ensure (recipient ≠ 0) "wQUSD: zero recipient"
  ensure (0 < amount) "wQUSD: zero amount"
  ensure (self.processedProofs.value false proofHash = false) "wQUSD: proof already processed"
  ensure (self.proofVerifier = 0 ∨ verified = true) "wQUSD: proof verification failed"
  let totalSupply ← add self.totalSupply amount
  let received ← add (self.balanceOf recipient) amount
  .ok { self with
    processedProofs := self.processedProofs.insert proofHash true
    totalSupply := totalSupply
    balances := self.balances.set recipient received }

def bridgeBurn (sender holder : Address) (amount : Nat) : Except String WQUSD := do
  ensure (sender = self.bridgeOperator) "wQUSD: not bridge operator"
  self.whenNotPaused
  ensure (amount ≤ self.balanceOf holder) "wQUSD: insufficient balance"
  let totalSupply ← sub self.totalSupply amount
  .ok { self with totalSupply := totalSupply, balances := self.balances.debit holder amount }

def approve (sender spender : Address) (amount : Nat) : Except String WQUSD := do
  ensure (amount = 0 ∨ self.allowance sender spender = 0) "wQUSD: set allowance to 0 first"
  .ok { self with allowances := self.allowances.set (sender, spender) amount }

def move (holder toAddr : Address) (amount : Nat) : Except String WQUSD := do
  let debited := self.balances.debit holder amount
  let received ← add (debited.balance toAddr) amount
  .ok { self with balances := debited.set toAddr received }

def transfer (sender toAddr : Address) (amount : Nat) : Except String WQUSD := do
  self.whenNotPaused
  ensure (amount ≤ self.balanceOf sender) "wQUSD: insufficient"
  ensure (toAddr ≠ 0) "wQUSD: zero address"
  self.move sender toAddr amount

def transferFrom (sender holder toAddr : Address) (amount : Nat) : Except String WQUSD := do
  self.whenNotPaused
  ensure (amount ≤ self.balanceOf holder) "wQUSD: insufficient"
  ensure (amount ≤ self.allowance holder sender) "wQUSD: allowance exceeded"
  ensure (toAddr ≠ 0) "wQUSD: zero address"
  move { self with allowances := self.allowances.debit (holder, sender) amount } holder toAddr
    amount

/-- The calls to the wrapper, and to the token, which is in use elsewhere. -/
inductive Call (this : Address)
  | wrap (sender : Caller this) (amount : Nat)
  | unwrap (sender : Caller this) (amount : Nat)
  | bridgeMint (sender recipient : Address) (amount : Nat) (proofHash : Word) (verified : Bool)
  | bridgeBurn (sender holder : Address) (amount : Nat)
  | approve (sender spender : Address) (amount : Nat)
  | transfer (sender toAddr : Address) (amount : Nat)
  | transferFrom (sender holder toAddr : Address) (amount : Nat)
  | qusd (sender : Caller this) (c : QUSD.Call)

def call (self : WQUSD) : Call this → Except String WQUSD
  | .wrap sender amount => self.wrap this sender amount
  | .unwrap sender amount => self.unwrap this sender amount
  | .bridgeMint sender recipient amount proofHash verified =>
    self.bridgeMint sender recipient amount proofHash verified
  | .bridgeBurn sender holder amount => self.bridgeBurn sender holder amount
  | .approve sender spender amount => self.approve sender spender amount
  | .transfer sender toAddr amount => self.transfer sender toAddr amount
  | .transferFrom sender holder toAddr amount => self.transferFrom sender holder toAddr amount
  | .qusd sender c => do
    let qusd ← self.qusd.call sender c
    .ok { self with qusd := qusd }

/-- What has to hold of a call: what is wrapped arrives whole. -/
def Whole (self : WQUSD) : Call this → Prop
  | .wrap sender amount =>
    self.qusd.fee sender this amount = 0 ∨ self.qusd.reserveAddress = this
  | _ => True

instance : (c : Call this) → Decidable (self.Whole this c)
  | .wrap sender amount =>
    inferInstanceAs (Decidable (self.qusd.fee sender this amount = 0 ∨
      self.qusd.reserveAddress = this))
  | .unwrap .. | .bridgeMint .. | .bridgeBurn .. | .approve .. | .transfer .. | .transferFrom ..
  | .qusd .. => .isTrue trivial

/-- The wrapper holds what it says it has locked. -/
structure Backed (this : Address) (s : WQUSD) : Prop where
  locked : s.totalLocked ≤ s.qusd.balanceOf this
  closed : s.qusd.Closed this

variable {this self} {s t : WQUSD} {sender holder toAddr : Address} {amount : Nat}

theorem whenNotPaused_bind_eq_ok {k : Unit → Except String WQUSD} :
    (s.whenNotPaused >>= k) = .ok t ↔ s.paused = false ∧ k () = .ok t :=
  ensure_bind_eq_ok

theorem wrap_eq_ok (h : s.wrap this sender amount = .ok t) :
    s.qusd.transferFrom this sender this amount = .ok t.qusd ∧
      t.totalLocked = s.totalLocked + amount ∧ t.totalSupply = s.totalSupply + amount ∧
      t.balances = s.balances.credit sender amount := by
  unfold wrap at h
  rw [whenNotPaused_bind_eq_ok, ensure_bind_eq_ok, bind_eq_ok] at h
  obtain ⟨-, -, qusd, hqusd, h⟩ := h
  simp only [add_bind_eq_ok] at h
  cases h.2.2.2.2
  exact ⟨hqusd, rfl, rfl, rfl⟩

theorem unwrap_eq_ok (h : s.unwrap this sender amount = .ok t) :
    amount ≤ s.balanceOf sender ∧ s.qusd.transfer this sender amount = .ok t.qusd ∧
      t.totalLocked + amount = s.totalLocked ∧ t.totalSupply + amount = s.totalSupply ∧
      t.balances = s.balances.debit sender amount := by
  unfold unwrap at h
  simp only [whenNotPaused_bind_eq_ok, ensure_bind_eq_ok, sub_bind_eq_ok, add_bind_eq_ok] at h
  obtain ⟨-, -, hpays, hlocked, hsupply, -, -, h⟩ := h
  rw [bind_eq_ok] at h
  obtain ⟨qusd, hqusd, h⟩ := h
  cases h
  exact ⟨hpays, hqusd, Nat.sub_add_cancel hlocked, Nat.sub_add_cancel hsupply, rfl⟩

theorem bridgeMint_eq_ok {recipient : Address} {proofHash : Word} {verified : Bool}
    (h : s.bridgeMint sender recipient amount proofHash verified = .ok t) :
    t.qusd = s.qusd ∧ t.totalLocked = s.totalLocked ∧ t.totalSupply = s.totalSupply + amount ∧
      t.balances = s.balances.credit recipient amount := by
  unfold bridgeMint at h
  simp only [whenNotPaused_bind_eq_ok, ensure_bind_eq_ok, add_bind_eq_ok] at h
  obtain ⟨-, -, -, -, -, -, -, -, h⟩ := h
  cases h
  exact ⟨rfl, rfl, rfl, rfl⟩

theorem bridgeBurn_eq_ok (h : s.bridgeBurn sender holder amount = .ok t) :
    amount ≤ s.balanceOf holder ∧ t.qusd = s.qusd ∧ t.totalLocked = s.totalLocked ∧
      t.totalSupply + amount = s.totalSupply ∧ t.balances = s.balances.debit holder amount := by
  unfold bridgeBurn at h
  simp only [whenNotPaused_bind_eq_ok, ensure_bind_eq_ok, sub_bind_eq_ok] at h
  obtain ⟨-, -, hpays, hsupply, h⟩ := h
  cases h
  exact ⟨hpays, rfl, rfl, Nat.sub_add_cancel hsupply, rfl⟩

theorem move_eq_ok (h : s.move holder toAddr amount = .ok t) :
    t.qusd = s.qusd ∧ t.totalLocked = s.totalLocked ∧ t.totalSupply = s.totalSupply ∧
      t.balances = (s.balances.debit holder amount).credit toAddr amount := by
  unfold move at h
  rw [add_bind_eq_ok] at h
  cases h.2
  exact ⟨rfl, rfl, rfl, rfl⟩

theorem transfer_eq_ok (h : s.transfer sender toAddr amount = .ok t) :
    amount ≤ s.balanceOf sender ∧ s.move sender toAddr amount = .ok t := by
  unfold transfer at h
  simp only [whenNotPaused_bind_eq_ok, ensure_bind_eq_ok] at h
  exact ⟨h.2.1, h.2.2.2⟩

theorem transferFrom_eq_ok (h : s.transferFrom sender holder toAddr amount = .ok t) :
    amount ≤ s.balanceOf holder ∧
      move { s with allowances := s.allowances.debit (holder, sender) amount } holder toAddr amount =
        .ok t := by
  unfold transferFrom at h
  simp only [whenNotPaused_bind_eq_ok, ensure_bind_eq_ok] at h
  exact ⟨h.2.1, h.2.2.2.2⟩

/-- Every call keeps the supply the sum of the balances. -/
theorem call_supply {c : Call this} (h : s.balances.total = s.totalSupply)
    (hcall : call this s c = .ok t) : t.balances.total = t.totalSupply := by
  cases c with
  | wrap sender amount =>
    obtain ⟨-, -, hsupply, hbalances⟩ := wrap_eq_ok hcall
    rw [hbalances, Ledger.total_credit, h, hsupply]
  | unwrap sender amount =>
    obtain ⟨hpays, -, -, hsupply, hbalances⟩ := unwrap_eq_ok hcall
    have htotal := Ledger.total_debit hpays
    rw [hbalances]
    omega
  | bridgeMint sender recipient amount proofHash verified =>
    obtain ⟨-, -, hsupply, hbalances⟩ := bridgeMint_eq_ok hcall
    rw [hbalances, Ledger.total_credit, h, hsupply]
  | bridgeBurn sender holder amount =>
    obtain ⟨hpays, -, -, hsupply, hbalances⟩ := bridgeBurn_eq_ok hcall
    have htotal := Ledger.total_debit hpays
    rw [hbalances]
    omega
  | approve sender spender amount =>
    simp only [call, approve, ensure_bind_eq_ok] at hcall
    cases hcall.2
    exact h
  | transfer sender toAddr amount =>
    obtain ⟨hpays, hmove⟩ := transfer_eq_ok hcall
    obtain ⟨-, -, hsupply, hbalances⟩ := move_eq_ok hmove
    rw [hbalances, Ledger.total_move hpays, h, hsupply]
  | transferFrom sender holder toAddr amount =>
    obtain ⟨hpays, hmove⟩ := transferFrom_eq_ok hcall
    obtain ⟨-, -, hsupply, hbalances⟩ := move_eq_ok hmove
    rw [hbalances, hsupply]
    exact (Ledger.total_move hpays toAddr).trans h
  | qusd sender c =>
    rw [call, bind_eq_ok] at hcall
    obtain ⟨qusd, -, hcall⟩ := hcall
    cases hcall
    exact h

theorem Backed.of_eq (h : s.Backed this) (hqusd : t.qusd = s.qusd)
    (hlocked : t.totalLocked = s.totalLocked) : t.Backed this where
  locked := by
    rw [hqusd, hlocked]
    exact h.locked
  closed := hqusd ▸ h.closed

theorem call_backed {c : Call this} (h : s.Backed this) (hwhole : s.Whole this c)
    (hcall : call this s c = .ok t) : t.Backed this := by
  cases c with
  | wrap sender amount =>
    obtain ⟨hqusd, hlocked, -, -⟩ := wrap_eq_ok hcall
    obtain ⟨hbalance, hclosed⟩ := QUSD.transferFrom_this sender.2 hqusd
    obtain ⟨-, hfee, -⟩ := QUSD.balanceOf_of_transferWithFee (QUSD.transferFrom_eq_ok hqusd).2 this
    have hfee' : s.qusd.fee sender this amount ≤ amount := hfee
    have hold := h.locked
    refine ⟨?_, hclosed h.closed⟩
    rw [hlocked, hbalance, QUSD.received]
    cases hwhole with
    | inl hnone =>
      rw [hnone]
      omega
    | inr hreserve =>
      rw [if_pos hreserve.symm]
      omega
  | unwrap sender amount =>
    obtain ⟨-, hqusd, hlocked, -, -⟩ := unwrap_eq_ok hcall
    obtain ⟨hbalance, hclosed⟩ := QUSD.transfer_this hqusd
    have hold := h.locked
    exact ⟨by omega, hclosed h.closed⟩
  | bridgeMint sender recipient amount proofHash verified =>
    obtain ⟨hqusd, hlocked, -, -⟩ := bridgeMint_eq_ok hcall
    exact h.of_eq hqusd hlocked
  | bridgeBurn sender holder amount =>
    obtain ⟨-, hqusd, hlocked, -, -⟩ := bridgeBurn_eq_ok hcall
    exact h.of_eq hqusd hlocked
  | approve sender spender amount =>
    simp only [call, approve, ensure_bind_eq_ok] at hcall
    cases hcall.2
    exact h.of_eq rfl rfl
  | transfer sender toAddr amount =>
    obtain ⟨hqusd, hlocked, -, -⟩ := move_eq_ok (transfer_eq_ok hcall).2
    exact h.of_eq hqusd hlocked
  | transferFrom sender holder toAddr amount =>
    obtain ⟨hqusd, hlocked, -, -⟩ := move_eq_ok (transferFrom_eq_ok hcall).2
    exact h.of_eq hqusd hlocked
  | qusd sender c =>
    rw [call, bind_eq_ok] at hcall
    obtain ⟨qusd, hqusd, hcall⟩ := hcall
    cases hcall
    obtain ⟨hclosed, hbalance⟩ := QUSD.call_closed sender.2 h.closed hqusd
    exact ⟨h.locked.trans hbalance, hclosed⟩

/-- Both contracts as deployed. -/
def deployed (sender bridgeOperator tokenOwner reserveAddress : Address) : WQUSD :=
  initial sender bridgeOperator (.initial tokenOwner reserveAddress)

/-- The supply is what the holders have; and where every amount that is wrapped arrives whole,
the wrapper holds what it has locked. -/
theorem supply_and_backing (this sender bridgeOperator tokenOwner reserveAddress : Address)
    (calls : List (Call this)) :
    let start := deployed sender bridgeOperator tokenOwner reserveAddress
    (run (call this) start calls).balances.total = (run (call this) start calls).totalSupply ∧
      (Guarded (call this) (Whole this) start calls →
        (run (call this) start calls).totalLocked ≤
          (run (call this) start calls).qusd.balanceOf this) := by
  intro start
  constructor
  · have hstart : start.balances.total = start.totalSupply := rfl
    exact run_invariant (P := fun s => s.balances.total = s.totalSupply)
      (fun s c t h hcall => call_supply h hcall) hstart calls
  · intro hwhole
    have hstart : start.Backed this := ⟨Nat.zero_le _, QUSD.initial_closed _ _ _⟩
    exact (run_guarded (fun s c t h hwhole hcall => call_backed h hwhole hcall) hstart hwhole).locked

namespace Sample

theorem user_ne : (1 : Address) ≠ 5 := by decide

def user : Caller 5 := ⟨1, user_ne⟩

/-- With the fee of 0.05%. -/
def wrapping : List (Call 5) := [.qusd user (.approve 5 10000), .wrap user 10000]

end Sample

theorem supply_and_backing_sample :
    (run (call 5) (deployed 1 2 1 3) [.qusd Sample.user (.setFeeExempt 5 true),
        .qusd Sample.user (.approve 5 10000), .wrap Sample.user 10000,
        .unwrap Sample.user 4000]).totalLocked ≤
      (run (call 5) (deployed 1 2 1 3) [.qusd Sample.user (.setFeeExempt 5 true),
        .qusd Sample.user (.approve 5 10000), .wrap Sample.user 10000,
        .unwrap Sample.user 4000]).qusd.balanceOf 5 :=
  (supply_and_backing 5 1 2 1 3 _).2 (by decide +kernel)

/-- 10000 are locked, 9995 have arrived. -/
theorem wrap_pays_fee :
    ¬∀ (this sender bridgeOperator tokenOwner reserveAddress : Address) (calls : List (Call this)),
      (run (call this) (deployed sender bridgeOperator tokenOwner reserveAddress) calls).totalLocked ≤
        (run (call this) (deployed sender bridgeOperator tokenOwner reserveAddress)
          calls).qusd.balanceOf this := by
  intro h
  have hbacked := h 5 1 2 1 3 Sample.wrapping
  revert hbacked
  decide +kernel

end WQUSD

end Qubitcoin.Contracts
