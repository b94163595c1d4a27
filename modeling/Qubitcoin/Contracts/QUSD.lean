import Qubitcoin.Contracts.QBC20

/-! The stablecoin: a token with a transfer fee that goes to the reserve. -/

namespace Qubitcoin.Contracts

open Solidity Checked
open Evm (Address)

structure QUSD where
  feeBps : Nat := 5
  owner : Address
  reserveAddress : Address
  debtLedger : Address := 0
  stabilizer : Address := 0
  paused : Bool := false
  totalSupply : Nat := 0
  totalMinted : Nat := 0
  totalBurned : Nat := 0
  totalFeesCollected : Nat := 0
  balances : Ledger Address := ∅
  allowances : Ledger (Address × Address) := ∅
  feeExempt : StorageMap Address Bool := ∅
  stabilizerDailyMintCap : Nat := 0
  stabilizerMintedToday : Nat := 0
  stabilizerMintDayStart : Nat := 0

namespace QUSD

def initialSupply : Nat := 3300000000 * 10 ^ 8
def bpsDenom : Nat := 10000

def initial (sender reserveAddress : Address) : QUSD where
  owner := sender
  reserveAddress := reserveAddress
  totalSupply := initialSupply
  totalMinted := initialSupply
  balances := Ledger.set ∅ sender initialSupply

variable (self : QUSD)

def balanceOf (account : Address) : Nat := self.balances.balance account

def allowance (holder spender : Address) : Nat := self.allowances.balance (holder, spender)

def exempt (account : Address) : Bool := self.feeExempt.value false account

def onlyOwner (sender : Address) : Except String Unit :=
  ensure (sender = self.owner) "QUSD: caller is not owner"

def whenNotPaused : Except String Unit := ensure (self.paused = false) "QUSD: paused"

def approve (sender spender : Address) (amount : Nat) : Except String QUSD := do
  ensure (amount = 0 ∨ self.allowance sender spender = 0) "QUSD: set allowance to 0 first"
  .ok { self with allowances := self.allowances.set (sender, spender) amount }

def transferWithFee (holder toAddr : Address) (amount : Nat) : Except String QUSD := do
  ensure (holder ≠ 0) "QUSD: from zero"
  ensure (toAddr ≠ 0) "QUSD: to zero"
  ensure (amount ≤ self.balanceOf holder) "QUSD: insufficient balance"
  let debited := self.balances.debit holder amount
  if self.exempt holder ∨ self.exempt toAddr then do
    let received ← add (debited.balance toAddr) amount
    .ok { self with balances := debited.set toAddr received }
  else do
    let scaled ← mul amount self.feeBps
    let fee ← div scaled bpsDenom
    let netAmount ← sub amount fee
    let received ← add (debited.balance toAddr) netAmount
    let credited := debited.set toAddr received
    let collected ← add (credited.balance self.reserveAddress) fee
    let totalFeesCollected ← add self.totalFeesCollected fee
    .ok { self with
      balances := credited.set self.reserveAddress collected
      totalFeesCollected := totalFeesCollected }

def transfer (sender toAddr : Address) (amount : Nat) : Except String QUSD := do
  self.whenNotPaused
  self.transferWithFee sender toAddr amount

def transferFrom (sender holder toAddr : Address) (amount : Nat) : Except String QUSD := do
  self.whenNotPaused
  ensure (amount ≤ self.allowance holder sender) "QUSD: allowance exceeded"
  transferWithFee { self with allowances := self.allowances.debit (holder, sender) amount } holder
    toAddr amount

/-- The daily cap of the stabilizer. -/
def capMint (sender : Address) (amount timestamp : Nat) : Except String QUSD :=
  if sender = self.stabilizer ∧ 0 < self.stabilizerDailyMintCap then do
    let dayStart := timestamp / 86400 * 86400
    let today :=
      if self.stabilizerMintDayStart < dayStart then
        { self with stabilizerMintedToday := 0, stabilizerMintDayStart := dayStart }
      else self
    let mintedToday ← add today.stabilizerMintedToday amount
    ensure (mintedToday ≤ self.stabilizerDailyMintCap) "QUSD: stabilizer daily cap exceeded"
    .ok { today with stabilizerMintedToday := mintedToday }
  else .ok self

/-- `mint` up to the calls to the debt ledger. -/
def mint (sender toAddr : Address) (amount timestamp : Nat) : Except String QUSD := do
  ensure (sender = self.owner ∨ sender = self.stabilizer) "QUSD: caller is not authorized minter"
  self.whenNotPaused
  ensure (toAddr ≠ 0) "QUSD: mint to zero"
  let capped ← self.capMint sender amount timestamp
  let totalSupply ← add capped.totalSupply amount
  let totalMinted ← add capped.totalMinted amount
  let received ← add (capped.balanceOf toAddr) amount
  .ok { capped with
    totalSupply := totalSupply
    totalMinted := totalMinted
    balances := capped.balances.set toAddr received }

def burn (sender : Address) (amount : Nat) : Except String QUSD := do
  self.whenNotPaused
  ensure (amount ≤ self.balanceOf sender) "QUSD: burn exceeds balance"
  let totalSupply ← sub self.totalSupply amount
  let totalBurned ← add self.totalBurned amount
  .ok { self with
    balances := self.balances.debit sender amount
    totalSupply := totalSupply
    totalBurned := totalBurned }

def setFeeBps (sender : Address) (newFeeBps : Nat) : Except String QUSD := do
  self.onlyOwner sender
  ensure (newFeeBps ≤ 1000) "QUSD: fee too high"
  .ok { self with feeBps := newFeeBps }

def setFeeExempt (sender account : Address) (exempt : Bool) : Except String QUSD := do
  self.onlyOwner sender
  ensure (account ≠ 0) "QUSD: zero account"
  .ok { self with feeExempt := self.feeExempt.insert account exempt }

def setReserveAddress (sender newReserve : Address) : Except String QUSD := do
  self.onlyOwner sender
  ensure (newReserve ≠ 0) "QUSD: zero reserve"
  .ok { self with reserveAddress := newReserve }

def setDebtLedger (sender debtLedger : Address) : Except String QUSD := do
  self.onlyOwner sender
  ensure (debtLedger ≠ 0) "QUSD: zero debt ledger"
  .ok { self with debtLedger := debtLedger }

def setStabilizer (sender stabilizer : Address) : Except String QUSD := do
  self.onlyOwner sender
  ensure (stabilizer ≠ 0) "QUSD: zero stabilizer"
  .ok { self with stabilizer := stabilizer }

def setStabilizerDailyMintCap (sender : Address) (cap : Nat) : Except String QUSD := do
  self.onlyOwner sender
  .ok { self with stabilizerDailyMintCap := cap }

def setPaused (sender : Address) (paused : Bool) : Except String QUSD := do
  self.onlyOwner sender
  .ok { self with paused := paused }

def transferOwnership (sender newOwner : Address) : Except String QUSD := do
  self.onlyOwner sender
  ensure (newOwner ≠ 0) "QUSD: zero owner"
  .ok { self with owner := newOwner }

inductive Call
  | approve (spender : Address) (amount : Nat)
  | transfer (toAddr : Address) (amount : Nat)
  | transferFrom (holder toAddr : Address) (amount : Nat)
  | mint (toAddr : Address) (amount timestamp : Nat)
  | burn (amount : Nat)
  | setFeeBps (newFeeBps : Nat)
  | setFeeExempt (account : Address) (exempt : Bool)
  | setReserveAddress (newReserve : Address)
  | setDebtLedger (debtLedger : Address)
  | setStabilizer (stabilizer : Address)
  | setStabilizerDailyMintCap (cap : Nat)
  | setPaused (paused : Bool)
  | transferOwnership (newOwner : Address)

def call (sender : Address) : Call → Except String QUSD
  | .approve spender amount => self.approve sender spender amount
  | .transfer toAddr amount => self.transfer sender toAddr amount
  | .transferFrom holder toAddr amount => self.transferFrom sender holder toAddr amount
  | .mint toAddr amount timestamp => self.mint sender toAddr amount timestamp
  | .burn amount => self.burn sender amount
  | .setFeeBps newFeeBps => self.setFeeBps sender newFeeBps
  | .setFeeExempt account exempt => self.setFeeExempt sender account exempt
  | .setReserveAddress newReserve => self.setReserveAddress sender newReserve
  | .setDebtLedger debtLedger => self.setDebtLedger sender debtLedger
  | .setStabilizer stabilizer => self.setStabilizer sender stabilizer
  | .setStabilizerDailyMintCap cap => self.setStabilizerDailyMintCap sender cap
  | .setPaused paused => self.setPaused sender paused
  | .transferOwnership newOwner => self.transferOwnership sender newOwner

/-- The fee of a transfer. -/
def fee (holder toAddr : Address) (amount : Nat) : Nat :=
  if self.exempt holder ∨ self.exempt toAddr then 0 else amount * self.feeBps / bpsDenom

/-- What a transfer to `toAddr` adds there, the fee included where it is the reserve. -/
def received (holder toAddr : Address) (amount : Nat) : Nat :=
  amount - self.fee holder toAddr amount +
    if toAddr = self.reserveAddress then self.fee holder toAddr amount else 0

variable {self} {s t : QUSD} {this sender holder toAddr : Address} {amount : Nat}

/-- The balances after a transfer. -/
theorem balanceOf_of_transferWithFee (h : s.transferWithFee holder toAddr amount = .ok t)
    (a : Address) :
    amount ≤ s.balanceOf holder ∧ s.fee holder toAddr amount ≤ amount ∧
      t.balanceOf a + (if a = holder then amount else 0) =
        s.balanceOf a + (if a = toAddr then amount - s.fee holder toAddr amount else 0) +
          (if a = s.reserveAddress then s.fee holder toAddr amount else 0) := by
  unfold transferWithFee at h
  simp only [ensure_bind_eq_ok] at h
  obtain ⟨-, -, hpays, h⟩ := h
  have hdebit := Ledger.balance_debit_add hpays a
  refine ⟨hpays, ?_⟩
  split at h
  · next hexempt =>
    rw [add_bind_eq_ok] at h
    cases h.2
    have hfee : s.fee holder toAddr amount = 0 := if_pos hexempt
    have hcredit := (s.balances.debit holder amount).balance_credit_add toAddr a amount
    rw [hfee]
    refine ⟨Nat.zero_le _, ?_⟩
    change ((s.balances.debit holder amount).credit toAddr amount).balance a + _ =
      s.balances.balance a + _ + _
    rw [Nat.sub_zero, ite_self]
    omega
  · next hexempt =>
    simp only [mul_bind_eq_ok, div_bind_eq_ok, sub_bind_eq_ok, add_bind_eq_ok] at h
    obtain ⟨-, -, hle, -, -, -, h⟩ := h
    cases h
    have hfee : s.fee holder toAddr amount = amount * s.feeBps / bpsDenom := if_neg hexempt
    rw [hfee]
    generalize amount * s.feeBps / bpsDenom = fee at hle
    have hcredit := (s.balances.debit holder amount).balance_credit_add toAddr a (amount - fee)
    have hcollect := ((s.balances.debit holder amount).credit toAddr
      (amount - fee)).balance_credit_add s.reserveAddress a fee
    refine ⟨hle, ?_⟩
    change (((s.balances.debit holder amount).credit toAddr (amount - fee)).credit
      s.reserveAddress fee).balance a + _ = s.balances.balance a + _ + _
    omega

theorem allowances_of_transferWithFee (h : s.transferWithFee holder toAddr amount = .ok t) :
    t.allowances = s.allowances := by
  unfold transferWithFee at h
  simp only [ensure_bind_eq_ok] at h
  obtain ⟨-, -, -, h⟩ := h
  split at h
  · rw [add_bind_eq_ok] at h
    cases h.2
    rfl
  · simp only [mul_bind_eq_ok, div_bind_eq_ok, sub_bind_eq_ok, add_bind_eq_ok] at h
    cases h.2.2.2.2.2.2
    rfl

theorem whenNotPaused_bind_eq_ok {k : Unit → Except String QUSD} :
    (s.whenNotPaused >>= k) = .ok t ↔ s.paused = false ∧ k () = .ok t :=
  ensure_bind_eq_ok

theorem onlyOwner_bind_eq_ok {k : Unit → Except String QUSD} :
    (s.onlyOwner sender >>= k) = .ok t ↔ sender = s.owner ∧ k () = .ok t :=
  ensure_bind_eq_ok

theorem transfer_eq_ok (h : s.transfer sender toAddr amount = .ok t) :
    s.transferWithFee sender toAddr amount = .ok t := by
  unfold transfer at h
  exact (whenNotPaused_bind_eq_ok.mp h).2

theorem transferFrom_eq_ok (h : s.transferFrom sender holder toAddr amount = .ok t) :
    amount ≤ s.allowance holder sender ∧
      transferWithFee { s with allowances := s.allowances.debit (holder, sender) amount } holder
        toAddr amount = .ok t := by
  unfold transferFrom at h
  rw [whenNotPaused_bind_eq_ok, ensure_bind_eq_ok] at h
  exact h.2

theorem capMint_eq_ok {timestamp : Nat} (h : s.capMint sender amount timestamp = .ok t) :
    t.balances = s.balances ∧ t.allowances = s.allowances := by
  unfold capMint at h
  split at h
  · simp only [add_bind_eq_ok, ensure_bind_eq_ok] at h
    cases h.2.2
    dsimp only
    split <;> exact ⟨rfl, rfl⟩
  · cases h
    exact ⟨rfl, rfl⟩

theorem mint_eq_ok {timestamp : Nat} (h : s.mint sender toAddr amount timestamp = .ok t) :
    t.balances = s.balances.credit toAddr amount ∧ t.allowances = s.allowances := by
  unfold mint at h
  rw [ensure_bind_eq_ok, whenNotPaused_bind_eq_ok, ensure_bind_eq_ok, bind_eq_ok] at h
  obtain ⟨-, -, -, capped, hcapped, h⟩ := h
  simp only [add_bind_eq_ok] at h
  cases h.2.2.2
  obtain ⟨hbalances, hallowances⟩ := capMint_eq_ok hcapped
  refine ⟨?_, hallowances⟩
  dsimp only
  unfold balanceOf
  rw [hbalances]
  rfl

theorem burn_eq_ok (h : s.burn sender amount = .ok t) :
    amount ≤ s.balanceOf sender ∧ t.balances = s.balances.debit sender amount ∧
      t.allowances = s.allowances := by
  unfold burn at h
  rw [whenNotPaused_bind_eq_ok, ensure_bind_eq_ok, sub_bind_eq_ok, add_bind_eq_ok] at h
  obtain ⟨-, hpays, -, -, h⟩ := h
  cases h
  exact ⟨hpays, rfl, rfl⟩

/-- `this` lets nobody spend what it holds. -/
def Closed (s : QUSD) (this : Address) : Prop := ∀ spender, s.allowance this spender = 0

theorem initial_closed (this sender reserveAddress : Address) :
    (initial sender reserveAddress).Closed this :=
  fun _ => Ledger.balance_empty _

theorem Closed.of_allowances (h : s.Closed this) (heq : t.allowances = s.allowances) :
    t.Closed this := by
  intro spender
  unfold allowance
  rw [heq]
  exact h spender

theorem Closed.debit (h : s.Closed this) (holder spender : Address) (amount : Nat) :
    Closed { s with allowances := s.allowances.debit (holder, spender) amount } this := by
  intro other
  have hother : s.allowances.balance (this, other) = 0 := h other
  unfold allowance
  rw [Ledger.balance_debit]
  split
  · next heq => rw [← heq, hother, Nat.zero_sub]
  · exact hother

/-- A contract takes in what it was allowed to, less the fee that does not come back. -/
theorem transferFrom_this (hholder : holder ≠ this)
    (h : s.transferFrom this holder this amount = .ok t) :
    t.balanceOf this = s.balanceOf this + s.received holder this amount ∧
      (s.Closed this → t.Closed this) := by
  obtain ⟨-, htransfer⟩ := transferFrom_eq_ok h
  obtain ⟨-, -, hbalance⟩ := balanceOf_of_transferWithFee htransfer this
  rw [if_neg hholder.symm, if_pos rfl] at hbalance
  refine ⟨?_, fun hclosed =>
    (hclosed.debit _ _ _).of_allowances (allowances_of_transferWithFee htransfer)⟩
  exact hbalance.trans (Nat.add_assoc _ _ _)

/-- A contract pays. -/
theorem transfer_this (h : s.transfer this toAddr amount = .ok t) :
    s.balanceOf this ≤ t.balanceOf this + amount ∧ (s.Closed this → t.Closed this) := by
  have htransfer := transfer_eq_ok h
  obtain ⟨-, -, hbalance⟩ := balanceOf_of_transferWithFee htransfer this
  rw [if_pos rfl] at hbalance
  exact ⟨by omega, fun hclosed => hclosed.of_allowances (allowances_of_transferWithFee htransfer)⟩

/-- A call by somebody else takes nothing from a closed account. -/
theorem call_closed {c : Call} (hsender : sender ≠ this) (hclosed : s.Closed this)
    (h : s.call sender c = .ok t) : t.Closed this ∧ s.balanceOf this ≤ t.balanceOf this := by
  cases c with
  | approve spender amount =>
    simp only [call, approve, ensure_bind_eq_ok] at h
    cases h.2
    refine ⟨fun other => ?_, le_refl _⟩
    have hother := hclosed other
    simp [allowance, hsender.symm] at hother ⊢
    exact hother
  | transfer toAddr amount =>
    have htransfer := transfer_eq_ok h
    obtain ⟨-, -, hbalance⟩ := balanceOf_of_transferWithFee htransfer this
    rw [if_neg hsender.symm] at hbalance
    exact ⟨hclosed.of_allowances (allowances_of_transferWithFee htransfer), by omega⟩
  | transferFrom holder toAddr amount =>
    obtain ⟨hallowed, htransfer⟩ := transferFrom_eq_ok h
    obtain ⟨-, -, hbalance⟩ := balanceOf_of_transferWithFee htransfer this
    change _ = s.balanceOf this + _ + _ at hbalance
    refine ⟨(hclosed.debit _ _ _).of_allowances (allowances_of_transferWithFee htransfer), ?_⟩
    have hnothing : (if this = holder then amount else 0) = 0 := by
      split
      · next heq =>
        rw [← heq, hclosed sender] at hallowed
        exact Nat.le_zero.mp hallowed
      · rfl
    omega
  | mint toAddr amount timestamp =>
    obtain ⟨hbalances, hallowances⟩ := mint_eq_ok h
    refine ⟨hclosed.of_allowances hallowances, ?_⟩
    unfold balanceOf
    rw [hbalances, Ledger.balance_credit_add]
    exact Nat.le_add_right _ _
  | burn amount =>
    obtain ⟨hpays, hbalances, hallowances⟩ := burn_eq_ok h
    refine ⟨hclosed.of_allowances hallowances, ?_⟩
    unfold balanceOf
    rw [hbalances, Ledger.balance_debit, if_neg hsender.symm]
  | setFeeBps newFeeBps =>
    simp only [call, setFeeBps, onlyOwner_bind_eq_ok, ensure_bind_eq_ok] at h
    cases h.2.2
    exact ⟨hclosed, le_refl _⟩
  | setFeeExempt account exempt =>
    simp only [call, setFeeExempt, onlyOwner_bind_eq_ok, ensure_bind_eq_ok] at h
    cases h.2.2
    exact ⟨hclosed, le_refl _⟩
  | setReserveAddress newReserve =>
    simp only [call, setReserveAddress, onlyOwner_bind_eq_ok, ensure_bind_eq_ok] at h
    cases h.2.2
    exact ⟨hclosed, le_refl _⟩
  | setDebtLedger debtLedger =>
    simp only [call, setDebtLedger, onlyOwner_bind_eq_ok, ensure_bind_eq_ok] at h
    cases h.2.2
    exact ⟨hclosed, le_refl _⟩
  | setStabilizer stabilizer =>
    simp only [call, setStabilizer, onlyOwner_bind_eq_ok, ensure_bind_eq_ok] at h
    cases h.2.2
    exact ⟨hclosed, le_refl _⟩
  | setStabilizerDailyMintCap cap =>
    simp only [call, setStabilizerDailyMintCap, onlyOwner_bind_eq_ok] at h
    cases h.2
    exact ⟨hclosed, le_refl _⟩
  | setPaused paused =>
    simp only [call, setPaused, onlyOwner_bind_eq_ok] at h
    cases h.2
    exact ⟨hclosed, le_refl _⟩
  | transferOwnership newOwner =>
    simp only [call, transferOwnership, onlyOwner_bind_eq_ok, ensure_bind_eq_ok] at h
    cases h.2.2
    exact ⟨hclosed, le_refl _⟩

end QUSD

end Qubitcoin.Contracts
