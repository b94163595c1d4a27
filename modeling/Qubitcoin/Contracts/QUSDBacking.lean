import Qubitcoin.Contracts.QUSD
import Qubitcoin.Contracts.QUSDDebtLedger
import Qubitcoin.Contracts.QUSDReserve

/-! The token, its debt ledger and its reserve together: what backs QUSD. -/

namespace Qubitcoin.Contracts

open Solidity Checked
open Evm (Address)

/-- Where the three contracts are. -/
structure Sites where
  qusd : Address
  ledger : Address
  reserve : Address

/-- `paidIn` is kept by no contract: it sums what the transfers that the reserve has received were
worth at the time. -/
structure QUSDBacking where
  qusd : QUSD
  ledger : QUSDDebtLedger
  reserve : QUSDReserve
  paidIn : ℚ := 0

namespace QUSDBacking

variable (sites : Sites) (self : QUSDBacking)

/-- `mint` with its calls to the debt ledger.  `recorded` is what another contract answers that
the token takes for its ledger. -/
def mint (sender toAddr : Address) (amount timestamp : Nat) (recorded : Except String Unit) :
    Except String QUSDBacking := do
  let qusd ← self.qusd.mint sender toAddr amount timestamp
  if qusd.debtLedger = 0 then .ok { self with qusd := qusd }
  else if qusd.debtLedger = sites.ledger then do
    let noted ← self.ledger.recordDebt sites.qusd amount
    let ledger ← noted.recordAccountDebt sites.qusd toAddr amount
    .ok { self with qusd := qusd, ledger := ledger }
  else do
    recorded
    .ok { self with qusd := qusd }

/-- The value that a deposit reports to the debt ledger. -/
def reported (usdValue : Nat) : Nat :=
  if self.reserve.debtLedger ≠ 0 ∧ self.reserve.debtLedger = sites.ledger then usdValue else 0

/-- `deposit` with its call to the debt ledger.  The token's answer is what the reserve receives;
`price` is the price of the asset at its oracle. -/
def deposit (a : Address) (amount usdValue : Nat) (received : Option Nat) (price : Nat)
    (recorded : Except String Unit) : Except String QUSDBacking := do
  let reserve ← self.reserve.deposit a amount usdValue received.isSome
  let deposited := { self with
    reserve := reserve
    paidIn := self.paidIn + self.reserve.worth a (received.getD 0) price }
  if reserve.debtLedger = 0 ∨ usdValue = 0 then .ok deposited
  else if reserve.debtLedger = sites.ledger then do
    let ledger ← self.ledger.recordPayback sites.reserve usdValue
    .ok { deposited with ledger := ledger }
  else do
    recorded
    .ok deposited

/-- The calls to the three contracts, and the tokens that reach the reserve by themselves.  Only
`mint` and `deposit` make the token and the reserve call the debt ledger. -/
inductive Call (sites : Sites)
  | mint (sender toAddr : Address) (amount timestamp : Nat) (recorded : Except String Unit)
  | deposit (a : Address) (amount usdValue : Nat) (received : Option Nat) (price : Nat)
      (recorded : Except String Unit)
  | arrive (a : Address) (amount price : Nat)
  | qusd (sender : Address) (c : QUSD.Call) (notMint : ∀ toAddr amount timestamp,
      c ≠ .mint toAddr amount timestamp)
  | ledger (sender : { a : Address // a ≠ sites.qusd ∧ a ≠ sites.reserve })
      (c : QUSDDebtLedger.Call)
  | reserve (sender : Address) (c : QUSDReserve.Call)

def call (self : QUSDBacking) : Call sites → Except String QUSDBacking
  | .mint sender toAddr amount timestamp recorded =>
    self.mint sites sender toAddr amount timestamp recorded
  | .deposit a amount usdValue received price recorded =>
    self.deposit sites a amount usdValue received price recorded
  | .arrive a amount price =>
    .ok { self with paidIn := self.paidIn + self.reserve.worth a amount price }
  | .qusd sender c _ => do
    let qusd ← self.qusd.call sender c
    .ok { self with qusd := qusd }
  | .ledger sender c => do
    let ledger ← self.ledger.call sender c
    .ok { self with ledger := ledger }
  | .reserve sender c => do
    let reserve ← self.reserve.call sender c
    .ok { self with reserve := reserve }

/-- What the debt ledger reports has been paid in. -/
def Truthful : Prop := (self.ledger.totalReserveValue : ℚ) ≤ self.paidIn

/-- What a call reports as paid back has been paid in. -/
def Paid (self : QUSDBacking) : Call sites → Prop
  | .deposit a _ usdValue received price _ =>
    (self.ledger.totalReserveValue + self.reported sites usdValue : ℚ) ≤
      self.paidIn + self.reserve.worth a (received.getD 0) price
  | .ledger _ c =>
    (self.ledger.totalReserveValue + QUSDDebtLedger.paidBack c : ℚ) ≤ self.paidIn
  | _ => True

variable {sites self} {s t : QUSDBacking}

theorem mint_eq_ok {sender toAddr : Address} {amount timestamp : Nat}
    {recorded : Except String Unit}
    (h : s.mint sites sender toAddr amount timestamp recorded = .ok t) :
    t.ledger.totalReserveValue = s.ledger.totalReserveValue ∧ t.paidIn = s.paidIn := by
  rw [mint, bind_eq_ok] at h
  obtain ⟨qusd, -, h⟩ := h
  split at h
  · cases h
    exact ⟨rfl, rfl⟩
  · split at h
    · rw [bind_eq_ok] at h
      obtain ⟨noted, hdebt, h⟩ := h
      rw [bind_eq_ok] at h
      obtain ⟨ledger, haccount, h⟩ := h
      cases h
      refine ⟨?_, rfl⟩
      exact (QUSDDebtLedger.recordAccountDebt_eq_ok haccount).trans
        (QUSDDebtLedger.recordDebt_eq_ok hdebt)
    · rw [bind_eq_ok] at h
      obtain ⟨-, -, h⟩ := h
      cases h
      exact ⟨rfl, rfl⟩

theorem debtLedger_of_deposit {r r' : QUSDReserve} {a : Address} {amount usdValue : Nat}
    {transferred : Bool} (h : r.deposit a amount usdValue transferred = .ok r') :
    r'.debtLedger = r.debtLedger := by
  unfold QUSDReserve.deposit QUSDReserve.whenNotPaused at h
  simp only [ensure_bind_eq_ok, add_bind_eq_ok] at h
  cases h.2.2.2.2.2.2.2
  rfl

theorem deposit_eq_ok {a : Address} {amount usdValue price : Nat} {received : Option Nat}
    {recorded : Except String Unit}
    (h : s.deposit sites a amount usdValue received price recorded = .ok t) :
    t.ledger.totalReserveValue = s.ledger.totalReserveValue + s.reported sites usdValue ∧
      t.paidIn = s.paidIn + s.reserve.worth a (received.getD 0) price := by
  rw [deposit, bind_eq_ok] at h
  obtain ⟨reserve, hreserve, h⟩ := h
  have hwired := debtLedger_of_deposit hreserve
  dsimp only at h
  rw [hwired] at h
  unfold reported
  split at h
  · next hnone =>
    cases h
    refine ⟨?_, rfl⟩
    split
    · next hwire => rw [hnone.resolve_left hwire.1, Nat.add_zero]
    · rfl
  · next hsome =>
    rw [not_or] at hsome
    split at h
    · next hthis =>
      rw [bind_eq_ok] at h
      obtain ⟨ledger, hledger, h⟩ := h
      cases h
      rw [if_pos ⟨hsome.1, hthis⟩]
      exact ⟨QUSDDebtLedger.recordPayback_eq_ok hledger, rfl⟩
    · next hother =>
      rw [bind_eq_ok] at h
      obtain ⟨-, -, h⟩ := h
      cases h
      rw [if_neg (fun hwire => hother hwire.2)]
      exact ⟨rfl, rfl⟩

/-- What a call needs to keep the report truthful. -/
theorem call_truthful_iff {c : Call sites} (hs : s.Truthful) (h : call sites s c = .ok t) :
    t.Truthful ↔ s.Paid sites c := by
  cases c with
  | mint sender toAddr amount timestamp recorded =>
    obtain ⟨hvalue, hpaid⟩ := mint_eq_ok h
    refine iff_of_true ?_ trivial
    rw [Truthful, hvalue, hpaid]
    exact hs
  | deposit a amount usdValue received price recorded =>
    obtain ⟨hvalue, hpaid⟩ := deposit_eq_ok h
    rw [Truthful, hvalue, hpaid, Nat.cast_add]
    exact Iff.rfl
  | arrive a amount price =>
    cases h
    exact iff_of_true (le_add_of_le_of_nonneg hs (QUSDReserve.worth_nonneg _ _ _)) trivial
  | qusd sender c notMint =>
    rw [call, bind_eq_ok] at h
    obtain ⟨qusd, -, h⟩ := h
    cases h
    exact iff_of_true hs trivial
  | ledger sender c =>
    rw [call, bind_eq_ok] at h
    obtain ⟨ledger, hledger, h⟩ := h
    cases h
    rw [Truthful, QUSDDebtLedger.call_eq_ok hledger, Nat.cast_add]
    exact Iff.rfl
  | reserve sender c =>
    rw [call, bind_eq_ok] at h
    obtain ⟨reserve, -, h⟩ := h
    cases h
    exact iff_of_true hs trivial

/-- The three contracts as deployed. -/
def deployed (qusdOwner reserveAddress ledgerOwner qusdToken reservePool reserveOwner governance
    oracle : Address) : QUSDBacking where
  qusd := .initial qusdOwner reserveAddress
  ledger := .initial ledgerOwner qusdToken reservePool
  reserve := .initial reserveOwner governance oracle

/-- The reported backing is truthful all along a run exactly if what the deposits and the
paybacks report has been paid in. -/
theorem truthful_iff_paid (sites : Sites)
    (qusdOwner reserveAddress ledgerOwner qusdToken reservePool reserveOwner governance oracle :
      Address) (calls : List (Call sites)) :
    let start := deployed qusdOwner reserveAddress ledgerOwner qusdToken reservePool reserveOwner
      governance oracle
    (∀ before, before <+: calls → (run (call sites) start before).Truthful) ↔
      Guarded (call sites) (Paid sites) start calls := by
  intro start
  apply forall_prefix_iff_guarded
  · intro s c t hs h
    exact call_truthful_iff hs h
  · exact le_of_eq Nat.cast_zero

namespace Sample

def deployment : Sites := ⟨11, 12, 13⟩

/-- One unit of an asset, reported as 10000 USD. -/
def overstating : List (Call deployment) :=
  [.reserve 1 (.registerAsset 100 "USDC" 8), .reserve 1 (.setAssetOracle 100 200),
    .reserve 1 (.setDebtLedger 12), .deposit 100 1 1000000000000 (some 1) 100000000 (.ok ())]

end Sample

/-- What has been paid in is worth 10 ^ -8 USD. -/
theorem deposit_overstates :
    ¬∀ (sites : Sites) (qusdOwner reserveAddress ledgerOwner qusdToken reservePool reserveOwner
        governance oracle : Address) (calls : List (Call sites)),
      (run (call sites) (deployed qusdOwner reserveAddress ledgerOwner qusdToken reservePool
        reserveOwner governance oracle) calls).Truthful := by
  intro h
  have htruthful := h Sample.deployment 1 13 1 11 13 1 2 3 Sample.overstating
  revert htruthful
  unfold Truthful
  decide +kernel

end QUSDBacking

end Qubitcoin.Contracts
