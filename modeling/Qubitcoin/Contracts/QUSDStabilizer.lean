import Qubitcoin.Contracts.QUSD

/-! The stabilizer of the peg, and the tokens behind its books. -/

namespace Qubitcoin.Contracts

open Solidity Checked
open Evm (Address)

/-- `qbc` and `qusd` are the contracts at `qbcToken` and `qusdToken`, where these are set. -/
structure QUSDStabilizer where
  owner : Address
  governance : Address
  oracleAddress : Address
  qusdToken : Address
  qbcToken : Address
  pegTarget : Nat := 100000000
  floorPrice : Nat := 99000000
  ceilingPrice : Nat := 101000000
  maxTradeSize : Nat := 1000000 * 10 ^ 18
  stabilityFundBalance : Nat := 0
  qusdHeld : Nat := 0
  totalBuyInterventions : Nat := 0
  totalSellInterventions : Nat := 0
  autoRebalanceEnabled : Bool := true
  paused : Bool := false
  lastRebalanceBlock : Nat := 0
  qbc : QBC20
  qusd : QUSD

namespace QUSDStabilizer

def rebalanceCooldown : Nat := 10

def initial (sender governance oracle qusdToken qbcToken : Address) (qbc : QBC20) (qusd : QUSD) :
    QUSDStabilizer where
  owner := sender
  governance := governance
  oracleAddress := oracle
  qusdToken := qusdToken
  qbcToken := qbcToken
  qbc := qbc
  qusd := qusd

variable (this : Address) (self : QUSDStabilizer)

def onlyOwner (sender : Address) : Except String Unit :=
  ensure (sender = self.owner) "Stabilizer: not owner"

def onlyGovernance (sender : Address) : Except String Unit :=
  ensure (sender = self.governance) "Stabilizer: not governance"

def whenNotPaused : Except String Unit := ensure (self.paused = false) "Stabilizer: paused"

/-- `price` is what the oracle answers. -/
def getOraclePrice (price : Nat) : Except String Nat := do
  ensure (self.oracleAddress ≠ 0) "Stabilizer: oracle not set"
  ensure (0 < price) "Stabilizer: oracle returned zero price"
  .ok price

/-- What the debt ledger of the token answers, where there is one. -/
def recordMint (qusd : QUSD) (recorded : Except String Unit) : Except String Unit :=
  if qusd.debtLedger ≠ 0 then recorded else .ok ()

def mintQUSD (amount timestamp : Nat) (recorded : Except String Unit) :
    Except String QUSDStabilizer :=
  if self.qusdToken ≠ 0 then do
    let qusd ← self.qusd.mint this this amount timestamp
    recordMint qusd recorded
    .ok { self with qusd := qusd }
  else .ok self

def burnQUSD (amount : Nat) : Except String QUSDStabilizer :=
  if self.qusdToken ≠ 0 then do
    let qusd ← self.qusd.burn this amount
    .ok { self with qusd := qusd }
  else .ok self

def buyQUSD (sender : Address) (qusdAmount price timestamp : Nat)
    (recorded : Except String Unit) : Except String QUSDStabilizer := do
  self.onlyOwner sender
  self.whenNotPaused
  let currentPrice ← self.getOraclePrice price
  ensure (currentPrice < self.floorPrice) "Stabilizer: price above floor"
  ensure (0 < qusdAmount) "Stabilizer: zero amount"
  ensure (qusdAmount ≤ self.maxTradeSize) "Stabilizer: exceeds max trade size"
  let scaled ← mul qusdAmount self.pegTarget
  let qbcCost ← div scaled currentPrice
  ensure (qbcCost ≤ self.stabilityFundBalance) "Stabilizer: insufficient QBC fund"
  let stabilityFundBalance ← sub self.stabilityFundBalance qbcCost
  let qusdHeld ← add self.qusdHeld qusdAmount
  let totalBuyInterventions ← add self.totalBuyInterventions 1
  mintQUSD this
    { self with
      stabilityFundBalance := stabilityFundBalance
      qusdHeld := qusdHeld
      totalBuyInterventions := totalBuyInterventions } qusdAmount timestamp recorded

def sellQUSD (sender : Address) (qusdAmount price : Nat) : Except String QUSDStabilizer := do
  self.onlyOwner sender
  self.whenNotPaused
  let currentPrice ← self.getOraclePrice price
  ensure (self.ceilingPrice < currentPrice) "Stabilizer: price below ceiling"
  ensure (qusdAmount ≤ self.qusdHeld) "Stabilizer: insufficient QUSD"
  ensure (qusdAmount ≤ self.maxTradeSize) "Stabilizer: exceeds max trade size"
  let scaled ← mul qusdAmount currentPrice
  let qbcReceived ← div scaled self.pegTarget
  let qusdHeld ← sub self.qusdHeld qusdAmount
  let stabilityFundBalance ← add self.stabilityFundBalance qbcReceived
  let totalSellInterventions ← add self.totalSellInterventions 1
  burnQUSD this
    { self with
      qusdHeld := qusdHeld
      stabilityFundBalance := stabilityFundBalance
      totalSellInterventions := totalSellInterventions } qusdAmount

def rebalanceBuy (amount currentPrice : Nat) : Except String QUSDStabilizer := do
  let scaled ← mul amount self.pegTarget
  let qbcCost ← div scaled currentPrice
  let actual := if self.stabilityFundBalance < qbcCost then self.stabilityFundBalance else qbcCost
  let priced ← mul actual currentPrice
  let actualQUSD ← div priced self.pegTarget
  let stabilityFundBalance ← sub self.stabilityFundBalance actual
  let qusdHeld ← add self.qusdHeld actualQUSD
  let totalBuyInterventions ← add self.totalBuyInterventions 1
  .ok { self with
    stabilityFundBalance := stabilityFundBalance
    qusdHeld := qusdHeld
    totalBuyInterventions := totalBuyInterventions }

def rebalanceSell (amount currentPrice : Nat) : Except String QUSDStabilizer := do
  let sellAmount := if self.qusdHeld < amount then self.qusdHeld else amount
  let priced ← mul sellAmount currentPrice
  let qbcReceived ← div priced self.pegTarget
  let qusdHeld ← sub self.qusdHeld sellAmount
  let stabilityFundBalance ← add self.stabilityFundBalance qbcReceived
  let totalSellInterventions ← add self.totalSellInterventions 1
  .ok { self with
    qusdHeld := qusdHeld
    stabilityFundBalance := stabilityFundBalance
    totalSellInterventions := totalSellInterventions }

def triggerRebalance (amount price blockNumber : Nat) : Except String QUSDStabilizer := do
  self.whenNotPaused
  ensure (self.autoRebalanceEnabled = true) "Stabilizer: auto-rebalance disabled"
  let currentPrice ← self.getOraclePrice price
  ensure (0 < amount) "Stabilizer: zero amount"
  ensure (amount ≤ self.maxTradeSize) "Stabilizer: exceeds max trade size"
  let next ← add self.lastRebalanceBlock rebalanceCooldown
  ensure (next ≤ blockNumber) "Stabilizer: cooldown active"
  let marked := { self with lastRebalanceBlock := blockNumber }
  if currentPrice < self.floorPrice ∧ 0 < self.stabilityFundBalance then
    marked.rebalanceBuy amount currentPrice
  else if self.ceilingPrice < currentPrice ∧ 0 < self.qusdHeld then
    marked.rebalanceSell amount currentPrice
  else .ok marked

/-- A call reverts where there is no contract. -/
def hasCode (token : Address) : Except String Unit := ensure (token ≠ 0) ""

def depositQBC (sender : Address) (amount : Nat) : Except String QUSDStabilizer := do
  self.onlyGovernance sender
  ensure (0 < amount) "Stabilizer: zero deposit"
  hasCode self.qbcToken
  let qbc ← self.qbc.transferFrom this sender this amount
  let stabilityFundBalance ← add self.stabilityFundBalance amount
  .ok { self with qbc := qbc, stabilityFundBalance := stabilityFundBalance }

def depositQUSD (sender : Address) (amount : Nat) : Except String QUSDStabilizer := do
  self.onlyGovernance sender
  ensure (0 < amount) "Stabilizer: zero deposit"
  hasCode self.qusdToken
  let qusd ← self.qusd.transferFrom this sender this amount
  let qusdHeld ← add self.qusdHeld amount
  .ok { self with qusd := qusd, qusdHeld := qusdHeld }

def withdrawQBC (sender recipient : Address) (amount : Nat) : Except String QUSDStabilizer := do
  self.onlyGovernance sender
  ensure (amount ≤ self.stabilityFundBalance) "Stabilizer: insufficient"
  let stabilityFundBalance ← sub self.stabilityFundBalance amount
  hasCode self.qbcToken
  let qbc ← self.qbc.transfer this recipient amount
  .ok { self with qbc := qbc, stabilityFundBalance := stabilityFundBalance }

def setAutoRebalance (sender : Address) (enabled : Bool) : Except String QUSDStabilizer := do
  self.onlyOwner sender
  .ok { self with autoRebalanceEnabled := enabled }

def setGovernance (sender newGov : Address) : Except String QUSDStabilizer := do
  self.onlyOwner sender
  ensure (newGov ≠ 0) "Stabilizer: zero address"
  .ok { self with governance := newGov }

def setOracle (sender newOracle : Address) : Except String QUSDStabilizer := do
  self.onlyOwner sender
  ensure (newOracle ≠ 0) "Stabilizer: zero address"
  .ok { self with oracleAddress := newOracle }

def setMaxTradeSize (sender : Address) (maxTradeSize : Nat) : Except String QUSDStabilizer := do
  self.onlyOwner sender
  ensure (0 < maxTradeSize) "Stabilizer: zero max trade size"
  .ok { self with maxTradeSize := maxTradeSize }

def setPegBands (sender : Address) (floor ceiling : Nat) : Except String QUSDStabilizer := do
  self.onlyOwner sender
  ensure (floor < self.pegTarget) "Stabilizer: floor >= target"
  ensure (self.pegTarget < ceiling) "Stabilizer: ceiling <= target"
  let spread ← sub ceiling floor
  ensure (1000000 ≤ spread) "Stabilizer: bands too narrow"
  .ok { self with floorPrice := floor, ceilingPrice := ceiling }

def setPaused (sender : Address) (paused : Bool) : Except String QUSDStabilizer := do
  self.onlyOwner sender
  .ok { self with paused := paused }

/-- The calls to the stabilizer, and to the tokens, which are in use elsewhere. -/
inductive Call (this : Address)
  | buyQUSD (sender : Address) (qusdAmount price timestamp : Nat) (recorded : Except String Unit)
  | sellQUSD (sender : Address) (qusdAmount price : Nat)
  | triggerRebalance (amount price blockNumber : Nat)
  | depositQBC (sender : Caller this) (amount : Nat)
  | depositQUSD (sender : Caller this) (amount : Nat)
  | withdrawQBC (sender recipient : Address) (amount : Nat)
  | setAutoRebalance (sender : Address) (enabled : Bool)
  | setGovernance (sender newGov : Address)
  | setOracle (sender newOracle : Address)
  | setMaxTradeSize (sender : Address) (maxTradeSize : Nat)
  | setPegBands (sender : Address) (floor ceiling : Nat)
  | setPaused (sender : Address) (paused : Bool)
  | qbc (sender : Caller this) (c : QBC20.Call)
  | qusd (sender : Caller this) (c : QUSD.Call)

def call (self : QUSDStabilizer) : Call this → Except String QUSDStabilizer
  | .buyQUSD sender qusdAmount price timestamp recorded =>
    self.buyQUSD this sender qusdAmount price timestamp recorded
  | .sellQUSD sender qusdAmount price => self.sellQUSD this sender qusdAmount price
  | .triggerRebalance amount price blockNumber => self.triggerRebalance amount price blockNumber
  | .depositQBC sender amount => self.depositQBC this sender amount
  | .depositQUSD sender amount => self.depositQUSD this sender amount
  | .withdrawQBC sender recipient amount => self.withdrawQBC this sender recipient amount
  | .setAutoRebalance sender enabled => self.setAutoRebalance sender enabled
  | .setGovernance sender newGov => self.setGovernance sender newGov
  | .setOracle sender newOracle => self.setOracle sender newOracle
  | .setMaxTradeSize sender maxTradeSize => self.setMaxTradeSize sender maxTradeSize
  | .setPegBands sender floor ceiling => self.setPegBands sender floor ceiling
  | .setPaused sender paused => self.setPaused sender paused
  | .qbc sender c => do
    let qbc ← self.qbc.call sender c
    .ok { self with qbc := qbc }
  | .qusd sender c => do
    let qusd ← self.qusd.call sender c
    .ok { self with qusd := qusd }

def qbcBalance : Nat := if self.qbcToken ≠ 0 then self.qbc.balanceOf this else 0

def qusdBalance : Nat := if self.qusdToken ≠ 0 then self.qusd.balanceOf this else 0

/-- The stabilizer holds what its books say. -/
def Held : Prop :=
  self.qusdHeld ≤ self.qusdBalance this ∧ self.stabilityFundBalance ≤ self.qbcBalance this

/-- What a rebalance buys or sells. -/
def bought (amount price : Nat) : Nat :=
  min (amount * self.pegTarget / price) self.stabilityFundBalance * price / self.pegTarget

def sold (amount : Nat) : Nat := min amount self.qusdHeld

/-- The stabilizer holds `n` more than its books say. -/
def SpareQBC (n : Nat) : Prop := self.stabilityFundBalance + n ≤ self.qbcBalance this

def SpareQUSD (n : Nat) : Prop := self.qusdHeld + n ≤ self.qusdBalance this

/-- What a call books without a token coming in is held already. -/
def Covered (self : QUSDStabilizer) : Call this → Prop
  | .buyQUSD .. => self.qusdToken ≠ 0
  | .sellQUSD _ qusdAmount price => self.SpareQBC this (qusdAmount * price / self.pegTarget)
  | .triggerRebalance amount price _ =>
    if price < self.floorPrice ∧ 0 < self.stabilityFundBalance then
      self.SpareQUSD this (self.bought amount price)
    else if self.ceilingPrice < price ∧ 0 < self.qusdHeld then
      self.SpareQBC this (self.sold amount * price / self.pegTarget)
    else True
  | .depositQUSD sender amount =>
    self.qusdHeld + amount ≤ self.qusdBalance this + self.qusd.received sender this amount
  | _ => True

/-- Nobody else can spend what the stabilizer holds. -/
def Sealed : Prop := self.qbc.Closed this ∧ self.qusd.Closed this

variable {this self} {s t : QUSDStabilizer} {sender : Address} {amount price : Nat}

theorem onlyOwner_bind_eq_ok {k : Unit → Except String QUSDStabilizer} :
    (s.onlyOwner sender >>= k) = .ok t ↔ sender = s.owner ∧ k () = .ok t :=
  ensure_bind_eq_ok

theorem onlyGovernance_bind_eq_ok {k : Unit → Except String QUSDStabilizer} :
    (s.onlyGovernance sender >>= k) = .ok t ↔ sender = s.governance ∧ k () = .ok t :=
  ensure_bind_eq_ok

theorem whenNotPaused_bind_eq_ok {k : Unit → Except String QUSDStabilizer} :
    (s.whenNotPaused >>= k) = .ok t ↔ s.paused = false ∧ k () = .ok t :=
  ensure_bind_eq_ok

theorem hasCode_bind_eq_ok {token : Address} {k : Unit → Except String QUSDStabilizer} :
    (hasCode token >>= k) = .ok t ↔ token ≠ 0 ∧ k () = .ok t :=
  ensure_bind_eq_ok

theorem getOraclePrice_bind_eq_ok {k : Nat → Except String QUSDStabilizer} :
    (s.getOraclePrice price >>= k) = .ok t ↔
      (s.oracleAddress ≠ 0 ∧ 0 < price) ∧ k price = .ok t := by
  rw [bind_eq_ok]
  simp only [getOraclePrice, ensure_bind_eq_ok]
  constructor
  · rintro ⟨p, ⟨hset, hpos, heq⟩, hk⟩
    cases heq
    exact ⟨⟨hset, hpos⟩, hk⟩
  · rintro ⟨⟨hset, hpos⟩, hk⟩
    exact ⟨price, ⟨hset, hpos, rfl⟩, hk⟩

/-- Both tokens and their balances are as before. -/
structure Untouched (s t : QUSDStabilizer) : Prop where
  qusdToken : t.qusdToken = s.qusdToken
  qbcToken : t.qbcToken = s.qbcToken
  qbc : t.qbc = s.qbc
  qusd : t.qusd = s.qusd

theorem Untouched.qbcBalance (h : Untouched s t) : t.qbcBalance this = s.qbcBalance this := by
  rw [QUSDStabilizer.qbcBalance, h.qbcToken, h.qbc]
  rfl

theorem Untouched.qusdBalance (h : Untouched s t) : t.qusdBalance this = s.qusdBalance this := by
  rw [QUSDStabilizer.qusdBalance, h.qusdToken, h.qusd]
  rfl

theorem Untouched.sealed (h : Untouched s t) (hs : s.Sealed this) : t.Sealed this :=
  ⟨h.qbc ▸ hs.1, h.qusd ▸ hs.2⟩

theorem mintQUSD_eq_ok {timestamp : Nat} {recorded : Except String Unit}
    (h : s.mintQUSD this amount timestamp recorded = .ok t) :
    t = { s with qusd := t.qusd } ∧ t.qusd.allowances = s.qusd.allowances ∧
      t.qusdBalance this = s.qusdBalance this + if s.qusdToken ≠ 0 then amount else 0 := by
  unfold mintQUSD at h
  split at h
  · next hset =>
    rw [bind_eq_ok] at h
    obtain ⟨qusd, hmint, h⟩ := h
    rw [bind_eq_ok] at h
    obtain ⟨-, -, h⟩ := h
    cases h
    obtain ⟨hbalances, hallowances⟩ := QUSD.mint_eq_ok hmint
    refine ⟨rfl, hallowances, ?_⟩
    simp only [qusdBalance, if_pos hset, QUSD.balanceOf, hbalances, Ledger.balance_credit_add,
      if_true]
  · next hunset =>
    cases h
    exact ⟨rfl, rfl, by rw [if_neg hunset, Nat.add_zero]⟩

theorem burnQUSD_eq_ok (h : s.burnQUSD this amount = .ok t) :
    t = { s with qusd := t.qusd } ∧ t.qusd.allowances = s.qusd.allowances ∧
      t.qusdBalance this + (if s.qusdToken ≠ 0 then amount else 0) = s.qusdBalance this := by
  unfold burnQUSD at h
  split at h
  · next hset =>
    rw [bind_eq_ok] at h
    obtain ⟨qusd, hburn, h⟩ := h
    cases h
    obtain ⟨hpays, hbalances, hallowances⟩ := QUSD.burn_eq_ok hburn
    refine ⟨rfl, hallowances, ?_⟩
    have hdebit := Ledger.balance_debit_add hpays this
    rw [if_pos rfl] at hdebit
    simp only [qusdBalance, if_pos hset, QUSD.balanceOf, hbalances]
    exact hdebit
  · next hunset =>
    cases h
    exact ⟨rfl, rfl, by rw [if_neg hunset, Nat.add_zero]⟩

theorem buyQUSD_eq_ok {timestamp : Nat} {recorded : Except String Unit}
    (h : s.buyQUSD this sender amount price timestamp recorded = .ok t) :
    0 < amount ∧ t.qusdHeld = s.qusdHeld + amount ∧
      t.stabilityFundBalance ≤ s.stabilityFundBalance ∧ t.qbcBalance this = s.qbcBalance this ∧
      (t.qusdBalance this = s.qusdBalance this + if s.qusdToken ≠ 0 then amount else 0) ∧
      (s.Sealed this → t.Sealed this) := by
  unfold buyQUSD at h
  simp only [onlyOwner_bind_eq_ok, whenNotPaused_bind_eq_ok, getOraclePrice_bind_eq_ok,
    ensure_bind_eq_ok, mul_bind_eq_ok, div_bind_eq_ok, sub_bind_eq_ok, add_bind_eq_ok] at h
  obtain ⟨-, -, -, -, hpos, -, -, -, -, -, -, -, h⟩ := h
  obtain ⟨heq, hallowances, hbalance⟩ := mintQUSD_eq_ok h
  refine ⟨hpos, ?_, ?_, ?_, hbalance, ?_⟩
  · rw [heq]
  · rw [heq]
    exact Nat.sub_le _ _
  · rw [heq]
    rfl
  · intro hs
    refine ⟨?_, hs.2.of_allowances hallowances⟩
    rw [heq]
    exact hs.1

theorem sellQUSD_eq_ok (h : s.sellQUSD this sender amount price = .ok t) :
    t.qusdHeld + amount = s.qusdHeld ∧
      t.stabilityFundBalance = s.stabilityFundBalance + amount * price / s.pegTarget ∧
      t.qbcBalance this = s.qbcBalance this ∧
      t.qusdBalance this + (if s.qusdToken ≠ 0 then amount else 0) = s.qusdBalance this ∧
      (s.Sealed this → t.Sealed this) := by
  unfold sellQUSD at h
  simp only [onlyOwner_bind_eq_ok, whenNotPaused_bind_eq_ok, getOraclePrice_bind_eq_ok,
    ensure_bind_eq_ok, mul_bind_eq_ok, div_bind_eq_ok, sub_bind_eq_ok, add_bind_eq_ok] at h
  obtain ⟨-, -, -, -, -, -, -, -, hheld, -, -, h⟩ := h
  obtain ⟨heq, hallowances, hbalance⟩ := burnQUSD_eq_ok h
  refine ⟨?_, ?_, ?_, hbalance, ?_⟩
  · rw [heq]
    exact Nat.sub_add_cancel hheld
  · rw [heq]
  · rw [heq]
    rfl
  · intro hs
    refine ⟨?_, hs.2.of_allowances hallowances⟩
    rw [heq]
    exact hs.1

theorem rebalanceBuy_eq_ok (h : s.rebalanceBuy amount price = .ok t) :
    Untouched s t ∧ t.qusdHeld = s.qusdHeld + s.bought amount price ∧
      t.stabilityFundBalance ≤ s.stabilityFundBalance := by
  unfold rebalanceBuy at h
  simp only [mul_bind_eq_ok, div_bind_eq_ok, sub_bind_eq_ok, add_bind_eq_ok] at h
  obtain ⟨-, -, -, -, -, -, -, h⟩ := h
  cases h
  refine ⟨⟨rfl, rfl, rfl, rfl⟩, ?_, Nat.sub_le _ _⟩
  dsimp only
  congr 3
  split <;> omega

theorem rebalanceSell_eq_ok (h : s.rebalanceSell amount price = .ok t) :
    Untouched s t ∧ t.qusdHeld ≤ s.qusdHeld ∧
      t.stabilityFundBalance = s.stabilityFundBalance + s.sold amount * price / s.pegTarget := by
  unfold rebalanceSell at h
  simp only [mul_bind_eq_ok, div_bind_eq_ok, sub_bind_eq_ok, add_bind_eq_ok] at h
  obtain ⟨-, -, -, -, -, h⟩ := h
  cases h
  refine ⟨⟨rfl, rfl, rfl, rfl⟩, Nat.sub_le _ _, ?_⟩
  dsimp only
  congr 3
  rw [sold]
  split <;> omega

theorem triggerRebalance_eq_ok {blockNumber : Nat}
    (h : s.triggerRebalance amount price blockNumber = .ok t) :
    Untouched s t ∧
      if price < s.floorPrice ∧ 0 < s.stabilityFundBalance then
        t.qusdHeld = s.qusdHeld + s.bought amount price ∧
          t.stabilityFundBalance ≤ s.stabilityFundBalance
      else if s.ceilingPrice < price ∧ 0 < s.qusdHeld then
        t.qusdHeld ≤ s.qusdHeld ∧
          t.stabilityFundBalance = s.stabilityFundBalance + s.sold amount * price / s.pegTarget
      else t.qusdHeld = s.qusdHeld ∧ t.stabilityFundBalance = s.stabilityFundBalance := by
  unfold triggerRebalance at h
  simp only [whenNotPaused_bind_eq_ok, getOraclePrice_bind_eq_ok, ensure_bind_eq_ok,
    add_bind_eq_ok] at h
  obtain ⟨-, -, -, -, -, -, -, h⟩ := h
  split at h
  · next hbuy =>
    rw [if_pos hbuy]
    obtain ⟨hsame, hheld, hfund⟩ := rebalanceBuy_eq_ok h
    exact ⟨⟨hsame.qusdToken, hsame.qbcToken, hsame.qbc, hsame.qusd⟩, hheld, hfund⟩
  · next hbuy =>
    rw [if_neg hbuy]
    split at h
    · next hsell =>
      rw [if_pos hsell]
      obtain ⟨hsame, hheld, hfund⟩ := rebalanceSell_eq_ok h
      exact ⟨⟨hsame.qusdToken, hsame.qbcToken, hsame.qbc, hsame.qusd⟩, hheld, hfund⟩
    · next hsell =>
      rw [if_neg hsell]
      cases h
      exact ⟨⟨rfl, rfl, rfl, rfl⟩, rfl, rfl⟩

theorem depositQBC_eq_ok (hsender : sender ≠ this) (h : s.depositQBC this sender amount = .ok t) :
    t.qusdHeld = s.qusdHeld ∧ t.stabilityFundBalance = s.stabilityFundBalance + amount ∧
      t.qbcBalance this = s.qbcBalance this + amount ∧ t.qusdBalance this = s.qusdBalance this ∧
      (s.Sealed this → t.Sealed this) := by
  unfold depositQBC at h
  rw [onlyGovernance_bind_eq_ok, ensure_bind_eq_ok, hasCode_bind_eq_ok, bind_eq_ok] at h
  obtain ⟨-, -, hset, qbc, hqbc, h⟩ := h
  rw [add_bind_eq_ok] at h
  cases h.2
  obtain ⟨hbalance, hclosed⟩ := QBC20.transferFrom_this hsender hqbc
  refine ⟨rfl, rfl, ?_, rfl, fun hs => ⟨hclosed hs.1, hs.2⟩⟩
  simp only [qbcBalance, if_pos hset, hbalance]

theorem depositQUSD_eq_ok (hsender : sender ≠ this)
    (h : s.depositQUSD this sender amount = .ok t) :
    t.qusdHeld = s.qusdHeld + amount ∧ t.stabilityFundBalance = s.stabilityFundBalance ∧
      t.qbcBalance this = s.qbcBalance this ∧
      t.qusdBalance this = s.qusdBalance this + s.qusd.received sender this amount ∧
      (s.Sealed this → t.Sealed this) := by
  unfold depositQUSD at h
  rw [onlyGovernance_bind_eq_ok, ensure_bind_eq_ok, hasCode_bind_eq_ok, bind_eq_ok] at h
  obtain ⟨-, -, hset, qusd, hqusd, h⟩ := h
  rw [add_bind_eq_ok] at h
  cases h.2
  obtain ⟨hbalance, hclosed⟩ := QUSD.transferFrom_this hsender hqusd
  refine ⟨rfl, rfl, rfl, ?_, fun hs => ⟨hs.1, hclosed hs.2⟩⟩
  simp only [qusdBalance, if_pos hset, hbalance]

theorem withdrawQBC_eq_ok {recipient : Address}
    (h : s.withdrawQBC this sender recipient amount = .ok t) :
    t.qusdHeld = s.qusdHeld ∧ t.stabilityFundBalance + amount = s.stabilityFundBalance ∧
      s.qbcBalance this ≤ t.qbcBalance this + amount ∧ t.qusdBalance this = s.qusdBalance this ∧
      (s.Sealed this → t.Sealed this) := by
  unfold withdrawQBC at h
  rw [onlyGovernance_bind_eq_ok, ensure_bind_eq_ok, sub_bind_eq_ok, hasCode_bind_eq_ok,
    bind_eq_ok] at h
  obtain ⟨-, -, hfund, hset, qbc, hqbc, h⟩ := h
  cases h
  obtain ⟨hbalance, hclosed⟩ := QBC20.transfer_this hqbc
  refine ⟨rfl, Nat.sub_add_cancel hfund, ?_, rfl, fun hs => ⟨hclosed hs.1, hs.2⟩⟩
  simp only [qbcBalance, if_pos hset, hbalance]

/-- A call that changes no book and no token. -/
theorem Untouched.held_iff (h : Untouched s t) (hheld : t.qusdHeld = s.qusdHeld)
    (hfund : t.stabilityFundBalance = s.stabilityFundBalance) : t.Held this ↔ s.Held this := by
  unfold Held
  rw [hheld, hfund, h.qbcBalance, h.qusdBalance]

/-- The calls of the owner change no book and no token. -/
theorem admin_eq_ok {c : Call this} (h : call this s c = .ok t)
    (hadmin : match c with
      | .setAutoRebalance .. | .setGovernance .. | .setOracle .. | .setMaxTradeSize ..
      | .setPegBands .. | .setPaused .. => True
      | _ => False) :
    Untouched s t ∧ t.qusdHeld = s.qusdHeld ∧
      t.stabilityFundBalance = s.stabilityFundBalance := by
  cases c with
  | setAutoRebalance sender enabled =>
    cases (onlyOwner_bind_eq_ok.mp h).2
    exact ⟨⟨rfl, rfl, rfl, rfl⟩, rfl, rfl⟩
  | setGovernance sender newGov =>
    cases (ensure_bind_eq_ok.mp (onlyOwner_bind_eq_ok.mp h).2).2
    exact ⟨⟨rfl, rfl, rfl, rfl⟩, rfl, rfl⟩
  | setOracle sender newOracle =>
    cases (ensure_bind_eq_ok.mp (onlyOwner_bind_eq_ok.mp h).2).2
    exact ⟨⟨rfl, rfl, rfl, rfl⟩, rfl, rfl⟩
  | setMaxTradeSize sender maxTradeSize =>
    cases (ensure_bind_eq_ok.mp (onlyOwner_bind_eq_ok.mp h).2).2
    exact ⟨⟨rfl, rfl, rfl, rfl⟩, rfl, rfl⟩
  | setPegBands sender floor ceiling =>
    simp only [call, setPegBands, onlyOwner_bind_eq_ok, ensure_bind_eq_ok, sub_bind_eq_ok] at h
    cases h.2.2.2.2.2
    exact ⟨⟨rfl, rfl, rfl, rfl⟩, rfl, rfl⟩
  | setPaused sender paused =>
    cases (onlyOwner_bind_eq_ok.mp h).2
    exact ⟨⟨rfl, rfl, rfl, rfl⟩, rfl, rfl⟩
  | buyQUSD | sellQUSD | triggerRebalance | depositQBC | depositQUSD | withdrawQBC | qbc | qusd =>
    cases hadmin

/-- What a call needs to keep the books covered. -/
theorem call_held {c : Call this} (hsealed : s.Sealed this) (hheld : s.Held this)
    (h : call this s c = .ok t) : t.Sealed this ∧ (t.Held this ↔ Covered this s c) := by
  obtain ⟨hqusd, hqbc⟩ := hheld
  cases c with
  | buyQUSD sender amount price timestamp recorded =>
    obtain ⟨hpos, hheld', hfund', hqbc', hqusd', hsealed'⟩ := buyQUSD_eq_ok h
    refine ⟨hsealed' hsealed, ?_⟩
    simp only [Held, Covered]
    split at hqusd'
    · next hset => exact iff_of_true ⟨by omega, by omega⟩ hset
    · next hunset =>
      refine iff_of_false ?_ hunset
      rintro ⟨hle, -⟩
      have hnone : s.qusdBalance this = 0 := if_neg hunset
      omega
  | sellQUSD sender amount price =>
    obtain ⟨hheld', hfund', hqbc', hqusd', hsealed'⟩ := sellQUSD_eq_ok h
    refine ⟨hsealed' hsealed, ?_⟩
    simp only [Held, Covered, SpareQBC]
    rw [hfund', hqbc', and_iff_right]
    by_cases hset : s.qusdToken ≠ 0
    · rw [if_pos hset] at hqusd'
      omega
    · have hnone : s.qusdBalance this = 0 := if_neg hset
      omega
  | triggerRebalance amount price blockNumber =>
    obtain ⟨hsame, hbooks⟩ := triggerRebalance_eq_ok h
    refine ⟨hsame.sealed hsealed, ?_⟩
    simp only [Held, Covered, SpareQUSD, SpareQBC]
    rw [hsame.qbcBalance, hsame.qusdBalance]
    split
    · next hbuy =>
      rw [if_pos hbuy] at hbooks
      omega
    · next hbuy =>
      rw [if_neg hbuy] at hbooks
      split
      · next hsell =>
        rw [if_pos hsell] at hbooks
        omega
      · next hsell =>
        rw [if_neg hsell] at hbooks
        exact iff_of_true ⟨by omega, by omega⟩ trivial
  | depositQBC sender amount =>
    obtain ⟨hheld', hfund', hqbc', hqusd', hsealed'⟩ := depositQBC_eq_ok sender.2 h
    exact ⟨hsealed' hsealed, iff_of_true ⟨by omega, by omega⟩ trivial⟩
  | depositQUSD sender amount =>
    obtain ⟨hheld', hfund', hqbc', hqusd', hsealed'⟩ := depositQUSD_eq_ok sender.2 h
    refine ⟨hsealed' hsealed, ?_⟩
    simp only [Held, Covered]
    rw [hheld', hqusd', hfund', hqbc', and_iff_left hqbc]
  | withdrawQBC sender recipient amount =>
    obtain ⟨hheld', hfund', hqbc', hqusd', hsealed'⟩ := withdrawQBC_eq_ok h
    exact ⟨hsealed' hsealed, iff_of_true ⟨by omega, by omega⟩ trivial⟩
  | setAutoRebalance | setGovernance | setOracle | setMaxTradeSize | setPegBands | setPaused =>
    obtain ⟨hsame, hheld', hfund'⟩ := admin_eq_ok h trivial
    exact ⟨hsame.sealed hsealed,
      iff_of_true ((hsame.held_iff hheld' hfund').mpr ⟨hqusd, hqbc⟩) trivial⟩
  | qbc sender c =>
    rw [call, bind_eq_ok] at h
    obtain ⟨qbc, hcall, h⟩ := h
    cases h
    obtain ⟨hclosed, hbalance⟩ := QBC20.call_closed sender.2 hsealed.1 hcall
    refine ⟨⟨hclosed, hsealed.2⟩, iff_of_true ⟨hqusd, hqbc.trans ?_⟩ trivial⟩
    unfold qbcBalance
    split
    · exact hbalance
    · exact le_refl _
  | qusd sender c =>
    rw [call, bind_eq_ok] at h
    obtain ⟨qusd, hcall, h⟩ := h
    cases h
    obtain ⟨hclosed, hbalance⟩ := QUSD.call_closed sender.2 hsealed.2 hcall
    refine ⟨⟨hsealed.1, hclosed⟩, iff_of_true ⟨hqusd.trans ?_, hqbc⟩ trivial⟩
    unfold qusdBalance
    split
    · exact hbalance
    · exact le_refl _

/-- The three contracts as deployed. -/
def deployed (sender governance oracle qusdToken qbcToken qbcOwner tokenOwner reserve : Address)
    (qbcSupply : Nat) : QUSDStabilizer :=
  initial sender governance oracle qusdToken qbcToken (.initial qbcOwner qbcSupply)
    (.initial tokenOwner reserve)

/-- The holdings are real all along a run exactly if the stabilizer has in hand what the calls
book without a token coming in. -/
theorem held_iff_covered
    (this sender governance oracle qusdToken qbcToken qbcOwner tokenOwner reserve : Address)
    (qbcSupply : Nat) (calls : List (Call this)) :
    let start := deployed sender governance oracle qusdToken qbcToken qbcOwner tokenOwner reserve
      qbcSupply
    (∀ before, before <+: calls → (run (call this) start before).Held this) ↔
      Guarded (call this) (Covered this) start calls := by
  intro start
  have hsealed : start.Sealed this :=
    ⟨QBC20.initial_closed _ _ _, QUSD.initial_closed _ _ _⟩
  have hheld : start.Held this := ⟨Nat.zero_le _, Nat.zero_le _⟩
  exact forall_prefix_iff_guarded_of (fun s c t hsealed hheld h => call_held hsealed hheld h)
    hsealed hheld

namespace Sample

def governance : Caller 5 := ⟨2, by decide⟩

/-- A thousand QBC in the fund, spent on QUSD by whoever calls the rebalance. -/
def rebalancing : List (Call 5) :=
  [.qbc governance (.approve 5 1000), .depositQBC governance 1000, .triggerRebalance 1000 50000000 10]

end Sample

/-- 500 QUSD are on the books, and none has been minted. -/
theorem rebalance_holds_nothing :
    ¬∀ (this sender governance oracle qusdToken qbcToken qbcOwner tokenOwner reserve : Address)
      (qbcSupply : Nat) (calls : List (Call this)),
      (run (call this) (deployed sender governance oracle qusdToken qbcToken qbcOwner tokenOwner
        reserve qbcSupply) calls).Held this := by
  intro h
  have hheld := (h 5 1 2 3 6 7 2 1 4 5000 Sample.rebalancing).1
  revert hheld
  decide +kernel

end QUSDStabilizer

end Qubitcoin.Contracts
