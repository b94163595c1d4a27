import Qubitcoin.Evm.Words
import Qubitcoin.Library.Bytes
import Qubitcoin.Library.Clocked
import Qubitcoin.Library.Ledger

/-! The public sale of QBC against ETH and stablecoins, with caps on each investor and on the whole
round. -/

namespace Qubitcoin.Contracts

open Solidity Checked
open Evm (Address)

/-- What the constructor fixes, and requires. -/
structure SaleTerms where
  pricePerQbc : Nat
  price_pos : 0 < pricePerQbc
  hardCapUSD : Nat
  cap_pos : 0 < hardCapUSD
  roundStart : Nat
  roundEnd : Nat
  window : roundStart < roundEnd
  stablecoins : List Address

/-- `bytes20`. -/
abbrev QbcAddress := BitVec 160

inductive SaleEvent
  | investment (investor : Address) (qbcAddress : QbcAddress) (token : Address)
      (usdValue qbcAllocation timestamp : Nat)
  | qbcAddressBound (ethAddress : Address) (qbcAddress : QbcAddress)
  | commitSubmitted (investor : Address) (commitHash : BitVec 256)
  | pausedState (isPaused : Bool)

structure SeedRound where
  terms : SaleTerms
  owner : Address
  paused : Bool := false
  totalRaisedUSD : Nat := 0
  totalInvestors : Nat := 0
  qbcAddresses : StorageMap Address QbcAddress := ∅
  investedUSD : Ledger Address := ∅
  qbcBound : StorageMap QbcAddress Bool := ∅
  lastInvestTime : Ledger Address := ∅
  commitments : StorageMap Address (BitVec 256) := ∅
  commitTimestamps : Ledger Address := ∅
  events : List SaleEvent := []

/-- What the price feed answers. -/
structure RoundData where
  roundId : Nat
  answer : Int
  updatedAt : Nat
  answeredInRound : Nat

namespace SeedRound

def stalenessThreshold : Nat := 3600
def cooldown : Nat := 12
def commitRevealDelay : Nat := 60
def minInvestmentUSD : Nat := 100 * 10 ^ 18
def maxInvestmentUSD : Nat := 500000 * 10 ^ 18

def initial (sender : Address) (terms : SaleTerms) : SeedRound where
  terms := terms
  owner := sender

variable (keccak256 : Bytes → BitVec 256) (timestamp : Nat) (self : SeedRound)

def qbcAddressOf (investor : Address) : QbcAddress := self.qbcAddresses.value 0 investor

def invested (investor : Address) : Nat := self.investedUSD.balance investor

def isBound (qbcAddress : QbcAddress) : Bool := self.qbcBound.value false qbcAddress

def onlyOwner (sender : Address) : Except String Unit := ensure (sender = self.owner) "NotOwner()"

def whenNotPaused : Except String Unit := ensure (self.paused = false) "Paused()"

def whenActive : Except String Unit :=
  ensure (self.terms.roundStart ≤ timestamp ∧ timestamp ≤ self.terms.roundEnd) "RoundNotActive()"

def getETHPrice (feed : RoundData) : Except String Nat := do
  ensure (0 < feed.answer) "InvalidPriceFeedAnswer()"
  ensure (feed.roundId ≤ feed.answeredInRound) "InvalidPriceFeedAnswer()"
  let age ← sub timestamp feed.updatedAt
  ensure (age ≤ stalenessThreshold) "StalePriceFeed()"
  mul feed.answer.toNat (10 ^ 10)

def getAllocation (investor : Address) : Except String (Nat × Nat × QbcAddress) := do
  let scaled ← mul (self.invested investor) (10 ^ 18)
  let qbcAllocated ← div scaled self.terms.pricePerQbc
  .ok (self.invested investor, qbcAllocated, self.qbcAddressOf investor)

/-- `_bindQBCAddress`. -/
def bindQBCAddress (investor : Address) (qbcAddress : QbcAddress) : Except String SeedRound := do
  ensure (qbcAddress ≠ 0) "ZeroQBCAddress()"
  if self.qbcAddressOf investor = 0 then do
    ensure (self.isBound qbcAddress = false) "QBCAddressBoundByAnother()"
    .ok { self with
      qbcAddresses := self.qbcAddresses.insert investor qbcAddress
      qbcBound := self.qbcBound.insert qbcAddress true
      events := self.events ++ [.qbcAddressBound investor qbcAddress] }
  else do
    ensure (self.qbcAddressOf investor = qbcAddress) "InvestorAlreadyBoundDifferentQBC()"
    .ok self

def checkCooldown (investor : Address) : Except String Unit :=
  let lastTime := self.lastInvestTime.balance investor
  if lastTime ≠ 0 then do
    let availableAt ← add lastTime cooldown
    ensure (availableAt ≤ timestamp) "CooldownActive()"
  else .ok ()

def countInvestor (investor : Address) : Except String Nat :=
  if self.invested investor = 0 then add self.totalInvestors 1 else .ok self.totalInvestors

/-- `_processInvestment`.  A large investment without a commitment is not refused. -/
def processInvestment (investor : Address) (usdValue : Nat) : Except String (SeedRound × Nat) := do
  self.checkCooldown timestamp investor
  let newTotal ← add (self.invested investor) usdValue
  ensure (minInvestmentUSD ≤ usdValue) "BelowMinInvestment()"
  ensure (newTotal ≤ maxInvestmentUSD) "ExceedsMaxInvestment()"
  let newRaised ← add self.totalRaisedUSD usdValue
  ensure (newRaised ≤ self.terms.hardCapUSD) "ExceedsHardCap()"
  let scaled ← mul usdValue (10 ^ 18)
  let qbcAllocation ← div scaled self.terms.pricePerQbc
  let totalInvestors ← self.countInvestor investor
  .ok ({ self with
    totalInvestors := totalInvestors
    investedUSD := self.investedUSD.set investor newTotal
    totalRaisedUSD := newRaised
    lastInvestTime := self.lastInvestTime.set investor timestamp }, qbcAllocation)

/-- What the entry points share: the address, the investment, the payment, which comes last, and
the event.  A payee that calls back is refused or comes after the investment. -/
def invest (investor : Address) (qbcAddress : QbcAddress) (token : Address)
    (value : Except String Nat) (paid : Bool) (unpaid : String) : Except String SeedRound := do
  let bound ← self.bindQBCAddress investor qbcAddress
  let usdValue ← value
  let (processed, qbcAllocation) ← bound.processInvestment timestamp investor usdValue
  ensure (paid = true) unpaid
  .ok { processed with
    events := processed.events ++
      [.investment investor qbcAddress token usdValue qbcAllocation timestamp] }

def ethValue (wei : Nat) (feed : RoundData) : Except String Nat := do
  let ethPriceUSD ← getETHPrice timestamp feed
  let product ← mul wei ethPriceUSD
  .ok (product / 10 ^ 18)

def investWithETH (sender : Address) (wei : Nat) (qbcAddress : QbcAddress) (feed : RoundData)
    (sent : Bool) : Except String SeedRound := do
  self.whenNotPaused
  self.whenActive timestamp
  ensure (wei ≠ 0) "ZeroETHSent()"
  self.invest timestamp sender qbcAddress 0 (ethValue timestamp wei feed) sent "ETHTransferFailed()"

/-- `_getStableDecimals`, 18 where the token does not answer. -/
def getStableDecimals (answer : Option (BitVec 8)) : Nat := answer.elim 18 BitVec.toNat

def stableValue (amount decimals : Nat) : Except String Nat :=
  if decimals < 18 then mul amount (10 ^ (18 - decimals))
  else if 18 < decimals then do
    let divisor ← if 10 ^ (decimals - 18) < 2 ^ 256 then .ok (10 ^ (decimals - 18))
      else .error "Panic(0x11)"
    .ok (amount / divisor)
  else .ok amount

def investWithStable (sender token : Address) (amount : Nat) (qbcAddress : QbcAddress)
    (decimals : Option (BitVec 8)) (transferred : Bool) : Except String SeedRound := do
  self.whenNotPaused
  self.whenActive timestamp
  ensure (token ∈ self.terms.stablecoins) "StablecoinNotAccepted()"
  ensure (amount ≠ 0) "ZeroAmount()"
  self.invest timestamp sender qbcAddress token (stableValue amount (getStableDecimals decimals))
    transferred "StableTransferFailed()"

def commitInvestment (sender : Address) (hash : BitVec 256) : Except String SeedRound := do
  self.whenNotPaused
  self.whenActive timestamp
  ensure (self.commitments.value 0 sender = 0) "CommitmentAlreadyPending()"
  .ok { self with
    commitments := self.commitments.insert sender hash
    commitTimestamps := self.commitTimestamps.set sender timestamp
    events := self.events ++ [.commitSubmitted sender hash] }

/-- `abi.encodePacked(qbcAddress, amount, salt)`. -/
def commitmentBytes (qbcAddress : QbcAddress) (amount : Nat) (salt : BitVec 256) : Bytes :=
  (Bytes.le 20 qbcAddress.toNat).reverse ++ (Bytes.le 32 amount).reverse ++
    (Bytes.le 32 salt.toNat).reverse

/-- The commitment is gone before the investment. -/
def clearCommitment (sender : Address) : SeedRound :=
  { self with
    commitments := self.commitments.insert sender 0
    commitTimestamps := self.commitTimestamps.set sender 0 }

def revealAndInvest (sender : Address) (wei : Nat) (qbcAddress : QbcAddress) (amount : Nat)
    (salt : BitVec 256) (feed : RoundData) (sent : Bool) : Except String SeedRound := do
  self.whenNotPaused
  self.whenActive timestamp
  let stored := self.commitments.value 0 sender
  ensure (stored ≠ 0) "NoCommitmentFound()"
  let availableAt ← add (self.commitTimestamps.balance sender) commitRevealDelay
  ensure (availableAt ≤ timestamp) "CommitmentTooRecent()"
  ensure (keccak256 (commitmentBytes qbcAddress amount salt) = stored) "CommitmentMismatch()"
  let value : Except String Nat :=
    if wei ≠ 0 then ethValue timestamp wei feed else .error "ZeroETHSent()"
  (self.clearCommitment sender).invest timestamp sender qbcAddress 0 value sent
    "ETHTransferFailed()"

def pause (sender : Address) : Except String SeedRound := do
  self.onlyOwner sender
  self.whenNotPaused
  .ok { self with paused := true, events := self.events ++ [.pausedState true] }

def unpause (sender : Address) : Except String SeedRound := do
  self.onlyOwner sender
  ensure (self.paused = true) "NotPaused()"
  .ok { self with paused := false, events := self.events ++ [.pausedState false] }

inductive Call
  | investWithETH (sender : Address) (wei : Nat) (qbcAddress : QbcAddress) (feed : RoundData)
      (sent : Bool)
  | investWithStable (sender token : Address) (amount : Nat) (qbcAddress : QbcAddress)
      (decimals : Option (BitVec 8)) (transferred : Bool)
  | commitInvestment (sender : Address) (hash : BitVec 256)
  | revealAndInvest (sender : Address) (wei : Nat) (qbcAddress : QbcAddress) (amount : Nat)
      (salt : BitVec 256) (feed : RoundData) (sent : Bool)
  | pause (sender : Address)
  | unpause (sender : Address)

def call : Call → Except String SeedRound
  | .investWithETH sender wei qbcAddress feed sent =>
    self.investWithETH timestamp sender wei qbcAddress feed sent
  | .investWithStable sender token amount qbcAddress decimals transferred =>
    self.investWithStable timestamp sender token amount qbcAddress decimals transferred
  | .commitInvestment sender hash => self.commitInvestment timestamp sender hash
  | .revealAndInvest sender wei qbcAddress amount salt feed sent =>
    self.revealAndInvest keccak256 timestamp sender wei qbcAddress amount salt feed sent
  | .pause sender => self.pause sender
  | .unpause sender => self.unpause sender

end SeedRound

/-- The QBC that an event allocates to an investor. -/
def SaleEvent.allocated (investor : Address) : SaleEvent → Nat
  | .investment beneficiary _ _ _ qbcAllocation _ =>
    if beneficiary = investor then qbcAllocation else 0
  | _ => 0

namespace SeedRound

section Statement

variable (self : SeedRound)

/-- The QBC that the events have allocated to an investor. -/
def allocated (investor : Address) : Nat :=
  (self.events.map (SaleEvent.allocated investor)).sum

def investors : Finset Address := Finset.univ.filter fun a => 0 < self.invested a

structure Accounted : Prop where
  raised : ∑ a, self.invested a = self.totalRaisedUSD
  capped : self.totalRaisedUSD ≤ self.terms.hardCapUSD
  limited : ∀ a, self.invested a ≤ maxInvestmentUSD
  counted : self.totalInvestors = self.investors.card
  distinct : ∀ a b, self.qbcAddressOf a ≠ 0 → self.qbcAddressOf a = self.qbcAddressOf b → a = b
  reported : ∀ a, ∃ qbcAllocated, self.getAllocation a =
    .ok (self.invested a, qbcAllocated, self.qbcAddressOf a) ∧ self.allocated a ≤ qbcAllocated

end Statement

/-- The books of a round with what they rest on: who has an address has it to himself, and no
allocation is worth more than what was paid for it. -/
structure Sound (s : SeedRound) : Prop where
  raised : s.investedUSD.total = s.totalRaisedUSD
  capped : s.totalRaisedUSD ≤ s.terms.hardCapUSD
  limited : ∀ a, s.invested a ≤ maxInvestmentUSD
  counted : s.totalInvestors = s.investors.card
  bound : ∀ a, s.qbcAddressOf a ≠ 0 → s.isBound (s.qbcAddressOf a) = true
  distinct : ∀ a b, s.qbcAddressOf a ≠ 0 → s.qbcAddressOf a = s.qbcAddressOf b → a = b
  paid : ∀ a, s.allocated a * s.terms.pricePerQbc ≤ s.invested a * 10 ^ 18

variable {keccak256 : Bytes → BitVec 256} {timestamp : Nat} {s t : SeedRound}
  {investor : Address} {qbcAddress : QbcAddress} {usdValue : Nat}

/-- An investor has put `usdValue` into the round, under an address that is his. -/
structure Invested (s t : SeedRound) (investor : Address) (qbcAddress : QbcAddress)
    (usdValue : Nat) : Prop where
  terms : t.terms = s.terms
  address : ∀ a, t.qbcAddressOf a = if a = investor then qbcAddress else s.qbcAddressOf a
  address_ne : qbcAddress ≠ 0
  bound : (s.qbcAddressOf investor = 0 ∧ s.isBound qbcAddress = false ∧
      ∀ q, t.isBound q = if q = qbcAddress then true else s.isBound q) ∨
    (s.qbcAddressOf investor = qbcAddress ∧ ∀ q, t.isBound q = s.isBound q)
  invested : t.investedUSD = s.investedUSD.credit investor usdValue
  pos : 0 < usdValue
  limited : s.invested investor + usdValue ≤ maxInvestmentUSD
  raised : t.totalRaisedUSD = s.totalRaisedUSD + usdValue
  capped : t.totalRaisedUSD ≤ s.terms.hardCapUSD
  investors : t.totalInvestors = s.totalInvestors + if s.invested investor = 0 then 1 else 0
  allocated : ∀ a, t.allocated a = s.allocated a +
    if a = investor then usdValue * 10 ^ 18 / s.terms.pricePerQbc else 0

theorem allocated_of_events {es : List SaleEvent} (h : t.events = s.events ++ es) (a : Address) :
    t.allocated a = s.allocated a + (es.map (SaleEvent.allocated a)).sum := by
  rw [allocated, allocated, h, List.map_append, List.sum_append]

theorem bindQBCAddress_eq_ok (h : s.bindQBCAddress investor qbcAddress = .ok t) :
    qbcAddress ≠ 0 ∧ (∀ a, t.qbcAddressOf a = if a = investor then qbcAddress else s.qbcAddressOf a) ∧
      ((s.qbcAddressOf investor = 0 ∧ s.isBound qbcAddress = false ∧
          ∀ q, t.isBound q = if q = qbcAddress then true else s.isBound q) ∨
        (s.qbcAddressOf investor = qbcAddress ∧ ∀ q, t.isBound q = s.isBound q)) ∧
      (∀ a, t.allocated a = s.allocated a) ∧
      t = { s with
        qbcAddresses := t.qbcAddresses
        qbcBound := t.qbcBound
        events := t.events } := by
  unfold bindQBCAddress at h
  rw [ensure_bind_eq_ok] at h
  obtain ⟨hne, h⟩ := h
  refine ⟨hne, ?_⟩
  split at h
  · next hnone =>
    rw [ensure_bind_eq_ok] at h
    obtain ⟨hfree, h⟩ := h
    cases h
    refine ⟨fun a => ?_, .inl ⟨hnone, hfree, fun q => ?_⟩, fun a => ?_, rfl⟩
    · simp only [qbcAddressOf, StorageMap.value_insert_eq]
    · simp only [isBound, StorageMap.value_insert_eq]
    · rw [allocated_of_events rfl a]
      rfl
  · rw [ensure_bind_eq_ok] at h
    obtain ⟨hsame, h⟩ := h
    cases h
    refine ⟨fun a => ?_, .inr ⟨hsame, fun _ => rfl⟩, fun _ => rfl, rfl⟩
    split
    · next heq => rw [heq, hsame]
    · rfl

theorem countInvestor_eq_ok {n : Nat} (h : s.countInvestor investor = .ok n) :
    n = s.totalInvestors + if s.invested investor = 0 then 1 else 0 := by
  unfold countInvestor at h
  split at h
  · next hnew => rw [(add_eq_ok.mp h).2.symm, if_pos hnew]
  · next hold =>
    cases h
    rw [if_neg hold, Nat.add_zero]

theorem processInvestment_eq_ok {qbcAllocation : Nat}
    (h : s.processInvestment timestamp investor usdValue = .ok (t, qbcAllocation)) :
    minInvestmentUSD ≤ usdValue ∧ s.invested investor + usdValue ≤ maxInvestmentUSD ∧
      s.totalRaisedUSD + usdValue ≤ s.terms.hardCapUSD ∧
      qbcAllocation = usdValue * 10 ^ 18 / s.terms.pricePerQbc ∧
      t = { s with
        totalInvestors := s.totalInvestors + if s.invested investor = 0 then 1 else 0
        investedUSD := s.investedUSD.credit investor usdValue
        totalRaisedUSD := s.totalRaisedUSD + usdValue
        lastInvestTime := s.lastInvestTime.set investor timestamp } := by
  unfold processInvestment at h
  rw [bind_eq_ok] at h
  obtain ⟨-, -, h⟩ := h
  simp only [add_bind_eq_ok, ensure_bind_eq_ok, mul_bind_eq_ok, div_bind_eq_ok] at h
  obtain ⟨-, hmin, hmax, -, hcap, -, -, h⟩ := h
  rw [bind_eq_ok] at h
  obtain ⟨n, hn, h⟩ := h
  cases h
  rw [countInvestor_eq_ok hn]
  exact ⟨hmin, hmax, hcap, rfl, rfl⟩

theorem invest_eq_ok {token : Address} {value : Except String Nat} {paid : Bool} {unpaid : String}
    (h : s.invest timestamp investor qbcAddress token value paid unpaid = .ok t) :
    ∃ usdValue, Invested s t investor qbcAddress usdValue := by
  unfold invest at h
  simp only [bind_eq_ok, ensure_eq_ok, Prod.exists] at h
  obtain ⟨bound, hbind, usdValue, -, processed, qbcAllocation, hprocess, -, -, h⟩ := h
  obtain ⟨hne, haddress, hbound, hallocated, hsame⟩ := bindQBCAddress_eq_ok hbind
  obtain ⟨hmin, hmax, hcap, rfl, rfl⟩ := processInvestment_eq_ok hprocess
  cases h
  have hterms : bound.terms = s.terms := by rw [hsame]
  have hledger : bound.investedUSD = s.investedUSD := by rw [hsame]
  have hraised : bound.totalRaisedUSD = s.totalRaisedUSD := by rw [hsame]
  have hcount : bound.totalInvestors = s.totalInvestors := by rw [hsame]
  rw [invested, hledger] at hmax
  rw [hraised, hterms] at hcap
  refine ⟨usdValue, hterms, haddress, hne, hbound, ?_, lt_of_lt_of_le (by decide) hmin, hmax, ?_, ?_,
    ?_, fun a => ?_⟩
  · exact congrArg (·.credit investor usdValue) hledger
  · exact congrArg (· + usdValue) hraised
  · exact (congrArg (· + usdValue) hraised).trans_le hcap
  · dsimp only
    rw [hcount, invested, hledger]
    rfl
  · rw [← hallocated a, ← hterms]
    rw [allocated_of_events (s := bound) rfl a]
    simp [SaleEvent.allocated, eq_comm]

/-- A call invests for somebody, or leaves the books as they are. -/
theorem call_cases {c : Call} (h : s.call keccak256 timestamp c = .ok t) :
    (∃ s' investor qbcAddress usdValue, Invested s' t investor qbcAddress usdValue ∧
      s' = { s with
        commitments := s'.commitments
        commitTimestamps := s'.commitTimestamps }) ∨
    ((∀ a, t.allocated a = s.allocated a) ∧
      t = { s with
        paused := t.paused
        commitments := t.commitments
        commitTimestamps := t.commitTimestamps
        events := t.events }) := by
  cases c with
  | investWithETH sender wei qbcAddress feed sent =>
    simp only [call, investWithETH, whenNotPaused, whenActive, ensure_bind_eq_ok] at h
    obtain ⟨-, -, -, h⟩ := h
    obtain ⟨usdValue, hinvested⟩ := invest_eq_ok h
    exact .inl ⟨s, _, _, _, hinvested, rfl⟩
  | investWithStable sender token amount qbcAddress decimals transferred =>
    simp only [call, investWithStable, whenNotPaused, whenActive, ensure_bind_eq_ok] at h
    obtain ⟨-, -, -, -, h⟩ := h
    obtain ⟨usdValue, hinvested⟩ := invest_eq_ok h
    exact .inl ⟨s, _, _, _, hinvested, rfl⟩
  | commitInvestment sender hash =>
    simp only [call, commitInvestment, whenNotPaused, whenActive, ensure_bind_eq_ok] at h
    cases h.2.2.2
    refine .inr ⟨fun a => ?_, rfl⟩
    rw [allocated_of_events (s := s) rfl a]
    rfl
  | revealAndInvest sender wei qbcAddress amount salt feed sent =>
    simp only [call, revealAndInvest, whenNotPaused, whenActive, ensure_bind_eq_ok,
      add_bind_eq_ok] at h
    obtain ⟨-, -, -, -, -, -, h⟩ := h
    obtain ⟨usdValue, hinvested⟩ := invest_eq_ok h
    exact .inl ⟨_, _, _, _, hinvested, rfl⟩
  | pause sender =>
    simp only [call, pause, onlyOwner, whenNotPaused, ensure_bind_eq_ok] at h
    cases h.2.2
    refine .inr ⟨fun a => ?_, rfl⟩
    rw [allocated_of_events (s := s) rfl a]
    rfl
  | unpause sender =>
    simp only [call, unpause, onlyOwner, ensure_bind_eq_ok] at h
    cases h.2.2
    refine .inr ⟨fun a => ?_, rfl⟩
    rw [allocated_of_events (s := s) rfl a]
    rfl

theorem Invested.invested_eq (h : Invested s t investor qbcAddress usdValue) (a : Address) :
    t.invested a = s.invested a + if a = investor then usdValue else 0 := by
  rw [SeedRound.invested, h.invested]
  exact s.investedUSD.balance_credit_add investor a usdValue

theorem Invested.investors_eq (h : Invested s t investor qbcAddress usdValue) :
    SeedRound.investors t = insert investor (SeedRound.investors s) := by
  ext a
  have hpos := h.pos
  simp only [SeedRound.investors, Finset.mem_filter, Finset.mem_univ, true_and, Finset.mem_insert,
    h.invested_eq]
  by_cases ha : a = investor
  · simp only [ha, if_true, true_or, iff_true]
    omega
  · simp [ha]

theorem Sound.invested (hs : Sound s) (h : Invested s t investor qbcAddress usdValue) :
    Sound t where
  raised := by
    rw [h.invested, Ledger.total_credit, h.raised, hs.raised]
  capped := by
    rw [h.terms]
    exact h.capped
  limited a := by
    rw [h.invested_eq]
    split
    · next heq =>
      rw [heq]
      exact h.limited
    · exact hs.limited a
  counted := by
    rw [h.investors, h.investors_eq, hs.counted]
    have hmem : investor ∈ SeedRound.investors s ↔ 0 < s.invested investor := by
      simp [SeedRound.investors]
    by_cases hnew : s.invested investor = 0
    · rw [if_pos hnew, Finset.card_insert_of_notMem]
      rw [hmem, hnew]
      exact lt_irrefl 0
    · rw [if_neg hnew, Finset.insert_eq_of_mem (hmem.mpr (Nat.pos_of_ne_zero hnew)), Nat.add_zero]
  bound a ha := by
    rw [h.address] at ha ⊢
    rcases h.bound with ⟨-, -, hbound⟩ | ⟨hold, hbound⟩
    · rw [hbound]
      split
      · next => rw [if_pos rfl]
      · next hother =>
        rw [if_neg hother] at ha
        rw [hs.bound a ha, ite_self]
    · rw [hbound]
      split
      · rw [← hold]
        apply hs.bound
        rw [hold]
        exact h.address_ne
      · next hother =>
        rw [if_neg hother] at ha
        exact hs.bound a ha
  distinct := by
    -- nobody else has the address of the investor
    have hown (b : Address) (hb : b ≠ investor) : s.qbcAddressOf b ≠ qbcAddress := by
      intro heq
      rcases h.bound with ⟨-, hfree, -⟩ | ⟨hold, -⟩
      · have hbound := hs.bound b (heq ▸ h.address_ne)
        rw [heq, hfree] at hbound
        cases hbound
      · exact hb (hs.distinct b investor (heq ▸ h.address_ne) (heq.trans hold.symm))
    intro a b ha heq
    rw [h.address, h.address] at heq
    rw [h.address] at ha
    by_cases hinvestor : a = investor
    · subst hinvestor
      by_contra hb
      rw [if_pos rfl, if_neg (Ne.symm hb)] at heq
      exact hown b (Ne.symm hb) heq.symm
    · rw [if_neg hinvestor] at ha heq
      by_cases hb : b = investor
      · rw [if_pos hb] at heq
        exact absurd heq (hown a hinvestor)
      · rw [if_neg hb] at heq
        exact hs.distinct a b ha heq
  paid a := by
    have hpaid := hs.paid a
    rw [h.allocated, h.invested_eq, h.terms]
    split
    · have hfloor := Nat.div_mul_le_self (usdValue * 10 ^ 18) s.terms.pricePerQbc
      rw [Nat.add_mul, Nat.add_mul]
      exact Nat.add_le_add hpaid hfloor
    · exact hpaid

theorem Sound.call {c : Call} (hs : Sound s) (h : s.call keccak256 timestamp c = .ok t) :
    Sound t := by
  rcases call_cases h with ⟨s', _, _, _, hinvested, hsame⟩ | ⟨hallocated, hsame⟩
  · refine Sound.invested ?_ hinvested
    rw [hsame]
    exact ⟨hs.raised, hs.capped, hs.limited, hs.counted, hs.bound, hs.distinct, hs.paid⟩
  · have hpaid (a : Address) : t.allocated a * t.terms.pricePerQbc ≤ t.invested a * 10 ^ 18 := by
      rw [hallocated, hsame]
      exact hs.paid a
    refine ⟨?_, ?_, ?_, ?_, ?_, ?_, hpaid⟩
    all_goals rw [hsame]
    · exact hs.raised
    · exact hs.capped
    · exact hs.limited
    · exact hs.counted
    · exact hs.bound
    · exact hs.distinct

theorem Sound.accounted (hs : Sound s) : s.Accounted where
  raised := by
    rw [← hs.raised, s.investedUSD.total_eq_sum (Finset.subset_univ _)]
    rfl
  capped := hs.capped
  limited := hs.limited
  counted := hs.counted
  distinct := hs.distinct
  reported a := by
    have hscaled : s.invested a * 10 ^ 18 < 2 ^ 256 :=
      lt_of_le_of_lt (Nat.mul_le_mul_right _ (hs.limited a)) (by decide)
    refine ⟨s.invested a * 10 ^ 18 / s.terms.pricePerQbc, ?_, ?_⟩
    · rw [getAllocation, mul_bind_eq_ok, div_bind_eq_ok]
      exact ⟨hscaled, s.terms.price_pos.ne', rfl⟩
    · exact (Nat.le_div_iff_mul_le s.terms.price_pos).mpr (hs.paid a)

theorem invested_initial (sender : Address) (terms : SaleTerms) (a : Address) :
    (initial sender terms).invested a = 0 :=
  Ledger.balance_empty a

theorem qbcAddressOf_initial (sender : Address) (terms : SaleTerms) (a : Address) :
    (initial sender terms).qbcAddressOf a = 0 :=
  StorageMap.value_empty 0 a

theorem sound_initial (sender : Address) (terms : SaleTerms) : Sound (initial sender terms) where
  raised := rfl
  capped := Nat.zero_le _
  limited a := by
    rw [invested_initial]
    exact Nat.zero_le _
  counted := by
    symm
    change (initial sender terms).investors.card = 0
    rw [Finset.card_eq_zero, investors, Finset.filter_eq_empty_iff]
    intro a _
    rw [invested_initial]
    exact lt_irrefl 0
  bound a ha := absurd (qbcAddressOf_initial sender terms a) ha
  distinct a _ ha := absurd (qbcAddressOf_initial sender terms a) ha
  paid a := by
    have hnone : (initial sender terms).allocated a = 0 := rfl
    rw [hnone, Nat.zero_mul]
    exact Nat.zero_le _

theorem qbcAddressOf_call {c : Call} (h : s.call keccak256 timestamp c = .ok t) {a : Address}
    (ha : s.qbcAddressOf a ≠ 0) : t.qbcAddressOf a = s.qbcAddressOf a := by
  rcases call_cases h with ⟨s', investor, qbcAddress, _, hinvested, hsame⟩ | ⟨-, hsame⟩
  · have hold : s'.qbcAddressOf = s.qbcAddressOf := by rw [hsame]; rfl
    rw [hinvested.address, hold]
    split
    · next heq =>
      rcases hinvested.bound with ⟨hnone, -⟩ | ⟨hkept, -⟩
      · rw [hold, ← heq] at hnone
        exact absurd hnone ha
      · rw [← hkept, hold, heq]
    · rfl
  · rw [hsame]
    rfl

/-- The round as deployed. -/
def deployed (sender : Address) (terms : SaleTerms) (timestamp : Nat) : Clocked SeedRound where
  timestamp := timestamp
  contract := initial sender terms

abbrev step (keccak256 : Bytes → BitVec 256) :
    Clocked SeedRound → Clocked.Input Call → Except String (Clocked SeedRound) :=
  Clocked.step (call keccak256)

theorem sale_accounting (keccak256 : Bytes → BitVec 256) (sender : Address) (terms : SaleTerms)
    (timestamp : Nat) (inputs : List (Clocked.Input Call)) :
    (run (step keccak256) (deployed sender terms timestamp) inputs).contract.Accounted ∧
      ∀ later a,
        (run (step keccak256) (deployed sender terms timestamp) inputs).contract.qbcAddressOf a ≠ 0 →
        (run (step keccak256) (deployed sender terms timestamp)
          (inputs ++ later)).contract.qbcAddressOf a =
        (run (step keccak256) (deployed sender terms timestamp) inputs).contract.qbcAddressOf a := by
  constructor
  · apply Sound.accounted
    refine run_invariant (P := fun s : Clocked SeedRound => Sound s.contract) ?_
      (sound_initial _ _) inputs
    intro s input t h hstep
    cases input with
    | wait seconds =>
      obtain rfl := (Clocked.step_wait seconds).mp hstep
      exact h
    | transaction c => exact h.call (Clocked.step_transaction.mp hstep).1
  · intro later a ha
    rw [run, Machine.run_append, ← run, ← run]
    generalize run (step keccak256) (deployed sender terms timestamp) inputs = s at ha ⊢
    refine run_invariant
      (P := fun t : Clocked SeedRound => t.contract.qbcAddressOf a = s.contract.qbcAddressOf a)
      ?_ rfl later
    intro s' input t h hstep
    cases input with
    | wait seconds =>
      obtain rfl := (Clocked.step_wait seconds).mp hstep
      exact h
    | transaction c =>
      rw [← h]
      exact qbcAddressOf_call (Clocked.step_transaction.mp hstep).1 (h ▸ ha)

end SeedRound

end Qubitcoin.Contracts
