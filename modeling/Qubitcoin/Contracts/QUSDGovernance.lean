import Qubitcoin.Contracts.Voting

/-! The governance of the reserve: proposals, votes, and votes delegated to others. -/

namespace Qubitcoin.Contracts

open Solidity Checked
open Evm (Address)

inductive ProposalState
  | pending
  | active
  | succeeded
  | defeated
  | queued
  | executed
  | canceled
  deriving DecidableEq

structure GovernanceProposal where
  id : Nat := 0
  proposer : Address := 0
  description : String := ""
  target : Address := 0
  callData : List (BitVec 8) := []
  votesFor : Nat := 0
  votesAgainst : Nat := 0
  startBlock : Nat := 0
  endTimestamp : Nat := 0
  executionTime : Nat := 0
  state : ProposalState := .pending

def GovernanceProposal.cast (self : GovernanceProposal) (support : Bool) (power : Nat) :
    Except String GovernanceProposal :=
  if support then do
    let votesFor ← add self.votesFor power
    .ok { self with votesFor := votesFor }
  else do
    let votesAgainst ← add self.votesAgainst power
    .ok { self with votesAgainst := votesAgainst }

/-- The governance contract with the token that weighs the votes, and the time of the block. -/
structure QUSDGovernance where
  owner : Address
  qbc : QBC20
  proposalCount : Nat := 0
  minProposalBalance : Nat
  emergencySigners : List Address := []
  emergencyThreshold : Nat
  proposals : StorageMap Nat GovernanceProposal := ∅
  hasVoted : StorageMap (Nat × Address) Bool := ∅
  emergencySigned : StorageMap (Nat × Address) Bool := ∅
  snapshotBlock : Ledger Nat := ∅
  votePowerUsed : Ledger (Nat × Address) := ∅
  balanceSnapshots : Ledger (Nat × Address) := ∅
  hasSnapshot : StorageMap (Nat × Address) Bool := ∅
  totalSupplyAtSnapshot : Ledger Nat := ∅
  delegates : StorageMap Address Address := ∅
  delegatedVotes : Ledger Address := ∅
  delegatedAmount : Ledger Address := ∅
  timestamp : Nat

namespace QUSDGovernance

def timelockDuration : Nat := 48 * 3600
def votingPeriod : Nat := 7 * 86400
def quorumBps : Nat := 400
def bpsDenom : Nat := 10000
def maxEmergencySigners : Nat := 10

def initial (sender : Address) (qbc : QBC20) (minBalance emergencyThreshold timestamp : Nat) :
    QUSDGovernance where
  owner := sender
  qbc := qbc
  minProposalBalance := minBalance
  emergencyThreshold := emergencyThreshold
  timestamp := timestamp

variable (self : QUSDGovernance)

def proposal (p : Nat) : GovernanceProposal := self.proposals.value {} p

def voted (p : Nat) (a : Address) : Bool := self.hasVoted.value false (p, a)

def delegateOf (a : Address) : Address := self.delegates.value 0 a

def setProposal (p : Nat) (prop : GovernanceProposal) : QUSDGovernance :=
  { self with proposals := self.proposals.insert p prop }

def createProposal (sender : Address) (description : String) (target : Address)
    (callData : List (BitVec 8)) (blockNumber : Nat) : Except String QUSDGovernance := do
  ensure (self.minProposalBalance ≤ self.qbc.balanceOf sender)
    "Governance: insufficient balance to propose"
  let proposalId ← add self.proposalCount 1
  let endTimestamp ← add self.timestamp votingPeriod
  .ok { self.setProposal proposalId
          { id := proposalId
            proposer := sender
            description := description
            target := target
            callData := callData
            startBlock := blockNumber
            endTimestamp := endTimestamp
            state := .active } with
    proposalCount := proposalId
    snapshotBlock := self.snapshotBlock.set proposalId blockNumber
    totalSupplyAtSnapshot := self.totalSupplyAtSnapshot.set proposalId self.qbc.totalSupply
    balanceSnapshots := self.balanceSnapshots.set (proposalId, sender) (self.qbc.balanceOf sender)
    hasSnapshot := self.hasSnapshot.insert (proposalId, sender) true }

/-- The balance of an account, as of its first interaction with the proposal. -/
def takeSnapshot (p : Nat) (a : Address) : QUSDGovernance :=
  if self.hasSnapshot.value false (p, a) = false then
    { self with
      balanceSnapshots := self.balanceSnapshots.set (p, a) (self.qbc.balanceOf a)
      hasSnapshot := self.hasSnapshot.insert (p, a) true }
  else self

def getVotingPower (sender : Address) (ownBalance : Nat) : Except String Nat :=
  add ownBalance (self.delegatedVotes.balance sender)

def vote (sender : Address) (proposalId : Nat) (support : Bool) (weight : Nat) :
    Except String QUSDGovernance := do
  let prop := self.proposal proposalId
  ensure (prop.state = .active) "Governance: not active"
  ensure (self.timestamp ≤ prop.endTimestamp) "Governance: voting ended"
  ensure (self.voted proposalId sender = false) "Governance: already voted"
  ensure (self.delegateOf sender = 0) "Governance: must undelegate before voting"
  let taken := self.takeSnapshot proposalId sender
  ensure (weight ≤ taken.balanceSnapshots.balance (proposalId, sender))
    "Governance: weight exceeds snapshot balance"
  let totalPower ← taken.getVotingPower sender weight
  let cast ← prop.cast support totalPower
  .ok { taken.setProposal proposalId cast with
    hasVoted := taken.hasVoted.insert (proposalId, sender) true
    votePowerUsed := taken.votePowerUsed.set (proposalId, sender) weight }

/-- Takes the stored amount of a delegator from his delegate, if he has one. -/
def release (sender : Address) : Except String (Ledger Address) :=
  if self.delegateOf sender ≠ 0 then do
    let released ← sub (self.delegatedVotes.balance (self.delegateOf sender))
      (self.delegatedAmount.balance sender)
    .ok (self.delegatedVotes.set (self.delegateOf sender) released)
  else .ok self.delegatedVotes

def delegate (sender toAddr : Address) : Except String QUSDGovernance := do
  ensure (toAddr ≠ sender) "Governance: cannot self-delegate"
  ensure (toAddr ≠ 0) "Governance: cannot delegate to zero address"
  ensure (self.delegateOf toAddr = 0) "Governance: delegate has delegated (no chains)"
  let released ← self.release sender
  let storedBalance := self.qbc.balanceOf sender
  let delegated ← add (released.balance toAddr) storedBalance
  .ok { self with
    delegatedAmount := self.delegatedAmount.set sender storedBalance
    delegates := self.delegates.insert sender toAddr
    delegatedVotes := released.set toAddr delegated }

def undelegate (sender : Address) : Except String QUSDGovernance := do
  ensure (self.delegateOf sender ≠ 0) "Governance: not delegated"
  let released ← self.release sender
  .ok { self with
    delegatedVotes := released
    delegatedAmount := self.delegatedAmount.set sender 0
    delegates := self.delegates.insert sender 0 }

def finalize (proposalId : Nat) : Except String QUSDGovernance := do
  let prop := self.proposal proposalId
  ensure (prop.state = .active) "Governance: not active"
  ensure (prop.endTimestamp < self.timestamp) "Governance: voting not ended"
  let totalVotes ← add prop.votesFor prop.votesAgainst
  let snapshotSupply := self.totalSupplyAtSnapshot.balance proposalId
  ensure (0 < snapshotSupply) "Governance: no snapshot supply"
  let scaled ← mul snapshotSupply quorumBps
  let quorumRequired ← div scaled bpsDenom
  ensure (quorumRequired ≤ totalVotes) "Governance: quorum not reached"
  if prop.votesAgainst < prop.votesFor then do
    let executionTime ← add self.timestamp timelockDuration
    .ok (self.setProposal proposalId { prop with state := .queued, executionTime := executionTime })
  else .ok (self.setProposal proposalId { prop with state := .defeated })

/-- `result` is what the target answers.  It is called last, so its own calls to the governance
are those that follow. -/
def execute (sender : Address) (proposalId : Nat) (result : Except String Unit) :
    Except String QUSDGovernance := do
  let prop := self.proposal proposalId
  ensure (sender = prop.proposer ∨ sender = self.owner)
    "Governance: only proposer or owner can execute"
  ensure (prop.state = .queued) "Governance: not queued"
  ensure (prop.executionTime ≤ self.timestamp) "Governance: timelock active"
  ensure (prop.target ≠ 0) "Governance: zero target"
  result.mapError ("Governance: execution failed: " ++ ·)
  .ok (self.setProposal proposalId { prop with state := .executed })

def cancel (sender : Address) (proposalId : Nat) : Except String QUSDGovernance := do
  let prop := self.proposal proposalId
  ensure (sender = prop.proposer ∨ sender = self.owner) "Governance: not authorized"
  ensure (prop.state = .active ∨ prop.state = .queued) "Governance: cannot cancel"
  .ok (self.setProposal proposalId { prop with state := .canceled })

def emergencySignCount (p : Nat) : Nat :=
  self.emergencySigners.countP fun a => self.emergencySigned.value false (p, a)

/-- The proposal is executed when the last signature needed is in. -/
def emergencyExecute (proposalId : Nat) (success : Bool) : Except String QUSDGovernance := do
  let prop := self.proposal proposalId
  ensure (prop.state ≠ .executed ∧ prop.state ≠ .canceled) "Governance: invalid state"
  ensure (prop.state ≠ .defeated) "Governance: proposal defeated"
  ensure (prop.target = 0 ∨ prop.callData = [] ∨ success = true)
    "Governance: emergency execution failed"
  .ok (self.setProposal proposalId { prop with state := .executed })

def emergencySign (sender : Address) (proposalId : Nat) (success : Bool) :
    Except String QUSDGovernance := do
  ensure (sender ∈ self.emergencySigners) "Governance: not emergency signer"
  ensure (self.emergencySigned.value false (proposalId, sender) = false)
    "Governance: already signed"
  let signed :=
    { self with emergencySigned := self.emergencySigned.insert (proposalId, sender) true }
  if self.emergencyThreshold ≤ signed.emergencySignCount proposalId then
    signed.emergencyExecute proposalId success
  else .ok signed

def addEmergencySigner (sender signer : Address) : Except String QUSDGovernance := do
  ensure (sender = self.owner) "Governance: not owner"
  ensure (self.emergencySigners.length < maxEmergencySigners) "Governance: max signers reached"
  ensure (signer ≠ 0) "Governance: zero address"
  ensure (signer ∉ self.emergencySigners) "Governance: duplicate signer"
  .ok { self with emergencySigners := self.emergencySigners ++ [signer] }

/-- The calls to the governance and to the token, and the time that passes between blocks. -/
inductive Call
  | createProposal (sender : Address) (description : String) (target : Address)
      (callData : List (BitVec 8)) (blockNumber : Nat)
  | vote (sender : Address) (proposalId : Nat) (support : Bool) (weight : Nat)
  | delegate (sender toAddr : Address)
  | undelegate (sender : Address)
  | finalize (proposalId : Nat)
  | execute (sender : Address) (proposalId : Nat) (result : Except String Unit)
  | cancel (sender : Address) (proposalId : Nat)
  | emergencySign (sender : Address) (proposalId : Nat) (success : Bool)
  | addEmergencySigner (sender signer : Address)
  | qbc (sender : Address) (c : QBC20.Call)
  | wait (seconds : Nat)

def call (self : QUSDGovernance) : Call → Except String QUSDGovernance
  | .createProposal sender description target callData blockNumber =>
    self.createProposal sender description target callData blockNumber
  | .vote sender proposalId support weight => self.vote sender proposalId support weight
  | .delegate sender toAddr => self.delegate sender toAddr
  | .undelegate sender => self.undelegate sender
  | .finalize proposalId => self.finalize proposalId
  | .execute sender proposalId result => self.execute sender proposalId result
  | .cancel sender proposalId => self.cancel sender proposalId
  | .emergencySign sender proposalId success => self.emergencySign sender proposalId success
  | .addEmergencySigner sender signer => self.addEmergencySigner sender signer
  | .qbc sender c => do
    let qbc ← self.qbc.call sender c
    .ok { self with qbc := qbc }
  | .wait seconds => .ok { self with timestamp := self.timestamp + seconds }

def votes (p : Nat) : Nat := (self.proposal p).votesFor + (self.proposal p).votesAgainst

/-- Votes are taken. -/
def Open (p : Nat) : Prop :=
  (self.proposal p).state = .active ∧ self.timestamp ≤ (self.proposal p).endTimestamp

instance (p : Nat) : Decidable (self.Open p) := inferInstanceAs (Decidable (_ ∧ _))

/-- What a vote counts of an account: of the voter his weight, and of those who have delegated to
him the amounts stored then. -/
def share (voter : Address) (weight : Nat) (a : Address) : Nat :=
  (if a = voter then weight else 0) +
    if self.delegateOf a = voter then self.delegatedAmount.balance a else 0

/-- The calls with what is counted. -/
def tallied (self : Tally QUSDGovernance) (c : Call) : Except String (Tally QUSDGovernance) := do
  let contract ← self.contract.call c
  let next := { self with contract := contract }
  match c with
  | .createProposal .. => .ok (next.propose contract.proposalCount contract.qbc.totalSupply)
  | .vote sender proposalId _ weight =>
    .ok (next.count proposalId (self.contract.share sender weight))
  | _ => .ok next

/-- What a vote counts of an account is there, beyond what has been counted of it before. -/
def Fits (self : Tally QUSDGovernance) (voter : Address) (p weight : Nat) : Prop :=
  ∀ a ∈ insert voter self.contract.delegates.keys,
    self.counted p a + self.contract.share voter weight a ≤ self.contract.qbc.balanceOf a

instance (self : Tally QUSDGovernance) (voter : Address) (p weight : Nat) :
    Decidable (Fits self voter p weight) :=
  Finset.decidableDforallFinset

/-- Every open ballot puts up with a call of the token. -/
def Undisturbed (self : Tally QUSDGovernance) (sender : Address) (c : QBC20.Call) : Prop :=
  ∀ p, p ≤ self.contract.proposalCount →
    Calm (self.contract.Open p) (self.counted p) self.contract.qbc sender c

instance (self : Tally QUSDGovernance) (sender : Address) (c : QBC20.Call) :
    Decidable (Undisturbed self sender c) :=
  inferInstanceAs (Decidable (∀ p, p ≤ self.contract.proposalCount → _))

/-- No vote counts what is not there, and no transfer takes what an open ballot has counted. -/
def Steady (self : Tally QUSDGovernance) : Call → Prop
  | .vote sender proposalId _ weight => Fits self sender proposalId weight
  | .qbc sender c => Undisturbed self sender c
  | _ => True

instance (self : Tally QUSDGovernance) : (c : Call) → Decidable (Steady self c)
  | .vote sender proposalId _ weight =>
    inferInstanceAs (Decidable (Fits self sender proposalId weight))
  | .qbc sender c => inferInstanceAs (Decidable (Undisturbed self sender c))
  | .createProposal .. | .delegate .. | .undelegate .. | .finalize .. | .execute .. | .cancel ..
  | .emergencySign .. | .addEmergencySigner .. | .wait .. => .isTrue trivial

structure Sound (w : Tally QUSDGovernance) : Prop where
  total : w.contract.qbc.balances.total = w.contract.qbc.totalSupply
  ballot : ∀ p, 1 ≤ p → p ≤ w.contract.proposalCount →
    Ballot (w.contract.votes p) (w.supplyAt p) (w.counted p) (w.contract.Open p) w.contract.qbc
  pledged : ∀ v, w.contract.delegatedVotes.balance v =
    ∑ a, if w.contract.delegateOf a = v then w.contract.delegatedAmount.balance a else 0
  idle : ∀ a, w.contract.delegateOf a = 0 → w.contract.delegatedAmount.balance a = 0

variable {self} {s t : QUSDGovernance} {w w' : Tally QUSDGovernance} {sender : Address} {p : Nat}

theorem cast_eq_ok {r r' : GovernanceProposal} {support : Bool} {power : Nat}
    (h : r.cast support power = .ok r') :
    r'.votesFor + r'.votesAgainst = r.votesFor + r.votesAgainst + power ∧
      r'.state = r.state ∧ r'.endTimestamp = r.endTimestamp := by
  unfold GovernanceProposal.cast at h
  split at h
  · rw [add_bind_eq_ok] at h
    cases h.2
    exact ⟨Nat.add_right_comm _ _ _, rfl, rfl⟩
  · rw [add_bind_eq_ok] at h
    cases h.2
    exact ⟨(Nat.add_assoc _ _ _).symm, rfl, rfl⟩

theorem proposal_of_insert {prop : GovernanceProposal}
    (h : t.proposals = s.proposals.insert p prop) (q : Nat) :
    t.proposal q = if q = p then prop else s.proposal q := by
  rw [proposal, h, StorageMap.value_insert_eq]
  rfl

/-- Who has delegated to whom, and how much, is as before. -/
structure SameDelegation (s t : QUSDGovernance) : Prop where
  delegates : t.delegates = s.delegates
  delegatedVotes : t.delegatedVotes = s.delegatedVotes
  delegatedAmount : t.delegatedAmount = s.delegatedAmount

theorem createProposal_eq_ok {description : String} {target : Address}
    {callData : List (BitVec 8)} {blockNumber : Nat}
    (h : s.createProposal sender description target callData blockNumber = .ok t) :
    SameDelegation s t ∧ t.proposalCount = s.proposalCount + 1 ∧ t.qbc = s.qbc ∧
      t.timestamp = s.timestamp ∧
      ∃ prop : GovernanceProposal, t.proposals = s.proposals.insert (s.proposalCount + 1) prop ∧
        prop.votesFor + prop.votesAgainst = 0 := by
  simp only [createProposal, ensure_bind_eq_ok, add_bind_eq_ok] at h
  obtain ⟨-, -, -, h⟩ := h
  cases h
  exact ⟨⟨rfl, rfl, rfl⟩, rfl, rfl, rfl, _, rfl, rfl⟩

theorem takeSnapshot_eq (s : QUSDGovernance) (p : Nat) (a : Address) :
    s.takeSnapshot p a = { s with
      balanceSnapshots := (s.takeSnapshot p a).balanceSnapshots
      hasSnapshot := (s.takeSnapshot p a).hasSnapshot } := by
  unfold takeSnapshot
  split <;> rfl

theorem vote_eq_ok {support : Bool} {weight : Nat} (h : s.vote sender p support weight = .ok t) :
    s.Open p ∧ SameDelegation s t ∧ t.proposalCount = s.proposalCount ∧ t.qbc = s.qbc ∧
      t.timestamp = s.timestamp ∧
      ∃ prop : GovernanceProposal, t.proposals = s.proposals.insert p prop ∧
        prop.votesFor + prop.votesAgainst =
          s.votes p + (weight + s.delegatedVotes.balance sender) ∧
        prop.state = (s.proposal p).state ∧
        prop.endTimestamp = (s.proposal p).endTimestamp := by
  simp only [vote, ensure_bind_eq_ok] at h
  obtain ⟨hactive, htime, -, -, -, h⟩ := h
  rw [takeSnapshot_eq, getVotingPower, add_bind_eq_ok] at h
  obtain ⟨-, h⟩ := h
  rw [bind_eq_ok] at h
  obtain ⟨prop, hcast, h⟩ := h
  cases h
  exact ⟨⟨hactive, htime⟩, ⟨rfl, rfl, rfl⟩, rfl, rfl, rfl, prop, rfl, cast_eq_ok hcast⟩

theorem release_eq_ok {m : Ledger Address} (h : s.release sender = .ok m)
    (hidle : s.delegateOf sender = 0 → s.delegatedAmount.balance sender = 0) (v : Address) :
    m.balance v + (if s.delegateOf sender = v then s.delegatedAmount.balance sender else 0) =
      s.delegatedVotes.balance v := by
  unfold release at h
  split at h
  · rw [sub_bind_eq_ok] at h
    obtain ⟨hle, h⟩ := h
    cases h
    rw [← Ledger.balance_debit_add hle v]
    simp only [eq_comm]
    rfl
  · next hnone =>
    cases h
    rw [hidle (not_not.mp hnone), ite_self, Nat.add_zero]

/-- The account `sender` now delegates `stored` to `toAddr`. -/
structure Redelegation (s t : QUSDGovernance) (sender toAddr : Address) (stored : Nat) : Prop where
  delegates : t.delegates = s.delegates.insert sender toAddr
  delegatedAmount : t.delegatedAmount = s.delegatedAmount.set sender stored
  delegatedVotes : ∀ v, t.delegatedVotes.balance v +
    (if s.delegateOf sender = v then s.delegatedAmount.balance sender else 0) =
      s.delegatedVotes.balance v + if toAddr = v then stored else 0
  idle : toAddr = 0 → stored = 0

/-- The delegated votes are what the delegators have stored, and who has no delegate has stored
nothing. -/
structure Pledged (s : QUSDGovernance) : Prop where
  votes : ∀ v, s.delegatedVotes.balance v =
    ∑ a, if s.delegateOf a = v then s.delegatedAmount.balance a else 0
  idle : ∀ a, s.delegateOf a = 0 → s.delegatedAmount.balance a = 0

theorem Pledged.redelegate {toAddr : Address} {stored : Nat} (h : Pledged s)
    (hmove : Redelegation s t sender toAddr stored) : Pledged t where
  votes v := by
    have hreplace := Ledger.sum_replace
      (f := fun a => if s.delegateOf a = v then s.delegatedAmount.balance a else 0)
      (g := fun a => if t.delegateOf a = v then t.delegatedAmount.balance a else 0) sender <| by
        intro b hb
        have hdelegate : t.delegateOf b = s.delegateOf b := by
          simp [delegateOf, hmove.delegates, StorageMap.value_insert_eq, hb]
        rw [hdelegate, hmove.delegatedAmount, Ledger.balance_set, if_neg hb]
    have hnew : (if t.delegateOf sender = v then t.delegatedAmount.balance sender else 0) =
        if toAddr = v then stored else 0 := by
      simp [delegateOf, hmove.delegates, hmove.delegatedAmount]
    have hvotes := hmove.delegatedVotes v
    have hpledged := h.votes v
    omega
  idle a := by
    simp only [delegateOf, hmove.delegates, hmove.delegatedAmount, StorageMap.value_insert_eq,
      Ledger.balance_set]
    split
    · exact hmove.idle
    · exact h.idle a

theorem Pledged.same (h : Pledged s) (hsame : SameDelegation s t) : Pledged t where
  votes := by
    simp only [delegateOf, hsame.delegates, hsame.delegatedVotes, hsame.delegatedAmount]
    exact h.votes
  idle := by
    simp only [delegateOf, hsame.delegates, hsame.delegatedAmount]
    exact h.idle

theorem delegate_eq_ok {toAddr : Address}
    (hidle : s.delegateOf sender = 0 → s.delegatedAmount.balance sender = 0)
    (h : s.delegate sender toAddr = .ok t) :
    Redelegation s t sender toAddr (s.qbc.balanceOf sender) ∧ t.proposals = s.proposals ∧
      t.proposalCount = s.proposalCount ∧ t.qbc = s.qbc ∧ t.timestamp = s.timestamp := by
  simp only [delegate, ensure_bind_eq_ok] at h
  obtain ⟨-, hto, -, h⟩ := h
  rw [bind_eq_ok] at h
  obtain ⟨m, hm, h⟩ := h
  rw [add_bind_eq_ok] at h
  cases h.2
  refine ⟨⟨rfl, rfl, ?_, fun hzero => absurd hzero hto⟩, rfl, rfl, rfl, rfl⟩
  intro v
  have hrelease := release_eq_ok hm hidle v
  have hcredit := m.balance_credit_add toAddr v (s.qbc.balanceOf sender)
  simp only [eq_comm (a := v)] at hcredit
  change (m.credit toAddr (s.qbc.balanceOf sender)).balance v + _ = _
  omega

theorem undelegate_eq_ok
    (hidle : s.delegateOf sender = 0 → s.delegatedAmount.balance sender = 0)
    (h : s.undelegate sender = .ok t) :
    Redelegation s t sender 0 0 ∧ t.proposals = s.proposals ∧
      t.proposalCount = s.proposalCount ∧ t.qbc = s.qbc ∧ t.timestamp = s.timestamp := by
  rw [undelegate, ensure_bind_eq_ok, bind_eq_ok] at h
  obtain ⟨-, m, hm, h⟩ := h
  cases h
  refine ⟨⟨rfl, rfl, ?_, fun _ => rfl⟩, rfl, rfl, rfl, rfl⟩
  intro v
  rw [ite_self, Nat.add_zero]
  exact release_eq_ok hm hidle v

/-- The calls that change one proposal to another state than active. -/
theorem close_eq_ok (h : s.finalize p = .ok t ∨
      (∃ sender result, s.execute sender p result = .ok t) ∨
      (∃ sender, s.cancel sender p = .ok t) ∨ ∃ success, s.emergencyExecute p success = .ok t) :
    ∃ prop : GovernanceProposal, t = s.setProposal p prop ∧ prop.state ≠ .active ∧
      prop.votesFor = (s.proposal p).votesFor ∧ prop.votesAgainst = (s.proposal p).votesAgainst := by
  rcases h with h | ⟨sender, result, h⟩ | ⟨sender, h⟩ | ⟨success, h⟩
  · simp only [finalize, ensure_bind_eq_ok, add_bind_eq_ok, mul_bind_eq_ok, div_bind_eq_ok] at h
    obtain ⟨-, -, -, -, -, -, -, h⟩ := h
    split at h
    · rw [add_bind_eq_ok] at h
      cases h.2
      exact ⟨_, rfl, (fun h => by cases h), rfl, rfl⟩
    · cases h
      exact ⟨_, rfl, (fun h => by cases h), rfl, rfl⟩
  · simp only [execute, ensure_bind_eq_ok, mapError_bind_eq_ok] at h
    obtain ⟨-, -, -, -, -, -, h⟩ := h
    cases h
    exact ⟨_, rfl, (fun h => by cases h), rfl, rfl⟩
  · simp only [cancel, ensure_bind_eq_ok] at h
    cases h.2.2
    exact ⟨_, rfl, (fun h => by cases h), rfl, rfl⟩
  · simp only [emergencyExecute, ensure_bind_eq_ok] at h
    cases h.2.2.2
    exact ⟨_, rfl, (fun h => by cases h), rfl, rfl⟩

/-- No vote is cast, no ballot opens, and nothing is delegated. -/
theorem Sound.revise (h : Sound w) (hcount : t.proposalCount = w.contract.proposalCount)
    (hqbc : t.qbc = w.contract.qbc) (hsame : SameDelegation w.contract t)
    (hvotes : ∀ q, t.votes q = w.contract.votes q) (hopen : ∀ q, t.Open q → w.contract.Open q) :
    Sound { w with contract := t } where
  total := by
    rw [hqbc]
    exact h.total
  ballot q hpos hle := by
    rw [hqbc, hvotes]
    exact (h.ballot q hpos (hcount ▸ hle)).close (hopen q)
  pledged := (Pledged.same ⟨h.pledged, h.idle⟩ hsame).votes
  idle := (Pledged.same ⟨h.pledged, h.idle⟩ hsame).idle

theorem Sound.token {c : QBC20.Call} {qbc : QBC20} (h : Sound w)
    (hcalm : Undisturbed w sender c) (hcall : w.contract.qbc.call sender c = .ok qbc) :
    Sound { w with contract := { w.contract with qbc := qbc } } where
  total := QBC20.call_supply h.total hcall
  ballot q hpos hle := (h.ballot q hpos hle).call (hcalm q hle) hcall
  pledged := h.pledged
  idle := h.idle

theorem Sound.close {prop : GovernanceProposal} (h : Sound w) (hclosed : prop.state ≠ .active)
    (hfor : prop.votesFor = (w.contract.proposal p).votesFor)
    (hagainst : prop.votesAgainst = (w.contract.proposal p).votesAgainst) :
    Sound { w with contract := w.contract.setProposal p prop } := by
  have hprop : (w.contract.setProposal p prop).proposals = w.contract.proposals.insert p prop := rfl
  refine h.revise rfl rfl ⟨rfl, rfl, rfl⟩ ?_ ?_
  · intro q
    rw [votes, votes, proposal_of_insert hprop]
    split
    · next heq => rw [heq, hfor, hagainst]
    · rfl
  · intro q
    rw [Open, Open, proposal_of_insert hprop]
    split
    · rintro ⟨hactive, -⟩
      exact absurd hactive hclosed
    · exact id

theorem Sound.redelegate {toAddr : Address} {stored : Nat} (h : Sound w)
    (hmove : Redelegation w.contract t sender toAddr stored)
    (hproposals : t.proposals = w.contract.proposals)
    (hcount : t.proposalCount = w.contract.proposalCount) (hqbc : t.qbc = w.contract.qbc)
    (htime : t.timestamp = w.contract.timestamp) : Sound { w with contract := t } where
  total := by
    rw [hqbc]
    exact h.total
  ballot q hpos hle := by
    have hballot := h.ballot q hpos (hcount ▸ hle)
    rw [hqbc]
    simpa only [votes, Open, proposal, hproposals, htime] using hballot
  pledged := (Pledged.redelegate ⟨h.pledged, h.idle⟩ hmove).votes
  idle := (Pledged.redelegate ⟨h.pledged, h.idle⟩ hmove).idle

theorem Sound.propose {description : String} {target : Address} {callData : List (BitVec 8)}
    {blockNumber : Nat} (h : Sound w)
    (hcall : w.contract.createProposal sender description target callData blockNumber = .ok t) :
    Sound ({ w with contract := t }.propose t.proposalCount t.qbc.totalSupply) := by
  obtain ⟨hsame, hcount, hqbc, htime, prop, hprop, hnone⟩ := createProposal_eq_ok hcall
  refine ⟨?_, ?_, ?_, ?_⟩
  · change t.qbc.balances.total = t.qbc.totalSupply
    rw [hqbc]
    exact h.total
  · intro q hpos hle
    change q ≤ t.proposalCount at hle
    change Ballot (t.votes q) (Function.update w.supplyAt t.proposalCount t.qbc.totalSupply q)
      (Function.update w.counted t.proposalCount (fun _ => 0) q) (t.Open q) t.qbc
    rw [votes, Open, proposal_of_insert hprop, htime]
    by_cases hq : q = t.proposalCount
    · rw [hq, Function.update_self, Function.update_self, if_pos hcount, hnone]
      exact Ballot.fresh t.qbc
    · rw [Function.update_of_ne hq, Function.update_of_ne hq, if_neg (hcount ▸ hq), hqbc]
      exact h.ballot q hpos (by omega)
  · simp only [Tally.propose, delegateOf, hsame.delegates, hsame.delegatedVotes,
      hsame.delegatedAmount]
    exact h.pledged
  · simp only [Tally.propose, delegateOf, hsame.delegates, hsame.delegatedAmount]
    exact h.idle

theorem Sound.sum_share (h : Sound w) (voter : Address) (weight : Nat) :
    weight + w.contract.delegatedVotes.balance voter = ∑ a, w.contract.share voter weight a := by
  simp only [share]
  rw [Finset.sum_add_distrib, ← h.pledged voter]
  simp

theorem Sound.fits {voter : Address} {weight : Nat} (h : Sound w) (hfits : Fits w voter p weight)
    (hbacked : ∀ a, w.counted p a ≤ w.contract.qbc.balanceOf a) (a : Address) :
    w.counted p a + w.contract.share voter weight a ≤ w.contract.qbc.balanceOf a := by
  by_cases ha : a ∈ insert voter w.contract.delegates.keys
  · exact hfits a ha
  · rw [Finset.mem_insert, not_or, Finmap.mem_keys] at ha
    have hnone : w.contract.delegateOf a = 0 := by
      rw [delegateOf, StorageMap.value, Finmap.lookup_eq_none.mpr ha.2]
      rfl
    rw [share, if_neg ha.1, h.idle a hnone, ite_self]
    exact hbacked a

theorem Sound.vote {support : Bool} {weight : Nat} (h : Sound w) (hfits : Fits w sender p weight)
    (hcall : w.contract.vote sender p support weight = .ok t) :
    Sound ({ w with contract := t }.count p (w.contract.share sender weight)) := by
  obtain ⟨hopen, hsame, hcount, hqbc, htime, prop, hprop, hvotes, hstate, hend⟩ := vote_eq_ok hcall
  refine ⟨?_, ?_, ?_, ?_⟩
  · change t.qbc.balances.total = t.qbc.totalSupply
    rw [hqbc]
    exact h.total
  · intro q hpos hle
    change q ≤ t.proposalCount at hle
    rw [hcount] at hle
    have hballot := h.ballot q hpos hle
    change Ballot (t.votes q) (w.supplyAt q) (Function.update w.counted p _ q) (t.Open q) t.qbc
    rw [votes, Open, proposal_of_insert hprop, htime, hqbc]
    by_cases hq : q = p
    · subst hq
      rw [Function.update_self, if_pos rfl, hvotes, hstate, hend]
      exact hballot.vote hopen h.total (h.sum_share sender weight)
        (h.fits hfits (hballot.backed hopen))
    · rw [Function.update_of_ne hq, if_neg hq]
      exact hballot
  · simp only [Tally.count, delegateOf, hsame.delegates, hsame.delegatedVotes,
      hsame.delegatedAmount]
    exact h.pledged
  · simp only [Tally.count, delegateOf, hsame.delegates, hsame.delegatedAmount]
    exact h.idle

theorem tallied_sound {c : Call} (h : Sound w) (hsteady : Steady w c)
    (hcall : tallied w c = .ok w') : Sound w' := by
  rw [tallied, bind_eq_ok] at hcall
  obtain ⟨t, ht, hcall⟩ := hcall
  cases c with
  | createProposal sender description target callData blockNumber =>
    cases hcall
    exact h.propose ht
  | vote sender proposalId support weight =>
    cases hcall
    exact h.vote hsteady ht
  | delegate sender toAddr =>
    cases hcall
    obtain ⟨hmove, hproposals, hcount, hqbc, htime⟩ := delegate_eq_ok (h.idle sender) ht
    exact h.redelegate hmove hproposals hcount hqbc htime
  | undelegate sender =>
    cases hcall
    obtain ⟨hmove, hproposals, hcount, hqbc, htime⟩ := undelegate_eq_ok (h.idle sender) ht
    exact h.redelegate hmove hproposals hcount hqbc htime
  | finalize proposalId =>
    cases hcall
    obtain ⟨prop, rfl, hclosed, hfor, hagainst⟩ := close_eq_ok (.inl ht)
    exact h.close hclosed hfor hagainst
  | execute sender proposalId result =>
    cases hcall
    obtain ⟨prop, rfl, hclosed, hfor, hagainst⟩ := close_eq_ok (.inr (.inl ⟨sender, result, ht⟩))
    exact h.close hclosed hfor hagainst
  | cancel sender proposalId =>
    cases hcall
    obtain ⟨prop, rfl, hclosed, hfor, hagainst⟩ := close_eq_ok (.inr (.inr (.inl ⟨sender, ht⟩)))
    exact h.close hclosed hfor hagainst
  | emergencySign sender proposalId success =>
    cases hcall
    simp only [call, emergencySign, ensure_bind_eq_ok] at ht
    obtain ⟨-, -, ht⟩ := ht
    have hsigned : Sound { w with contract := { w.contract with
        emergencySigned := w.contract.emergencySigned.insert (proposalId, sender) true } } :=
      h.revise rfl rfl ⟨rfl, rfl, rfl⟩ (fun _ => rfl) fun _ => id
    split at ht
    · obtain ⟨prop, rfl, hclosed, hfor, hagainst⟩ :=
        close_eq_ok (.inr (.inr (.inr ⟨success, ht⟩)))
      exact hsigned.close hclosed hfor hagainst
    · cases ht
      exact hsigned
  | addEmergencySigner sender signer =>
    cases hcall
    simp only [call, addEmergencySigner, ensure_bind_eq_ok] at ht
    cases ht.2.2.2.2
    exact h.revise rfl rfl ⟨rfl, rfl, rfl⟩ (fun _ => rfl) fun _ => id
  | qbc sender c =>
    cases hcall
    rw [call, bind_eq_ok] at ht
    obtain ⟨qbc, hqbc, ht⟩ := ht
    cases ht
    exact h.token hsteady hqbc
  | wait seconds =>
    cases hcall
    cases ht
    refine h.revise rfl rfl ⟨rfl, rfl, rfl⟩ (fun _ => rfl) ?_
    rintro q ⟨hactive, htime⟩
    exact ⟨hactive, (Nat.le_add_right _ _).trans htime⟩

/-- The governance and the token as deployed. -/
def deployed (sender tokenOwner : Address)
    (supply minBalance emergencyThreshold timestamp : Nat) : Tally QUSDGovernance where
  contract := initial sender (.initial tokenOwner supply) minBalance emergencyThreshold timestamp

theorem deployed_sound (sender tokenOwner : Address)
    (supply minBalance emergencyThreshold timestamp : Nat) :
    Sound (deployed sender tokenOwner supply minBalance emergencyThreshold timestamp) where
  total := QBC20.initial_supply tokenOwner supply
  ballot p hpos hle := absurd (hpos.trans hle) (Nat.not_succ_le_zero 0)
  pledged v := by simp [deployed, initial]
  idle a _ := Ledger.balance_empty a

/-- No proposal has more votes than there were tokens when it was made. -/
def Bounded (self : Tally QUSDGovernance) : Prop :=
  ∀ p, p ≤ self.contract.proposalCount → 1 ≤ p → self.contract.votes p ≤ self.supplyAt p

instance (self : Tally QUSDGovernance) : Decidable (Bounded self) :=
  inferInstanceAs (Decidable (∀ p, p ≤ self.contract.proposalCount → _))

theorem Sound.isBounded (h : Sound w) : Bounded w :=
  fun p hle hpos => (h.ballot p hpos hle).bounded

end QUSDGovernance

end Qubitcoin.Contracts
