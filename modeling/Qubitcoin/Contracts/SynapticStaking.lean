import Qubitcoin.Evm.Words
import Qubitcoin.Library.Ledger
import Qubitcoin.Library.Rows
import Qubitcoin.Library.Solidity

/-! Staking on the connections between Sephirot, and the coins that are there to pay it out. -/

namespace Qubitcoin.Contracts

open Solidity Checked
open Evm (Address)

structure Connection where
  fromNodeId : BitVec 8 := 0
  toNodeId : BitVec 8 := 0
  totalStaked : Nat := 0
  utilityScore : Nat := 0
  totalRewards : Nat := 0
  rewardsPerToken : Nat := 0
  active : Bool := false

structure Stake where
  staker : Address
  connectionId : Nat
  amount : Nat
  stakedAt : Nat
  rewardsClaimed : Nat
  rewardsPerTokenPaid : Nat

structure UnstakeRequest where
  stakeIndex : Nat
  connectionId : Nat
  amount : Nat
  unlockBlock : Nat

/-- `balance` is the contract's native balance. -/
structure SynapticStaking where
  owner : Address
  kernel : Address
  qbcToken : Address
  connections : StorageMap Nat Connection := ∅
  connectionIds : List Nat := []
  userStakes : Rows Address Stake := ∅
  unstakeRequests : Rows Address UnstakeRequest := ∅
  pendingRewards : Ledger Address := ∅
  totalStaked : Nat := 0
  totalRewardsDistributed : Nat := 0
  balance : Nat := 0

namespace SynapticStaking

def minStake : Nat := 100 * 10 ^ 18
def maxStakePerConnection : Nat := 1000000 * 10 ^ 18
def unstakingDelay : Nat := 183272
def maxClaimBatch : Nat := 50

def initial (sender kernel qbcToken : Address) : SynapticStaking where
  owner := sender
  kernel := kernel
  qbcToken := qbcToken

variable (self : SynapticStaking)

def connection (connectionId : Nat) : Connection := self.connections.value {} connectionId

def stakes (staker : Address) : List Stake := Rows.rows self.userStakes staker

def requests (staker : Address) : List UnstakeRequest := Rows.rows self.unstakeRequests staker

def onlyKernel (sender : Address) : Except String Unit :=
  ensure (sender = self.kernel ∨ sender = self.owner) "Synaptic: not authorized"

def activateConnection (sender : Address) (fromNodeId toNodeId : BitVec 8) :
    Except String SynapticStaking := do
  self.onlyKernel sender
  let connId := fromNodeId.toNat * 10 + toNodeId.toNat
  ensure ((self.connection connId).active = false) "Synaptic: already active"
  .ok { self with
    connections := self.connections.insert connId
      { fromNodeId := fromNodeId, toNodeId := toNodeId, utilityScore := 500, active := true }
    connectionIds := self.connectionIds ++ [connId] }

/-- What `userStake` and `stake` write. -/
def addStake (staker : Address) (connectionId amount timestamp : Nat) :
    Except String SynapticStaking := do
  let connectionStaked ← add (self.connection connectionId).totalStaked amount
  let totalStaked ← add self.totalStaked amount
  .ok { self with
    connections := self.connections.insert connectionId
      { self.connection connectionId with totalStaked := connectionStaked }
    totalStaked := totalStaked
    userStakes := Rows.push self.userStakes staker
      { staker := staker
        connectionId := connectionId
        amount := amount
        stakedAt := timestamp
        rewardsClaimed := 0
        rewardsPerTokenPaid := (self.connection connectionId).rewardsPerToken } }

def userStake (sender : Address) (connectionId value timestamp : Nat) :
    Except String SynapticStaking := do
  ensure ((self.connection connectionId).active = true) "Synaptic: not active"
  ensure (minStake ≤ value) "Synaptic: below minimum stake"
  let connectionStaked ← add (self.connection connectionId).totalStaked value
  ensure (connectionStaked ≤ maxStakePerConnection) "Synaptic: exceeds max stake per connection"
  addStake { self with balance := self.balance + value } sender connectionId value timestamp

/-- What a stake has earned by the time its connection's index is `rewardsPerToken`. -/
def earned (rewardsPerToken : Nat) (s : Stake) : Except String Nat := do
  let gained ← sub rewardsPerToken s.rewardsPerTokenPaid
  let scaled ← mul s.amount gained
  div scaled (10 ^ 18)

/-- `_accrueRewards`. -/
def accrueRewards (staker : Address) (stakeIndex : Nat) (s : Stake) :
    Except String SynapticStaking := do
  let conn := self.connection s.connectionId
  let reward ← earned conn.rewardsPerToken s
  let pending ← add (self.pendingRewards.balance staker) reward
  let rewardsClaimed ← add s.rewardsClaimed reward
  .ok { self with
    pendingRewards := self.pendingRewards.set staker pending
    userStakes := Rows.put self.userStakes staker stakeIndex
      { s with rewardsPerTokenPaid := conn.rewardsPerToken, rewardsClaimed := rewardsClaimed } }

/-- What `userRequestUnstake` and `unstake` do. -/
def requestUnstake (staker : Address) (stakeIndex blockNumber : Nat) :
    Except String SynapticStaking := do
  let s ← (self.stakes staker)[stakeIndex]?.okOr "Synaptic: invalid index"
  ensure (0 < s.amount) "Synaptic: already unstaking"
  let unlockBlock ← add blockNumber unstakingDelay
  let accrued ← self.accrueRewards staker stakeIndex s
  let connectionStaked ← sub (self.connection s.connectionId).totalStaked s.amount
  let totalStaked ← sub self.totalStaked s.amount
  let stake ← (accrued.stakes staker)[stakeIndex]?.okOr "Synaptic: invalid index"
  .ok { accrued with
    connections := self.connections.insert s.connectionId
      { self.connection s.connectionId with totalStaked := connectionStaked }
    totalStaked := totalStaked
    unstakeRequests := Rows.push self.unstakeRequests staker
      { stakeIndex := stakeIndex
        connectionId := s.connectionId
        amount := s.amount
        unlockBlock := unlockBlock }
    userStakes := Rows.put accrued.userStakes staker stakeIndex { stake with amount := 0 } }

def userRequestUnstake (sender : Address) (stakeIndex blockNumber : Nat) :
    Except String SynapticStaking :=
  self.requestUnstake sender stakeIndex blockNumber

/-- The native transfer that ends a withdrawal or a claim.  Nothing is written after it, so what
the receiver calls back acts as later transactions. -/
def pay (amount : Nat) (accepts : Bool) : Except String SynapticStaking := do
  ensure (amount ≤ self.balance ∧ accepts = true) "Synaptic: transfer failed"
  .ok { self with balance := self.balance - amount }

def userCompleteUnstake (sender : Address) (requestIndex blockNumber : Nat) (accepts : Bool) :
    Except String SynapticStaking := do
  let req ← (self.requests sender)[requestIndex]?.okOr "Synaptic: invalid request"
  ensure (0 < req.amount) "Synaptic: already completed"
  ensure (req.unlockBlock ≤ blockNumber) "Synaptic: still locked"
  let completed :=
    { self with
      unstakeRequests := Rows.put self.unstakeRequests sender requestIndex { req with amount := 0 } }
  completed.pay req.amount accepts

/-- One round of the loop of `claimRewards`. -/
def accrueActive (staker : Address) (stakeIndex : Nat) : Except String SynapticStaking :=
  match (self.stakes staker)[stakeIndex]? with
  | some s => if 0 < s.amount then self.accrueRewards staker stakeIndex s else .ok self
  | none => .error "Panic(0x32)"

def accrueBatch (staker : Address) : List Nat → SynapticStaking → Except String SynapticStaking
  | [], self => .ok self
  | i :: is, self => do
    let accrued ← self.accrueActive staker i
    accrueBatch staker is accrued

def claimRewards (sender : Address) (startIndex : Nat) (accepts : Bool) :
    Except String SynapticStaking := do
  let stakesLen := (self.stakes sender).length
  ensure (startIndex < stakesLen ∨ stakesLen = 0) "Synaptic: invalid startIndex"
  let batchEnd ← add startIndex maxClaimBatch
  let accrued ← accrueBatch sender
    (List.range' startIndex (min batchEnd stakesLen - startIndex)) self
  let reward := accrued.pendingRewards.balance sender
  ensure (0 < reward) "Synaptic: no rewards"
  let claimed := { accrued with pendingRewards := accrued.pendingRewards.set sender 0 }
  claimed.pay reward accepts

/-- `transferred` is what the QBC token answers; no native coin moves. -/
def stake (sender staker : Address) (connectionId amount timestamp : Nat) (transferred : Bool) :
    Except String SynapticStaking := do
  self.onlyKernel sender
  ensure ((self.connection connectionId).active = true) "Synaptic: not active"
  ensure (0 < amount) "Synaptic: zero amount"
  ensure (transferred = true) "Synaptic: transfer failed"
  self.addStake staker connectionId amount timestamp

def unstake (sender staker : Address) (stakeIndex blockNumber : Nat) :
    Except String SynapticStaking := do
  self.onlyKernel sender
  self.requestUnstake staker stakeIndex blockNumber

def updateUtility (sender : Address) (connectionId newUtility : Nat) :
    Except String SynapticStaking := do
  self.onlyKernel sender
  ensure ((self.connection connectionId).active = true) "Synaptic: not active"
  .ok { self with
    connections := self.connections.insert connectionId
      { self.connection connectionId with utilityScore := newUtility } }

/-- The index of a connection after a reward. -/
def nextIndex (conn : Connection) (rewardAmount : Nat) : Except String Nat :=
  if 0 < conn.totalStaked then do
    let scaled ← mul rewardAmount (10 ^ 18)
    let gained ← div scaled conn.totalStaked
    add conn.rewardsPerToken gained
  else .ok conn.rewardsPerToken

def distributeConnectionReward (sender : Address) (connectionId rewardAmount : Nat) :
    Except String SynapticStaking := do
  self.onlyKernel sender
  let conn := self.connection connectionId
  let totalRewards ← add conn.totalRewards rewardAmount
  let totalRewardsDistributed ← add self.totalRewardsDistributed rewardAmount
  let rewardsPerToken ← nextIndex conn rewardAmount
  .ok { self with
    connections := self.connections.insert connectionId
      { conn with totalRewards := totalRewards, rewardsPerToken := rewardsPerToken }
    totalRewardsDistributed := totalRewardsDistributed }

inductive Call
  | activateConnection (sender : Address) (fromNodeId toNodeId : BitVec 8)
  | userStake (sender : Address) (connectionId value timestamp : Nat)
  | userRequestUnstake (sender : Address) (stakeIndex blockNumber : Nat)
  | userCompleteUnstake (sender : Address) (requestIndex blockNumber : Nat) (accepts : Bool)
  | claimRewards (sender : Address) (startIndex : Nat) (accepts : Bool)
  | stake (sender staker : Address) (connectionId amount timestamp : Nat) (transferred : Bool)
  | unstake (sender staker : Address) (stakeIndex blockNumber : Nat)
  | updateUtility (sender : Address) (connectionId newUtility : Nat)
  | distributeConnectionReward (sender : Address) (connectionId rewardAmount : Nat)
  | receive (value : Nat)

def call (self : SynapticStaking) : Call → Except String SynapticStaking
  | .activateConnection sender fromNodeId toNodeId =>
    self.activateConnection sender fromNodeId toNodeId
  | .userStake sender connectionId value timestamp =>
    self.userStake sender connectionId value timestamp
  | .userRequestUnstake sender stakeIndex blockNumber =>
    self.userRequestUnstake sender stakeIndex blockNumber
  | .userCompleteUnstake sender requestIndex blockNumber accepts =>
    self.userCompleteUnstake sender requestIndex blockNumber accepts
  | .claimRewards sender startIndex accepts => self.claimRewards sender startIndex accepts
  | .stake sender staker connectionId amount timestamp transferred =>
    self.stake sender staker connectionId amount timestamp transferred
  | .unstake sender staker stakeIndex blockNumber =>
    self.unstake sender staker stakeIndex blockNumber
  | .updateUtility sender connectionId newUtility =>
    self.updateUtility sender connectionId newUtility
  | .distributeConnectionReward sender connectionId rewardAmount =>
    self.distributeConnectionReward sender connectionId rewardAmount
  | .receive value => .ok { self with balance := self.balance + value }

end SynapticStaking

end Qubitcoin.Contracts
