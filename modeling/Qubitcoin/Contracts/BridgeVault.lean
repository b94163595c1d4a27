import Qubitcoin.Evm.Words
import Qubitcoin.Library.Solidity

/-! The vault that locks QBC on its own chain, and releases it once relayers have confirmed. -/

namespace Qubitcoin.Contracts

open Solidity Checked
open Evm (Address Word bigEndian addressBytes wordBytes)

namespace BridgeVault

structure Deposit where
  depositor : Address := 0
  amount : Nat := 0
  fee : Nat := 0
  targetChain : Nat := 0
  targetAddress : Bytes := []
  timestamp : Nat := 0
  processed : Bool := false

structure Withdrawal where
  recipient : Address := 0
  amount : Nat := 0
  sourceChain : Nat := 0
  sourceTxHash : Word := 0
  timestamp : Nat := 0
  completed : Bool := false

end BridgeVault

/-- `balance` is the vault's native balance; `payments` lists the withdrawals that it has paid. -/
structure BridgeVault where
  owner : Address
  paused : Bool := false
  locked : Bool := false
  feeBps : Nat := 10
  totalLocked : Nat := 0
  totalFees : Nat := 0
  feeRecipient : Address
  dailyVolume : Nat := 0
  dailyVolumeDate : Nat := 0
  supportedChains : StorageMap Nat Bool := ∅
  chainIds : List Nat := []
  deposits : StorageMap Word BridgeVault.Deposit := ∅
  depositCount : Nat := 0
  withdrawals : StorageMap Word BridgeVault.Withdrawal := ∅
  withdrawalCount : Nat := 0
  relayers : StorageMap Address Bool := ∅
  relayerCount : Nat := 0
  requiredConfirmations : Nat
  confirmationCount : StorageMap Word Nat := ∅
  hasConfirmed : StorageMap (Word × Address) Bool := ∅
  balance : Nat := 0
  payments : List Word := []

namespace BridgeVault

def bpsDenominator : Nat := 10000
def maxFeeBps : Nat := 1000
def minDeposit : Nat := 10 ^ 6
def maxDeposit : Nat := 10 ^ 16
def minRelayers : Nat := 3

def defaultChains : List Nat := [1, 137, 56, 42161, 10, 43114, 8453, 0]

def initial (sender feeRecipient : Address) (requiredConfirmations : Nat) : BridgeVault where
  owner := sender
  feeRecipient := if feeRecipient ≠ 0 then feeRecipient else sender
  requiredConfirmations := if 0 < requiredConfirmations then requiredConfirmations else 1
  supportedChains := defaultChains.foldl (fun chains chainId => chains.insert chainId true) ∅
  chainIds := defaultChains

variable (keccak256 : Bytes → Word) (self : BridgeVault)

def withdrawal (wId : Word) : Withdrawal := self.withdrawals.value {} wId

def confirmations (wId : Word) : Nat := self.confirmationCount.value 0 wId

def confirmed (wId : Word) (relayer : Address) : Bool :=
  self.hasConfirmed.value false (wId, relayer)

def relayer (a : Address) : Bool := self.relayers.value false a

def onlyOwner (sender : Address) : Except String Unit :=
  ensure (sender = self.owner) "Vault: not owner"

def onlyRelayer (sender : Address) : Except String Unit :=
  ensure (self.relayer sender = true) "Vault: not relayer"

def whenNotPaused : Except String Unit := ensure (self.paused = false) "Vault: paused"

def nonReentrant : Except String Unit := ensure (self.locked = false) "Vault: reentrant call"

/-- The volume of the day so far, and the day. -/
def volume (timestamp : Nat) : Nat :=
  if timestamp / 86400 ≠ self.dailyVolumeDate then 0 else self.dailyVolume

def deposit (sender : Address) (value targetChain : Nat) (targetAddress : Bytes)
    (blockNumber timestamp : Nat) : Except String BridgeVault := do
  self.whenNotPaused
  ensure (self.supportedChains.value false targetChain = true) "Vault: unsupported chain"
  ensure (minDeposit ≤ value) "Vault: below minimum"
  ensure (targetAddress ≠ []) "Vault: empty target"
  let dailyVolume ← add (self.volume timestamp) value
  ensure (dailyVolume ≤ maxDeposit) "Vault: daily limit exceeded"
  let scaled ← mul value self.feeBps
  let fee ← div scaled bpsDenominator
  let netAmount ← sub value fee
  let depositCount ← add self.depositCount 1
  let depositId := keccak256 (addressBytes sender ++ bigEndian 32 targetChain ++ targetAddress ++
    bigEndian 32 blockNumber ++ bigEndian 32 depositCount)
  let totalLocked ← add self.totalLocked netAmount
  let totalFees ← add self.totalFees fee
  .ok { self with
    dailyVolume := dailyVolume
    dailyVolumeDate := timestamp / 86400
    depositCount := depositCount
    deposits := self.deposits.insert depositId
      { depositor := sender
        amount := netAmount
        fee := fee
        targetChain := targetChain
        targetAddress := targetAddress
        timestamp := timestamp }
    totalLocked := totalLocked
    totalFees := totalFees
    balance := self.balance + value }

def confirmDeposit (sender : Address) (depositId : Word) : Except String BridgeVault := do
  self.onlyRelayer sender
  self.whenNotPaused
  let d : Deposit := self.deposits.value {} depositId
  ensure (d.depositor ≠ 0) "Vault: deposit not found"
  ensure (d.processed = false) "Vault: already processed"
  .ok { self with deposits := self.deposits.insert depositId { d with processed := true } }

/-- What relayers confirm. -/
structure Release where
  recipient : Address
  amount : Nat
  sourceChain : Nat
  sourceTxHash : Word

/-- `wId`. -/
def Release.id (r : Release) : Word :=
  keccak256 (addressBytes r.recipient ++ bigEndian 32 r.amount ++ bigEndian 32 r.sourceChain ++
    wordBytes r.sourceTxHash)

def confirmWithdrawal (sender : Address) (r : Release) : Except String BridgeVault := do
  self.onlyRelayer sender
  self.whenNotPaused
  self.nonReentrant
  let wId := r.id keccak256
  ensure ((self.withdrawal wId).completed = false) "Vault: already withdrawn"
  ensure (self.confirmed wId sender = false) "Vault: already confirmed"
  let count ← add (self.confirmations wId) 1
  .ok { self with
    hasConfirmed := self.hasConfirmed.insert (wId, sender) true
    confirmationCount := self.confirmationCount.insert wId count }

/-- `processWithdrawal` up to the moment when its recipient has the coins and control. -/
def processWithdrawal (sender : Address) (r : Release) (timestamp : Nat) :
    Except String BridgeVault := do
  self.onlyRelayer sender
  self.whenNotPaused
  self.nonReentrant
  ensure (r.recipient ≠ 0) "Vault: zero recipient"
  ensure (0 < r.amount) "Vault: zero amount"
  ensure (r.amount ≤ self.totalLocked) "Vault: insufficient locked"
  let wId := r.id keccak256
  ensure ((self.withdrawal wId).completed = false) "Vault: already withdrawn"
  ensure (self.requiredConfirmations ≤ self.confirmations wId) "Vault: insufficient confirmations"
  let withdrawalCount ← add self.withdrawalCount 1
  let totalLocked ← sub self.totalLocked r.amount
  ensure (r.amount ≤ self.balance) "Vault: transfer failed"
  .ok { self with
    locked := true
    withdrawals := self.withdrawals.insert wId
      { recipient := r.recipient
        amount := r.amount
        sourceChain := r.sourceChain
        sourceTxHash := r.sourceTxHash
        timestamp := timestamp
        completed := true }
    withdrawalCount := withdrawalCount
    totalLocked := totalLocked
    balance := self.balance - r.amount
    payments := self.payments ++ [wId] }

def addChain (sender : Address) (chainId : Nat) : Except String BridgeVault := do
  self.onlyOwner sender
  ensure (self.supportedChains.value false chainId = false) "Vault: chain exists"
  .ok { self with
    supportedChains := self.supportedChains.insert chainId true
    chainIds := self.chainIds ++ [chainId] }

def removeChain (sender : Address) (chainId : Nat) : Except String BridgeVault := do
  self.onlyOwner sender
  ensure (self.supportedChains.value false chainId = true) "Vault: chain not found"
  .ok { self with supportedChains := self.supportedChains.insert chainId false }

def addRelayer (sender relayer : Address) : Except String BridgeVault := do
  self.onlyOwner sender
  ensure (relayer ≠ 0) "Vault: zero address"
  ensure (self.relayer relayer = false) "Vault: relayer exists"
  let relayerCount ← add self.relayerCount 1
  .ok { self with
    relayers := self.relayers.insert relayer true
    relayerCount := relayerCount }

def removeRelayer (sender relayer : Address) : Except String BridgeVault := do
  self.onlyOwner sender
  ensure (self.relayer relayer = true) "Vault: relayer not found"
  ensure (minRelayers < self.relayerCount) "Vault: cannot go below minimum relayers"
  let relayerCount ← sub self.relayerCount 1
  .ok { self with
    relayers := self.relayers.insert relayer false
    relayerCount := relayerCount }

/-- `withdrawFees` up to the moment when the fee recipient has the coins and control. -/
def withdrawFees (sender : Address) : Except String BridgeVault := do
  self.onlyOwner sender
  self.nonReentrant
  ensure (0 < self.totalFees) "Vault: no fees"
  ensure (self.totalFees ≤ self.balance) "Vault: fee transfer failed"
  .ok { self with locked := true, totalFees := 0, balance := self.balance - self.totalFees }

def setFeeBps (sender : Address) (newFeeBps : Nat) : Except String BridgeVault := do
  self.onlyOwner sender
  ensure (newFeeBps ≤ maxFeeBps) "Vault: fee too high"
  .ok { self with feeBps := newFeeBps }

def setFeeRecipient (sender recipient : Address) : Except String BridgeVault := do
  self.onlyOwner sender
  ensure (recipient ≠ 0) "Vault: zero recipient"
  .ok { self with feeRecipient := recipient }

def setPaused (sender : Address) (paused : Bool) : Except String BridgeVault := do
  self.onlyOwner sender
  .ok { self with paused := paused }

inductive Call
  | deposit (sender : Address) (value targetChain : Nat) (targetAddress : Bytes)
      (blockNumber timestamp : Nat)
  | confirmDeposit (sender : Address) (depositId : Word)
  | confirmWithdrawal (sender : Address) (r : Release)
  | processWithdrawal (sender : Address) (r : Release) (timestamp : Nat)
  | addChain (sender : Address) (chainId : Nat)
  | removeChain (sender : Address) (chainId : Nat)
  | addRelayer (sender relayer : Address)
  | removeRelayer (sender relayer : Address)
  | withdrawFees (sender : Address)
  | setFeeBps (sender : Address) (newFeeBps : Nat)
  | setFeeRecipient (sender recipient : Address)
  | setPaused (sender : Address) (paused : Bool)
  | receive (value : Nat)

def enter (self : BridgeVault) : Call → Except String BridgeVault
  | .deposit sender value targetChain targetAddress blockNumber timestamp =>
    self.deposit keccak256 sender value targetChain targetAddress blockNumber timestamp
  | .confirmDeposit sender depositId => self.confirmDeposit sender depositId
  | .confirmWithdrawal sender r => self.confirmWithdrawal keccak256 sender r
  | .processWithdrawal sender r timestamp => self.processWithdrawal keccak256 sender r timestamp
  | .addChain sender chainId => self.addChain sender chainId
  | .removeChain sender chainId => self.removeChain sender chainId
  | .addRelayer sender relayer => self.addRelayer sender relayer
  | .removeRelayer sender relayer => self.removeRelayer sender relayer
  | .withdrawFees sender => self.withdrawFees sender
  | .setFeeBps sender newFeeBps => self.setFeeBps sender newFeeBps
  | .setFeeRecipient sender recipient => self.setFeeRecipient sender recipient
  | .setPaused sender paused => self.setPaused sender paused
  | .receive value => .ok { self with balance := self.balance + value }

end BridgeVault

end Qubitcoin.Contracts
