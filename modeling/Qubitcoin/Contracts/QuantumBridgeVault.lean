import Qubitcoin.Evm.Words
import Qubitcoin.Library.Solidity

/-! The vault that locks native tokens on an external chain and unlocks them. -/

namespace Qubitcoin.Contracts

open Solidity Checked
open Evm (Address Word bigEndian addressBytes wordBytes)

structure Deposit where
  depositor : Address := 0
  amount : Nat := 0
  fee : Nat := 0
  nonce : Nat := 0
  commitment : Word := 0
  timestamp : Nat := 0
  unlocked : Bool := false

/-- The event `Locked`. -/
structure Locked where
  depositId : Word
  depositor : Address
  amount : Nat
  fee : Nat
  nonce : Nat
  commitment : Word
  qbcRecipient : String

structure QuantumBridgeVault where
  owner : Address
  guardian : Address
  paused : Bool := false
  feeBps : Nat
  totalLocked : Nat := 0
  totalFees : Nat := 0
  feeRecipient : Address
  depositNonce : Nat := 0
  zkVerifier : Address := 0
  deposits : StorageMap Word Deposit := ∅
  processedUnlocks : StorageMap Word Bool := ∅
  processedProofs : StorageMap Word Bool := ∅

namespace QuantumBridgeVault

def bpsDenominator : Nat := 10000
def maxFeeBps : Nat := 500
def minDeposit : Nat := 10 ^ 12

def initial (sender feeRecipient guardian : Address) (feeBps : Nat) :
    Except String QuantumBridgeVault := do
  ensure (feeRecipient ≠ 0) "QBV: zero fee recipient"
  .ok { owner := sender
        guardian := guardian
        feeRecipient := feeRecipient
        feeBps := if feeBps ≤ maxFeeBps then feeBps else 10 }

variable (keccak256 : Bytes → Word) (self : QuantumBridgeVault)

def deposit (depositId : Word) : Deposit := self.deposits.value {} depositId

def onlyOwner (sender : Address) : Except String Unit :=
  ensure (sender = self.owner) "QBV: not owner"

def whenNotPaused : Except String Unit := ensure (self.paused = false) "QBV: paused"

/-- What the commitment of a lock hashes. -/
def packLock (depositor : Address) (netAmount nonce chainId : Nat) : Bytes :=
  addressBytes depositor ++ bigEndian 32 netAmount ++ bigEndian 32 nonce ++ bigEndian 32 chainId

def lock (sender : Address) (value : Nat) (qbcRecipient : String)
    (blockNumber timestamp chainId : Nat) : Except String (QuantumBridgeVault × Locked) := do
  self.whenNotPaused
  ensure (minDeposit ≤ value) "QBV: below minimum"
  ensure (qbcRecipient ≠ "") "QBV: empty recipient"
  let scaled ← mul value self.feeBps
  let fee ← div scaled bpsDenominator
  let netAmount ← sub value fee
  let depositNonce ← add self.depositNonce 1
  let commitment := keccak256 (packLock sender netAmount depositNonce chainId)
  let depositId := keccak256 (wordBytes commitment ++ bigEndian 32 blockNumber ++
    bigEndian 32 timestamp)
  let totalLocked ← add self.totalLocked netAmount
  let totalFees ← add self.totalFees fee
  let locked := { self with
    depositNonce := depositNonce
    deposits := self.deposits.insert depositId
      { depositor := sender
        amount := netAmount
        fee := fee
        nonce := depositNonce
        commitment := commitment
        timestamp := timestamp }
    totalLocked := totalLocked
    totalFees := totalFees }
  .ok (locked, ⟨depositId, sender, netAmount, fee, depositNonce, commitment, qbcRecipient⟩)

/-- `paid` is whether the recipient takes the transfer. -/
def unlock (sender recipient : Address) (amount : Nat) (burnProofHash : Word) (blockNumber : Nat)
    (paid : Bool) : Except String QuantumBridgeVault := do
  ensure (sender = self.zkVerifier) "QBV: not verifier"
  self.whenNotPaused
  ensure (recipient ≠ 0) "QBV: zero recipient"
  ensure (0 < amount ∧ amount ≤ self.totalLocked) "QBV: invalid amount"
  ensure (self.processedProofs.value false burnProofHash = false) "QBV: proof already used"
  let unlockId := keccak256 (addressBytes recipient ++ bigEndian 32 amount ++
    wordBytes burnProofHash ++ bigEndian 32 blockNumber)
  let totalLocked ← sub self.totalLocked amount
  ensure (paid = true) "QBV: transfer failed"
  .ok { self with
    processedProofs := self.processedProofs.insert burnProofHash true
    processedUnlocks := self.processedUnlocks.insert unlockId true
    totalLocked := totalLocked }

def setZKVerifierInitial (sender verifier : Address) : Except String QuantumBridgeVault := do
  self.onlyOwner sender
  ensure (self.zkVerifier = 0) "QBV: verifier already set"
  ensure (verifier ≠ 0) "QBV: zero verifier"
  .ok { self with zkVerifier := verifier }

def setFeeBps (sender : Address) (newFeeBps : Nat) : Except String QuantumBridgeVault := do
  self.onlyOwner sender
  ensure (newFeeBps ≤ maxFeeBps) "QBV: fee too high"
  .ok { self with feeBps := newFeeBps }

def pause (sender : Address) : Except String QuantumBridgeVault := do
  ensure (sender = self.owner ∨ sender = self.guardian) "QBV: not authorized"
  .ok { self with paused := true }

def unpause (sender : Address) : Except String QuantumBridgeVault := do
  self.onlyOwner sender
  .ok { self with paused := false }

/-- The calls that unlock nothing. -/
inductive Call
  | lock (value : Nat) (qbcRecipient : String) (blockNumber timestamp : Nat)
  | setZKVerifierInitial (verifier : Address)
  | setFeeBps (newFeeBps : Nat)
  | pause
  | unpause

def call (chainId : Nat) (sender : Address) : Call → Except String QuantumBridgeVault
  | .lock value qbcRecipient blockNumber timestamp => do
    let (locked, _) ← self.lock keccak256 sender value qbcRecipient blockNumber timestamp chainId
    .ok locked
  | .setZKVerifierInitial verifier => self.setZKVerifierInitial sender verifier
  | .setFeeBps newFeeBps => self.setFeeBps sender newFeeBps
  | .pause => self.pause sender
  | .unpause => self.unpause sender

/-- What a lock of `value` leaves after the fee. -/
def netAmount (value : Nat) : Nat := value - value * self.feeBps / bpsDenominator

variable {keccak256} {s t : QuantumBridgeVault} {sender : Address} {value : Nat}

theorem lock_eq_ok {qbcRecipient : String} {blockNumber timestamp chainId : Nat} {event : Locked}
    (h : s.lock keccak256 sender value qbcRecipient blockNumber timestamp chainId =
      .ok (t, event)) :
    event.amount = s.netAmount value ∧ event.nonce = s.depositNonce + 1 ∧
      event.commitment =
        keccak256 (packLock sender (s.netAmount value) (s.depositNonce + 1) chainId) ∧
      (t.deposit event.depositId).amount = event.amount ∧
      (t.deposit event.depositId).nonce = event.nonce ∧
      (t.deposit event.depositId).commitment = event.commitment := by
  unfold lock whenNotPaused at h
  simp only [ensure_bind_eq_ok, mul_bind_eq_ok, div_bind_eq_ok, sub_bind_eq_ok, add_bind_eq_ok] at h
  obtain ⟨-, -, -, -, -, -, -, -, -, h⟩ := h
  cases h
  simp [netAmount, deposit]

end QuantumBridgeVault

end Qubitcoin.Contracts
