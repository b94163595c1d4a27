import Qubitcoin.Evm.Words
import Qubitcoin.Library.Solidity

/-! The Poseidon2 library of the bridge contracts. -/

namespace Qubitcoin.Contracts.Poseidon2

abbrev U64 := BitVec 64

/-- `P`, the Goldilocks prime. -/
def prime : Nat := 0xFFFFFFFF00000001

def fullRoundsHalf : Nat := 4
def partialRounds : Nat := 56

def roundConstants : List U64 := [
  0xc31f1d88755f1d15, 0xd01a09d178861919, 0xeeded1e5ed80cb3e, 0x12ae088de715364d,
  0x28a03a4278670669, 0x8b77a49c583ad0e8, 0x7653973dbc5465d0, 0xc48eb9e66f8ed76b,
  0x1352b84fe1fe8e7f, 0x178a153a1e5ebe8c, 0xf1dd20f677dfc76a, 0xfb0f83c0974ac1a4,
  0x84e156351b56e0b9, 0x7a75cd1e5b0107c5, 0x67d550b215add6ae, 0x48e98e48bad62d26,
  0x1764f6634c87eb9c, 0x06297c8f6de607db, 0xbb39bcd2f9adb130, 0x5aa45016cd87eb21,
  0xb1c9a47fa4f727a4, 0x3cba2840b800d1c0, 0xf0daa0a341ee27ab, 0x82207f2248610ca5,
  0x1ea5555457142bd6, 0x80a97b1079c1d5e2, 0xc9ee5fdfc0cb744b, 0x6a9fba8a7b0f9dae,
  0x1ab12898161d5bc6, 0x4ff3f7ad8336161b, 0x84bdfdd5ddadb9c2, 0x3f3aa0dac982285a,
  0xedd0036d91a622ca, 0xeaf4b4b12dcfb207, 0x13e65bb0c5903163, 0x49f1ac0f6d3e133f,
  0x3928815c977ab168, 0xb008c53e86aa6628, 0xd26387c3692d60ca, 0xba3a9a30cc4fab0f,
  0x3a28bacd9e6cffc8, 0xde6f7b0c595da67d, 0x9d133c4bbdefaeb9, 0xff69e5c19e938160,
  0x734b9480efc05a06, 0xbaebfe9d20b0bdbb, 0xdeb706e0d423b8a3, 0x5a39ab8a7fe7677c,
  0x04bcd60fdba29a92, 0x1858ae04ed6c8391, 0x35cb79b601324f74, 0x59d32c75bfba9b6a,
  0xc658b7b8e96db76e, 0xf4766e0d09f5c365, 0xfd12f3d6b17f846c, 0x4d098122c8b49b87,
  0xa7542c9710d905db, 0x6474d0241bea543a, 0x7fd7b4d6b38bf7a4, 0x78cbf28673f04e0e,
  0xe1fba67cd7019e9d, 0x9f78d6c2f910a673, 0xf3ba6515bf2bca7a, 0xb1cf61fa47515439,
  0xb1e5412074ab8632, 0x0d0979f895afe48e, 0xcd586704abf8bbe3, 0x441e171c4b421e9d,
  0x2680ea2560794ef2, 0x11c99521549e7143, 0x8bc167910bb1b457, 0xd8e96520c8985e3c,
  0x5a940139e0c4ad76, 0x1440640a003c5c1b, 0x2494a03df146a049, 0x15410bb991559072,
  0xdc8ea33f9c4665da, 0xa96e95031251ce55, 0x4ebf046f2a210f7f, 0xb139233d20d4c78b]

/-- The sum is taken in 128 bits. -/
def fadd (a b : U64) : U64 :=
  let s := a.toNat + b.toNat
  BitVec.ofNat 64 (if prime ≤ s then s - prime else s)

def fmul (a b : U64) : U64 := BitVec.ofNat 64 (a.toNat * b.toNat % prime)

def sbox (x : U64) : U64 :=
  let x2 := fmul x x
  let x4 := fmul x2 x2
  fmul x4 x

/-- `uint64[3] memory s`. -/
structure State where
  s0 : U64
  s1 : U64
  s2 : U64
  deriving DecidableEq

namespace State

def roundConstant (idx : Nat) : U64 := roundConstants.getD idx 0

def mds (s : State) : State where
  s0 := fadd (fadd (fadd s.s0 s.s0) s.s1) s.s2
  s1 := fadd (fadd s.s0 (fadd s.s1 s.s1)) s.s2
  s2 := fadd (fadd s.s0 s.s1) (fadd s.s2 s.s2)

def fullRound (idx : Nat) (s : State) : State where
  s0 := sbox (fadd s.s0 (roundConstant idx))
  s1 := sbox (fadd s.s1 (roundConstant (idx + 1)))
  s2 := sbox (fadd s.s2 (roundConstant (idx + 2)))

def partialRound (idx : Nat) (s : State) : State :=
  { s with s0 := sbox (fadd s.s0 (roundConstant idx)) }

def fullRounds : Nat → Nat → State → State
  | 0, _, s => s
  | n + 1, idx, s => fullRounds n (idx + 3) (s.fullRound idx).mds

def partialRoundsFrom : Nat → Nat → State → State
  | 0, _, s => s
  | n + 1, idx, s => partialRoundsFrom n (idx + 1) (s.partialRound idx).mds

def permute (s : State) : State :=
  fullRounds fullRoundsHalf (3 * fullRoundsHalf + partialRounds)
    (partialRoundsFrom partialRounds (3 * fullRoundsHalf) (fullRounds fullRoundsHalf 0 s))

end State

def hashTwo (left right : U64) : BitVec 256 := (State.permute ⟨left, right, 0⟩).s0.setWidth 256

def hashFour (a b c d : U64) : BitVec 256 :=
  let s := State.permute ⟨a, b, 0⟩
  (State.permute { s with s0 := fadd s.s0 c, s1 := fadd s.s1 d }).s0.setWidth 256

def reduce (x : U64) : U64 := BitVec.ofNat 64 (x.toNat % prime)

def hashLeaf (leaf : BitVec 256) : BitVec 256 :=
  hashTwo (reduce (leaf.setWidth 64)) (reduce ((leaf >>> 64).setWidth 64))

end Qubitcoin.Contracts.Poseidon2

/-! The verifier of bridge proofs, on either chain. -/

namespace Qubitcoin.Contracts

open Solidity Checked
open Evm (Address Word bigEndian ofBigEndian addressBytes wordBytes)

namespace Poseidon2

/-- Entries of nine bytes: a direction and a sibling. -/
def climb (current : U64) : Bytes → U64
  | dir :: b0 :: b1 :: b2 :: b3 :: b4 :: b5 :: b6 :: b7 :: rest =>
    let sibling : U64 := .ofNat 64 (ofBigEndian [b0, b1, b2, b3, b4, b5, b6, b7])
    if dir = 0 then climb ((hashTwo current sibling).setWidth 64) rest
    else climb ((hashTwo sibling current).setWidth 64) rest
  | _ => current

def verifyMerkleProof (proof : Bytes) (root leaf : Word) : Bool :=
  (climb (leaf.setWidth 64) proof).setWidth 256 = root

end Poseidon2

structure Prover where
  active : Bool := false
  dilithiumPubKeyHash : Word := 0
  addedAt : Nat := 0
  proofsSubmitted : Nat := 0

structure VerifiedProof where
  proofHash : Word := 0
  commitment : Word := 0
  recipient : Address := 0
  amount : Nat := 0
  sourceChainId : Nat := 0
  destChainId : Nat := 0
  verifiedAt : Nat := 0
  executed : Bool := false

structure PendingAddressChange where
  newAddress : Address := 0
  scheduledAt : Nat := 0
  pending : Bool := false

structure ZKBridgeVerifier where
  owner : Address
  paused : Bool := false
  stateRoot : Word := 0
  stateRootBlockHeight : Nat := 0
  stateRootTimestamp : Nat := 0
  provers : StorageMap Address Prover := ∅
  proverList : List Address := []
  activeProverCount : Nat := 0
  requiredProverConfirmations : Nat
  verifiedProofs : StorageMap Word VerifiedProof := ∅
  proofConfirmations : StorageMap Word Nat := ∅
  hasConfirmedProof : StorageMap (Word × Address) Bool := ∅
  totalProofsVerified : Nat := 0
  supportedChains : StorageMap Nat Bool := ∅
  bridgeMinter : Address := 0
  bridgeVault : Address := 0
  pendingBridgeMinter : PendingAddressChange := {}
  pendingBridgeVault : PendingAddressChange := {}

/-- What a prover submits, the witness aside. -/
structure Submission where
  commitment : Word
  recipient : Address
  amount : Nat
  sourceChainId : Nat
  destChainId : Nat
  zkProof : Bytes
  deriving DecidableEq

/-- `abi.encodePacked` of a submission. -/
def Submission.pack (sub : Submission) : Bytes :=
  wordBytes sub.commitment ++ addressBytes sub.recipient ++ bigEndian 32 sub.amount ++
    bigEndian 32 sub.sourceChainId ++ bigEndian 32 sub.destChainId ++ sub.zkProof

namespace ZKBridgeVerifier

def qbcChainId : Nat := 3303

def addressChangeDelay : Nat := 48 * 3600

def initialChains : List Nat := [1, 56, 137, 42161, 10, 43114, 8453, qbcChainId]

def initial (sender : Address) (requiredConfirmations : Nat) : ZKBridgeVerifier where
  owner := sender
  requiredProverConfirmations := if 0 < requiredConfirmations then requiredConfirmations else 1
  supportedChains := initialChains.foldl (fun chains chainId => chains.insert chainId true) ∅

variable (keccak256 : Bytes → Word) (self : ZKBridgeVerifier)

def prover (a : Address) : Prover := self.provers.value {} a

def proof (proofHash : Word) : VerifiedProof := self.verifiedProofs.value {} proofHash

def confirmations (proofHash : Word) : Nat := self.proofConfirmations.value 0 proofHash

def onlyOwner (sender : Address) : Except String Unit :=
  ensure (sender = self.owner) "ZKV: not owner"

def onlyProver (sender : Address) : Except String Unit :=
  ensure ((self.prover sender).active = true) "ZKV: not prover"

def whenNotPaused : Except String Unit := ensure (self.paused = false) "ZKV: paused"

/-- The field element of a word. -/
def fieldElement (x : Poseidon2.U64) : Poseidon2.U64 :=
  if Poseidon2.prime ≤ x.toNat then x - .ofNat 64 Poseidon2.prime else x

/-- The amount that a proof encodes. -/
def proofAmount (zkProof : Bytes) : Poseidon2.U64 :=
  .ofNat 64 (ofBigEndian ((zkProof.drop 32).take 8))

def proofNonce (zkProof : Bytes) : Poseidon2.U64 :=
  .ofNat 64 (ofBigEndian ((zkProof.drop 40).take 8))

/-- `_verifyZKProof`; it does not look at the source chain. -/
def verifyZKProof (commitment : Word) (amount _sourceChainId : Nat) (zkProof stateWitness : Bytes) :
    Bool :=
  if zkProof.length < 48 then false
  else if (proofAmount zkProof).toNat ≠ amount then false
  else
    let v := ofBigEndian (zkProof.take 32)
    let lo := fieldElement (.ofNat 64 (v / 2 ^ 192))
    let hi := fieldElement (.ofNat 64 (v / 2 ^ 128))
    if Poseidon2.hashFour lo hi (proofAmount zkProof) (proofNonce zkProof) ≠ commitment then false
    else if self.stateRoot ≠ 0 ∧ 9 ≤ stateWitness.length then
      Poseidon2.verifyMerkleProof stateWitness self.stateRoot (Poseidon2.hashLeaf commitment)
    else true

/-- `submitProof` up to the execution: the record and the confirmation. -/
def confirmProof (sender : Address) (sub : Submission) (stateWitness : Bytes)
    (chainId timestamp : Nat) : Except String ZKBridgeVerifier := do
  self.onlyProver sender
  self.whenNotPaused
  ensure (self.supportedChains.value false sub.sourceChainId = true) "ZKV: unsupported source chain"
  ensure (sub.destChainId = chainId) "ZKV: wrong dest chain"
  ensure (sub.recipient ≠ 0) "ZKV: zero recipient"
  ensure (0 < sub.amount) "ZKV: zero amount"
  ensure (32 ≤ sub.zkProof.length) "ZKV: invalid proof length"
  let proofHash := keccak256 sub.pack
  ensure (self.verifyZKProof sub.commitment sub.amount sub.sourceChainId sub.zkProof stateWitness =
    true) "ZKV: invalid proof"
  let verifiedProofs :=
    if (self.proof proofHash).proofHash = 0 then
      self.verifiedProofs.insert proofHash
        { proofHash := proofHash
          commitment := sub.commitment
          recipient := sub.recipient
          amount := sub.amount
          sourceChainId := sub.sourceChainId
          destChainId := sub.destChainId
          verifiedAt := timestamp }
    else self.verifiedProofs
  ensure (self.hasConfirmedProof.value false (proofHash, sender) = false) "ZKV: already confirmed"
  let confirmations ← add (self.confirmations proofHash) 1
  let proofsSubmitted ← add (self.prover sender).proofsSubmitted 1
  .ok { self with
    verifiedProofs := verifiedProofs
    hasConfirmedProof := self.hasConfirmedProof.insert (proofHash, sender) true
    proofConfirmations := self.proofConfirmations.insert proofHash confirmations
    provers := self.provers.insert sender
      { self.prover sender with proofsSubmitted := proofsSubmitted } }

/-- `_executeProof` up to the call of the minter or the vault. -/
def markExecuted (proofHash : Word) : Except String ZKBridgeVerifier := do
  ensure ((self.proof proofHash).proofHash ≠ 0) "ZKV: proof not found"
  ensure ((self.proof proofHash).executed = false) "ZKV: already executed"
  let totalProofsVerified ← add self.totalProofsVerified 1
  .ok { self with
    verifiedProofs := self.verifiedProofs.insert proofHash
      { self.proof proofHash with executed := true }
    totalProofsVerified := totalProofsVerified }

def updateStateRoot (sender : Address) (newRoot : Word) (blockHeight timestamp : Nat) :
    Except String ZKBridgeVerifier := do
  self.onlyProver sender
  .ok { self with
    stateRoot := newRoot
    stateRootBlockHeight := blockHeight
    stateRootTimestamp := timestamp }

def addProver (sender prover : Address) (dilithiumPubKeyHash : Word) (timestamp : Nat) :
    Except String ZKBridgeVerifier := do
  self.onlyOwner sender
  ensure (prover ≠ 0) "ZKV: zero prover"
  ensure ((self.prover prover).active = false) "ZKV: already active"
  let activeProverCount ← add self.activeProverCount 1
  .ok { self with
    provers := self.provers.insert prover
      { active := true, dilithiumPubKeyHash := dilithiumPubKeyHash, addedAt := timestamp }
    proverList := self.proverList ++ [prover]
    activeProverCount := activeProverCount }

def removeProver (sender prover : Address) : Except String ZKBridgeVerifier := do
  self.onlyOwner sender
  ensure ((self.prover prover).active = true) "ZKV: not active"
  let activeProverCount ← sub self.activeProverCount 1
  .ok { self with
    provers := self.provers.insert prover { self.prover prover with active := false }
    activeProverCount := activeProverCount }

def setRequiredConfirmations (sender : Address) (required : Nat) :
    Except String ZKBridgeVerifier := do
  self.onlyOwner sender
  ensure (0 < required ∧ required ≤ self.activeProverCount) "ZKV: invalid count"
  .ok { self with requiredProverConfirmations := required }

def scheduleBridgeMinterChange (sender minter : Address) (timestamp : Nat) :
    Except String ZKBridgeVerifier := do
  self.onlyOwner sender
  ensure (minter ≠ 0) "ZKV: zero minter"
  let _ ← add timestamp addressChangeDelay
  .ok { self with pendingBridgeMinter := ⟨minter, timestamp, true⟩ }

def executeBridgeMinterChange (sender : Address) (timestamp : Nat) :
    Except String ZKBridgeVerifier := do
  self.onlyOwner sender
  ensure (self.pendingBridgeMinter.pending = true) "ZKV: no pending change"
  let executeAfter ← add self.pendingBridgeMinter.scheduledAt addressChangeDelay
  ensure (executeAfter ≤ timestamp) "ZKV: delay not elapsed"
  .ok { self with bridgeMinter := self.pendingBridgeMinter.newAddress, pendingBridgeMinter := {} }

def scheduleBridgeVaultChange (sender vault : Address) (timestamp : Nat) :
    Except String ZKBridgeVerifier := do
  self.onlyOwner sender
  ensure (vault ≠ 0) "ZKV: zero vault"
  let _ ← add timestamp addressChangeDelay
  .ok { self with pendingBridgeVault := ⟨vault, timestamp, true⟩ }

def executeBridgeVaultChange (sender : Address) (timestamp : Nat) :
    Except String ZKBridgeVerifier := do
  self.onlyOwner sender
  ensure (self.pendingBridgeVault.pending = true) "ZKV: no pending change"
  let executeAfter ← add self.pendingBridgeVault.scheduledAt addressChangeDelay
  ensure (executeAfter ≤ timestamp) "ZKV: delay not elapsed"
  .ok { self with bridgeVault := self.pendingBridgeVault.newAddress, pendingBridgeVault := {} }

def addChain (sender : Address) (chainId : Nat) : Except String ZKBridgeVerifier := do
  self.onlyOwner sender
  ensure (self.supportedChains.value false chainId = false) "ZKV: chain exists"
  .ok { self with supportedChains := self.supportedChains.insert chainId true }

def removeChain (sender : Address) (chainId : Nat) : Except String ZKBridgeVerifier := do
  self.onlyOwner sender
  ensure (self.supportedChains.value false chainId = true) "ZKV: chain not found"
  .ok { self with supportedChains := self.supportedChains.insert chainId false }

def setPaused (sender : Address) (paused : Bool) : Except String ZKBridgeVerifier := do
  self.onlyOwner sender
  .ok { self with paused := paused }

def transferOwnership (sender newOwner : Address) : Except String ZKBridgeVerifier := do
  self.onlyOwner sender
  ensure (newOwner ≠ 0) "ZKV: zero owner"
  .ok { self with owner := newOwner }

/-- The calls that neither record nor execute a proof. -/
inductive Call
  | updateStateRoot (newRoot : Word) (blockHeight timestamp : Nat)
  | addProver (prover : Address) (dilithiumPubKeyHash : Word) (timestamp : Nat)
  | removeProver (prover : Address)
  | setRequiredConfirmations (required : Nat)
  | scheduleBridgeMinterChange (minter : Address) (timestamp : Nat)
  | executeBridgeMinterChange (timestamp : Nat)
  | scheduleBridgeVaultChange (vault : Address) (timestamp : Nat)
  | executeBridgeVaultChange (timestamp : Nat)
  | addChain (chainId : Nat)
  | removeChain (chainId : Nat)
  | setPaused (paused : Bool)
  | transferOwnership (newOwner : Address)

def call (sender : Address) : Call → Except String ZKBridgeVerifier
  | .updateStateRoot newRoot blockHeight timestamp =>
    self.updateStateRoot sender newRoot blockHeight timestamp
  | .addProver prover dilithiumPubKeyHash timestamp =>
    self.addProver sender prover dilithiumPubKeyHash timestamp
  | .removeProver prover => self.removeProver sender prover
  | .setRequiredConfirmations required => self.setRequiredConfirmations sender required
  | .scheduleBridgeMinterChange minter timestamp =>
    self.scheduleBridgeMinterChange sender minter timestamp
  | .executeBridgeMinterChange timestamp => self.executeBridgeMinterChange sender timestamp
  | .scheduleBridgeVaultChange vault timestamp =>
    self.scheduleBridgeVaultChange sender vault timestamp
  | .executeBridgeVaultChange timestamp => self.executeBridgeVaultChange sender timestamp
  | .addChain chainId => self.addChain sender chainId
  | .removeChain chainId => self.removeChain sender chainId
  | .setPaused paused => self.setPaused sender paused
  | .transferOwnership newOwner => self.transferOwnership sender newOwner

end ZKBridgeVerifier

end Qubitcoin.Contracts
