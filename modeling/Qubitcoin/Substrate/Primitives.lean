import Qubitcoin.Library.StorageMap
import Qubitcoin.Library.FixedWidth
import Qubitcoin.Library.Bytes
import Qubitcoin.Library.Checked

/-! Types and constants of `qbc_primitives`.  Amounts, output indices, counters
and timestamps keep their machine widths.  Block heights are `u64` in the source
and `Nat` here: they grow by one a block, and `2^64` blocks are out of reach. -/

universe u

namespace Qubitcoin.Substrate

abbrev U32 := BitVec 32
abbrev U64 := BitVec 64
abbrev U128 := BitVec 128

/-- A 32-byte hash, its first byte the most significant. -/
abbrev H256 := BitVec 256

abbrev TxId := H256
abbrev QbcBalance := U128
abbrev Difficulty := U64
abbrev BlockHeight := Nat

/-- The bytes of an ASCII text. -/
def ascii (text : String) : Bytes := text.toList.map fun c => UInt8.ofNat c.toNat

def u64Max : Nat := 2 ^ 64 - 1

def h256Code : FixedCode H256 32 := (FixedCode.word 256 32 (by norm_num)).reverse
def u32Code : FixedCode U32 4 := FixedCode.word 32 4 (by norm_num)
def u128Code : FixedCode U128 16 := FixedCode.word 128 16 (by norm_num)

/-- `BoundedVec`: a vector that cannot outgrow its bound. -/
structure BoundedVec (α : Type u) (bound : Nat) where
  val : List α
  bounded : val.length ≤ bound
  deriving DecidableEq

namespace BoundedVec

variable {α : Type u} {bound : Nat}

def empty : BoundedVec α bound := ⟨[], Nat.zero_le _⟩

def tryPush (v : BoundedVec α bound) (a : α) : Option (BoundedVec α bound) :=
  if h : v.val.length < bound then
    some ⟨v.val ++ [a], by rw [List.length_append]; exact h⟩
  else none

/-- `remove(pos)` of a vector; a position past the end leaves it as it is. -/
def remove (v : BoundedVec α bound) (pos : Nat) : BoundedVec α bound :=
  ⟨v.val.eraseIdx pos, (List.length_eraseIdx_le v.val pos).trans v.bounded⟩

theorem val_of_tryPush {v w : BoundedVec α bound} {a : α} (h : v.tryPush a = some w) :
    w.val = v.val ++ [a] := by
  unfold tryPush at h
  split at h
  · cases h
    rfl
  · cases h

end BoundedVec

structure Address where
  bytes : H256
  deriving DecidableEq

/-- A 32-byte account identifier; its SCALE encoding is its bytes. -/
structure AccountId where
  bytes : H256
  deriving DecidableEq

structure Utxo where
  txid : TxId
  vout : U32
  address : Address
  amount : QbcBalance
  blockHeight : BlockHeight
  isCoinbase : Bool
  deriving DecidableEq

abbrev OutPoint := TxId × U32

def Utxo.key (u : Utxo) : OutPoint := (u.txid, u.vout)

structure TransactionInput where
  prevTxid : TxId
  prevVout : U32
  deriving DecidableEq

def TransactionInput.key (i : TransactionInput) : OutPoint := (i.prevTxid, i.prevVout)

structure TransactionOutput where
  address : Address
  amount : QbcBalance
  deriving DecidableEq

/-- A mining solution: `params` and `energy` are signed fixed-point numbers. -/
structure VqeProof where
  params : BoundedVec U64 32
  energy : U128
  hamiltonianSeed : H256
  nQubits : UInt8
  deriving DecidableEq

def qbcUnit : QbcBalance := 100000000
def phiScaled : U128 := 1618033988749895000
def phiDenom : U128 := 1000000000000000000
def maxSupply : QbcBalance := 3300000000 * qbcUnit
def initialReward : QbcBalance := 1527000000
def halvingInterval : Nat := 15474020
def tailEmissionReward : QbcBalance := 10000000
def feeBurnPercentage : U64 := 50
def targetBlockTimeMs : U64 := 3300
def difficultyWindow : Nat := 144
def maxAdjustmentFactor : U64 := 110
def minAdjustmentFactor : U64 := 90
def coinbaseMaturity : Nat := 100
def initialDifficulty : Difficulty := 1000000
def twoPiScaled : Int := 6283185307180
def thetaAdvancePerBlock : Int := 23999632297
def hamiltonianV2 : Nat := 2

def maxInputs : Nat := 256
def maxOutputs : Nat := 256
def maxDilithiumSigSize : Nat := 4800
def maxDilithiumPkSize : Nat := 2720

@[simp] theorem toNat_maxSupply : maxSupply.toNat = 330000000000000000 := by decide

/-- What the runtime calls outside its own pallets: hashing, the two signature
schemes, the floating-point physics and the host's report on a cleared prefix. -/
structure Host where
  sha2_256 : Bytes → H256
  dilithium5Verify : Bytes → Bytes → Bytes → Bool
  ed25519Verify : Bytes → Bytes → Bytes → Bool
  computeEnergyVersioned : H256 → List U64 → Int → Nat → Option Int
  geometricWeightScaled : List U64 → Int
  /-- The `unique` and `loops` counts reported for a prefix holding so many keys. -/
  clearPrefix : Nat → Nat × Nat

/-- A host that answers from tables, and beyond them with zero or a refusal. -/
def Host.ofTables (digests : List (Bytes × H256)) (signatures : List (Bytes × Bytes × Bytes))
    (energies : List ((H256 × List U64 × Int) × Int)) (weights : List (List U64 × Int)) :
    Host where
  sha2_256 data := (digests.lookup data).getD 0
  dilithium5Verify _ _ _ := false
  ed25519Verify signature message pubkey := (signature, message, pubkey) ∈ signatures
  computeEnergyVersioned seed params theta _ := energies.lookup (seed, params, theta)
  geometricWeightScaled params := (weights.lookup params).getD 0
  clearPrefix keys := (keys, 0)

end Qubitcoin.Substrate
