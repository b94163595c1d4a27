import Qubitcoin.Library.StorageMap
import Qubitcoin.Library.Bytes
import Qubitcoin.Library.FixedWidth

/-! Words of the QVM.  Byte arrays of a fixed size are bit vectors, their first
byte the most significant; a `*big.Int` is an integer. -/

namespace Qubitcoin.Evm

abbrev U64 := BitVec 64

/-- `[20]byte`. -/
abbrev Address := BitVec 160

-- membership in a list of addresses is decided through this instance in every module
instance lawfulBEqAddress : LawfulBEq Address := inferInstance

/-- `[32]byte`. -/
abbrev Word := BitVec 256

def big256 : Int := 256
def uint256Mod : Int := 2 ^ 256
def maxUint256 : Int := 2 ^ 256 - 1

/-- `And` with `maxUint256`, which is two's complement on a negative integer. -/
def u256 (val : Int) : Int := val % uint256Mod

def toSignedBig (val : Int) : Int :=
  if val.testBit 255 then -(uint256Mod - val) else val

def toUnsignedBig (val : Int) : Int :=
  if val < 0 then uint256Mod + val else u256 val

/-- `Int.Uint64`, the low bits of the magnitude. -/
def uint64 (val : Int) : U64 := BitVec.ofNat 64 val.natAbs

def safeAddrBytes (v : Int) : Address := BitVec.ofNat 160 v.natAbs

def safeFillBytes (v : Int) : Word := BitVec.ofNat 256 v.natAbs

/-- The `w` low bytes of `n`, most significant first. -/
def bigEndian (w n : Nat) : Bytes := (Bytes.le w n).reverse

/-- `Int.SetBytes`. -/
def ofBigEndian (bs : Bytes) : Nat := Bytes.ofLe bs.reverse

def addressBytes (addr : Address) : Bytes := bigEndian 20 addr.toNat

def wordBytes (word : Word) : Bytes := bigEndian 32 word.toNat

/-- `uint64(len(bs))`. -/
def len64 (bs : Bytes) : U64 := BitVec.ofNat 64 bs.length

@[simp] theorem length_bigEndian (w n : Nat) : (bigEndian w n).length = w := by
  simp [bigEndian]

theorem ofBigEndian_bigEndian (w n : Nat) : ofBigEndian (bigEndian w n) = n % 256 ^ w := by
  rw [ofBigEndian, bigEndian, List.reverse_reverse, Bytes.ofLe_le]

theorem u256_nonneg (val : Int) : 0 ≤ u256 val := Int.emod_nonneg _ (by decide)

theorem u256_lt (val : Int) : u256 val < uint256Mod := Int.emod_lt_of_pos _ (by decide)

end Qubitcoin.Evm
