import Qubitcoin.Evm.Words

/-! The words that the arithmetic, comparison and bit opcodes of `interpreter.go`
push, computed as there on big integers; `Push` masks them once more. -/

namespace Qubitcoin.Evm.Arithmetic

def add (a b : Int) : Int := u256 (a + b)
def mul (a b : Int) : Int := u256 (a * b)
def sub (a b : Int) : Int := u256 (a - b)

def div (a b : Int) : Int := if b = 0 then 0 else a / b

def sdiv (a b : Int) : Int :=
  if b = 0 then 0 else toUnsignedBig ((toSignedBig a).tdiv (toSignedBig b))

def mod (a b : Int) : Int := if b = 0 then 0 else a % b

def smod (a b : Int) : Int :=
  if b = 0 then 0 else toUnsignedBig ((toSignedBig a).tmod (toSignedBig b))

def addmod (a b n : Int) : Int := if n = 0 then 0 else (a + b) % n

def mulmod (a b n : Int) : Int := if n = 0 then 0 else (a * b) % n

def exp (base exp : Int) : Int :=
  if exp = 0 then 1 else base ^ exp.toNat % uint256Mod

def bitLen (v : Int) : Nat := if v = 0 then 0 else Nat.log2 v.natAbs + 1

def signext (b x : Int) : Int :=
  if b < 31 then
    let bit := (uint64 b).toNat * 8 + 7
    let mask : Int := 2 ^ bit - 1
    if x.testBit bit then u256 (x.lor (maxUint256.xor mask)) else x.land mask
  else x

def ofBool (val : Bool) : Int := if val then 1 else 0

def lt (a b : Int) : Int := ofBool (a < b)
def gt (a b : Int) : Int := ofBool (a > b)
def slt (a b : Int) : Int := ofBool (toSignedBig a < toSignedBig b)
def sgt (a b : Int) : Int := ofBool (toSignedBig a > toSignedBig b)
def eq (a b : Int) : Int := ofBool (a = b)
def iszero (a : Int) : Int := ofBool (a = 0)
def and (a b : Int) : Int := a.land b
def or (a b : Int) : Int := a.lor b
def xor (a b : Int) : Int := a.xor b
def not (a : Int) : Int := a.xor maxUint256

def byte (i x : Int) : Int :=
  if i < 32 then (x >>> ((31 - (uint64 i).toNat) * 8)).land 0xFF else 0

def shl (shift val : Int) : Int :=
  if shift ≥ big256 then 0 else u256 (val <<< (uint64 shift).toNat)

def shr (shift val : Int) : Int :=
  if shift ≥ big256 then 0 else val >>> (uint64 shift).toNat

def sar (shift val : Int) : Int :=
  let sval := toSignedBig val
  if shift ≥ big256 then if sval < 0 then maxUint256 else 0
  else toUnsignedBig (sval >>> (uint64 shift).toNat)

end Qubitcoin.Evm.Arithmetic
