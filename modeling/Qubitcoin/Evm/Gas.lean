import Qubitcoin.Evm.Words

/-! `opcodes.go` and `gas.go`. -/

namespace Qubitcoin.Evm

/-- A byte of code as an opcode.  `PUSH1`..`PUSH32`, `DUP`, `SWAP` and `LOG` carry
their number. -/
inductive Opcode
  | stop | add | mul | sub | div | sdiv | mod | smod | addmod | mulmod | exp | signext
  | lt | gt | slt | sgt | eq | iszero | and | or | xor | not | byte | shl | shr | sar
  | keccak256
  | address | balance | origin | caller | callvalue | calldataload | calldatasize
  | calldatacopy | codesize | codecopy | gasprice | extcodesize | extcodecopy
  | returndatasize | returndatacopy | extcodehash
  | blockhash | coinbase | timestamp | number | prevrandao | gaslimit | chainid
  | selfbalance | basefee
  | pop | mload | mstore | mstore8 | sload | sstore | jump | jumpi | pc | msize | gas
  | jumpdest | push0 | push (numBytes : Nat) | dup (depth : Nat) | swap (depth : Nat)
  | log (numTopics : Nat)
  | create | call | callcode | ret | delegatecall | create2 | staticcall | revert
  | invalid | selfdestruct
  | unknown (op : UInt8)
  deriving DecidableEq

namespace Opcode

def ofByte (b : UInt8) : Opcode :=
  match b.toNat with
  | 0x00 => stop | 0x01 => add | 0x02 => mul | 0x03 => sub | 0x04 => div | 0x05 => sdiv
  | 0x06 => mod | 0x07 => smod | 0x08 => addmod | 0x09 => mulmod | 0x0A => exp
  | 0x0B => signext
  | 0x10 => lt | 0x11 => gt | 0x12 => slt | 0x13 => sgt | 0x14 => eq | 0x15 => iszero
  | 0x16 => and | 0x17 => or | 0x18 => xor | 0x19 => not | 0x1A => byte | 0x1B => shl
  | 0x1C => shr | 0x1D => sar
  | 0x20 => keccak256
  | 0x30 => address | 0x31 => balance | 0x32 => origin | 0x33 => caller
  | 0x34 => callvalue | 0x35 => calldataload | 0x36 => calldatasize
  | 0x37 => calldatacopy | 0x38 => codesize | 0x39 => codecopy | 0x3A => gasprice
  | 0x3B => extcodesize | 0x3C => extcodecopy | 0x3D => returndatasize
  | 0x3E => returndatacopy | 0x3F => extcodehash
  | 0x40 => blockhash | 0x41 => coinbase | 0x42 => timestamp | 0x43 => number
  | 0x44 => prevrandao | 0x45 => gaslimit | 0x46 => chainid | 0x47 => selfbalance
  | 0x48 => basefee
  | 0x50 => pop | 0x51 => mload | 0x52 => mstore | 0x53 => mstore8 | 0x54 => sload
  | 0x55 => sstore | 0x56 => jump | 0x57 => jumpi | 0x58 => pc | 0x59 => msize
  | 0x5A => gas | 0x5B => jumpdest | 0x5F => push0
  | 0xF0 => create | 0xF1 => call | 0xF2 => callcode | 0xF3 => ret
  | 0xF4 => delegatecall | 0xF5 => create2 | 0xFA => staticcall | 0xFD => revert
  | 0xFE => invalid | 0xFF => selfdestruct
  | n =>
    if 0x60 ≤ n ∧ n ≤ 0x7F then push (n - 0x60 + 1)
    else if 0x80 ≤ n ∧ n ≤ 0x8F then dup (n - 0x80 + 1)
    else if 0x90 ≤ n ∧ n ≤ 0x9F then swap (n - 0x90 + 1)
    else if 0xA0 ≤ n ∧ n ≤ 0xA4 then log (n - 0xA0)
    else unknown b

end Opcode

def gasZero : U64 := 0
def gasBase : U64 := 2
def gasVeryLow : U64 := 3
def gasLow : U64 := 5
def gasMid : U64 := 8
def gasHigh : U64 := 10
def gasJumpdest : U64 := 1
def gasExpByte : U64 := 50
def gasKeccak256 : U64 := 30
def gasKeccak256Word : U64 := 6
def gasCopy : U64 := 3
def gasCallStipend : U64 := 2300
def gasSloadCold : U64 := 2100
def gasSloadWarm : U64 := 100
def gasSstoreCold : U64 := 20000
def gasSstoreReset : U64 := 2900
def gasSstoreRefund : U64 := 4800
def gasBalance : U64 := 2600
def gasExtCode : U64 := 2600
def gasExtCodeHash : U64 := 2600
def gasCallCold : U64 := 2600
def gasCallWarm : U64 := 100
def gasCallValue : U64 := 9000
def gasCallNewAcct : U64 := 25000
def gasCreate : U64 := 32000
def gasSelfDestruct : U64 := 5000
def gasLog : U64 := 375
def gasLogTopic : U64 := 375
def gasLogData : U64 := 8
def gasBlockhash : U64 := 20
def gasCodeDeposit : U64 := 200
def maxCodeSize : U64 := 24576
def maxInitCodeSize : U64 := 49152

/-- `ConstGas`; an opcode that is not in the map is charged by its own branch only. -/
def constGas : Opcode → Option U64
  | .stop => some gasZero
  | .add | .sub => some gasVeryLow
  | .mul | .div | .sdiv | .mod | .smod => some gasLow
  | .addmod | .mulmod => some gasMid
  | .signext => some gasLow
  | .exp => some gasHigh
  | .lt | .gt | .slt | .sgt | .eq | .iszero => some gasVeryLow
  | .and | .or | .xor | .not | .byte | .shl | .shr | .sar => some gasVeryLow
  | .keccak256 => some gasKeccak256
  | .address | .origin | .caller | .callvalue | .gasprice | .coinbase | .timestamp
  | .number | .prevrandao | .gaslimit | .chainid => some gasBase
  | .calldataload | .calldatacopy | .codecopy | .returndatacopy => some gasVeryLow
  | .calldatasize | .codesize | .returndatasize => some gasBase
  | .balance => some gasBalance
  | .selfbalance => some gasLow
  | .extcodesize | .extcodecopy => some gasExtCode
  | .extcodehash => some gasExtCodeHash
  | .basefee => some gasBase
  | .blockhash => some gasBlockhash
  | .pop => some gasBase
  | .mload | .mstore | .mstore8 => some gasVeryLow
  | .sload => some gasSloadWarm
  | .jump => some gasMid
  | .jumpi => some gasHigh
  | .pc | .msize | .gas | .push0 => some gasBase
  | .jumpdest => some gasJumpdest
  | .log _ => some gasLog
  | .ret | .revert | .invalid => some gasZero
  | .sstore | .push _ | .dup _ | .swap _ | .create | .call | .callcode | .delegatecall
  | .create2 | .staticcall | .selfdestruct | .unknown _ => none

def pushGas : U64 := gasVeryLow
def dupGas : U64 := gasVeryLow
def swapGas : U64 := gasVeryLow

def logGasCost (numTopics : Nat) (dataSize : U64) : U64 :=
  gasLog + gasLogTopic * BitVec.ofNat 64 numTopics + gasLogData * dataSize

def keccak256GasCost (size : U64) : U64 := gasKeccak256 + gasKeccak256Word * ((size + 31) / 32)

def copyGasCost (size : U64) : U64 := gasCopy * ((size + 31) / 32)

structure SstoreGasCost where
  cost : U64
  refund : Int
  deriving DecidableEq

def calcSstoreGas (currentIsZero newIsZero currentEqualsNew originalIsZero cold
    originalEqualsCurrent : Bool) : SstoreGasCost :=
  let baseCost := if cold then gasSloadCold else 0
  if currentEqualsNew then ⟨gasSloadWarm + baseCost, 0⟩
  -- the slot is clean
  else if originalEqualsCurrent then
    if originalIsZero then ⟨gasSstoreCold + baseCost, 0⟩
    else ⟨gasSstoreReset + baseCost, if newIsZero then gasSstoreRefund.toInt else 0⟩
  -- the slot is dirty
  else if originalIsZero && !currentIsZero then ⟨gasSloadWarm + baseCost, 0⟩
  else if !originalIsZero && currentIsZero then
    ⟨gasSloadWarm + baseCost, if !newIsZero then -gasSstoreRefund.toInt else 0⟩
  else ⟨gasSloadWarm + baseCost, if newIsZero then gasSstoreRefund.toInt else 0⟩

end Qubitcoin.Evm
