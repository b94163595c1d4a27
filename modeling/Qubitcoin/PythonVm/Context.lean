import Qubitcoin.Evm.Words
import Qubitcoin.Library.StorageMap

/-! `opcodes.py`: the opcodes of the Python QVM with their base costs, and the numbers and texts that
`vm.py` works on. -/

namespace Qubitcoin.PythonVm

open Evm (bigEndian ofBigEndian)

inductive Opcode
  | stop | add | mul | sub | div | sdiv | mod | smod | addmod | mulmod | exp | signextend
  | lt | gt | slt | sgt | eq | iszero | and | or | xor | not | byte | shl | shr | sar
  | keccak256
  | address | balance | origin | caller | callvalue | calldataload | calldatasize
  | calldatacopy | codesize | codecopy | gasprice | extcodesize | extcodecopy
  | returndatasize | returndatacopy | extcodehash
  | blockhash | coinbase | timestamp | number | prevrandao | gaslimit | chainid
  | selfbalance | basefee
  | pop | mload | mstore | mstore8 | sload | sstore | jump | jumpi | pc | msize | gas
  | jumpdest | push0 | push (numBytes : ℕ) | dup (depth : ℕ) | swap (depth : ℕ)
  | log (numTopics : ℕ)
  | qgate | qmeasure | qentangle | qsuperpose | qvqe | qhamiltonian | qenergy | qproof
  | qfidelity | qdilithium | qcreate | qverify | qcompliance | qrisk | qriskSystemic
  | qbridgeEntangle | qbridgeVerify | qreason | qphi
  | create | call | callcode | ret | delegatecall | create2 | staticcall | revert
  | invalid | selfdestruct
  | unknown (op : UInt8)
  deriving DecidableEq

namespace Opcode

def ofByte (b : UInt8) : Opcode :=
  match b.toNat with
  | 0x00 => stop | 0x01 => add | 0x02 => mul | 0x03 => sub | 0x04 => div | 0x05 => sdiv
  | 0x06 => mod | 0x07 => smod | 0x08 => addmod | 0x09 => mulmod | 0x0a => exp
  | 0x0b => signextend
  | 0x10 => lt | 0x11 => gt | 0x12 => slt | 0x13 => sgt | 0x14 => eq | 0x15 => iszero
  | 0x16 => and | 0x17 => or | 0x18 => xor | 0x19 => not | 0x1a => byte | 0x1b => shl
  | 0x1c => shr | 0x1d => sar
  | 0x20 => keccak256
  | 0x30 => address | 0x31 => balance | 0x32 => origin | 0x33 => caller
  | 0x34 => callvalue | 0x35 => calldataload | 0x36 => calldatasize
  | 0x37 => calldatacopy | 0x38 => codesize | 0x39 => codecopy | 0x3a => gasprice
  | 0x3b => extcodesize | 0x3c => extcodecopy | 0x3d => returndatasize
  | 0x3e => returndatacopy | 0x3f => extcodehash
  | 0x40 => blockhash | 0x41 => coinbase | 0x42 => timestamp | 0x43 => number
  | 0x44 => prevrandao | 0x45 => gaslimit | 0x46 => chainid | 0x47 => selfbalance
  | 0x48 => basefee
  | 0x50 => pop | 0x51 => mload | 0x52 => mstore | 0x53 => mstore8 | 0x54 => sload
  | 0x55 => sstore | 0x56 => jump | 0x57 => jumpi | 0x58 => pc | 0x59 => msize
  | 0x5a => gas | 0x5b => jumpdest | 0x5f => push0
  | 0xc0 => qbridgeEntangle | 0xc1 => qbridgeVerify | 0xc2 => qreason | 0xc3 => qphi
  | 0xd0 => qgate | 0xd1 => qmeasure | 0xd2 => qentangle | 0xd3 => qsuperpose
  | 0xd4 => qvqe | 0xd5 => qhamiltonian | 0xd6 => qenergy | 0xd7 => qproof
  | 0xd8 => qfidelity | 0xd9 => qdilithium | 0xda => qcreate | 0xdb => qverify
  | 0xdc => qcompliance | 0xdd => qrisk | 0xde => qriskSystemic
  | 0xf0 => create | 0xf1 => call | 0xf2 => callcode | 0xf3 => ret | 0xf4 => delegatecall
  | 0xf5 => create2 | 0xfa => staticcall | 0xfd => revert | 0xfe => invalid
  | 0xff => selfdestruct
  | n =>
    if 0x60 ≤ n ∧ n ≤ 0x7f then push (n - 0x5f)
    else if 0x80 ≤ n ∧ n ≤ 0x8f then dup (n - 0x7f)
    else if 0x90 ≤ n ∧ n ≤ 0x9f then swap (n - 0x8f)
    else if 0xa0 ≤ n ∧ n ≤ 0xa4 then log (n - 0xa0)
    else unknown b

end Opcode

def INVALID_OPCODE_GAS : ℕ := 10000

/-- `GAS_COSTS`, and what an opcode that it lacks costs. -/
def getGasCost : Opcode → ℕ
  | .stop => 0
  | .add | .sub => 3
  | .mul | .div | .sdiv | .mod | .smod | .signextend => 5
  | .addmod | .mulmod => 8
  | .exp => 10
  | .lt | .gt | .slt | .sgt | .eq | .iszero => 3
  | .and | .or | .xor | .not | .byte | .shl | .shr | .sar => 3
  | .keccak256 => 30
  | .address | .origin | .caller | .callvalue | .calldatasize | .codesize | .gasprice
  | .returndatasize => 2
  | .calldataload | .calldatacopy | .codecopy | .returndatacopy => 3
  | .balance | .extcodesize | .extcodecopy | .extcodehash => 0
  | .blockhash => 20
  | .coinbase | .timestamp | .number | .prevrandao | .gaslimit | .chainid | .basefee => 2
  | .selfbalance => 5
  | .pop | .pc | .msize | .gas | .push0 => 2
  | .mload | .mstore | .mstore8 => 3
  | .sload | .sstore => 0
  | .jump => 8
  | .jumpi => 10
  | .jumpdest => 1
  | .push _ | .dup _ | .swap _ => 3
  | .log numTopics => 375 * (numTopics + 1)
  | .qgate => 5000
  | .qmeasure => 3000
  | .qentangle => 8000
  | .qsuperpose => 4000
  | .qvqe => 50000
  | .qhamiltonian => 10000
  | .qenergy => 15000
  | .qproof => 25000
  | .qfidelity => 10000
  | .qdilithium => 3000
  | .qcreate => 5000
  | .qverify => 8000
  | .qcompliance => 15000
  | .qrisk => 5000
  | .qriskSystemic => 10000
  | .qbridgeEntangle => 20000
  | .qbridgeVerify => 15000
  | .qreason => 50000
  | .qphi => 5000
  | .create | .create2 => 32000
  | .call | .callcode | .delegatecall | .staticcall => 0
  | .ret | .revert | .invalid => 0
  | .selfdestruct => 5000
  | .unknown _ => INVALID_OPCODE_GAS

def MAX_UINT256 : ℕ := 2 ^ 256 - 1
def MAX_INT256 : ℕ := 2 ^ 255 - 1
def UINT256_MOD : ℕ := 2 ^ 256

def toSigned (value : ℕ) : ℤ := if MAX_INT256 < value then value - UINT256_MOD else value

def toUnsigned (value : ℤ) : ℤ := value % UINT256_MOD

/-- `bytes.hex`. -/
def hex (data : Bytes) : String :=
  String.ofList (data.flatMap fun b =>
    [Nat.digitChar (b.toNat / 16), Nat.digitChar (b.toNat % 16)])

/-- `format` with `0{width}x`. -/
def formatHex (width n : ℕ) : String :=
  let digits := Nat.toDigits 16 n
  String.ofList (List.replicate (width - digits.length) '0' ++ digits)

def hexValue (c : Char) : Option ℕ :=
  if '0' ≤ c ∧ c ≤ '9' then some (c.toNat - 48)
  else if 'a' ≤ c ∧ c ≤ 'f' then some (c.toNat - 87)
  else if 'A' ≤ c ∧ c ≤ 'F' then some (c.toNat - 55)
  else none

/-- The digits of a number after those read, single underscores between them. -/
def readHex : ℕ → List Char → Option ℕ
  | n, [] => some n
  | n, '_' :: c :: cs => (hexValue c).bind fun d => readHex (16 * n + d) cs
  | n, c :: cs => (hexValue c).bind fun d => readHex (16 * n + d) cs

/-- `int(s, 16)` on a text of ASCII characters; `none` is a `ValueError`. -/
def intOfHex (s : String) : Option ℤ :=
  let cs := ((s.toList.dropWhile Char.isWhitespace).reverse.dropWhile Char.isWhitespace).reverse
  let (sign, cs) : ℤ × List Char :=
    match cs with
    | '-' :: cs => (-1, cs)
    | '+' :: cs => (1, cs)
    | cs => (1, cs)
  let n :=
    match cs with
    | '0' :: 'x' :: c :: cs => readHex 0 (c :: cs)
    | '0' :: 'X' :: c :: cs => readHex 0 (c :: cs)
    | c :: cs => (hexValue c).bind fun d => readHex d cs
    | [] => none
  n.map fun n => sign * n

/-- `bytes.fromhex` on the characters; `none` is a `ValueError`. -/
def readBytes : List Char → Option Bytes
  | [] => some []
  | [c] => if c.isWhitespace then some [] else none
  | c :: c' :: cs =>
    if c.isWhitespace then readBytes (c' :: cs)
    else do
      let high ← hexValue c
      let low ← hexValue c'
      let rest ← readBytes cs
      some (UInt8.ofNat (16 * high + low) :: rest)

def fromHex (s : String) : Option Bytes := readBytes s.toList

/-- `ljust` of a text with zeros. -/
def ljustZeros (s : String) (width : ℕ) : String :=
  String.ofList (s.toList ++ List.replicate (width - s.toList.length) '0')

def encode (s : String) : Bytes := s.toUTF8.toList

/-- `data[start:start + size]`. -/
def slice (data : Bytes) (start size : ℕ) : Bytes := (data.drop start).take size

/-- `ljust` with zero bytes. -/
def padRight (data : Bytes) (size : ℕ) : Bytes := data ++ List.replicate (size - data.length) 0

def zeros (size : ℕ) : Bytes := List.replicate size 0

/-- The number of 32-byte words that so many bytes take. -/
def words (size : ℕ) : ℕ := (size + 31) / 32

def bitLength (n : ℕ) : ℕ := n.size

end Qubitcoin.PythonVm

/-! What a frame of the Python QVM holds, what the frames of a transaction share and what the machine
is given.  A service outside it is a function of the moment it is asked at. -/

namespace Qubitcoin.PythonVm

abbrev Point := ℕ × ℕ

/-- A point over the quadratic extension. -/
abbrev TwistPoint := (ℕ × ℕ) × (ℕ × ℕ)

/-- How the pairing of precompile 8 ends: with an answer, with an exception or after its time. -/
inductive PairingOutcome
  | answered (ok : Bool)
  | failed
  | timedOut
  deriving DecidableEq

/-- The hash functions and the recovery of keys, which other packages do, the pairing, which has
until a deadline from the moment it starts, and the longest byte string that there is room for. -/
structure Crypto where
  keccak256 : Bytes → Bytes
  sha256 : Bytes → Bytes
  ripemd160 : Bytes → Except String Bytes
  ecrecover : Bytes → ℕ → ℕ → ℕ → Bytes
  pairingCheck : ℕ → List (Point × TwistPoint) → PairingOutcome
  maxLength : ℕ

/-- A row of `accounts`, less what the machine does not read. -/
structure Account where
  nonce : ℕ
  codeHash : String

/-- A block, less what the machine does not read. -/
structure StoredBlock where
  blockHash : String

/-- `Database`; an answer may be an exception. -/
structure Database where
  getContractBytecode : ℕ → String → Except String (Option String)
  getStorage : ℕ → String → String → Except String String
  /-- The balance times `10 ** 8`, less its fraction. -/
  getAccountBalance : ℕ → String → Except String ℤ
  getAccount : ℕ → String → Except String (Option Account)
  getBlock : ℕ → ℕ → Except String (Option StoredBlock)

structure QuantumEngine where
  /-- The terms of `generate_hamiltonian` on four qubits from a seed. -/
  generateHamiltonian : ℕ → ℕ → Except String ℕ
  /-- The size of the energy of `optimize_vqe` on so many qubits, times `10 ** 18`. -/
  optimizeVqe : ℕ → ℕ → Except String ℤ

/-- `ComplianceEngine`; a risk is times `10 ** 16`. -/
structure ComplianceEngine where
  checkCompliance : ℕ → String → Except String ℤ
  getCachedRisk : ℕ → String → Except String (Option ℤ)
  cacheRisk : ℕ → String → ℤ → Except String Unit
  amlMonitor : Option (ℕ → String → Except String ℤ)
  isTripped : ℕ → Except String Bool

/-- What the opcodes ask of the Aether engine; what it answers is times `10 ** 18`. -/
structure AetherEngine where
  /-- The confidence of `chain_of_thought`, if it succeeds. -/
  chainOfThought : ℕ → ℕ → ℕ → Except String (Option ℤ)
  computePhi : ℕ → Except String ℤ

/-- The block context, whose entries may be missing. -/
structure BlockContext where
  number : Option ℤ
  coinbase : Option String
  timestamp : Option ℤ
  prevrandao : Option ℤ
  basefee : Option ℤ

/-- The settings that the opcodes read; the gas price is times `10 ** 8`. -/
structure Config where
  DEFAULT_GAS_PRICE : ℤ
  BLOCK_GAS_LIMIT : ℤ
  CHAIN_ID : ℤ

/-- An exception that is not of the machine's own kind. -/
inductive Fault
  | notAnInteger (s : String)
  | notBytes (s : String)
  | tooLong
  | service (err : String)

/-- The machine with all that it asks; `describe` is `str` of an exception and `decode` that of bytes,
with replacement. -/
structure Host where
  crypto : Crypto
  config : Config
  block : BlockContext
  db : Option Database
  quantum : Option QuantumEngine
  compliance : Option ComplianceEngine
  verifyDilithium : ℕ → Bytes → Bytes → Bytes → Except String Bool
  /-- Whether `_quantum_state_store` has a state, where the machine has that attribute. -/
  quantumStateStore : Option (ℕ → ℕ → Except String Bool)
  registeredProofs : ℕ → ℕ → Except String Bool
  systemicRiskModel : Option (ℕ → Except String ℤ)
  /-- Whether `_bridge_manager` has processed a proof. -/
  bridgeManager : Option (ℕ → String → Except String Bool)
  verifiedBridgeProofs : ℕ → ℕ → Except String Bool
  aetherEngine : Option AetherEngine
  describe : Fault → String
  decode : Bytes → String

structure Log where
  address : String
  data : String
  topics : List String
  deriving DecidableEq

/-- The arguments of `execute`. -/
structure Message where
  caller : String
  address : String
  code : Bytes
  data : Bytes
  value : ℤ
  gas : ℕ
  origin : String
  isStatic : Bool
  depth : ℕ

def maxStackDepth : ℕ := 1024

/-- The stack, its top first. -/
structure Stack where
  items : List (BitVec 256)
  bounded : items.length ≤ maxStackDepth

namespace Stack

def new : Stack := ⟨[], Nat.zero_le _⟩

def push (s : Stack) (value : BitVec 256) : Option Stack :=
  if h : s.items.length < maxStackDepth then some ⟨value :: s.items, h⟩ else none

def pop : Stack → Option (BitVec 256 × Stack)
  | ⟨[], _⟩ => none
  | ⟨value :: items, bounded⟩ => some (value, ⟨items, Nat.le_of_succ_le bounded⟩)

/-- The items at two positions change places. -/
def exchange (s : Stack) (i j : ℕ) (atI atJ : BitVec 256) : Stack where
  items := (s.items.set i atJ).set j atI
  bounded := by
    rw [List.length_set, List.length_set]
    exact s.bounded

end Stack

/-- One frame. -/
structure ExecutionContext extends Message where
  gasUsed : ℕ
  pc : ℕ
  stack : Stack
  memory : Bytes
  returnData : Bytes
  logs : List Log
  stopped : Bool
  reverted : Bool
  gasRefund : ℕ
  validJumpdests : List ℕ

/-- The positions of `JUMPDEST` in `code` from `pos` on, `skip` bytes of which are push data. -/
def scanJumpdests : ℕ → ℕ → Bytes → List ℕ
  | _, _, [] => []
  | pos, skip + 1, _ :: code => scanJumpdests (pos + 1) skip code
  | pos, 0, b :: code =>
    match Opcode.ofByte b with
    | .jumpdest => pos :: scanJumpdests (pos + 1) 0 code
    | .push numBytes => scanJumpdests (pos + 1) numBytes code
    | _ => scanJumpdests (pos + 1) 0 code

/-- `_analyze_jumpdests`. -/
def analyzeJumpdests (code : Bytes) : List ℕ := scanJumpdests 0 0 code

/-- A text, or another where it is empty. -/
def orElse (s other : String) : String := if s = "" then other else s

/-- The context that `execute` makes. -/
def ExecutionContext.new (message : Message) : ExecutionContext where
  toMessage := { message with origin := orElse message.origin message.caller }
  gasUsed := 0
  pc := 0
  stack := .new
  memory := []
  returnData := []
  logs := []
  stopped := false
  reverted := false
  gasRefund := 0
  validJumpdests := analyzeJumpdests message.code

abbrev Storage := StorageMap String (StorageMap String String)

/-- What the frames share through the machine, and the moment it is. -/
structure Shared where
  storageCache : Storage
  accessedAddresses : Finset String
  accessedStorageKeys : Finset (String × String)
  originalStorage : Storage
  clock : ℕ

namespace Shared

def new : Shared where
  storageCache := ∅
  accessedAddresses := ∅
  accessedStorageKeys := ∅
  originalStorage := ∅
  clock := 0

/-- What `execute` makes of it for a new transaction. -/
def begin (shared : Shared) (message : Message) : Shared where
  storageCache := ∅
  accessedAddresses :=
    {message.caller, message.address, orElse message.origin message.caller}
  accessedStorageKeys := ∅
  originalStorage := ∅
  clock := shared.clock

end Shared

structure Vm where
  ctx : ExecutionContext
  shared : Shared

end Qubitcoin.PythonVm
