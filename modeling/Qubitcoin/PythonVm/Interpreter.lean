import Qubitcoin.Library.Commands
import Qubitcoin.PythonVm.Precompiles

/-! `vm.py`.  An opcode is a command on the frame and what it shares; one that calls a precompiled
contract or starts a sub-frame hands its request to the loop and is resumed with the result. -/

namespace Qubitcoin.PythonVm

open Evm (bigEndian ofBigEndian)

/-- The exceptions that end a frame. -/
inductive Halt
  | outOfGas (err : String)
  | execution (err : String)
  | internal (fault : Fault)

abbrev Exec (α : Type) := Command Halt Vm α

namespace Vm

def withGasUsed (vm : Vm) (gasUsed : ℕ) : Vm := { vm with ctx.gasUsed := gasUsed }
def withStack (vm : Vm) (stack : Stack) : Vm := { vm with ctx.stack := stack }
def withMemory (vm : Vm) (memory : Bytes) : Vm := { vm with ctx.memory := memory }
def withPc (vm : Vm) (pc : ℕ) : Vm := { vm with ctx.pc := pc }
def withReturnData (vm : Vm) (data : Bytes) : Vm := { vm with ctx.returnData := data }
def withRefund (vm : Vm) (refund : ℕ) : Vm := { vm with ctx.gasRefund := refund }
def withLogs (vm : Vm) (logs : List Log) : Vm := { vm with ctx.logs := logs }
def withCache (vm : Vm) (cache : Storage) : Vm := { vm with shared.storageCache := cache }
def withOriginal (vm : Vm) (original : Storage) : Vm :=
  { vm with shared.originalStorage := original }

def touchAddress (vm : Vm) (addr : String) : Vm :=
  { vm with shared.accessedAddresses := insert addr vm.shared.accessedAddresses }

def touchSlot (vm : Vm) (slot : String × String) : Vm :=
  { vm with shared.accessedStorageKeys := insert slot vm.shared.accessedStorageKeys }

def tick (vm : Vm) : Vm := { vm with shared.clock := vm.shared.clock + 1 }

def stop (vm : Vm) : Vm := { vm with ctx.stopped := true }
def revert (vm : Vm) : Vm := { vm with ctx.reverted := true, ctx.stopped := true }

end Vm

namespace Exec

variable {α : Type}

def reads (f : Vm → α) : Exec α := fun vm => .ok (f vm) vm

def modifies (f : Vm → Vm) : Exec Unit := fun vm => .ok () (f vm)

def fail (err : String) : Exec α := fun vm => .error (.execution err) vm

def raise (fault : Fault) : Exec α := fun vm => .error (.internal fault) vm

/-- Ask a service, which may raise an exception; time passes. -/
def ask (f : ℕ → Except String α) : Exec α := fun vm =>
  match f vm.shared.clock with
  | .ok a => .ok a vm.tick
  | .error err => .error (.internal (.service err)) vm.tick

/-- Ask a service behind `except Exception`. -/
def askOr (default : α) (f : ℕ → Except String α) : Exec α := fun vm =>
  match f vm.shared.clock with
  | .ok a => .ok a vm.tick
  | .error _ => .ok default vm.tick

/-- `use_gas`. -/
def useGas (amount : ℕ) : Exec Unit := fun vm =>
  if vm.ctx.gas < vm.ctx.gasUsed + amount then
    .error (.outOfGas ("Gas overflow: " ++ toString vm.ctx.gasUsed ++ " + " ++ toString amount ++
      " exceeds limit " ++ toString vm.ctx.gas)) vm
  else .ok () (vm.withGasUsed (vm.ctx.gasUsed + amount))

def push (value : ℤ) : Exec Unit := fun vm =>
  match vm.ctx.stack.push (BitVec.ofInt 256 value) with
  | some stack => .ok () (vm.withStack stack)
  | none => .error (.execution "Stack overflow (max 1024)") vm

def pop : Exec ℕ := fun vm =>
  match vm.ctx.stack.pop with
  | some (value, stack) => .ok value.toNat (vm.withStack stack)
  | none => .error (.execution "Stack underflow") vm

def peek (depth : ℕ) : Exec ℕ := fun vm =>
  match vm.ctx.stack.items[depth]? with
  | none => .error (.execution ("Stack underflow at depth " ++ toString depth)) vm
  | some value => .ok value.toNat vm

/-- `int(s, 16)`. -/
def parseHex (s : String) : Exec ℤ :=
  match intOfHex s with
  | some n => pure n
  | none => raise (.notAnInteger s)

/-- `bytes.fromhex(s)`. -/
def parseBytes (s : String) : Exec Bytes :=
  match fromHex s with
  | some data => pure data
  | none => raise (.notBytes s)

/-- Python makes a byte string of such a length. -/
def allocate (host : Host) (length : ℕ) : Exec Unit :=
  if host.crypto.maxLength < length then raise .tooLong else pure ()

end Exec

open Exec

/-- The cost of so many words of memory. -/
def memoryCost (words : ℕ) : ℕ := words * 3 + words * words / 512

def memoryExtend (host : Host) (offset size : ℕ) : Exec Unit :=
  if size = 0 then pure ()
  else do
    let length ← reads fun vm => vm.ctx.memory.length
    if length < offset + size then do
      let newWords := words (offset + size)
      useGas (memoryCost newWords - memoryCost (words length))
      allocate host (32 * newWords)
      modifies fun vm => vm.withMemory (padRight vm.ctx.memory (32 * newWords))
    else pure ()

def memoryRead (host : Host) (offset size : ℕ) : Exec Bytes :=
  if size = 0 then pure []
  else do
    memoryExtend host offset size
    reads fun vm => slice vm.ctx.memory offset size

/-- `memory[offset:offset + len(data)] = data`. -/
def overwrite (memory : Bytes) (offset : ℕ) (data : Bytes) : Bytes :=
  memory.take offset ++ data ++ memory.drop (offset + data.length)

def memoryWrite (host : Host) (offset : ℕ) (data : Bytes) : Exec Unit :=
  if data.isEmpty then pure ()
  else do
    memoryExtend host offset data.length
    modifies fun vm => vm.withMemory (overwrite vm.ctx.memory offset data)

/-- `ljust` with zero bytes, where there is room for them. -/
def ljust (host : Host) (data : Bytes) (size : ℕ) : Exec Bytes := do
  allocate host size
  pure (padRight data size)

/-- `_MAX_GAS_REFUND`. -/
def MAX_GAS_REFUND : ℕ := 2 ^ 63 - 1

def safeGasRefundAdd (currentRefund delta : ℕ) : ℕ := min (currentRefund + delta) MAX_GAS_REFUND

def safeGasRefundSub (currentRefund delta : ℕ) : ℕ := currentRefund - delta

/-- `_rlp_encode_length`. -/
def rlpEncodeLength (data : Bytes) (offset : ℕ) : Bytes :=
  if data.length = 1 ∧ offset = 0x80 ∧ (data.getD 0 0).toNat < 0x80 then []
  else if data.length ≤ 55 then [UInt8.ofNat (offset + data.length)]
  else
    let lenBytes := bigEndian ((bitLength data.length + 7) / 8) data.length
    UInt8.ofNat (offset + 55 + lenBytes.length) :: lenBytes

/-- `_rlp_encode_bytes`. -/
def rlpEncodeBytes (data : Bytes) : Bytes :=
  if data.length = 1 ∧ (data.getD 0 0).toNat < 0x80 then data
  else rlpEncodeLength data 0x80 ++ data

/-- `_rlp_encode_integer`. -/
def rlpEncodeInteger (value : ℕ) : Bytes :=
  if value = 0 then rlpEncodeBytes []
  else rlpEncodeBytes (bigEndian ((bitLength value + 7) / 8) value)

def rlpEncodeCreateAddress (host : Host) (senderHex : String) (nonce : ℕ) : Exec Bytes := do
  let senderBytes ← parseBytes (String.ofList ((ljustZeros senderHex 40).toList.take 40))
  let payload := rlpEncodeBytes senderBytes ++ rlpEncodeInteger nonce
  pure ((host.crypto.keccak256 (rlpEncodeLength payload 0xc0 ++ payload)).take 20)

/-- The opcodes of the `CALL` family. -/
inductive CallKind
  | call
  | staticcall
  | delegatecall
  | callcode
  deriving DecidableEq

def CallKind.takesValue : CallKind → Bool
  | .call | .callcode => true
  | .staticcall | .delegatecall => false

def CallKind.opName : CallKind → String
  | .call => "CALL"
  | .staticcall => "STATICCALL"
  | .delegatecall => "DELEGATECALL"
  | .callcode => "CALLCODE"

/-- What an opcode waits for. -/
inductive Request
  | precompile (address : ℕ) (data : Bytes) (gas : ℕ)
  | frame (message : Message)

/-- What a suspended opcode needs to go on once it has its result. -/
inductive Pending
  | precompile (retOffset retSize : ℕ)
  | call (kind : CallKind) (cacheSnap : Storage) (retOffset retSize : ℕ)
  | create (cacheSnap : Storage) (newAddr : String)

/-- How the loop goes on: past the opcode, at the position a jump has set, or once a request has
been answered. -/
inductive Next
  | proceed
  | jumped
  | awaits (request : Request) (pending : Pending)

structure ExecutionResult where
  success : Bool
  returnData : Bytes
  gasUsed : ℕ
  gasRemaining : ℕ
  gasRefund : ℕ
  logs : List Log
  revertReason : String
  storageChanges : Storage

namespace ExecutionResult

def new : ExecutionResult where
  success := true
  returnData := []
  gasUsed := 0
  gasRemaining := 0
  gasRefund := 0
  logs := []
  revertReason := ""
  storageChanges := ∅

def ofPrecompiled (p : Precompiled) : ExecutionResult :=
  { new with
    success := p.success
    returnData := p.returnData
    gasUsed := p.gasUsed
    revertReason := p.revertReason }

end ExecutionResult

namespace Arithmetic

def sdiv (a b : ℕ) : ℤ :=
  if b = 0 then 0
  else
    let sa := toSigned a
    let sb := toSigned b
    let sign : ℤ := if (sa < 0) ≠ (sb < 0) then -1 else 1
    toUnsigned (sign * (sa.natAbs / sb.natAbs : ℕ))

def smod (a b : ℕ) : ℤ :=
  if b = 0 then 0
  else
    let sa := toSigned a
    let sb := toSigned b
    let sign : ℤ := if sa < 0 then -1 else 1
    toUnsigned (sign * (sa.natAbs % sb.natAbs : ℕ))

def addmod (a b n : ℕ) : ℤ := if n = 0 then 0 else ((a + b) % n : ℕ)

def mulmod (a b n : ℕ) : ℤ := if n = 0 then 0 else (a * b % n : ℕ)

def signextend (b x : ℕ) : ℤ :=
  if b < 31 then
    let mask := 2 ^ (b * 8 + 7) - 1
    if x.testBit (b * 8 + 7) then (x ||| (MAX_UINT256 - mask) : ℕ) else (x &&& mask : ℕ)
  else x

def ofBool (b : Bool) : ℤ := if b then 1 else 0

def byte (i x : ℕ) : ℤ := if i < 32 then ((x >>> (248 - i * 8)) &&& 0xff : ℕ) else 0

def shl (shift val : ℕ) : ℤ := if shift < 256 then (val <<< shift : ℕ) else 0

def shr (shift val : ℕ) : ℤ := if shift < 256 then (val >>> shift : ℕ) else 0

def sar (shift val : ℕ) : ℤ :=
  let signedVal := toSigned val
  if 256 ≤ shift then toUnsigned (if signedVal < 0 then -1 else 0)
  else toUnsigned (signedVal >>> shift)

end Arithmetic

open Arithmetic (ofBool)

namespace Interpreter

def unary (f : ℕ → ℤ) : Exec Unit := do
  let a ← pop
  push (f a)

def binary (f : ℕ → ℕ → ℤ) : Exec Unit := do
  let a ← pop
  let b ← pop
  push (f a b)

def ternary (f : ℕ → ℕ → ℕ → ℤ) : Exec Unit := do
  let a ← pop
  let b ← pop
  let n ← pop
  push (f a b n)

/-- Push a value read off the frame. -/
def pushes (f : Vm → ℤ) : Exec Unit := do
  let value ← reads f
  push value

/-- Push an address, or zero for none. -/
def pushesHex (f : Vm → String) : Exec Unit := do
  let s ← reads f
  let n ← if s = "" then pure 0 else parseHex s
  push n

def opExp : Exec Unit := do
  let base ← pop
  let exp ← pop
  useGas (50 * ((bitLength exp + 7) / 8))
  push (base ^ exp % UINT256_MOD : ℕ)

def opKeccak256 (host : Host) : Exec Unit := do
  let offset ← pop
  let size ← pop
  let data ← memoryRead host offset size
  useGas (6 * words size)
  push (ofBigEndian (host.crypto.keccak256 data))

/-- The charge for an address, less once it has been accessed. -/
def accessAddress (addr : String) : Exec Unit := do
  let warm ← reads fun vm => decide (addr ∈ vm.shared.accessedAddresses)
  if warm then useGas 100
  else do
    modifies fun vm => vm.touchAddress addr
    useGas 2600

/-- The charge for a slot. -/
def accessSlot (slot : String × String) : Exec Unit := do
  let warm ← reads fun vm => decide (slot ∈ vm.shared.accessedStorageKeys)
  if warm then useGas 100
  else do
    modifies fun vm => vm.touchSlot slot
    useGas 2100

def balanceOf (host : Host) (addr : String) : Exec ℤ :=
  match host.db with
  | some db => ask fun now => db.getAccountBalance now addr
  | none => pure 0

def opBalance (host : Host) : Exec Unit := do
  let addrInt ← pop
  let addr := formatHex 40 addrInt
  accessAddress addr
  let balance ← balanceOf host addr
  push balance

/-- The text of a contract's code, empty where there is none. -/
def bytecodeOf (host : Host) (addr : String) : Exec String :=
  match host.db with
  | some db => do
    let bc ← ask fun now => db.getContractBytecode now addr
    pure (bc.getD "")
  | none => pure ""

def codeOf (host : Host) (addr : String) : Exec Bytes := do
  let bc ← bytecodeOf host addr
  if bc = "" then pure [] else parseBytes bc

def opCallDataLoad : Exec Unit := do
  let offset ← pop
  pushes fun vm => ofBigEndian (padRight (slice vm.ctx.data offset 32) 32)

/-- The part that the copying opcodes share. -/
def copies (host : Host) (source : Bytes) (destOffset offset size : ℕ) : Exec Unit := do
  let data ← ljust host (slice source offset size) size
  useGas (3 * words size)
  memoryWrite host destOffset (data.take size)

def opCopy (host : Host) (source : Vm → Bytes) : Exec Unit := do
  let destOffset ← pop
  let offset ← pop
  let size ← pop
  let source ← reads source
  copies host source destOffset offset size

def opExtCodeSize (host : Host) : Exec Unit := do
  let addrInt ← pop
  let addr := formatHex 40 addrInt
  accessAddress addr
  let bc ← bytecodeOf host addr
  push (bc.length / 2 : ℕ)

def opExtCodeCopy (host : Host) : Exec Unit := do
  let addrInt ← pop
  let dest ← pop
  let offset ← pop
  let size ← pop
  let addr := formatHex 40 addrInt
  accessAddress addr
  let code ← codeOf host addr
  copies host code dest offset size

def opReturnDataCopy (host : Host) : Exec Unit := do
  let destOffset ← pop
  let offset ← pop
  let size ← pop
  let returnData ← reads fun vm => vm.ctx.returnData
  if returnData.length < offset + size then fail "Return data out of bounds"
  else do
    useGas (3 * words size)
    memoryWrite host destOffset (slice returnData offset size)

def codeHashOf (host : Host) (addr : String) : Exec ℤ :=
  match host.db with
  | some db => do
    let account ← ask fun now => db.getAccount now addr
    match account with
    | some account => if account.codeHash = "" then pure 0 else parseHex account.codeHash
    | none => pure 0
  | none => pure 0

def opExtCodeHash (host : Host) : Exec Unit := do
  let addrInt ← pop
  let addr := formatHex 40 addrInt
  accessAddress addr
  let codeHash ← codeHashOf host addr
  push codeHash

def blockHashOf (host : Host) (num : ℕ) : Exec ℤ :=
  let current := host.block.number.getD 0
  match host.db with
  | some db =>
    if num < current ∧ current - 256 ≤ num then do
      let blk ← ask fun now => db.getBlock now num
      match blk with
      | some blk => if blk.blockHash = "" then pure 0 else parseHex blk.blockHash
      | none => pure 0
    else pure 0
  | none => pure 0

def opBlockHash (host : Host) : Exec Unit := do
  let num ← pop
  let blockHash ← blockHashOf host num
  push blockHash

def opCoinbase (host : Host) : Exec Unit := do
  let coinbase ← parseHex (host.block.coinbase.getD (ljustZeros "" 40))
  push coinbase

def opSelfBalance (host : Host) : Exec Unit := do
  let address ← reads fun vm => vm.ctx.address
  let balance ← balanceOf host address
  push balance

def opMLoad (host : Host) : Exec Unit := do
  let offset ← pop
  let data ← memoryRead host offset 32
  push (ofBigEndian data)

def opMStore (host : Host) : Exec Unit := do
  let offset ← pop
  let value ← pop
  memoryWrite host offset (bigEndian 32 value)

def opMStore8 (host : Host) : Exec Unit := do
  let offset ← pop
  let value ← pop
  memoryWrite host offset [UInt8.ofNat value]

def zeroHex : String := formatHex 64 0

/-- `cache.get(address, {}).get(key)`. -/
def Storage.get (storage : Storage) (address key : String) : Option String :=
  (storage.value ∅ address).lookup key

def Storage.set (storage : Storage) (address key value : String) : Storage :=
  storage.insert address ((storage.value ∅ address).insert key value)

/-- The original value of a slot is noted once. -/
def noteOriginal (original : Storage) (address key value : String) : Storage :=
  match Storage.get original address key with
  | some _ => original
  | none => Storage.set original address key value

/-- A slot that the cache lacks, whose value is noted. -/
def loadStored (host : Host) (address keyHex : String) : Exec Unit :=
  match host.db with
  | some db => do
    let val ← ask fun now => db.getStorage now address keyHex
    let n ← parseHex val
    push n
    modifies fun vm => vm.withOriginal (noteOriginal vm.shared.originalStorage address keyHex val)
  | none => push 0

def loadSlot (host : Host) (address keyHex : String) : Exec Unit := do
  let cached ← reads fun vm => Storage.get vm.shared.storageCache address keyHex
  match cached with
  | some cached => do
    let n ← parseHex cached
    push n
  | none => loadStored host address keyHex

def opSLoad (host : Host) : Exec Unit := do
  let key ← pop
  let keyHex := formatHex 64 key
  let address ← reads fun vm => vm.ctx.address
  accessSlot (address, keyHex)
  loadSlot host address keyHex

/-- `int(s, 16) == 0`, which is true of what is no number. -/
def isZeroHex (s : String) : Bool :=
  match intOfHex s with
  | some n => n = 0
  | none => true

/-- What the database has for a slot, zero where that fails or is empty. -/
def storedOr (host : Host) (address keyHex : String) : Exec String :=
  match host.db with
  | some db => do
    let val ← askOr zeroHex fun now => db.getStorage now address keyHex
    pure (orElse val zeroHex)
  | none => pure zeroHex

/-- The value before the store, from the cache or the database. -/
def currentValue (host : Host) (address keyHex : String) : Exec String := do
  let cached ← reads fun vm => Storage.get vm.shared.storageCache address keyHex
  match cached with
  | some cached => pure (orElse cached zeroHex)
  | none => storedOr host address keyHex

/-- The value at the start of the transaction, which the first access notes. -/
def originalValue (host : Host) (address keyHex : String) : Exec String := do
  let noted ← reads fun vm => Storage.get vm.shared.originalStorage address keyHex
  match noted with
  | some original => pure original
  | none => do
    let original ← storedOr host address keyHex
    modifies fun vm =>
      vm.withOriginal (Storage.set vm.shared.originalStorage address keyHex original)
    pure original

/-- The charges and the refund of a store. -/
def chargeStore (originalHex currentHex valHex : String) (newIsZero : Bool) (coldCost : ℕ) :
    Exec Unit :=
  let originalIsZero := isZeroHex originalHex
  let currentIsZero := isZeroHex currentHex
  if currentHex = valHex then useGas (100 + coldCost)
  else if originalHex = currentHex then
    if originalIsZero then useGas (20000 + coldCost)
    else do
      useGas (2900 + coldCost)
      if newIsZero then
        modifies fun vm => vm.withRefund (safeGasRefundAdd vm.ctx.gasRefund 4800)
      else pure ()
  else do
    useGas (100 + coldCost)
    if !originalIsZero && currentIsZero && !newIsZero then
      modifies fun vm => vm.withRefund (safeGasRefundSub vm.ctx.gasRefund 4800)
    else if !originalIsZero && !currentIsZero && newIsZero then
      modifies fun vm => vm.withRefund (safeGasRefundAdd vm.ctx.gasRefund 4800)
    else pure ()

def refuseStatic (err : String) (x : Exec Next) : Exec Next := do
  let isStatic ← reads fun vm => vm.ctx.isStatic
  if isStatic then fail err else x

def proceeds (x : Exec Unit) : Exec Next := do
  x
  pure .proceed

/-- The part of `SSTORE` behind the check of the static flag. -/
def storeSlot (host : Host) : Exec Unit := do
  let key ← pop
  let value ← pop
  let keyHex := formatHex 64 key
  let valHex := formatHex 64 value
  let address ← reads fun vm => vm.ctx.address
  let currentHex ← currentValue host address keyHex
  let originalHex ← originalValue host address keyHex
  let isCold ← reads fun vm => decide ((address, keyHex) ∉ vm.shared.accessedStorageKeys)
  modifies fun vm => vm.touchSlot (address, keyHex)
  chargeStore originalHex currentHex valHex (value = 0) (if isCold then 2100 else 0)
  modifies fun vm => vm.withCache (Storage.set vm.shared.storageCache address keyHex valHex)

def jumpTo (dest : ℕ) (opName : String) : Exec Next := do
  let valid ← reads fun vm => vm.ctx.validJumpdests.contains dest
  if valid then do
    modifies fun vm => vm.withPc dest
    pure .jumped
  else fail ("Invalid " ++ opName ++ " to " ++ toString dest)

def opJump : Exec Next := do
  let dest ← pop
  jumpTo dest "JUMP"

def opJumpI : Exec Next := do
  let dest ← pop
  let cond ← pop
  if cond = 0 then pure .proceed else jumpTo dest "JUMPI"

def opPush (numBytes : ℕ) : Exec Unit := do
  pushes fun vm => ofBigEndian (padRight (slice vm.ctx.code (vm.ctx.pc + 1) numBytes) numBytes)
  modifies fun vm => vm.withPc (vm.ctx.pc + numBytes)

def opDup (depth : ℕ) : Exec Unit := do
  let value ← peek (depth - 1)
  push value

def opSwap (depth : ℕ) : Exec Unit := fun vm =>
  match vm.ctx.stack.items[0]?, vm.ctx.stack.items[depth]? with
  | some top, some other => .ok () (vm.withStack (vm.ctx.stack.exchange 0 depth top other))
  | _, _ => .error (.execution ("SWAP" ++ toString depth ++ ": stack too small")) vm

def popTopics : ℕ → Exec (List String)
  | 0 => pure []
  | n + 1 => do
    let topic ← pop
    let topics ← popTopics n
    pure (formatHex 64 topic :: topics)

/-- The part of `LOG` behind the check of the static flag. -/
def appendLog (host : Host) (numTopics : ℕ) : Exec Unit := do
  let offset ← pop
  let size ← pop
  let topics ← popTopics numTopics
  let logData ← memoryRead host offset size
  useGas (8 * size)
  modifies fun vm => vm.withLogs (vm.ctx.logs ++ [⟨vm.ctx.address, hex logData, topics⟩])

def optimizeVqe (host : Host) : Exec Unit := do
  let numQubits ← pop
  match host.quantum with
  | some quantum => do
    let energy ← ask fun now => quantum.optimizeVqe now (min numQubits 8)
    push energy
  | none => push 0

def opQProof : Exec Unit := binary fun energy difficulty => ofBool (energy < difficulty)

/-- Where the key, the message and the signature lie, and their sizes. -/
def verifyAt (host : Host) (pk msg sig : ℕ × ℕ) : Exec Unit := do
  let pk ← memoryRead host pk.1 pk.2
  let msg ← memoryRead host msg.1 msg.2
  let sig ← memoryRead host sig.1 sig.2
  let valid ← askOr false fun now => host.verifyDilithium now pk msg sig
  push (ofBool valid)

def opQDilithium (host : Host) : Exec Unit := do
  let pkOff ← pop
  let msgOff ← pop
  let sigOff ← pop
  let pkSize ← pop
  let msgSize ← pop
  let sigSize ← pop
  verifyAt host (pkOff, pkSize) (msgOff, msgSize) (sigOff, sigSize)

/-- An angle that the stack lacks is an exception that is caught. -/
def popAngle : Exec Unit := do
  let lacking ← reads fun vm => vm.ctx.stack.items.isEmpty
  if lacking then push 0
  else do
    let _ ← pop
    push 1

def opQGate (host : Host) : Exec Unit := do
  let gateType ← pop
  let _ ← pop
  match host.quantum with
  | some _ => if 5 ≤ gateType then popAngle else push 1
  | none => push 0

/-- The text of the block's number. -/
def numberText (host : Host) : String := toString (host.block.number.getD 0)

def opQMeasure (host : Host) : Exec Unit := unary fun qubitId =>
  match host.quantum with
  | some _ =>
    let seed := host.crypto.sha256 (encode (toString qubitId) ++ encode (numberText host))
    ((seed.getD 0 0).toNat % 2 : ℕ)
  | none => 0

def opQEntangle (host : Host) : Exec Unit := binary fun qubitA qubitB =>
  if host.quantum.isSome then qubitA * 1000 + qubitB else 0

def opQSuperpose (host : Host) : Exec Unit := unary fun _ => ofBool host.quantum.isSome

def opQHamiltonian (host : Host) : Exec Unit := do
  let seed ← pop
  match host.quantum with
  | some quantum => do
    let terms ← ask fun now => quantum.generateHamiltonian now seed
    push terms
  | none => push 0

def opQFidelity : Exec Unit := binary fun stateA stateB =>
  if stateA = stateB then 10 ^ 18
  else max 0 (10 ^ 18 - ((stateA : ℤ) - stateB).natAbs % 10 ^ 18)

def opQCreate (host : Host) : Exec Unit := do
  let numQubits ← pop
  let numQubits := max (min numQubits 32) 1
  pushes fun vm =>
    match host.quantum with
    | some _ =>
      ofBigEndian (host.crypto.sha256
        (encode (toString numQubits) ++ encode vm.ctx.address ++ encode (numberText host)))
    | none => 0

def proofKnown (host : Host) (proofHash : ℕ) : Exec Bool :=
  match host.quantumStateStore with
  | some store => ask fun now => store now proofHash
  | none => ask fun now => host.registeredProofs now proofHash

def opQVerify (host : Host) : Exec Unit := do
  let proofHash ← pop
  let _ ← pop
  if proofHash = 0 then push 0
  else do
    let known ← proofKnown host proofHash
    push (ofBool known)

def opQCompliance (host : Host) : Exec Unit := do
  let addrHash ← pop
  match host.compliance with
  | some compliance => do
    let level ← ask fun now => compliance.checkCompliance now (formatHex 40 addrHash)
    push level
  | none => push 0

def amlRisk (compliance : ComplianceEngine) (addrHex : String) : Exec ℤ :=
  match compliance.amlMonitor with
  | some monitor => ask fun now => monitor now addrHex
  | none => pure (10 * 10 ^ 16)

/-- The risk of an address, cached if it was not. -/
def riskOf (compliance : ComplianceEngine) (addrHex : String) : Exec ℤ := do
  let cached ← ask fun now => compliance.getCachedRisk now addrHex
  match cached with
  | some riskScore => pure riskScore
  | none => do
    let riskScore ← amlRisk compliance addrHex
    ask fun now => compliance.cacheRisk now addrHex riskScore
    pure riskScore

def opQRisk (host : Host) : Exec Unit := do
  let addrHash ← pop
  match host.compliance with
  | some compliance => do
    let riskScore ← riskOf compliance (formatHex 40 addrHash)
    push riskScore
  | none => push (10 * 10 ^ 16)

def opQRiskSystemic (host : Host) : Exec Unit :=
  match host.compliance with
  | some compliance => do
    let tripped ← ask compliance.isTripped
    if tripped then push (100 * 10 ^ 16)
    else
      match host.systemicRiskModel with
      | some model => do
        let risk ← askOr (5 * 10 ^ 16) model
        push risk
      | none => push (5 * 10 ^ 16)
  | none => push (5 * 10 ^ 16)

def opQBridgeEntangle (host : Host) : Exec Unit := ternary fun srcChain dstChain stateHash =>
  ofBigEndian (host.crypto.sha256 (encode (toString srcChain) ++ encode (toString dstChain) ++
    encode (toString stateHash) ++ encode (numberText host)))

def bridgeProofKnown (host : Host) (proofHash : ℕ) : Exec Bool :=
  match host.bridgeManager with
  | some processed => ask fun now => processed now (formatHex 64 proofHash)
  | none => ask fun now => host.verifiedBridgeProofs now proofHash

def opQBridgeVerify (host : Host) : Exec Unit := do
  let proofHash ← pop
  let sourceChain ← pop
  if proofHash = 0 ∨ sourceChain = 0 then push 0
  else do
    let known ← bridgeProofKnown host proofHash
    push (ofBool known)

def opQReason (host : Host) : Exec Unit := do
  let queryNode ← pop
  let maxDepth ← pop
  match host.aetherEngine with
  | some engine => do
    let confidence ← askOr none fun now => engine.chainOfThought now queryNode (min maxDepth 10)
    push (confidence.getD 500000000000000000)
  | none => push 500000000000000000

def opQPhi (host : Host) : Exec Unit :=
  match host.aetherEngine with
  | some engine => do
    let phi ← askOr 0 engine.computePhi
    push phi
  | none => push 0

/-- The gas that is left. -/
def available (vm : Vm) : ℕ := vm.ctx.gas - vm.ctx.gasUsed

/-- The frame of `CREATE` and `CREATE2`. -/
def startCreate (value : ℕ) (initCode : Bytes) (newAddr : String) : Exec Next :=
  reads fun vm =>
    .awaits
      (.frame
        { caller := vm.ctx.address
          address := newAddr
          code := initCode
          data := []
          value := value
          gas := available vm * 63 / 64
          origin := vm.ctx.origin
          isStatic := false
          depth := vm.ctx.depth + 1 })
      (.create vm.shared.storageCache newAddr)

def nonceOf (host : Host) (addr : String) : Exec ℕ :=
  match host.db with
  | some db => do
    let account ← ask fun now => db.getAccount now addr
    pure (account.elim 0 Account.nonce)
  | none => pure 0

def createAddress (host : Host) : Exec String := do
  let address ← reads fun vm => vm.ctx.address
  let nonce ← nonceOf host address
  let addrBytes ← rlpEncodeCreateAddress host address nonce
  pure (hex addrBytes)

def create2Address (host : Host) (salt : ℕ) (initCode : Bytes) : Exec String := do
  let address ← reads fun vm => vm.ctx.address
  let sender ← parseBytes (ljustZeros address 40)
  let codeHash := host.crypto.keccak256 initCode
  let addrBytes := (host.crypto.keccak256
    ([0xff] ++ sender.take 20 ++ bigEndian 32 salt ++ codeHash)).take 20
  pure (hex addrBytes)

def opCreate (host : Host) : Exec Next := do
  let value ← pop
  let offset ← pop
  let size ← pop
  let initCode ← memoryRead host offset size
  let newAddr ← createAddress host
  startCreate value initCode newAddr

def opCreate2 (host : Host) : Exec Next := do
  let value ← pop
  let offset ← pop
  let size ← pop
  let salt ← pop
  let initCode ← memoryRead host offset size
  let newAddr ← create2Address host salt initCode
  startCreate value initCode newAddr

def settleCreate (cacheSnap : Storage) (newAddr : String) (r : ExecutionResult) : Exec Unit :=
  if r.success then do
    let n ← parseHex newAddr
    push n
  else do
    push 0
    modifies fun vm => vm.withCache cacheSnap

def finishCreate (cacheSnap : Storage) (newAddr : String) (r : ExecutionResult) : Exec Unit := do
  modifies fun vm => vm.withGasUsed (vm.ctx.gasUsed + r.gasUsed)
  settleCreate cacheSnap newAddr r
  modifies fun vm => vm.withReturnData r.returnData

/-- `PRECOMPILES`. -/
def isPrecompile (addrInt : ℕ) : Bool := 1 ≤ addrInt && addrInt ≤ 9

structure CallOperands where
  gasLimit : ℕ
  addrInt : ℕ
  value : ℕ
  argsOffset : ℕ
  argsSize : ℕ
  retOffset : ℕ
  retSize : ℕ

def callOperands (kind : CallKind) : Exec CallOperands := do
  let gasLimit ← pop
  let addrInt ← pop
  let value ← if kind.takesValue then pop else pure 0
  let argsOffset ← pop
  let argsSize ← pop
  let retOffset ← pop
  let retSize ← pop
  pure { gasLimit, addrInt, value, argsOffset, argsSize, retOffset, retSize }

/-- A static frame sends no value. -/
def refuseValue (kind : CallKind) (value : ℕ) : Exec Unit := do
  let isStatic ← reads fun vm => vm.ctx.isStatic
  if isStatic ∧ value ≠ 0 then fail (kind.opName ++ " with value in static context")
  else pure ()

/-- The sub-frame of a call.  `STATICCALL` sets the static flag and only `DELEGATECALL` hands it
on. -/
def subMessage (kind : CallKind) (ctx : ExecutionContext) (toAddr : String) (code data : Bytes)
    (value gas : ℕ) : Message :=
  let message : Message :=
    { caller := ctx.address
      address := toAddr
      code := code
      data := data
      value := value
      gas := gas
      origin := ctx.origin
      isStatic := false
      depth := ctx.depth + 1 }
  match kind with
  | .call => message
  | .staticcall => { message with value := 0, isStatic := true }
  | .delegatecall =>
    { message with
      caller := ctx.caller, address := ctx.address, value := ctx.value, isStatic := ctx.isStatic }
  | .callcode => { message with address := ctx.address }

/-- A target without code succeeds at once. -/
def callCode (host : Host) (kind : CallKind) (o : CallOperands) (toAddr : String)
    (callData : Bytes) : Exec Next := do
  let code ← codeOf host toAddr
  if code.isEmpty then do
    modifies fun vm => vm.withReturnData []
    push 1
    pure .proceed
  else
    reads fun vm =>
      let subGas := min o.gasLimit (available vm * 63 / 64)
      .awaits (.frame (subMessage kind vm.ctx toAddr code callData o.value subGas))
        (.call kind vm.shared.storageCache o.retOffset o.retSize)

/-- `DELEGATECALL` takes a precompiled contract for an address like any other. -/
def opCall (host : Host) (kind : CallKind) : Exec Next := do
  let o ← callOperands kind
  refuseValue kind o.value
  let toAddr := formatHex 40 o.addrInt
  accessAddress toAddr
  let callData ← memoryRead host o.argsOffset o.argsSize
  if kind ≠ .delegatecall ∧ isPrecompile o.addrInt then
    reads fun vm =>
      .awaits (.precompile o.addrInt callData (min o.gasLimit (available vm)))
        (.precompile o.retOffset o.retSize)
  else callCode host kind o toAddr callData

/-- What is left of a call once its result has been taken over. -/
def answerCall (host : Host) (retOffset retSize : ℕ) (r : ExecutionResult) : Exec Unit := do
  memoryWrite host retOffset (r.returnData.take retSize)
  push (ofBool r.success)

/-- The gas of a result is added unchecked. -/
def takeResult (r : ExecutionResult) : Exec Unit :=
  modifies fun vm => (vm.withGasUsed (vm.ctx.gasUsed + r.gasUsed)).withReturnData r.returnData

/-- The logs of a sub-frame are kept, but not those of `STATICCALL`; a failed one is rolled back. -/
def settleCall (kind : CallKind) (cacheSnap : Storage) (r : ExecutionResult) : Exec Unit :=
  if r.success then
    if kind = .staticcall then pure ()
    else modifies fun vm => vm.withLogs (vm.ctx.logs ++ r.logs)
  else modifies fun vm => vm.withCache cacheSnap

def finishCall (host : Host) (kind : CallKind) (cacheSnap : Storage) (retOffset retSize : ℕ)
    (r : ExecutionResult) : Exec Unit := do
  takeResult r
  settleCall kind cacheSnap r
  answerCall host retOffset retSize r

def finishPrecompile (host : Host) (retOffset retSize : ℕ) (r : ExecutionResult) : Exec Unit := do
  takeResult r
  answerCall host retOffset retSize r

/-- The part that `RETURN` and `REVERT` share. -/
def returns (host : Host) (leave : Vm → Vm) : Exec Unit := do
  let offset ← pop
  let size ← pop
  let data ← memoryRead host offset size
  modifies fun vm => leave (vm.withReturnData data)

def selfDestruct : Exec Unit := do
  let _ ← pop
  modifies Vm.stop

/-- An invalid opcode takes all the gas. -/
def burns (err : String) : Exec Next := do
  modifies fun vm => vm.withGasUsed vm.ctx.gas
  fail err

/-- The branches of `_run`. -/
def dispatch (host : Host) : Opcode → Exec Next
  | .stop => proceeds (modifies Vm.stop)
  | .add => proceeds (binary fun a b => a + b)
  | .mul => proceeds (binary fun a b => a * b)
  | .sub => proceeds (binary fun a b => a - b)
  | .div => proceeds (binary fun a b => if b ≠ 0 then (a / b : ℕ) else 0)
  | .sdiv => proceeds (binary Arithmetic.sdiv)
  | .mod => proceeds (binary fun a b => if b ≠ 0 then (a % b : ℕ) else 0)
  | .smod => proceeds (binary Arithmetic.smod)
  | .addmod => proceeds (ternary Arithmetic.addmod)
  | .mulmod => proceeds (ternary Arithmetic.mulmod)
  | .exp => proceeds opExp
  | .signextend => proceeds (binary Arithmetic.signextend)
  | .lt => proceeds (binary fun a b => ofBool (a < b))
  | .gt => proceeds (binary fun a b => ofBool (a > b))
  | .slt => proceeds (binary fun a b => ofBool (toSigned a < toSigned b))
  | .sgt => proceeds (binary fun a b => ofBool (toSigned a > toSigned b))
  | .eq => proceeds (binary fun a b => ofBool (a = b))
  | .iszero => proceeds (unary fun a => ofBool (a = 0))
  | .and => proceeds (binary fun a b => (a &&& b : ℕ))
  | .or => proceeds (binary fun a b => (a ||| b : ℕ))
  | .xor => proceeds (binary fun a b => (a ^^^ b : ℕ))
  | .not => proceeds (unary fun a => (MAX_UINT256 ^^^ a : ℕ))
  | .byte => proceeds (binary Arithmetic.byte)
  | .shl => proceeds (binary Arithmetic.shl)
  | .shr => proceeds (binary Arithmetic.shr)
  | .sar => proceeds (binary Arithmetic.sar)
  | .keccak256 => proceeds (opKeccak256 host)
  | .address => proceeds (pushesHex fun vm => vm.ctx.address)
  | .balance => proceeds (opBalance host)
  | .origin => proceeds (pushesHex fun vm => vm.ctx.origin)
  | .caller => proceeds (pushesHex fun vm => vm.ctx.caller)
  | .callvalue => proceeds (pushes fun vm => vm.ctx.value)
  | .calldataload => proceeds opCallDataLoad
  | .calldatasize => proceeds (pushes fun vm => vm.ctx.data.length)
  | .calldatacopy => proceeds (opCopy host fun vm => vm.ctx.data)
  | .codesize => proceeds (pushes fun vm => vm.ctx.code.length)
  | .codecopy => proceeds (opCopy host fun vm => vm.ctx.code)
  | .gasprice => proceeds (push host.config.DEFAULT_GAS_PRICE)
  | .extcodesize => proceeds (opExtCodeSize host)
  | .extcodecopy => proceeds (opExtCodeCopy host)
  | .returndatasize => proceeds (pushes fun vm => vm.ctx.returnData.length)
  | .returndatacopy => proceeds (opReturnDataCopy host)
  | .extcodehash => proceeds (opExtCodeHash host)
  | .blockhash => proceeds (opBlockHash host)
  | .coinbase => proceeds (opCoinbase host)
  | .timestamp => proceeds (push (host.block.timestamp.getD 0))
  | .number => proceeds (push (host.block.number.getD 0))
  | .prevrandao => proceeds (push (host.block.prevrandao.getD 0))
  | .gaslimit => proceeds (push host.config.BLOCK_GAS_LIMIT)
  | .chainid => proceeds (push host.config.CHAIN_ID)
  | .selfbalance => proceeds (opSelfBalance host)
  | .basefee => proceeds (push (host.block.basefee.getD 1))
  | .pop => proceeds (do let _ ← pop)
  | .mload => proceeds (opMLoad host)
  | .mstore => proceeds (opMStore host)
  | .mstore8 => proceeds (opMStore8 host)
  | .sload => proceeds (opSLoad host)
  | .sstore => refuseStatic "SSTORE in static context" (proceeds (storeSlot host))
  | .jump => opJump
  | .jumpi => opJumpI
  | .pc => proceeds (pushes fun vm => vm.ctx.pc)
  | .msize => proceeds (pushes fun vm => vm.ctx.memory.length)
  | .gas => proceeds (pushes fun vm => available vm)
  | .jumpdest => pure .proceed
  | .push0 => proceeds (push 0)
  | .push numBytes => proceeds (opPush numBytes)
  | .dup depth => proceeds (opDup depth)
  | .swap depth => proceeds (opSwap depth)
  | .log numTopics => refuseStatic "LOG in static context" (proceeds (appendLog host numTopics))
  | .qgate => proceeds (opQGate host)
  | .qmeasure => proceeds (opQMeasure host)
  | .qentangle => proceeds (opQEntangle host)
  | .qsuperpose => proceeds (opQSuperpose host)
  | .qvqe => proceeds (optimizeVqe host)
  | .qhamiltonian => proceeds (opQHamiltonian host)
  | .qenergy => proceeds (optimizeVqe host)
  | .qproof => proceeds opQProof
  | .qfidelity => proceeds opQFidelity
  | .qdilithium => proceeds (opQDilithium host)
  | .qcreate => proceeds (opQCreate host)
  | .qverify => proceeds (opQVerify host)
  | .qcompliance => proceeds (opQCompliance host)
  | .qrisk => proceeds (opQRisk host)
  | .qriskSystemic => proceeds (opQRiskSystemic host)
  | .qbridgeEntangle => proceeds (opQBridgeEntangle host)
  | .qbridgeVerify => proceeds (opQBridgeVerify host)
  | .qreason => proceeds (opQReason host)
  | .qphi => proceeds (opQPhi host)
  | .create => refuseStatic "CREATE in static context" (opCreate host)
  | .call => opCall host .call
  | .callcode => opCall host .callcode
  | .ret => proceeds (returns host Vm.stop)
  | .delegatecall => opCall host .delegatecall
  | .create2 => refuseStatic "CREATE2 in static context" (opCreate2 host)
  | .staticcall => opCall host .staticcall
  | .revert => proceeds (returns host Vm.revert)
  | .invalid => burns "INVALID opcode"
  | .selfdestruct => refuseStatic "SELFDESTRUCT in static context" (proceeds selfDestruct)
  | .unknown op => burns ("Unknown opcode: 0x" ++ hex [op])

/-- One turn of the loop on the opcode byte `b`. -/
def step (host : Host) (b : UInt8) : Exec Next := do
  useGas (getGasCost (.ofByte b))
  dispatch host (.ofByte b)

def resume (host : Host) : Pending → ExecutionResult → Exec Unit
  | .precompile retOffset retSize => finishPrecompile host retOffset retSize
  | .call kind cacheSnap retOffset retSize => finishCall host kind cacheSnap retOffset retSize
  | .create cacheSnap newAddr => finishCreate cacheSnap newAddr

end Interpreter

open Interpreter

/-- The opcode byte the loop goes on with, if it does. -/
def Vm.fetch (vm : Vm) : Option UInt8 :=
  if vm.ctx.stopped then none else vm.ctx.code[vm.ctx.pc]?

def Vm.advance (vm : Vm) : Vm := vm.withPc (vm.ctx.pc + 1)

/-- How `_run` ends; `unfinished` is where the model's fuel has run out. -/
inductive RunOutcome
  | finished (vm : Vm)
  | raised (halt : Halt) (vm : Vm)
  | unfinished

namespace ExecutionResult

/-- The refund of a frame that has not reverted, a fifth of its gas at most. -/
def refund (ctx : ExecutionContext) : ℕ :=
  if ctx.reverted then 0 else min (min ctx.gasRefund (ctx.gasUsed / 5)) ctx.gasUsed

/-- What `execute` reports of a frame whose loop has come to its end. -/
def ofRun (host : Host) (vm : Vm) : ExecutionResult where
  success := !vm.ctx.reverted
  returnData := vm.ctx.returnData
  gasUsed := vm.ctx.gasUsed - refund vm.ctx
  gasRemaining := vm.ctx.gas - (vm.ctx.gasUsed - refund vm.ctx)
  gasRefund := refund vm.ctx
  logs := vm.ctx.logs
  revertReason := if vm.ctx.reverted then host.decode vm.ctx.returnData else ""
  storageChanges := vm.shared.storageCache

/-- What it makes of an exception. -/
def ofHalt (host : Host) (ctx : ExecutionContext) : Halt → ExecutionResult
  | .outOfGas err =>
    { new with success := false, gasUsed := ctx.gas, revertReason := err }
  | .execution err =>
    { new with success := false, gasUsed := ctx.gasUsed, revertReason := err }
  | .internal fault =>
    { new with
      success := false
      gasUsed := ctx.gasUsed
      revertReason := "Internal error: " ++ host.describe fault }

end ExecutionResult

/-- A result with what the frames share after it; `none` is an execution that is unfinished. -/
abbrev Execution := Option (ExecutionResult × Shared)

def RunOutcome.leave (host : Host) : RunOutcome → Execution
  | .finished vm => some (.ofRun host vm, vm.shared)
  | .raised halt vm => some (.ofHalt host vm.ctx halt, vm.shared)
  | .unfinished => none

/-- A new frame. -/
def Vm.enter (message : Message) (shared : Shared) : Vm where
  ctx := .new message
  shared := if message.depth = 0 then shared.begin message else shared

/-- The result of a frame that is too deep. -/
def tooDeep : ExecutionResult :=
  { ExecutionResult.new with success := false, revertReason := "Max call depth exceeded" }

/-- `execute` over the loop `runFrame`. -/
def execute (host : Host) (runFrame : Vm → RunOutcome) (message : Message) (shared : Shared) :
    Execution :=
  if 1024 < message.depth then some (tooDeep, shared)
  else (runFrame (.enter message shared)).leave host

/-- The answer to what an opcode waits for. -/
def serve (host : Host) (runFrame : Vm → RunOutcome) (vm : Vm) : Request → Execution
  | .precompile address data gas =>
    some (.ofPrecompiled (executePrecompile host.crypto vm.shared.clock address data gas),
      vm.tick.shared)
  | .frame message => execute host runFrame message vm.shared

/-- The loop of `_run`. -/
def run (host : Host) : ℕ → Vm → RunOutcome
  | 0, _ => .unfinished
  | fuel + 1, vm =>
    match vm.fetch with
    | none => .finished vm
    | some b =>
      match step host b vm with
      | .error halt vm' => .raised halt vm'
      | .ok .proceed vm' => run host fuel vm'.advance
      | .ok .jumped vm' => run host fuel vm'
      | .ok (.awaits request pending) vm' =>
        match serve host (run host fuel) vm' request with
        | none => .unfinished
        | some (result, shared) =>
          match resume host pending result { vm' with shared := shared } with
          | .error halt vm'' => .raised halt vm''
          | .ok () vm'' => run host fuel vm''.advance

end Qubitcoin.PythonVm
