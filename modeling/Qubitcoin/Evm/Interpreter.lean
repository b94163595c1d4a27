import Qubitcoin.Evm.Arithmetic
import Qubitcoin.Evm.Context
import Qubitcoin.Library.Commands

/-! `interpreter.go`.  An opcode is a command on the frame and the shared world; one
that starts a sub-frame hands its context to the loop and is resumed with the
result. -/

namespace Qubitcoin.Evm

/-- `PrecompiledContract`; `run` is `none` where it panics. -/
structure PrecompiledContract where
  requiredGas : Bytes → U64
  run : Bytes → Option (Except String Bytes)

structure Precompiles where
  ecRecover : PrecompiledContract
  sha256Hash : PrecompiledContract
  ripemd160Hash : PrecompiledContract
  dataCopy : PrecompiledContract
  bigModExp : PrecompiledContract
  bn256Add : PrecompiledContract
  bn256Mul : PrecompiledContract
  bn256Pairing : PrecompiledContract
  blake2F : PrecompiledContract

/-- The hash function the interpreter imports, and its precompiled contracts. -/
structure Host where
  keccak256 : Bytes → Word
  precompiles : Precompiles

def precompileMap (p : Precompiles) (addr : U64) : Option PrecompiledContract :=
  match addr.toNat with
  | 1 => some p.ecRecover
  | 2 => some p.sha256Hash
  | 3 => some p.ripemd160Hash
  | 4 => some p.dataCopy
  | 5 => some p.bigModExp
  | 6 => some p.bn256Add
  | 7 => some p.bn256Mul
  | 8 => some p.bn256Pairing
  | 9 => some p.blake2F
  | _ => none

/-- The gas used and the output; `none` where the contract panics. -/
def executePrecompile (p : Precompiles) (addr : U64) (input : Bytes) (gas : U64) :
    Option (U64 × Except String Bytes) :=
  match precompileMap p addr with
  | none => some (0, .error ("unknown precompile address: " ++ toString addr.toNat))
  | some pc =>
    let requiredGas := pc.requiredGas input
    if gas < requiredGas then
      some (gas, .error ("out of gas in precompile " ++ toString addr.toNat ++ ": need " ++
        toString requiredGas.toNat ++ ", have " ++ toString gas.toNat))
    else (pc.run input).map fun output => (requiredGas, output)

structure ExecutionResult where
  success : Bool
  returnData : Bytes
  gasUsed : U64
  gasRemaining : U64
  gasRefund : U64
  logs : List Log
  revertReason : String
  err : Option String

namespace ExecutionResult

/-- The fields a result literal does not name. -/
def zero : ExecutionResult where
  success := false
  returnData := []
  gasUsed := 0
  gasRemaining := 0
  gasRefund := 0
  logs := []
  revertReason := ""
  err := none

/-- What `ExecuteWithAccess` reports of a frame that `run` has left. -/
def ofRun (err : Option String) (ctx : ExecutionContext) : ExecutionResult where
  success := err.isNone && !ctx.reverted
  returnData := ctx.returnData
  gasUsed := ctx.gasUsed
  gasRemaining := ctx.gasRemaining
  gasRefund := ctx.gasRefund
  logs := ctx.logs
  revertReason := err.getD (if ctx.reverted then "execution reverted" else "")
  err := err

end ExecutionResult

structure InterpreterConfig where
  maxCallDepth : Int

/-- `DefaultConfig`, less the block gas limit that the interpreter does not read. -/
def InterpreterConfig.default : InterpreterConfig := ⟨1024⟩

/-- How a command stops a frame: an error that `run` returns, a `mustPop` on an empty
stack, which `run` recovers from, or any other panic. -/
inductive Halt
  | error (err : String)
  | stackUnderflow
  | panic

abbrev Exec (α : Type) := Command Halt Vm α

namespace Vm

def withStack (vm : Vm) (stack : Stack) : Vm := { vm with ctx.stack := stack }
def withMemory (vm : Vm) (memory : Memory) : Vm := { vm with ctx.memory := memory }
def withPc (vm : Vm) (pc : U64) : Vm := { vm with ctx.pc := pc }
def withReturnData (vm : Vm) (data : Bytes) : Vm := { vm with ctx.returnData := data }
def withRefund (vm : Vm) (refund : U64) : Vm := { vm with ctx.gasRefund := refund }
def withLogs (vm : Vm) (logs : List Log) : Vm := { vm with ctx.logs := logs }
def withState (vm : Vm) (state : StateDB) : Vm := { vm with world.state := state }
def withAccess (vm : Vm) (access : AccessSet) : Vm := { vm with world.accessList := access }
def withOriginal (vm : Vm) (original : OriginalStorage) : Vm :=
  { vm with world.originalStorage := original }

def stop (vm : Vm) : Vm := { vm with ctx.stopped := true }
def revert (vm : Vm) : Vm := { vm with ctx.reverted := true, ctx.stopped := true }

end Vm

namespace Exec

variable {α : Type}

def reads (f : Vm → α) : Exec α := fun vm => .ok (f vm) vm

def modifies (f : Vm → Vm) : Exec Unit := fun vm => .ok () (f vm)

def fail (err : String) : Exec α := fun vm => .error (.error err) vm

def panic : Exec α := fun vm => .error .panic vm

/-- A Go expression that panics on `none`. -/
def orPanic : Option α → Exec α
  | some a => pure a
  | none => panic

def mustPop1 : Exec Int := fun vm =>
  match vm.ctx.stack.pop with
  | .ok (val, stack) => .ok val (vm.withStack stack)
  | .error _ => .error .stackUnderflow vm

def onStack (f : Stack → Except String Stack) : Exec Unit := fun vm =>
  match f vm.ctx.stack with
  | .ok stack => .ok () (vm.withStack stack)
  | .error err => .error (.error err) vm

def push (val : Int) : Exec Unit := onStack fun stack => stack.push val

def pushUint64 (val : U64) : Exec Unit := push val.toNat

/-- `UseGas`, with its answer. -/
def useGas (amount : U64) : Exec Bool := fun vm =>
  match vm.ctx.useGas amount with
  | some ctx => .ok true { vm with ctx := ctx }
  | none => .ok false vm

/-- `UseGas` where the answer false is returned as the error `err`. -/
def charge (amount : U64) (err : String) : Exec Unit := do
  let paid ← useGas amount
  if paid then pure () else fail err

def resize (size : U64) : Exec U64 := fun vm =>
  match vm.ctx.memory.resize size with
  | .ok (memory, cost) => .ok cost (vm.withMemory memory)
  | .error err => .error (.error err) vm

def memoryGet (offset size : U64) : Exec Bytes := fun vm =>
  match vm.ctx.memory.get offset size with
  | .ok data => .ok data vm
  | .error err => .error (.error err) vm

def onMemory (f : Memory → Except String Memory) : Exec Unit := fun vm =>
  match f vm.ctx.memory with
  | .ok memory => .ok () (vm.withMemory memory)
  | .error err => .error (.error err) vm

def memorySet (offset : U64) (data : Bytes) : Exec Unit :=
  onMemory fun memory => memory.set offset data

def modifiesState (f : StateDB → StateDB) : Exec Unit :=
  modifies fun vm => vm.withState (f vm.world.state)

/-- `Snapshot`. -/
def snapshot : Exec Nat := do
  let id ← reads fun vm => vm.world.state.snapshotId
  modifiesState StateDB.snapshot
  pure id

def revertToSnapshot (id : Nat) : Exec Unit :=
  modifiesState fun state => state.revertToSnapshot id

/-- The surcharge for an address that no frame has touched yet. -/
def touchAddress (addr : Address) (surcharge : U64) (err : String) : Exec Unit := do
  let warm ← reads fun vm => vm.world.accessList.isAddressWarm addr
  if warm then pure ()
  else do
    modifies fun vm => vm.withAccess (vm.world.accessList.markAddressWarm addr)
    charge surcharge err

end Exec

open Exec

/-- The largest slice that `make` allocates. -/
def maxAlloc : Nat := 2 ^ 48

/-- `none` where the slice bounds are out of range. -/
def sliceBytes (source : Bytes) (offset size : U64) : Option Bytes :=
  if size = 0 then some []
  else if len64 source ≤ offset then some []
  else
    let sum := offset + size
    let stop := if len64 source < sum then len64 source else sum
    if stop < offset then none
    else some ((source.drop offset.toNat).take (stop - offset).toNat)

/-- `padRight(data, int(size))`; `none` where the length is negative or cannot be
allocated. -/
def padRight (data : Bytes) (size : U64) : Option Bytes :=
  let length := size.toInt
  if length < 0 then none
  else if length ≤ data.length then some (data.take length.toNat)
  else if maxAlloc < length.toNat then none
  else some (data ++ List.replicate (length.toNat - data.length) 0)

/-- `rlpEncodeCreateAddress`; the payload is at most 30 bytes, so the long list form is
never taken. -/
def rlpEncodeCreateAddress (sender : Address) (nonce : U64) : Bytes :=
  let senderRLP : Bytes := 0x94 :: addressBytes sender
  let nonceRLP : Bytes :=
    if nonce = 0 then [0x80]
    else if nonce < 128 then [UInt8.ofNat nonce.toNat]
    else
      let nonceBytes := (bigEndian 8 nonce.toNat).dropWhile (· = 0)
      UInt8.ofNat (0x80 + nonceBytes.length) :: nonceBytes
  let payload := senderRLP ++ nonceRLP
  UInt8.ofNat (0xC0 + payload.length) :: payload

/-- What a suspended opcode needs to go on once its sub-frame has returned. -/
inductive Pending
  | call (snapID : Nat) (retOff retLen : U64)
  | create (snapID : Nat) (newAddr : Address)

/-- How the loop goes on: past the opcode, at the position a jump has set, or with a
sub-frame. -/
inductive Next
  | proceed
  | jumped
  | subCall (call : CallContext) (pending : Pending)

namespace Interpreter

def unary (f : Int → Int) : Exec Unit := do
  let a ← mustPop1
  push (f a)

def binary (f : Int → Int → Int) : Exec Unit := do
  let a ← mustPop1
  let b ← mustPop1
  push (f a b)

def ternary (f : Int → Int → Int → Int) : Exec Unit := do
  let a ← mustPop1
  let b ← mustPop1
  let c ← mustPop1
  push (f a b c)

/-- Push a value read off the frame or the state. -/
def pushes (f : Vm → Int) : Exec Unit := do
  let val ← reads f
  push val

/-- Push what the state says of a popped address. -/
def pushesOf (f : StateDB → Address → Int) : Exec Unit := do
  let addrInt ← mustPop1
  pushes fun vm => f vm.world.state (safeAddrBytes addrInt)

def opExp : Exec Unit := do
  let base ← mustPop1
  let exp ← mustPop1
  let expBytes := BitVec.ofNat 64 ((Arithmetic.bitLen exp + 7) / 8)
  charge (gasExpByte * expBytes) "out of gas: EXP dynamic cost"
  push (Arithmetic.exp base exp)

def opKeccak256 (host : Host) : Exec Unit := do
  let offset ← mustPop1
  let size ← mustPop1
  let memCost ← resize (uint64 offset + uint64 size)
  let wordCost := keccak256GasCost (uint64 size) - gasKeccak256
  charge (memCost + wordCost) "out of gas: KECCAK256"
  let data ← memoryGet (uint64 offset) (uint64 size)
  push (host.keccak256 data).toNat

def opCallDataLoad : Exec Unit := do
  let offset ← mustPop1
  let input ← reads fun vm => vm.ctx.call.input
  let data := (List.range 32).map fun i =>
    input.getD (uint64 offset + BitVec.ofNat 64 i).toNat 0
  push (ofBigEndian data)

/-- The body that `opCopy` and `EXTCODECOPY` share. -/
def copies (source : Bytes) (err : String) : Exec Unit := do
  let destOff ← mustPop1
  let srcOff ← mustPop1
  let size ← mustPop1
  let sz := uint64 size
  let memCost ← resize (uint64 destOff + sz)
  charge (copyGasCost sz + memCost) err
  let slice ← orPanic (sliceBytes source (uint64 srcOff) sz)
  let data ← orPanic (padRight slice sz)
  memorySet (uint64 destOff) data

def opCopy (source : CallContext → Bytes) : Exec Unit := do
  let source ← reads fun vm => source vm.ctx.call
  copies source "out of gas: COPY"

/-- The three operands of the copy are popped before the code is fetched, which the
order of the two does not show. -/
def opExtCodeCopy : Exec Unit := do
  let addrInt ← mustPop1
  let extCode ← reads fun vm => vm.world.state.getCode (safeAddrBytes addrInt)
  copies extCode "out of gas: EXTCODECOPY"

def opReturnDataCopy : Exec Unit := do
  let destOff ← mustPop1
  let off ← mustPop1
  let size ← mustPop1
  let sz := uint64 size
  let offVal := uint64 off
  let returnData ← reads fun vm => vm.ctx.returnData
  if len64 returnData < offVal + sz then fail "return data out of bounds"
  else do
    let memCost ← resize (uint64 destOff + sz)
    charge (copyGasCost sz + memCost) "out of gas: RETURNDATACOPY"
    -- the slice runs to the wrapped sum
    if offVal + sz < offVal then panic
    else memorySet (uint64 destOff) ((returnData.drop offVal.toNat).take sz.toNat)

def opBlockHash : Exec Unit := do
  let num ← mustPop1
  pushes fun vm =>
    let blockNum := uint64 num
    if blockNum < vm.ctx.block.blockNumber ∧ vm.ctx.block.blockNumber - 256 ≤ blockNum then
      (vm.world.state.getBlockHash blockNum).toNat
    else 0

/-- A field of the transaction context, which a caller may leave nil. -/
def pushesTx (f : TxContext → Int) : Exec Unit := do
  let tx ← reads fun vm => vm.ctx.tx
  let tx ← orPanic tx
  push (f tx)

def opMLoad : Exec Unit := do
  let offset ← mustPop1
  let memCost ← resize (uint64 offset + 32)
  charge memCost "out of gas: MLOAD"
  let data ← memoryGet (uint64 offset) 32
  push (ofBigEndian data)

def opMStore : Exec Unit := do
  let offset ← mustPop1
  let val ← mustPop1
  let memCost ← resize (uint64 offset + 32)
  charge memCost "out of gas: MSTORE"
  onMemory fun memory => memory.set32 (uint64 offset) val

def opMStore8 : Exec Unit := do
  let offset ← mustPop1
  let val ← mustPop1
  let memCost ← resize (uint64 offset + 1)
  charge memCost "out of gas: MSTORE8"
  onMemory fun memory => memory.setByte (uint64 offset) (UInt8.ofNat (uint64 val).toNat)

def opSLoad : Exec Unit := do
  let keyInt ← mustPop1
  let key := safeFillBytes keyInt
  let self ← reads fun vm => vm.ctx.call.address
  let warm ← reads fun vm => vm.world.accessList.isSlotWarm self key
  if warm then pure ()
  else do
    modifies fun vm => vm.withAccess (vm.world.accessList.markSlotWarm self key)
    charge (gasSloadCold - gasSloadWarm) "out of gas: SLOAD cold access"
  pushes fun vm => (vm.world.state.getStorage self key).toNat

/-- The first store to a slot in a transaction records its original value. -/
def recordOriginal (original : OriginalStorage) (addr : Address) (key current : Word) :
    OriginalStorage :=
  let slots := original.value ∅ addr
  match slots.lookup key with
  | some _ => original
  | none => original.insert addr (slots.insert key current)

/-- A positive refund is added and capped; a negative one is dropped. -/
def addRefund (gasRefund : U64) (refund : Int) : U64 :=
  if 0 < refund then
    let refundDelta := BitVec.ofInt 64 refund
    if BitVec.allOnes 64 - refundDelta < gasRefund then BitVec.allOnes 64
    else gasRefund + refundDelta
  else gasRefund

/-- The part of `SSTORE` behind the check of the static flag. -/
def storeSlot : Exec Unit := do
  let keyInt ← mustPop1
  let valInt ← mustPop1
  let key := safeFillBytes keyInt
  let val := safeFillBytes valInt
  let addr ← reads fun vm => vm.ctx.call.address
  let current ← reads fun vm => vm.world.state.getStorage addr key
  modifies fun vm =>
    vm.withOriginal (recordOriginal vm.world.originalStorage addr key current)
  let original ← reads fun vm => (vm.world.originalStorage.value ∅ addr).value 0 key
  let cold ← reads fun vm => !vm.world.accessList.isSlotWarm addr key
  modifies fun vm => vm.withAccess (vm.world.accessList.markSlotWarm addr key)
  let result := calcSstoreGas (current == 0) (val == 0) (current == val) (original == 0) cold
    (original == current)
  charge result.cost "out of gas: SSTORE"
  modifies fun vm => vm.withRefund (addRefund vm.ctx.gasRefund result.refund)
  modifiesState fun state => state.setStorage addr key val

/-- A writing opcode starts with this check. -/
def refuseStatic (err : String) (x : Exec Next) : Exec Next := do
  let isStatic ← reads fun vm => vm.ctx.call.isStatic
  if isStatic then fail err else x

def proceeds (x : Exec Unit) : Exec Next := do
  x
  pure .proceed

def opSStore : Exec Next := refuseStatic "SSTORE in static context" (proceeds storeSlot)

def jumpTo (dest : Int) (opName : String) : Exec Next := do
  let target := uint64 dest
  let valid ← reads fun vm => vm.ctx.validJumpdests.contains target
  if valid then do
    modifies fun vm => vm.withPc target
    pure .jumped
  else fail ("invalid " ++ opName ++ " destination: " ++ toString target.toNat)

def opJump : Exec Next := do
  let dest ← mustPop1
  jumpTo dest "JUMP"

def opJumpI : Exec Next := do
  let dest ← mustPop1
  let cond ← mustPop1
  if cond = 0 then pure .proceed else jumpTo dest "JUMPI"

/-- Bytes past the end of the code read as zero. -/
def opPush (numBytes : Nat) : Exec Unit := do
  charge pushGas "out of gas: PUSH"
  let pushData ← reads fun vm =>
    let avail := (vm.ctx.call.code.drop (vm.ctx.pc.toNat + 1)).take numBytes
    avail ++ List.replicate (numBytes - avail.length) 0
  modifies fun vm => vm.withPc (vm.ctx.pc + BitVec.ofNat 64 numBytes)
  push (ofBigEndian pushData)

def opDup (depth : Nat) : Exec Unit := do
  charge dupGas "out of gas: DUP"
  onStack fun stack => stack.dup depth

def opSwap (depth : Nat) : Exec Unit := do
  charge swapGas "out of gas: SWAP"
  onStack fun stack => stack.swap depth

def opPop : Exec Unit := onStack fun stack => stack.pop.map Prod.snd

def popTopics : Nat → Exec (List Word)
  | 0 => pure []
  | n + 1 => do
    let t ← mustPop1
    let topics ← popTopics n
    pure (safeFillBytes t :: topics)

/-- The part of `LOG` behind the check of the static flag. -/
def appendLog (numTopics : Nat) : Exec Unit := do
  let offset ← mustPop1
  let size ← mustPop1
  let topics ← popTopics numTopics
  let dynGas := logGasCost numTopics (uint64 size) - gasLog
  let memCost ← resize (uint64 offset + uint64 size)
  charge (dynGas + memCost) "out of gas: LOG"
  let data ← memoryGet (uint64 offset) (uint64 size)
  modifies fun vm => vm.withLogs (vm.ctx.logs ++ [⟨vm.ctx.call.address, topics, data⟩])

def opLog (numTopics : Nat) : Exec Next :=
  refuseStatic "LOG in static context" (proceeds (appendLog numTopics))

/-- The part that `RETURN` and `REVERT` share. -/
def returns (err : String) (leave : Vm → Vm) : Exec Unit := do
  let offset ← mustPop1
  let size ← mustPop1
  let memCost ← resize (uint64 offset + uint64 size)
  charge memCost err
  let retData ← memoryGet (uint64 offset) (uint64 size)
  modifies fun vm => leave (vm.withReturnData retData)

structure CreateRequest where
  value : Int
  salt : Option Int
  initCode : Bytes

/-- The operands and charges of `CREATE` and `CREATE2`; `none` where zero is pushed for
init code that is too long. -/
def prepareCreate (isCreate2 : Bool) : Exec (Option CreateRequest) := do
  let value ← mustPop1
  let offset ← mustPop1
  let size ← mustPop1
  let salt ← if isCreate2 then some <$> mustPop1 else pure none
  let off := uint64 offset
  let sz := uint64 size
  let memCost ← resize (off + sz)
  let createGas :=
    if isCreate2 then gasCreate + gasKeccak256Word * ((sz + 31) / 32) else gasCreate
  charge (memCost + createGas) "out of gas: CREATE"
  let initCode ← memoryGet off sz
  if maxInitCodeSize < len64 initCode then do
    push 0
    pure none
  else pure (some { value, salt, initCode })

def createAddress (host : Host) (sender : Address) (callerNonce : U64)
    (request : CreateRequest) : Address :=
  match request.salt with
  | none => (host.keccak256 (rlpEncodeCreateAddress sender callerNonce)).setWidth 160
  | some salt =>
    (host.keccak256 (0xff :: (addressBytes sender ++ wordBytes (safeFillBytes salt) ++
      wordBytes (host.keccak256 request.initCode)))).setWidth 160

/-- Undo to the snapshot and push zero. -/
def giveUp (snapID : Nat) : Exec Unit := do
  revertToSnapshot snapID
  push 0

/-- The endowment of a new contract; false where the sender cannot pay. -/
def endow (sender newAddr : Address) (val : Int) : Exec Bool := do
  let senderBal ← reads fun vm => vm.world.state.getBalance sender
  if 0 < val then
    if senderBal < val then pure false
    else do
      modifiesState fun state => state.setBalance sender (senderBal - val)
      modifiesState fun state => state.setBalance newAddr (state.getBalance newAddr + val)
      pure true
  else pure true

def startCreate (host : Host) (request : CreateRequest) : Exec Next := do
  let sender ← reads fun vm => vm.ctx.call.address
  let callerNonce ← reads fun vm => vm.world.state.getNonce sender
  let newAddr := createAddress host sender callerNonce request
  modifiesState fun state => state.setNonce sender (callerNonce + 1)
  let snapID ← snapshot
  modifiesState fun state => state.createAccount newAddr
  let paid ← endow sender newAddr request.value
  if paid then do
    let subGas ← reads fun vm => vm.ctx.gasRemaining - vm.ctx.gasRemaining / 64
    let depth ← reads fun vm => vm.ctx.call.depth
    let subCall : CallContext :=
      { caller := sender
        address := newAddr
        value := some request.value
        input := []
        code := request.initCode
        gas := subGas
        isStatic := false
        depth := depth + 1 }
    pure (.subCall subCall (.create snapID newAddr))
  else do
    giveUp snapID
    pure .proceed

def opCreate (host : Host) (isCreate2 : Bool) : Exec Next :=
  refuseStatic "CREATE in static context" do
    let request ← prepareCreate isCreate2
    match request with
    | none => pure .proceed
    | some request => startCreate host request

def finishCreate (host : Host) (snapID : Nat) (newAddr : Address) (r : ExecutionResult) :
    Exec Unit :=
  if r.success = true ∧ 0 < r.returnData.length then
    if maxCodeSize < len64 r.returnData then giveUp snapID
    else do
      let depositGas := gasCodeDeposit * len64 r.returnData
      let paid ← useGas (depositGas + r.gasUsed)
      if paid then do
        modifiesState fun state => state.setCode host.keccak256 newAddr r.returnData
        push newAddr.toNat
      else giveUp snapID
  else do
    let _ ← useGas r.gasUsed
    if r.success then push 0 else giveUp snapID

/-- The opcodes of the `CALL` branch. -/
inductive CallKind
  | call
  | callcode
  | delegatecall
  | staticcall
  deriving DecidableEq

def CallKind.takesValue : CallKind → Bool
  | .call | .callcode => true
  | .delegatecall | .staticcall => false

structure CallOperands where
  gas : U64
  toAddr : Address
  value : Int
  argsOff : U64
  argsLen : U64
  retOff : U64
  retLen : U64

def callOperands (kind : CallKind) : Exec CallOperands := do
  let gasInt ← mustPop1
  let addrInt ← mustPop1
  let callValue ← if kind.takesValue then mustPop1 else pure 0
  let argsOff ← mustPop1
  let argsLen ← mustPop1
  let retOff ← mustPop1
  let retLen ← mustPop1
  pure
    { gas := uint64 gasInt
      toAddr := safeAddrBytes addrInt
      value := callValue
      argsOff := uint64 argsOff
      argsLen := uint64 argsLen
      retOff := uint64 retOff
      retLen := uint64 retLen }

def callMemory (o : CallOperands) : Exec Unit := do
  let memCost ← resize (o.argsOff + o.argsLen)
  let memCost2 ← resize (o.retOff + o.retLen)
  charge (memCost + memCost2) "out of gas: CALL memory"

/-- `toAddrInt.Uint64()`, by which precompiled contracts are recognised. -/
def CallOperands.low (o : CallOperands) : U64 := o.toAddr.setWidth 64

def CallOperands.isPrecompile (p : Precompiles) (o : CallOperands) : Bool :=
  0 < o.low && o.low ≤ 9 && (precompileMap p o.low).isSome

/-- Output is copied as far as the caller has room for it. -/
def copyOutput (retOff retLen : U64) (output : Bytes) : Exec Unit :=
  let copyLen := if len64 output < retLen then len64 output else retLen
  if 0 < copyLen then memorySet retOff (output.take copyLen.toNat) else pure ()

def answerPrecompile (retOff retLen : U64) : Except String Bytes → Exec Unit
  | .error _ => push 0
  | .ok output => do
    modifies fun vm => vm.withReturnData output
    copyOutput retOff retLen output
    push 1

def callPrecompile (host : Host) (o : CallOperands) : Exec Unit := do
  let callArgs ← memoryGet o.argsOff o.argsLen
  let remaining ← reads fun vm => vm.ctx.gasRemaining
  let subGas := if remaining < o.gas then remaining else o.gas
  let answer ← orPanic (executePrecompile host.precompiles o.low callArgs subGas)
  let _ ← useGas answer.1
  answerPrecompile o.retOff o.retLen answer.2

structure CallRequest where
  toAddr : Address
  value : Int
  gas : U64
  args : Bytes
  retOff : U64
  retLen : U64

/-- The charges for an address and for a value; the gas of the sub-frame is fixed
before the value is charged. -/
def callGas (o : CallOperands) : Exec CallRequest := do
  touchAddress o.toAddr (gasCallCold - gasCallWarm) "out of gas: CALL cold address"
  let maxGas ← reads fun vm => vm.ctx.gasRemaining - vm.ctx.gasRemaining / 64
  let subGas := if maxGas < o.gas then maxGas else o.gas
  if 0 < o.value then do
    charge gasCallValue "out of gas: CALL value transfer"
    let exists_ ← reads fun vm => vm.world.state.accountExists o.toAddr
    if exists_ then pure () else charge gasCallNewAcct "out of gas: CALL new account"
  else pure ()
  let args ← memoryGet o.argsOff o.argsLen
  pure
    { toAddr := o.toAddr
      value := o.value
      gas := if 0 < o.value then subGas + gasCallStipend else subGas
      args := args
      retOff := o.retOff
      retLen := o.retLen }

/-- The `CALL` branch up to the snapshot; `none` where a precompiled contract has
answered. -/
def prepareCall (host : Host) (kind : CallKind) : Exec (Option CallRequest) := do
  let o ← callOperands kind
  callMemory o
  if o.isPrecompile host.precompiles then do
    callPrecompile host o
    pure none
  else some <$> callGas o

/-- The value transfer of `CALL`; false where it is refused. -/
def transferValue (sender toAddr : Address) (callValue : Int) : Exec Bool := do
  let senderBal ← reads fun vm => vm.world.state.getBalance sender
  let newSenderBal := senderBal - callValue
  if senderBal < callValue ∨ newSenderBal < 0 then pure false
  else do
    modifiesState fun state => state.setBalance sender newSenderBal
    let recipientBal ← reads fun vm => vm.world.state.getBalance toAddr
    let newRecipientBal := recipientBal + callValue
    if newRecipientBal < recipientBal then pure false
    else do
      modifiesState fun state => state.setBalance toAddr newRecipientBal
      pure true

/-- The sub-frame's context.  Only `CALL` hands on the static flag and only
`STATICCALL` sets it. -/
def subCallContext (kind : CallKind) (call : CallContext) (request : CallRequest)
    (targetCode : Bytes) : CallContext :=
  let subCall : CallContext :=
    { caller := call.address
      address := request.toAddr
      value := some request.value
      input := request.args
      code := targetCode
      gas := request.gas
      isStatic := false
      depth := call.depth + 1 }
  match kind with
  | .call => { subCall with isStatic := call.isStatic }
  | .callcode => { subCall with address := call.address }
  | .delegatecall =>
    { subCall with caller := call.caller, address := call.address, value := call.value }
  | .staticcall => { subCall with isStatic := true }

def finishCall (snapID : Nat) (retOff retLen : U64) (r : ExecutionResult) : Exec Unit := do
  let _ ← useGas r.gasUsed
  modifies fun vm => vm.withReturnData r.returnData
  if r.success then do
    copyOutput retOff retLen r.returnData
    push 1
  else giveUp snapID

/-- A target without code succeeds at once. -/
def enterTarget (kind : CallKind) (request : CallRequest) (call : CallContext) (snapID : Nat) :
    Exec Next := do
  let targetCode ← reads fun vm => vm.world.state.getCode request.toAddr
  if targetCode.isEmpty then do
    finishCall snapID request.retOff request.retLen { ExecutionResult.zero with success := true }
    pure .proceed
  else
    pure (.subCall (subCallContext kind call request targetCode)
      (.call snapID request.retOff request.retLen))

def startCall (kind : CallKind) (request : CallRequest) : Exec Next := do
  let snapID ← snapshot
  let call ← reads fun vm => vm.ctx.call
  let paid ←
    if 0 < request.value ∧ kind = .call then
      transferValue call.address request.toAddr request.value
    else pure true
  if paid then enterTarget kind request call snapID
  else do
    giveUp snapID
    pure .proceed

def opCall (host : Host) (kind : CallKind) : Exec Next := do
  let request ← prepareCall host kind
  match request with
  | none => pure .proceed
  | some request => startCall kind request

/-- The part of `SELFDESTRUCT` behind the check of the static flag. -/
def destroy : Exec Unit := do
  charge gasSelfDestruct "out of gas: SELFDESTRUCT"
  let beneficiaryInt ← mustPop1
  let beneficiary := safeAddrBytes beneficiaryInt
  touchAddress beneficiary gasCallCold "out of gas: SELFDESTRUCT cold address"
  let self ← reads fun vm => vm.ctx.call.address
  let balance ← reads fun vm => vm.world.state.getBalance self
  if 0 < balance then do
    let exists_ ← reads fun vm => vm.world.state.accountExists beneficiary
    if exists_ then pure () else charge gasCallNewAcct "out of gas: SELFDESTRUCT new account"
    modifiesState fun state =>
      state.setBalance beneficiary (state.getBalance beneficiary + balance)
    modifiesState fun state => state.setBalance self 0
  else pure ()
  modifies Vm.stop

def opSelfDestruct : Exec Next :=
  refuseStatic "SELFDESTRUCT in static context" (proceeds destroy)

/-- Two lower-case hexadecimal digits. -/
def hexByte (op : UInt8) : String :=
  String.ofList [Nat.digitChar (op.toNat / 16), Nat.digitChar (op.toNat % 16)]

/-- The switch of `run`. -/
def dispatch (host : Host) : Opcode → Exec Next
  | .stop => proceeds (modifies Vm.stop)
  | .add => proceeds (binary Arithmetic.add)
  | .mul => proceeds (binary Arithmetic.mul)
  | .sub => proceeds (binary Arithmetic.sub)
  | .div => proceeds (binary Arithmetic.div)
  | .sdiv => proceeds (binary Arithmetic.sdiv)
  | .mod => proceeds (binary Arithmetic.mod)
  | .smod => proceeds (binary Arithmetic.smod)
  | .addmod => proceeds (ternary Arithmetic.addmod)
  | .mulmod => proceeds (ternary Arithmetic.mulmod)
  | .exp => proceeds opExp
  | .signext => proceeds (binary Arithmetic.signext)
  | .lt => proceeds (binary Arithmetic.lt)
  | .gt => proceeds (binary Arithmetic.gt)
  | .slt => proceeds (binary Arithmetic.slt)
  | .sgt => proceeds (binary Arithmetic.sgt)
  | .eq => proceeds (binary Arithmetic.eq)
  | .iszero => proceeds (unary Arithmetic.iszero)
  | .and => proceeds (binary Arithmetic.and)
  | .or => proceeds (binary Arithmetic.or)
  | .xor => proceeds (binary Arithmetic.xor)
  | .not => proceeds (unary Arithmetic.not)
  | .byte => proceeds (binary Arithmetic.byte)
  | .shl => proceeds (binary Arithmetic.shl)
  | .shr => proceeds (binary Arithmetic.shr)
  | .sar => proceeds (binary Arithmetic.sar)
  | .keccak256 => proceeds (opKeccak256 host)
  | .address => proceeds (pushes fun vm => vm.ctx.call.address.toNat)
  | .balance => proceeds (pushesOf StateDB.getBalance)
  | .origin => proceeds (pushesTx fun tx => tx.origin.toNat)
  | .caller => proceeds (pushes fun vm => vm.ctx.call.caller.toNat)
  | .callvalue => proceeds (pushes fun vm => vm.ctx.call.value.getD 0)
  | .calldataload => proceeds opCallDataLoad
  | .calldatasize => proceeds (pushes fun vm => (len64 vm.ctx.call.input).toNat)
  | .calldatacopy => proceeds (opCopy CallContext.input)
  | .codesize => proceeds (pushes fun vm => (len64 vm.ctx.call.code).toNat)
  | .codecopy => proceeds (opCopy CallContext.code)
  | .gasprice => proceeds (pushesTx fun tx => tx.gasPrice.getD 0)
  | .extcodesize => proceeds (pushesOf fun state addr => (state.getCodeSize addr).toNat)
  | .extcodecopy => proceeds opExtCodeCopy
  | .returndatasize => proceeds (pushes fun vm => (len64 vm.ctx.returnData).toNat)
  | .returndatacopy => proceeds opReturnDataCopy
  | .extcodehash => proceeds (pushesOf fun state addr => (state.getCodeHash addr).toNat)
  | .blockhash => proceeds opBlockHash
  | .coinbase => proceeds (pushes fun vm => vm.ctx.block.coinbase.toNat)
  | .timestamp => proceeds (pushes fun vm => vm.ctx.block.timestamp.toNat)
  | .number => proceeds (pushes fun vm => vm.ctx.block.blockNumber.toNat)
  | .prevrandao => proceeds (pushes fun vm => vm.ctx.block.prevRandao.toNat)
  | .gaslimit => proceeds (pushes fun vm => vm.ctx.block.gasLimit.toNat)
  | .chainid => proceeds (pushes fun vm => vm.ctx.block.chainID.getD 3303)
  | .selfbalance => proceeds (pushes fun vm => vm.world.state.getBalance vm.ctx.call.address)
  | .basefee => proceeds (pushes fun vm => vm.ctx.block.baseFee.getD 0)
  | .pop => proceeds opPop
  | .mload => proceeds opMLoad
  | .mstore => proceeds opMStore
  | .mstore8 => proceeds opMStore8
  | .sload => proceeds opSLoad
  | .sstore => opSStore
  | .jump => opJump
  | .jumpi => opJumpI
  | .pc => proceeds (pushes fun vm => vm.ctx.pc.toNat)
  | .msize => proceeds (pushes fun vm => (len64 vm.ctx.memory.store).toNat)
  | .gas => proceeds (pushes fun vm => vm.ctx.gasRemaining.toNat)
  | .jumpdest => pure .proceed
  | .push0 => proceeds (push 0)
  | .push numBytes => proceeds (opPush numBytes)
  | .dup depth => proceeds (opDup depth)
  | .swap depth => proceeds (opSwap depth)
  | .log numTopics => opLog numTopics
  | .create => opCreate host false
  | .call => opCall host .call
  | .callcode => opCall host .callcode
  | .ret => proceeds (returns "out of gas: RETURN" Vm.stop)
  | .delegatecall => opCall host .delegatecall
  | .create2 => opCreate host true
  | .staticcall => opCall host .staticcall
  | .revert => proceeds (returns "out of gas: REVERT" Vm.revert)
  | .invalid => do
    let pc ← reads fun vm => vm.ctx.pc
    fail ("invalid opcode 0xFE at PC=" ++ toString pc.toNat)
  | .selfdestruct => opSelfDestruct
  | .unknown op => do
    let pc ← reads fun vm => vm.ctx.pc
    fail ("unknown opcode 0x" ++ hexByte op ++ " at PC=" ++ toString pc.toNat)

/-- The constant cost of an opcode. -/
def chargeConst (b : UInt8) : Exec Unit :=
  match constGas (.ofByte b) with
  | none => pure ()
  | some cost => do
    let pc ← reads fun vm => vm.ctx.pc
    charge cost ("out of gas at PC=" ++ toString pc.toNat ++ " op=0x" ++ hexByte b)

/-- One turn of the loop on the opcode byte `b`. -/
def step (host : Host) (b : UInt8) : Exec Next := do
  chargeConst b
  dispatch host (.ofByte b)

def resume (host : Host) : Pending → ExecutionResult → Exec Unit
  | .call snapID retOff retLen => finishCall snapID retOff retLen
  | .create snapID newAddr => finishCreate host snapID newAddr

end Interpreter

open Interpreter

/-- The opcode byte the loop goes on with, if it does. -/
def Vm.fetch (vm : Vm) : Option UInt8 :=
  if vm.ctx.stopped ∨ vm.ctx.reverted then none else vm.ctx.call.code[vm.ctx.pc.toNat]?

def Vm.advance (vm : Vm) : Vm := vm.withPc (vm.ctx.pc + 1)

/-- How `run` ends; `unfinished` is where the model's fuel has run out. -/
inductive RunOutcome
  | finished (err : Option String) (vm : Vm)
  | panicked (vm : Vm)
  | unfinished

inductive Execution
  | returned (result : ExecutionResult) (world : World)
  | panicked (world : World)
  | unfinished

/-- What the deferred recovery makes of a halt. -/
def Vm.halted (vm : Vm) : Halt → RunOutcome
  | .error err => .finished (some err) vm
  | .stackUnderflow =>
    .finished (some "stack underflow")
      { vm with ctx.stopped := true, ctx.gasUsed := vm.ctx.call.gas }
  | .panic => .panicked vm

/-- A new frame; what it shares is the parent's, if it has one. -/
def Vm.enter (block : BlockContext) (tx : Option TxContext) (call : CallContext)
    (parentAccess : Option AccessSet) (parentOriginalStorage : Option OriginalStorage)
    (state : StateDB) : Vm where
  ctx := .new block tx call
  world :=
    { state := state
      accessList := parentAccess.getD (.warmed tx call)
      originalStorage := parentOriginalStorage.getD ∅ }

def RunOutcome.leave : RunOutcome → Execution
  | .finished err vm => .returned (.ofRun err vm.ctx) vm.world
  | .panicked vm => .panicked vm.world
  | .unfinished => .unfinished

/-- `ExecuteWithAccess` over the loop `runFrame`. -/
def executeWithAccess (config : InterpreterConfig) (runFrame : Vm → RunOutcome)
    (block : BlockContext) (tx : Option TxContext) (call : CallContext)
    (parentAccess : Option AccessSet) (parentOriginalStorage : Option OriginalStorage)
    (state : StateDB) : Execution :=
  let entry := Vm.enter block tx call parentAccess parentOriginalStorage state
  if config.maxCallDepth < call.depth then
    .returned
      { ExecutionResult.zero with
        revertReason := "max call depth exceeded", gasUsed := call.gas }
      entry.world
  else (runFrame entry).leave

/-- The sub-frame that the frame `vm` has asked for. -/
def Vm.enterSub (vm : Vm) (call : CallContext) : Vm :=
  .enter vm.ctx.block vm.ctx.tx call (some vm.world.accessList)
    (some vm.world.originalStorage) vm.world.state

def Vm.executeSub (config : InterpreterConfig) (runFrame : Vm → RunOutcome) (vm : Vm)
    (call : CallContext) : Execution :=
  executeWithAccess config runFrame vm.ctx.block vm.ctx.tx call (some vm.world.accessList)
    (some vm.world.originalStorage) vm.world.state

/-- The loop of `run`. -/
def run (host : Host) (config : InterpreterConfig) : Nat → Vm → RunOutcome
  | 0, _ => .unfinished
  | fuel + 1, vm =>
    match vm.fetch with
    | none => .finished none vm
    | some b =>
      match step host b vm with
      | .error halt vm' => vm'.halted halt
      | .ok .proceed vm' => run host config fuel vm'.advance
      | .ok .jumped vm' => run host config fuel vm'
      | .ok (.subCall call pending) vm' =>
        match vm'.executeSub config (run host config fuel) call with
        | .unfinished => .unfinished
        | .panicked world => .panicked { vm' with world := world }
        | .returned result world =>
          match resume host pending result { vm' with world := world } with
          | .error halt vm'' => vm''.halted halt
          | .ok () vm'' => run host config fuel vm''.advance

/-- `Execute`. -/
def execute (host : Host) (config : InterpreterConfig) (fuel : Nat) (block : BlockContext)
    (tx : Option TxContext) (call : CallContext) (state : StateDB) : Execution :=
  executeWithAccess config (run host config fuel) block tx call none none state

end Qubitcoin.Evm
