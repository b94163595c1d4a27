import Qubitcoin.Evm.Gas
import Qubitcoin.Evm.StateDB

/-! `stack.go`, `memory.go` and `context.go`: what one call frame holds. -/

namespace Qubitcoin.Evm

def maxStackDepth : Nat := 1024

/-- The stack, its top first. -/
structure Stack where
  data : List Int
  bounded : data.length ≤ maxStackDepth
  words : ∀ v ∈ data, 0 ≤ v ∧ v < uint256Mod

namespace Stack

/-- `NewStack`. -/
def new : Stack := ⟨[], Nat.zero_le _, by simp⟩

def push (s : Stack) (val : Int) : Except String Stack :=
  if h : s.data.length < maxStackDepth then
    .ok
      { data := u256 val :: s.data
        bounded := h
        words := by
          intro v hv
          cases List.mem_cons.mp hv with
          | inl heq => exact heq ▸ ⟨u256_nonneg val, u256_lt val⟩
          | inr hv => exact s.words v hv }
  else
    .error ("stack overflow: depth " ++ toString (s.data.length + 1) ++ " exceeds max " ++
      toString maxStackDepth)

def pop : Stack → Except String (Int × Stack)
  | ⟨[], _, _⟩ => .error "stack underflow"
  | ⟨val :: data, bounded, words⟩ =>
    .ok (val, ⟨data, Nat.le_of_succ_le bounded, fun v h => words v (List.mem_cons_of_mem _ h)⟩)

def dup (s : Stack) (depth : Nat) : Except String Stack :=
  match s.data[depth - 1]? with
  | some val =>
    if depth < 1 then
      .error ("stack underflow: dup depth " ++ toString depth ++ ", size " ++
        toString s.data.length)
    else s.push val
  | none =>
    .error ("stack underflow: dup depth " ++ toString depth ++ ", size " ++
      toString s.data.length)

def swap (s : Stack) (depth : Nat) : Except String Stack :=
  if h : depth < s.data.length ∧ 1 ≤ depth then
    have h0 : 0 < s.data.length := Nat.zero_lt_of_lt h.1
    .ok
      { data := (s.data.set 0 s.data[depth]).set depth s.data[0]
        bounded := by
          rw [List.length_set, List.length_set]
          exact s.bounded
        words := by
          intro v hv
          cases List.mem_or_eq_of_mem_set hv with
          | inl hv =>
            cases List.mem_or_eq_of_mem_set hv with
            | inl hv => exact s.words v hv
            | inr heq => exact heq ▸ s.words _ (List.getElem_mem _)
          | inr heq => exact heq ▸ s.words _ (List.getElem_mem _) }
  else
    .error ("stack underflow: swap depth " ++ toString depth ++ ", size " ++
      toString s.data.length)

end Stack

/-- 32 MB. -/
def maxMemorySize : U64 := 32 * 1024 * 1024

structure Memory where
  store : Bytes
  deriving DecidableEq

def toWordSize (byteSize : U64) : U64 := (byteSize + 31) / 32

def memoryCost (words : U64) : U64 := 3 * words + words * words / 512

namespace Memory

/-- `NewMemory`. -/
def new : Memory := ⟨[]⟩

/-- The grown memory and the gas it costs. -/
def resize (m : Memory) (size : U64) : Except String (Memory × U64) :=
  if size = 0 ∨ size ≤ len64 m.store then .ok (m, 0)
  else if maxMemorySize < size then
    .error ("memory: Resize exceeds max (" ++ toString size.toNat ++ " > " ++
      toString maxMemorySize.toNat ++ ")")
  else
    let oldWords := toWordSize (len64 m.store)
    let newWords := toWordSize size
    if newWords ≤ oldWords then .ok (m, 0)
    else
      let newSize := newWords * 32
      if maxMemorySize < newSize then
        .error ("memory: Resize exceeds max (" ++ toString newSize.toNat ++ " > " ++
          toString maxMemorySize.toNat ++ ")")
      else
        .ok (⟨m.store ++ List.replicate (newSize - len64 m.store).toNat 0⟩,
          memoryCost newWords - memoryCost oldWords)

/-- Overwrite from `offset` on. -/
def overwrite (m : Memory) (offset : U64) (data : Bytes) : Memory :=
  ⟨m.store.take offset.toNat ++ data ++ m.store.drop (offset.toNat + data.length)⟩

def set (m : Memory) (offset : U64) (data : Bytes) : Except String Memory :=
  if data.length = 0 then .ok m
  else
    let stop := offset + len64 data
    if len64 m.store < stop ∨ stop < offset then
      .error ("memory: Set out of bounds: offset=" ++ toString offset.toNat ++ " len=" ++
        toString data.length ++ " store=" ++ toString m.store.length)
    else .ok (m.overwrite offset data)

/-- The value is a word of the stack, so `FillBytes` has room for it. -/
def set32 (m : Memory) (offset : U64) (val : Int) : Except String Memory :=
  let stop := offset + 32
  if len64 m.store < stop ∨ stop < offset then
    .error ("memory: Set32 out of bounds: offset=" ++ toString offset.toNat ++ " store=" ++
      toString m.store.length)
  else .ok (m.overwrite offset (wordBytes (safeFillBytes val)))

def setByte (m : Memory) (offset : U64) (val : UInt8) : Except String Memory :=
  if len64 m.store ≤ offset then
    .error ("memory: SetByte out of bounds: offset=" ++ toString offset.toNat ++ " store=" ++
      toString m.store.length)
  else .ok (m.overwrite offset [val])

def get (m : Memory) (offset size : U64) : Except String Bytes :=
  if size = 0 then .ok []
  else
    let stop := offset + size
    if len64 m.store < stop ∨ stop < offset then
      .error ("memory: Get out of bounds: offset=" ++ toString offset.toNat ++ " size=" ++
        toString size.toNat ++ " store=" ++ toString m.store.length)
    else .ok ((m.store.drop offset.toNat).take size.toNat)

end Memory

structure BlockContext where
  coinbase : Address
  gasLimit : U64
  blockNumber : U64
  timestamp : U64
  prevRandao : Word
  baseFee : Option Int
  chainID : Option Int

structure TxContext where
  origin : Address
  gasPrice : Option Int

structure CallContext where
  caller : Address
  address : Address
  value : Option Int
  input : Bytes
  code : Bytes
  gas : U64
  isStatic : Bool
  depth : Int

structure AccessSet where
  addresses : StorageMap Address Bool
  slots : StorageMap Address (StorageMap Word Bool)

namespace AccessSet

/-- `NewAccessSet`. -/
def new : AccessSet := ⟨∅, ∅⟩

def isAddressWarm (access : AccessSet) (addr : Address) : Bool :=
  access.addresses.value false addr

def markAddressWarm (access : AccessSet) (addr : Address) : AccessSet :=
  { access with addresses := access.addresses.insert addr true }

def isSlotWarm (access : AccessSet) (addr : Address) (key : Word) : Bool :=
  (access.slots.value ∅ addr).value false key

def markSlotWarm (access : AccessSet) (addr : Address) (key : Word) : AccessSet :=
  { access with
    slots := access.slots.insert addr ((access.slots.value ∅ addr).insert key true) }

end AccessSet

structure Log where
  address : Address
  topics : List Word
  data : Bytes
  deriving DecidableEq

abbrev OriginalStorage := StorageMap Address (StorageMap Word Word)

/-- One call frame.  The access list and the original storage, which every frame of
a transaction shares by pointer, are in `World`. -/
structure ExecutionContext where
  block : BlockContext
  tx : Option TxContext
  call : CallContext
  pc : U64
  stack : Stack
  memory : Memory
  returnData : Bytes
  gasUsed : U64
  gasRefund : U64
  stopped : Bool
  reverted : Bool
  logs : List Log
  validJumpdests : List U64

/-- The positions of `JUMPDEST` in `code` from `pos` on, `skip` bytes of which are
push data. -/
def scanJumpdests : Nat → Nat → Bytes → List U64
  | _, _, [] => []
  | pos, skip + 1, _ :: code => scanJumpdests (pos + 1) skip code
  | pos, 0, b :: code =>
    match Opcode.ofByte b with
    | .jumpdest => BitVec.ofNat 64 pos :: scanJumpdests (pos + 1) 0 code
    | .push pushSize => scanJumpdests (pos + 1) pushSize code
    | _ => scanJumpdests (pos + 1) 0 code

def analyzeJumpdests (code : Bytes) : List U64 := scanJumpdests 0 0 code

namespace ExecutionContext

/-- `NewExecutionContext`, less the access list. -/
def new (block : BlockContext) (tx : Option TxContext) (call : CallContext) :
    ExecutionContext where
  block := block
  tx := tx
  call := call
  pc := 0
  stack := Stack.new
  memory := Memory.new
  returnData := []
  gasUsed := 0
  gasRefund := 0
  stopped := false
  reverted := false
  logs := []
  validJumpdests := analyzeJumpdests call.code

/-- `UseGas`: `none` where the source returns false and leaves the frame as it is. -/
def useGas (ctx : ExecutionContext) (amount : U64) : Option ExecutionContext :=
  let newUsed := ctx.gasUsed + amount
  if ctx.call.gas < newUsed ∨ newUsed < ctx.gasUsed then none
  else some { ctx with gasUsed := newUsed }

def gasRemaining (ctx : ExecutionContext) : U64 :=
  if ctx.call.gas ≤ ctx.gasUsed then 0 else ctx.call.gas - ctx.gasUsed

end ExecutionContext

/-- The access list that `NewExecutionContext` fills for a frame without a parent. -/
def AccessSet.warmed (tx : Option TxContext) (call : CallContext) : AccessSet :=
  let access := (AccessSet.new.markAddressWarm call.address).markAddressWarm call.caller
  match tx with
  | none => access
  | some tx => access.markAddressWarm tx.origin

/-- What the frames of a transaction share. -/
structure World where
  state : StateDB
  accessList : AccessSet
  originalStorage : OriginalStorage

structure Vm where
  ctx : ExecutionContext
  world : World

end Qubitcoin.Evm
