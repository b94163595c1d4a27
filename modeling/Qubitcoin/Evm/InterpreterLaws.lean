import Qubitcoin.Evm.Interpreter

/-! Every opcode but the writing ones works on the stack, the memory and the other
parts of its own frame: what holds across these holds across the opcode. -/

namespace Qubitcoin.Evm

open Command Exec Interpreter

/-- A guarantee that no change of what a frame computes with breaks. -/
structure Inert (G : Guarantee Vm) : Prop where
  stack : ∀ vm stack, G.rel vm (vm.withStack stack)
  memory : ∀ vm memory, G.rel vm (vm.withMemory memory)
  returnData : ∀ vm data, G.rel vm (vm.withReturnData data)

/-- A guarantee that no change of a frame's own working data but the position breaks. -/
structure Local (G : Guarantee Vm) : Prop extends Inert G where
  access : ∀ vm access, G.rel vm (vm.withAccess access)
  gas : ∀ (vm : Vm) (amount : U64) (ctx : ExecutionContext),
    vm.ctx.useGas amount = some ctx → G.rel vm { vm with ctx := ctx }
  stop : ∀ vm : Vm, G.rel vm vm.stop
  revert : ∀ vm : Vm, G.rel vm vm.revert

/-- A guarantee that no change of a frame's own working data breaks. -/
structure Quiet (G : Guarantee Vm) : Prop extends Local G where
  pc : ∀ vm pc, G.rel vm (vm.withPc pc)

attribute [grind ←] Quiet.pc Inert.returnData Local.access Local.stop
attribute [grind →] Quiet.toLocal Local.toInert

/-- The opcodes that write to the state or the log, or start a frame that may. -/
def Opcode.writes : Opcode → Bool
  | .sstore | .log _ | .create | .create2 | .call | .callcode | .delegatecall | .staticcall
  | .selfdestruct => true
  | _ => false

/-- The opcodes that set the position. -/
def Opcode.moves : Opcode → Bool
  | .jump | .jumpi | .push _ => true
  | _ => false

variable {G : Guarantee Vm}

namespace Quiet

@[grind ←] theorem reads {α : Type} (f : Vm → α) : Keeps G (reads f) := fun vm => G.refl vm

@[grind ←] theorem fail {α : Type} (err : String) : Keeps G (fail err : Exec α) :=
  fun vm => G.refl vm

@[grind ←] theorem modifies {f : Vm → Vm} (h : ∀ vm, G.rel vm (f vm)) :
    Keeps G (modifies f) := h

@[grind ←] theorem proceeds {x : Exec Unit} (h : Keeps G x) : Keeps G (proceeds x) := by
  unfold Interpreter.proceeds
  grind

@[grind ←] theorem orPanic {α : Type} (a : Option α) : Keeps G (orPanic a) := by
  cases a with
  | none => exact fun vm => G.refl vm
  | some a => exact Keeps.pure a

@[grind ←] theorem panic {α : Type} : Keeps G (panic : Exec α) := fun vm => G.refl vm

@[grind ←] theorem memoryGet (offset size : U64) : Keeps G (memoryGet offset size) := by
  intro vm
  unfold Exec.memoryGet
  split
  · exact G.refl vm
  · exact G.refl vm

end Quiet

namespace Inert

variable (q : Inert G)
include q

@[grind ←] theorem mustPop1 : Keeps G mustPop1 := by
  intro vm
  unfold Exec.mustPop1
  split
  · exact q.stack vm _
  · exact G.refl vm

@[grind ←] theorem onStack (f : Stack → Except String Stack) : Keeps G (onStack f) := by
  intro vm
  unfold Exec.onStack
  split
  · exact q.stack vm _
  · exact G.refl vm

@[grind ←] theorem push (val : Int) : Keeps G (push val) := q.onStack _

@[grind ←] theorem resize (size : U64) : Keeps G (resize size) := by
  intro vm
  unfold Exec.resize
  split
  · exact q.memory vm _
  · exact G.refl vm

@[grind ←] theorem onMemory (f : Memory → Except String Memory) : Keeps G (onMemory f) := by
  intro vm
  unfold Exec.onMemory
  split
  · exact q.memory vm _
  · exact G.refl vm

@[grind ←] theorem memorySet (offset : U64) (data : Bytes) : Keeps G (memorySet offset data) :=
  q.onMemory _

@[grind ←] theorem copyOutput (retOff retLen : U64) (output : Bytes) :
    Keeps G (copyOutput retOff retLen output) := by
  unfold Interpreter.copyOutput
  grind

end Inert

section Sharing

variable (hstate : ∀ vm state, G.rel vm (vm.withState state))
include hstate

theorem keeps_modifiesState (f : StateDB → StateDB) : Keeps G (modifiesState f) :=
  Quiet.modifies fun _ => hstate _ _

theorem keeps_snapshot : Keeps G snapshot := by
  have hmodifies := keeps_modifiesState hstate
  unfold Exec.snapshot
  grind

theorem keeps_giveUp (q : Inert G) (snapID : Nat) : Keeps G (giveUp snapID) := by
  have hmodifies := keeps_modifiesState hstate
  unfold Interpreter.giveUp revertToSnapshot
  grind

theorem keeps_endow (sender newAddr : Address) (val : Int) :
    Keeps G (endow sender newAddr val) := by
  have hmodifies := keeps_modifiesState hstate
  unfold Interpreter.endow
  grind

theorem keeps_transferValue (sender toAddr : Address) (callValue : Int) :
    Keeps G (transferValue sender toAddr callValue) := by
  have hmodifies := keeps_modifiesState hstate
  unfold Interpreter.transferValue
  grind

theorem keeps_startCreate (q : Inert G) (host : Host) (request : CreateRequest) :
    Keeps G (startCreate host request) := by
  unfold Interpreter.startCreate
  refine (Quiet.reads _).bind fun sender => (Quiet.reads _).bind fun nonce => ?_
  refine (keeps_modifiesState hstate _).bind fun _ => (keeps_snapshot hstate).bind fun snapID => ?_
  refine (keeps_modifiesState hstate _).bind fun _ => (keeps_endow hstate _ _ _).bind fun paid => ?_
  split
  · exact (Quiet.reads _).bind fun _ => (Quiet.reads _).bind fun _ => .pure _
  · exact (keeps_giveUp hstate q snapID).bind fun _ => .pure _

end Sharing

namespace Local

variable (q : Local G)
include q

@[grind ←] theorem useGas (amount : U64) : Keeps G (useGas amount) := by
  intro vm
  unfold Exec.useGas
  split
  · next ctx h => exact q.gas vm amount ctx h
  · exact G.refl vm

@[grind ←] theorem charge (amount : U64) (err : String) : Keeps G (charge amount err) := by
  unfold Exec.charge
  grind

@[grind ←] theorem touchAddress (addr : Address) (surcharge : U64) (err : String) :
    Keeps G (touchAddress addr surcharge err) := by
  unfold Exec.touchAddress
  grind

@[grind ←] theorem unary (f : Int → Int) : Keeps G (unary f) := by
  unfold Interpreter.unary
  grind

@[grind ←] theorem binary (f : Int → Int → Int) : Keeps G (binary f) := by
  unfold Interpreter.binary
  grind

@[grind ←] theorem ternary (f : Int → Int → Int → Int) : Keeps G (ternary f) := by
  unfold Interpreter.ternary
  grind

@[grind ←] theorem pushes (f : Vm → Int) : Keeps G (pushes f) := by
  unfold Interpreter.pushes
  grind

@[grind ←] theorem pushesOf (f : StateDB → Address → Int) : Keeps G (pushesOf f) := by
  unfold Interpreter.pushesOf
  grind

@[grind ←] theorem pushesTx (f : TxContext → Int) : Keeps G (pushesTx f) := by
  unfold Interpreter.pushesTx
  grind

@[grind ←] theorem opExp : Keeps G opExp := by
  unfold Interpreter.opExp
  grind

@[grind ←] theorem opKeccak256 (host : Host) : Keeps G (opKeccak256 host) := by
  unfold Interpreter.opKeccak256
  grind

@[grind ←] theorem opCallDataLoad : Keeps G opCallDataLoad := by
  unfold Interpreter.opCallDataLoad
  grind

@[grind ←] theorem copies (source : Bytes) (err : String) : Keeps G (copies source err) := by
  unfold Interpreter.copies
  grind

@[grind ←] theorem opCopy (source : CallContext → Bytes) : Keeps G (opCopy source) := by
  unfold Interpreter.opCopy
  grind

@[grind ←] theorem opExtCodeCopy : Keeps G opExtCodeCopy := by
  unfold Interpreter.opExtCodeCopy
  grind

@[grind ←] theorem opReturnDataCopy : Keeps G opReturnDataCopy := by
  unfold Interpreter.opReturnDataCopy
  grind

@[grind ←] theorem opBlockHash : Keeps G opBlockHash := by
  unfold Interpreter.opBlockHash
  grind

@[grind ←] theorem opMLoad : Keeps G opMLoad := by
  unfold Interpreter.opMLoad
  grind

@[grind ←] theorem opMStore : Keeps G opMStore := by
  unfold Interpreter.opMStore
  grind

@[grind ←] theorem opMStore8 : Keeps G opMStore8 := by
  unfold Interpreter.opMStore8
  grind

@[grind ←] theorem opSLoad : Keeps G opSLoad := by
  unfold Interpreter.opSLoad
  grind

@[grind ←] theorem opDup (depth : Nat) : Keeps G (opDup depth) := by
  unfold Interpreter.opDup
  grind

@[grind ←] theorem opSwap (depth : Nat) : Keeps G (opSwap depth) := by
  unfold Interpreter.opSwap
  grind

@[grind ←] theorem opPop : Keeps G opPop := q.onStack _

theorem returns {leave : Vm → Vm} (h : ∀ vm, G.rel vm (leave vm)) (err : String) :
    Keeps G (returns err leave) := by
  have hleave (vm : Vm) (data : Bytes) : G.rel vm (leave (vm.withReturnData data)) :=
    G.trans (q.returnData vm data) (h _)
  unfold Interpreter.returns
  grind

/-- The opcodes that neither write nor set the position. -/
theorem dispatch (host : Host) {op : Opcode} (h : op.writes = false) (hstays : op.moves = false) :
    Keeps G (dispatch host op) := by
  have hret := q.returns q.stop "out of gas: RETURN"
  have hrevert := q.returns q.revert "out of gas: REVERT"
  cases op
  all_goals first
    | (simp [Opcode.writes] at h; done)
    | (simp [Opcode.moves] at hstays; done)
    | (simp only [Interpreter.dispatch]; grind)

@[grind ←] theorem chargeConst (b : UInt8) : Keeps G (chargeConst b) := by
  unfold Interpreter.chargeConst
  grind

@[grind ←] theorem callOperands (kind : CallKind) : Keeps G (callOperands kind) := by
  unfold Interpreter.callOperands
  grind

@[grind ←] theorem callMemory (o : CallOperands) : Keeps G (callMemory o) := by
  unfold Interpreter.callMemory
  grind

@[grind ←] theorem answerPrecompile (retOff retLen : U64) (output : Except String Bytes) :
    Keeps G (answerPrecompile retOff retLen output) := by
  cases output with
  | error err => exact q.push 0
  | ok output =>
    simp only [Interpreter.answerPrecompile]
    grind

@[grind ←] theorem callPrecompile (host : Host) (o : CallOperands) :
    Keeps G (callPrecompile host o) := by
  unfold Interpreter.callPrecompile
  grind

@[grind ←] theorem callGas (o : CallOperands) : Keeps G (callGas o) := by
  unfold Interpreter.callGas
  grind

/-- The `CALL` branch up to the snapshot. -/
@[grind ←] theorem prepareCall (host : Host) (kind : CallKind) :
    Keeps G (prepareCall host kind) := by
  unfold Interpreter.prepareCall
  grind

end Local

namespace Quiet

variable (q : Quiet G)
include q

@[grind ←] theorem jumpTo (dest : Int) (opName : String) : Keeps G (jumpTo dest opName) := by
  unfold Interpreter.jumpTo
  grind

@[grind ←] theorem opJump : Keeps G opJump := by
  unfold Interpreter.opJump
  grind

@[grind ←] theorem opJumpI : Keeps G opJumpI := by
  unfold Interpreter.opJumpI
  grind

@[grind ←] theorem opPush (numBytes : Nat) : Keeps G (opPush numBytes) := by
  unfold Interpreter.opPush
  grind

/-- The opcodes that do not write. -/
theorem dispatch (host : Host) {op : Opcode} (h : op.writes = false) :
    Keeps G (dispatch host op) := by
  by_cases hstays : op.moves = false
  · exact q.toLocal.dispatch host h hstays
  · cases op
    case jump => exact q.opJump
    case jumpi => exact q.opJumpI
    case push numBytes => exact Quiet.proceeds (q.opPush numBytes)
    all_goals exact absurd rfl hstays

end Quiet

/-- `prepareCreate` behind its operands. -/
def chargeCreate (value offset size : Int) (salt : Option Int) (amount : U64) :
    Exec (Option CreateRequest) := do
  let memCost ← resize (uint64 offset + uint64 size)
  charge (memCost + amount) "out of gas: CREATE"
  let initCode ← memoryGet (uint64 offset) (uint64 size)
  if maxInitCodeSize < len64 initCode then do
    push 0
    pure none
  else pure (some { value, salt, initCode })

/-- The charge of `CREATE` or `CREATE2` beside that for the memory. -/
def createGas (isCreate2 : Bool) (size : Int) : U64 :=
  if isCreate2 then gasCreate + gasKeccak256Word * ((uint64 size + 31) / 32) else gasCreate

theorem prepareCreate_eq (isCreate2 : Bool) :
    prepareCreate isCreate2 = (mustPop1 >>= fun value => mustPop1 >>= fun offset =>
      mustPop1 >>= fun size => (if isCreate2 then some <$> mustPop1 else pure none) >>= fun salt =>
        chargeCreate value offset size salt (createGas isCreate2 size)) := by
  cases isCreate2 with
  | true => rfl
  | false => rfl

theorem Local.prepareCreate (q : Local G) (isCreate2 : Bool) :
    Keeps G (prepareCreate isCreate2) := by
  have hrest (value offset size : Int) (salt : Option Int) (amount : U64) :
      Keeps G (chargeCreate value offset size salt amount) := by
    unfold chargeCreate
    grind
  rw [prepareCreate_eq]
  exact q.mustPop1.bind fun _ => q.mustPop1.bind fun _ => q.mustPop1.bind fun _ =>
    (Keeps.ite q.mustPop1.map (.pure _)).bind fun _ => hrest _ _ _ _ _

@[grind ←] theorem keeps_refuseStatic (err : String) {x : Exec Next} (h : Keeps G x) :
    Keeps G (refuseStatic err x) := by
  unfold Interpreter.refuseStatic
  grind

/-- A guarantee that a change of the shared state does not break either. -/
structure Stateful (G : Guarantee Vm) : Prop extends Local G where
  state : ∀ vm state, G.rel vm (vm.withState state)

attribute [grind ←] Stateful.state
attribute [grind →] Stateful.toLocal

namespace Stateful

variable (q : Stateful G)
include q

@[grind ←] theorem modifiesState (f : StateDB → StateDB) : Keeps G (modifiesState f) :=
  keeps_modifiesState q.state f

@[grind ←] theorem snapshot : Keeps G snapshot := keeps_snapshot q.state

@[grind ←] theorem giveUp (snapID : Nat) : Keeps G (giveUp snapID) :=
  keeps_giveUp q.state q.toInert snapID

@[grind ←] theorem endow (sender newAddr : Address) (val : Int) :
    Keeps G (endow sender newAddr val) := keeps_endow q.state sender newAddr val

theorem startCreate (host : Host) (request : CreateRequest) :
    Keeps G (startCreate host request) := keeps_startCreate q.state q.toInert host request

theorem opCreate (host : Host) (isCreate2 : Bool) : Keeps G (opCreate host isCreate2) := by
  have hprepare := q.toLocal.prepareCreate isCreate2
  have hstart := q.startCreate host
  unfold Interpreter.opCreate
  grind

@[grind ←] theorem finishCall (snapID : Nat) (retOff retLen : U64) (r : ExecutionResult) :
    Keeps G (finishCall snapID retOff retLen r) := by
  have l := q.toLocal
  unfold Interpreter.finishCall
  grind

@[grind ←] theorem transferValue (sender toAddr : Address) (callValue : Int) :
    Keeps G (transferValue sender toAddr callValue) :=
  keeps_transferValue q.state sender toAddr callValue

@[grind ←] theorem enterTarget (kind : CallKind) (request : CallRequest) (call : CallContext)
    (snapID : Nat) : Keeps G (enterTarget kind request call snapID) := by
  unfold Interpreter.enterTarget
  grind

theorem startCall (kind : CallKind) (request : CallRequest) : Keeps G (startCall kind request) := by
  unfold Interpreter.startCall
  grind

theorem opCall (host : Host) (kind : CallKind) : Keeps G (opCall host kind) := by
  unfold Interpreter.opCall
  apply (q.toLocal.prepareCall host kind).bind
  intro request
  cases request with
  | none => exact .pure _
  | some request => exact q.startCall kind request

/-- `SELFDESTRUCT` behind its charge. -/
theorem destroy_eq : ∃ rest : Exec Unit, Keeps G rest ∧
    destroy = (charge gasSelfDestruct "out of gas: SELFDESTRUCT" >>= fun _ => rest) := by
  have l := q.toLocal
  have hmove (self beneficiary : Address) (balance : Int) : Keeps G (do
      Exec.modifiesState fun state =>
        state.setBalance beneficiary (state.getBalance beneficiary + balance)
      Exec.modifiesState fun state => state.setBalance self 0
      modifies Vm.stop) := by
    grind
  refine ⟨_, ?_, rfl⟩
  refine l.mustPop1.bind fun _ => (l.touchAddress _ _ _).bind fun _ => ?_
  refine (Quiet.reads _).bind fun _ => (Quiet.reads _).bind fun _ => ?_
  split
  · refine (Quiet.reads _).bind fun _ => ?_
    split
    · exact hmove _ _ _
    · exact (l.charge _ _).bind fun _ => hmove _ _ _
  · exact Quiet.modifies l.stop

theorem destroy : Keeps G destroy := by
  obtain ⟨rest, hrest, heq⟩ := q.destroy_eq
  rw [heq]
  exact (q.charge _ _).bind fun _ => hrest

theorem resume (host : Host) (pending : Pending) (r : ExecutionResult) :
    Keeps G (resume host pending r) := by
  have l := q.toLocal
  cases pending with
  | call snapID retOff retLen => exact q.finishCall snapID retOff retLen r
  | create snapID newAddr =>
    simp only [Interpreter.resume, finishCreate]
    grind

end Stateful

/-- A guarantee that only a change of the position may break. -/
structure Wide (G : Guarantee Vm) : Prop extends Stateful G where
  original : ∀ vm original, G.rel vm (vm.withOriginal original)
  refund : ∀ vm refund, G.rel vm (vm.withRefund refund)
  logs : ∀ vm logs, G.rel vm (vm.withLogs logs)

attribute [grind ←] Wide.original Wide.refund Wide.logs
attribute [grind →] Wide.toStateful

theorem Local.popTopics (l : Local G) (n : Nat) : Keeps G (popTopics n) := by
  induction n with
  | zero => exact .pure _
  | succ n ih =>
    unfold Interpreter.popTopics
    grind

namespace Wide

variable (q : Wide G)
include q

theorem storeSlot : Keeps G storeSlot := by
  have l := q.toLocal
  unfold Interpreter.storeSlot
  refine l.mustPop1.bind fun _ => l.mustPop1.bind fun _ => (Quiet.reads _).bind fun _ => ?_
  refine (Quiet.reads _).bind fun _ => .bind (Quiet.modifies fun _ => q.original _ _) fun _ => ?_
  refine (Quiet.reads _).bind fun _ => (Quiet.reads _).bind fun _ => ?_
  refine .bind (Quiet.modifies fun _ => l.access _ _) fun _ => (l.charge _ _).bind fun _ => ?_
  exact .bind (Quiet.modifies fun _ => q.refund _ _) fun _ => q.modifiesState _

theorem appendLog (numTopics : Nat) : Keeps G (appendLog numTopics) := by
  have l := q.toLocal
  have htopics := l.popTopics numTopics
  unfold Interpreter.appendLog
  grind

/-- The opcodes that do not set the position. -/
theorem dispatch (host : Host) {op : Opcode} (hstays : op.moves = false) :
    Keeps G (dispatch host op) := by
  by_cases hop : op.writes = false
  · exact q.toLocal.dispatch host hop hstays
  · cases op
    case sstore => exact keeps_refuseStatic _ (Quiet.proceeds q.storeSlot)
    case log n => exact keeps_refuseStatic _ (Quiet.proceeds (q.appendLog n))
    case create => exact q.opCreate host false
    case create2 => exact q.opCreate host true
    case call => exact q.opCall host .call
    case callcode => exact q.opCall host .callcode
    case delegatecall => exact q.opCall host .delegatecall
    case staticcall => exact q.opCall host .staticcall
    case selfdestruct => exact keeps_refuseStatic _ (Quiet.proceeds q.destroy)
    all_goals exact absurd rfl hop

end Wide

theorem ExecutionContext.useGas_eq_some {ctx ctx' : ExecutionContext} {amount : U64}
    (h : ctx.useGas amount = some ctx') : ctx' = { ctx with gasUsed := ctx.gasUsed + amount } := by
  unfold useGas at h
  dsimp only at h
  split at h
  · cases h
  · exact (Option.some.inj h).symm

theorem charge_ok {amount : U64} {err : String} {vm vm' : Vm} {u : Unit}
    (h : charge amount err vm = .ok u vm') :
    ∃ ctx, vm.ctx.useGas amount = some ctx ∧ vm' = { vm with ctx := ctx } := by
  obtain ⟨paid, r, huse, h⟩ := of_bind_ok h
  unfold useGas at huse
  split at huse
  · next ctx hctx =>
    cases huse
    cases h
    exact ⟨ctx, hctx, rfl⟩
  · cases huse
    cases h

theorem proceeds_ok {x : Exec Unit} {vm vm' : Vm} {next : Next}
    (h : proceeds x vm = .ok next vm') : next = .proceed := by
  obtain ⟨-, r, -, hpure⟩ := of_bind_ok h
  cases hpure
  rfl

theorem jumpTo_ok {dest : Int} {opName : String} {vm vm' : Vm} {next : Next}
    (h : jumpTo dest opName vm = .ok next vm') : next = .jumped := by
  obtain ⟨valid, r, -, h⟩ := of_bind_ok h
  cases valid with
  | true =>
    obtain ⟨-, r, -, hpure⟩ := of_bind_ok h
    cases hpure
    rfl
  | false => cases h

/-- Only the writing opcodes start a sub-frame. -/
theorem dispatch_ok_ne_subCall {host : Host} {op : Opcode} (hop : op.writes = false)
    {vm vm' : Vm} {next : Next} (h : dispatch host op vm = .ok next vm') :
    next = .proceed ∨ next = .jumped := by
  cases op
  case jump =>
    obtain ⟨dest, r, -, h⟩ := of_bind_ok h
    exact .inr (jumpTo_ok h)
  case jumpi =>
    obtain ⟨dest, r, -, h⟩ := of_bind_ok h
    obtain ⟨cond, r, -, h⟩ := of_bind_ok h
    split at h
    · cases h
      exact .inl rfl
    · exact .inr (jumpTo_ok h)
  case jumpdest =>
    cases h
    exact .inl rfl
  case invalid =>
    obtain ⟨pc, r, -, h⟩ := of_bind_ok h
    cases h
  case unknown =>
    obtain ⟨pc, r, -, h⟩ := of_bind_ok h
    cases h
  all_goals first
    | exact .inl (proceeds_ok h)
    | simp [Opcode.writes] at hop

theorem refuseStatic_of_static {vm : Vm} (h : vm.ctx.call.isStatic = true) (err : String)
    (x : Exec Next) : refuseStatic err x vm = .error (.error err) vm := by
  unfold refuseStatic
  rw [bind_ok (show reads (fun vm => vm.ctx.call.isStatic) vm = .ok true vm from
    congrArg (EStateM.Result.ok · vm) h)]
  rfl

end Qubitcoin.Evm
