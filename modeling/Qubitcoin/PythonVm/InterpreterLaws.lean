import Qubitcoin.PythonVm.Interpreter

/-! What holds across every change that an opcode of the Python QVM makes to its frame and to what the
frames share holds across the opcode. -/

namespace Qubitcoin.PythonVm

open Command Exec Interpreter

/-- A guarantee that no change breaks but to the stack, the logs and the storage. -/
structure Calm (G : Guarantee Vm) : Prop where
  gas : ∀ (vm : Vm) (amount : ℕ), vm.ctx.gasUsed + amount ≤ vm.ctx.gas →
    G.rel vm (vm.withGasUsed (vm.ctx.gasUsed + amount))
  memory : ∀ vm memory, G.rel vm (vm.withMemory memory)
  pc : ∀ vm pc, G.rel vm (vm.withPc pc)
  returnData : ∀ vm data, G.rel vm (vm.withReturnData data)
  refund : ∀ vm refund, G.rel vm (vm.withRefund refund)
  original : ∀ vm original, G.rel vm (vm.withOriginal original)
  address : ∀ vm addr, G.rel vm (vm.touchAddress addr)
  slot : ∀ vm slot, G.rel vm (vm.touchSlot slot)
  tick : ∀ vm : Vm, G.rel vm vm.tick
  stop : ∀ vm : Vm, G.rel vm vm.stop
  revert : ∀ vm : Vm, G.rel vm vm.revert

/-- A guarantee that no change breaks but to the logs and the storage. -/
structure Quiet (G : Guarantee Vm) : Prop extends Calm G where
  stack : ∀ vm stack, G.rel vm (vm.withStack stack)

/-- A guarantee that no change breaks. -/
structure Wide (G : Guarantee Vm) : Prop extends Quiet G where
  logs : ∀ vm logs, G.rel vm (vm.withLogs logs)
  cache : ∀ vm cache, G.rel vm (vm.withCache cache)

attribute [grind ←] Calm.memory Calm.pc Calm.returnData Calm.refund Calm.original Calm.address
  Calm.slot Calm.stop Wide.logs Wide.cache
attribute [grind →] Wide.toQuiet Quiet.toCalm

/-- The opcodes that write to the logs or the storage. -/
def Opcode.writes : Opcode → Bool
  | .sstore | .log _ => true
  | _ => false

/-- The opcodes that take all the gas. -/
def Opcode.burns : Opcode → Bool
  | .invalid | .unknown _ => true
  | _ => false

variable {G : Guarantee Vm}

@[grind ←] theorem keeps_reads {α : Type} (f : Vm → α) : Keeps G (reads f) := fun vm => G.refl vm

@[grind ←] theorem keeps_fail {α : Type} (err : String) : Keeps G (fail err : Exec α) :=
  fun vm => G.refl vm

@[grind ←] theorem keeps_raise {α : Type} (fault : Fault) : Keeps G (raise fault : Exec α) :=
  fun vm => G.refl vm

@[grind ←] theorem keeps_modifies {f : Vm → Vm} (h : ∀ vm, G.rel vm (f vm)) :
    Keeps G (modifies f) := h

@[grind ←] theorem keeps_parseHex (s : String) : Keeps G (parseHex s) := by
  unfold parseHex
  grind

@[grind ←] theorem keeps_parseBytes (s : String) : Keeps G (parseBytes s) := by
  unfold parseBytes
  grind

@[grind ←] theorem keeps_allocate (host : Host) (length : ℕ) : Keeps G (allocate host length) := by
  unfold allocate
  grind

@[grind ←] theorem keeps_ljust (host : Host) (data : Bytes) (size : ℕ) :
    Keeps G (ljust host data size) := by
  unfold ljust
  grind

@[grind ←] theorem keeps_rlpEncodeCreateAddress (host : Host) (sender : String) (nonce : ℕ) :
    Keeps G (rlpEncodeCreateAddress host sender nonce) := by
  unfold rlpEncodeCreateAddress
  grind

@[grind ←] theorem keeps_peek (depth : ℕ) : Keeps G (peek depth) := by
  intro vm
  unfold peek
  split
  · exact G.refl vm
  · exact G.refl vm

@[grind ←] theorem keeps_startCreate (value : ℕ) (initCode : Bytes) (newAddr : String) :
    Keeps G (startCreate value initCode newAddr) := keeps_reads _

@[grind ←] theorem keeps_proceeds {x : Exec Unit} (h : Keeps G x) : Keeps G (proceeds x) := by
  unfold proceeds
  grind

@[grind ←] theorem keeps_refuseStatic (err : String) {x : Exec Next} (h : Keeps G x) :
    Keeps G (refuseStatic err x) := by
  unfold refuseStatic
  grind

namespace Calm

variable (q : Calm G)
include q

@[grind ←] theorem ask {α : Type} (f : ℕ → Except String α) : Keeps G (ask f) := by
  intro vm
  unfold Exec.ask
  split
  · exact q.tick vm
  · exact q.tick vm

@[grind ←] theorem askOr {α : Type} (default : α) (f : ℕ → Except String α) :
    Keeps G (askOr default f) := by
  intro vm
  unfold Exec.askOr
  split
  · exact q.tick vm
  · exact q.tick vm

@[grind ←] theorem useGas (amount : ℕ) : Keeps G (useGas amount) := by
  intro vm
  unfold Exec.useGas
  split
  · exact G.refl vm
  · next h => exact q.gas vm amount (not_lt.mp h)

@[grind ←] theorem memoryExtend (host : Host) (offset size : ℕ) :
    Keeps G (memoryExtend host offset size) := by
  unfold PythonVm.memoryExtend
  grind

@[grind ←] theorem memoryRead (host : Host) (offset size : ℕ) :
    Keeps G (memoryRead host offset size) := by
  unfold PythonVm.memoryRead
  grind

@[grind ←] theorem memoryWrite (host : Host) (offset : ℕ) (data : Bytes) :
    Keeps G (memoryWrite host offset data) := by
  unfold PythonVm.memoryWrite
  grind

@[grind ←] theorem accessAddress (addr : String) : Keeps G (accessAddress addr) := by
  unfold Interpreter.accessAddress
  grind

@[grind ←] theorem accessSlot (slot : String × String) : Keeps G (accessSlot slot) := by
  unfold Interpreter.accessSlot
  grind

@[grind ←] theorem balanceOf (host : Host) (addr : String) : Keeps G (balanceOf host addr) := by
  unfold Interpreter.balanceOf
  grind

@[grind ←] theorem bytecodeOf (host : Host) (addr : String) : Keeps G (bytecodeOf host addr) := by
  unfold Interpreter.bytecodeOf
  grind

@[grind ←] theorem codeOf (host : Host) (addr : String) : Keeps G (codeOf host addr) := by
  unfold Interpreter.codeOf
  grind

@[grind ←] theorem codeHashOf (host : Host) (addr : String) : Keeps G (codeHashOf host addr) := by
  unfold Interpreter.codeHashOf
  grind

@[grind ←] theorem blockHashOf (host : Host) (num : ℕ) : Keeps G (blockHashOf host num) := by
  unfold Interpreter.blockHashOf
  grind

@[grind ←] theorem nonceOf (host : Host) (addr : String) : Keeps G (nonceOf host addr) := by
  unfold Interpreter.nonceOf
  grind

@[grind ←] theorem copies (host : Host) (source : Bytes) (destOffset offset size : ℕ) :
    Keeps G (copies host source destOffset offset size) := by
  unfold Interpreter.copies
  grind

@[grind ←] theorem storedOr (host : Host) (address keyHex : String) :
    Keeps G (storedOr host address keyHex) := by
  unfold Interpreter.storedOr
  grind

@[grind ←] theorem currentValue (host : Host) (address keyHex : String) :
    Keeps G (currentValue host address keyHex) := by
  unfold Interpreter.currentValue
  grind

@[grind ←] theorem originalValue (host : Host) (address keyHex : String) :
    Keeps G (originalValue host address keyHex) := by
  unfold Interpreter.originalValue
  grind

@[grind ←] theorem chargeStore (originalHex currentHex valHex : String) (newIsZero : Bool)
    (coldCost : ℕ) : Keeps G (chargeStore originalHex currentHex valHex newIsZero coldCost) := by
  unfold Interpreter.chargeStore
  grind

@[grind ←] theorem jumpTo (dest : ℕ) (opName : String) : Keeps G (jumpTo dest opName) := by
  unfold Interpreter.jumpTo
  grind

@[grind ←] theorem proofKnown (host : Host) (proofHash : ℕ) :
    Keeps G (proofKnown host proofHash) := by
  unfold Interpreter.proofKnown
  grind

@[grind ←] theorem bridgeProofKnown (host : Host) (proofHash : ℕ) :
    Keeps G (bridgeProofKnown host proofHash) := by
  unfold Interpreter.bridgeProofKnown
  grind

@[grind ←] theorem amlRisk (compliance : ComplianceEngine) (addrHex : String) :
    Keeps G (amlRisk compliance addrHex) := by
  unfold Interpreter.amlRisk
  grind

@[grind ←] theorem riskOf (compliance : ComplianceEngine) (addrHex : String) :
    Keeps G (riskOf compliance addrHex) := by
  unfold Interpreter.riskOf
  grind

@[grind ←] theorem createAddress (host : Host) : Keeps G (createAddress host) := by
  unfold Interpreter.createAddress
  grind

@[grind ←] theorem create2Address (host : Host) (salt : ℕ) (initCode : Bytes) :
    Keeps G (create2Address host salt initCode) := by
  unfold Interpreter.create2Address
  grind

@[grind ←] theorem refuseValue (kind : CallKind) (value : ℕ) :
    Keeps G (refuseValue kind value) := by
  unfold Interpreter.refuseValue
  grind

end Calm

namespace Quiet

variable (q : Quiet G)
include q

@[grind ←] theorem push (value : ℤ) : Keeps G (push value) := by
  intro vm
  unfold Exec.push
  split
  · exact q.stack vm _
  · exact G.refl vm

@[grind ←] theorem pop : Keeps G pop := by
  intro vm
  unfold Exec.pop
  split
  · exact q.stack vm _
  · exact G.refl vm

@[grind ←] theorem unary (f : ℕ → ℤ) : Keeps G (unary f) := by
  unfold Interpreter.unary
  grind

@[grind ←] theorem binary (f : ℕ → ℕ → ℤ) : Keeps G (binary f) := by
  unfold Interpreter.binary
  grind

@[grind ←] theorem ternary (f : ℕ → ℕ → ℕ → ℤ) : Keeps G (ternary f) := by
  unfold Interpreter.ternary
  grind

@[grind ←] theorem pushes (f : Vm → ℤ) : Keeps G (pushes f) := by
  unfold Interpreter.pushes
  grind

@[grind ←] theorem pushesHex (f : Vm → String) : Keeps G (pushesHex f) := by
  unfold Interpreter.pushesHex
  grind

@[grind ←] theorem popTopics (n : ℕ) : Keeps G (popTopics n) := by
  induction n with
  | zero => exact .pure _
  | succ n ih =>
    unfold Interpreter.popTopics
    grind

@[grind ←] theorem loadStored (host : Host) (address keyHex : String) :
    Keeps G (loadStored host address keyHex) := by
  unfold Interpreter.loadStored
  grind

@[grind ←] theorem loadSlot (host : Host) (address keyHex : String) :
    Keeps G (loadSlot host address keyHex) := by
  unfold Interpreter.loadSlot
  grind

@[grind ←] theorem verifyAt (host : Host) (pk msg sig : ℕ × ℕ) :
    Keeps G (verifyAt host pk msg sig) := by
  unfold Interpreter.verifyAt
  grind

@[grind ←] theorem popAngle : Keeps G popAngle := by
  unfold Interpreter.popAngle
  grind

@[grind ←] theorem opQVerify (host : Host) : Keeps G (opQVerify host) :=
  q.pop.bind fun proofHash => q.pop.bind fun _ => .ite (q.push 0)
    ((q.proofKnown host proofHash).bind fun _ => q.push _)

@[grind ←] theorem opQGate (host : Host) : Keeps G (opQGate host) := by
  refine q.pop.bind fun gateType => q.pop.bind fun _ => ?_
  cases host.quantum with
  | none => exact q.push 0
  | some quantum => exact .ite q.popAngle (q.push 1)

@[grind ←] theorem optimizeVqe (host : Host) : Keeps G (optimizeVqe host) := by
  unfold Interpreter.optimizeVqe
  grind

theorem opSwap (depth : ℕ) : Keeps G (opSwap depth) := by
  intro vm
  unfold Interpreter.opSwap
  split
  · exact q.stack vm _
  · exact G.refl vm

theorem returns (host : Host) {leave : Vm → Vm} (h : ∀ vm, G.rel vm (leave vm)) :
    Keeps G (returns host leave) := by
  have hleave (vm : Vm) (data : Bytes) : G.rel vm (leave (vm.withReturnData data)) :=
    G.trans (q.returnData vm data) (h _)
  unfold Interpreter.returns
  grind

@[grind ←] theorem callOperands (kind : CallKind) : Keeps G (callOperands kind) := by
  unfold Interpreter.callOperands
  grind

@[grind ←] theorem callCode (host : Host) (kind : CallKind) (o : CallOperands) (toAddr : String)
    (callData : Bytes) : Keeps G (callCode host kind o toAddr callData) := by
  unfold Interpreter.callCode
  grind

@[grind ←] theorem opCall (host : Host) (kind : CallKind) : Keeps G (opCall host kind) := by
  unfold Interpreter.opCall
  grind

@[grind ←] theorem answerCall (host : Host) (retOffset retSize : ℕ) (r : ExecutionResult) :
    Keeps G (answerCall host retOffset retSize r) := by
  unfold Interpreter.answerCall
  grind

/-- The opcodes that neither write nor take all the gas. -/
theorem dispatch (host : Host) {op : Opcode} (hwrites : op.writes = false)
    (hburns : op.burns = false) : Keeps G (dispatch host op) := by
  have hret := q.returns host q.stop
  have hrevert := q.returns host q.revert
  have hswap := q.opSwap
  cases op
  all_goals first
    | (simp [Opcode.writes] at hwrites; done)
    | (simp [Opcode.burns] at hburns; done)
    | (simp only [Interpreter.dispatch, opExp, opKeccak256, opBalance, opCallDataLoad, opCopy,
        opExtCodeSize, opExtCodeCopy, opReturnDataCopy, opExtCodeHash, opBlockHash, opCoinbase,
        opSelfBalance, opMLoad, opMStore, opMStore8, opSLoad, opJump, opJumpI, opPush, opDup,
        opQProof, opQDilithium, opQMeasure, opQEntangle, opQSuperpose, opQHamiltonian,
        opQFidelity, opQCreate, opQCompliance, opQRisk, opQRiskSystemic,
        opQBridgeEntangle, opQBridgeVerify, opQReason, opQPhi, opCreate, opCreate2,
        selfDestruct]
       grind)

end Quiet

/-- What a command leaves in the frame that takes all the gas. -/
theorem dispatch_burns (host : Host) {op : Opcode} (h : op.burns = true) (vm : Vm) :
    ∃ err, dispatch host op vm = .error (.execution err) (vm.withGasUsed vm.ctx.gas) := by
  cases op
  case invalid => exact ⟨_, rfl⟩
  case unknown => exact ⟨_, rfl⟩
  all_goals cases h

/-- The frame with the gas of a result, which is added unchecked. -/
def Vm.addGas (vm : Vm) (amount : ℕ) : Vm := vm.withGasUsed (vm.ctx.gasUsed + amount)

namespace Wide

variable (q : Wide G)
include q

theorem storeSlot (host : Host) : Keeps G (storeSlot host) := by
  refine q.pop.bind fun key => q.pop.bind fun value => (keeps_reads _).bind fun address => ?_
  refine (q.currentValue host _ _).bind fun _ => (q.originalValue host _ _).bind fun _ => ?_
  refine (keeps_reads _).bind fun _ => .bind (keeps_modifies fun _ => q.slot _ _) fun _ => ?_
  exact (q.chargeStore _ _ _ _ _).bind fun _ => keeps_modifies fun _ => q.cache _ _

theorem appendLog (host : Host) (numTopics : ℕ) : Keeps G (appendLog host numTopics) := by
  unfold Interpreter.appendLog
  grind

/-- The opcodes that do not take all the gas. -/
theorem dispatch (host : Host) {op : Opcode} (hburns : op.burns = false) :
    Keeps G (dispatch host op) := by
  by_cases hwrites : op.writes = false
  · exact q.toQuiet.dispatch host hwrites hburns
  · cases op
    case sstore => exact keeps_refuseStatic _ (keeps_proceeds (q.storeSlot host))
    case log numTopics => exact keeps_refuseStatic _ (keeps_proceeds (q.appendLog host numTopics))
    all_goals exact absurd rfl hwrites

@[grind ←] theorem settleCall (kind : CallKind) (cacheSnap : Storage) (r : ExecutionResult) :
    Keeps G (settleCall kind cacheSnap r) := by
  unfold Interpreter.settleCall
  grind

@[grind ←] theorem settleCreate (cacheSnap : Storage) (newAddr : String) (r : ExecutionResult) :
    Keeps G (settleCreate cacheSnap newAddr r) := by
  unfold Interpreter.settleCreate
  grind

/-- All that is done with a result but for the gas. -/
theorem resume (host : Host) (pending : Pending) (r : ExecutionResult) (vm : Vm) :
    G.rel (vm.addGas r.gasUsed) (left (resume host pending r vm)) := by
  have l := q.toCalm
  cases pending with
  | precompile retOffset retSize =>
    have hanswer := q.toQuiet.answerCall host retOffset retSize r
    exact G.trans (q.returnData _ _) (hanswer _)
  | call kind cacheSnap retOffset retSize =>
    have hrest : Keeps G (do
        Interpreter.settleCall kind cacheSnap r
        Interpreter.answerCall host retOffset retSize r) := by
      grind
    exact G.trans (q.returnData _ _) (hrest _)
  | create cacheSnap newAddr =>
    have hrest : Keeps G (do
        Interpreter.settleCreate cacheSnap newAddr r
        modifies fun vm => vm.withReturnData r.returnData) := by
      grind
    exact hrest _

end Wide

/-- The stack does not grow. -/
def lowered : Guarantee Vm where
  rel vm vm' := vm'.ctx.stack.items.length ≤ vm.ctx.stack.items.length
  refl _ := le_rfl
  trans h h' := le_trans h' h

/-- What keeps the stack as it is, keeps it low. -/
theorem calm_lowered : Calm lowered where
  gas _ _ _ := le_rfl
  memory _ _ := le_rfl
  pc _ _ := le_rfl
  returnData _ _ := le_rfl
  refund _ _ := le_rfl
  original _ _ := le_rfl
  address _ _ := le_rfl
  slot _ _ := le_rfl
  tick _ := le_rfl
  stop _ := le_rfl
  revert _ := le_rfl

theorem pop_ok {vm vm' : Vm} {value : ℕ} (h : pop vm = .ok value vm') :
    vm'.ctx.stack.items.length + 1 = vm.ctx.stack.items.length := by
  unfold pop at h
  split at h
  · next top stack hpop =>
    cases h
    unfold Stack.pop at hpop
    split at hpop
    · cases hpop
    · next items bounded hstack =>
      cases hpop
      exact (congrArg (fun s : Stack => s.items.length) hstack).symm
  · cases h

theorem keeps_lowered_pop : Keeps lowered pop := by
  intro vm
  cases h : pop vm with
  | ok value vm' => exact (Nat.le_succ _).trans (pop_ok h).le
  | error halt vm' =>
    unfold pop at h
    split at h
    · cases h
    · cases h
      exact le_rfl

/-- One operand at least has been taken off the stack. -/
theorem callOperands_room {kind : CallKind} {vm vm' : Vm} {o : CallOperands}
    (h : callOperands kind vm = .ok o vm') : vm'.ctx.stack.items.length < maxStackDepth := by
  obtain ⟨gasLimit, t, hpop, hrest⟩ := of_bind_ok h
  have hpops := keeps_lowered_pop
  have hlow : lowered.rel t vm' := by
    refine Keeps.of_ok ?_ hrest
    grind
  refine hlow.trans_lt (Nat.lt_of_succ_le ?_)
  exact (pop_ok hpop).le.trans vm.ctx.stack.bounded

/-- The storage to which a failed sub-frame is rolled back. -/
def Pending.snapshot : Pending → Option Storage
  | .precompile _ _ => none
  | .call _ cacheSnap _ _ => some cacheSnap
  | .create cacheSnap _ => some cacheSnap

/-- A sub-frame is one deeper, is given at most what is left and can be rolled back to the storage
as it is; the result of a precompiled contract finds room on the stack. -/
def Next.Opens (vm : Vm) : Next → Prop
  | .proceed | .jumped => True
  | .awaits (.frame message) pending =>
    message.gas ≤ available vm ∧ message.depth = vm.ctx.depth + 1 ∧
      pending.snapshot = some vm.shared.storageCache
  | .awaits (.precompile _ _ _) pending =>
    vm.ctx.stack.items.length < maxStackDepth ∧
      ∃ retOffset retSize, pending = .precompile retOffset retSize

/-- The command opens in this way. -/
def Opening (x : Exec Next) : Prop := ∀ vm next vm', x vm = .ok next vm' → next.Opens vm'

namespace Opening

theorem bind {α : Type} {x : Exec α} {f : α → Exec Next} (h : ∀ a, Opening (f a)) :
    Opening (x >>= f) := by
  intro vm next vm' hrun
  obtain ⟨a, r, -, hrest⟩ := of_bind_ok hrun
  exact h a r next vm' hrest

theorem fail (err : String) : Opening (fail err) := by
  intro vm next vm' hrun
  cases hrun

theorem pure {next : Next} (h : ∀ vm, next.Opens vm) : Opening (pure next) := by
  intro vm next' vm' hrun
  cases hrun
  exact h vm

theorem proceeds (x : Exec Unit) : Opening (proceeds x) := bind fun _ => pure fun _ => trivial

theorem refuseStatic (err : String) {x : Exec Next} (h : Opening x) :
    Opening (refuseStatic err x) := by
  apply bind
  intro isStatic
  split
  · exact fail err
  · exact h

theorem burns (err : String) : Opening (burns err) := bind fun _ => fail err

theorem jumpTo (dest : ℕ) (opName : String) : Opening (jumpTo dest opName) := by
  apply bind
  intro valid
  split
  · exact bind fun _ => pure fun _ => trivial
  · exact fail _

theorem startCreate (value : ℕ) (initCode : Bytes) (newAddr : String) :
    Opening (startCreate value initCode newAddr) := by
  intro vm next vm' hrun
  cases hrun
  refine ⟨?_, rfl, rfl⟩
  change available vm * 63 / 64 ≤ available vm
  omega

theorem callCode (host : Host) (kind : CallKind) (o : CallOperands) (toAddr : String)
    (callData : Bytes) : Opening (callCode host kind o toAddr callData) := by
  apply bind
  intro code
  split
  · exact bind fun _ => bind fun _ => pure fun _ => trivial
  · intro vm next vm' hrun
    cases hrun
    have hgas (gas : ℕ) : (subMessage kind vm.ctx toAddr code callData o.value gas).gas = gas := by
      cases kind <;> rfl
    have hdepth (gas : ℕ) : (subMessage kind vm.ctx toAddr code callData o.value gas).depth =
        vm.ctx.depth + 1 := by
      cases kind <;> rfl
    refine ⟨(hgas _).le.trans ?_, hdepth _, rfl⟩
    omega

theorem opCall (host : Host) (kind : CallKind) : Opening (opCall host kind) := by
  intro vm next vm' hrun
  obtain ⟨o, r, hoperands, hrun⟩ := of_bind_ok hrun
  obtain ⟨_, r₁, hrefuse, hrun⟩ := of_bind_ok hrun
  obtain ⟨_, r₂, haccess, hrun⟩ := of_bind_ok hrun
  obtain ⟨data, r₃, hread, hrun⟩ := of_bind_ok hrun
  split at hrun
  · cases hrun
    have hroom := callOperands_room hoperands
    have hlow₁ := (calm_lowered.refuseValue kind o.value).of_ok hrefuse
    have hlow₂ := (calm_lowered.accessAddress (formatHex 40 o.addrInt)).of_ok haccess
    have hlow₃ := (calm_lowered.memoryRead host o.argsOffset o.argsSize).of_ok hread
    exact ⟨(hlow₃.trans (hlow₂.trans hlow₁)).trans_lt hroom, o.retOffset, o.retSize, rfl⟩
  · exact callCode host kind o _ data _ _ _ hrun

/-- Every opcode opens so. -/
theorem dispatch (host : Host) (op : Opcode) : Opening (dispatch host op) := by
  cases op
  case jump => exact bind fun dest => jumpTo dest "JUMP"
  case jumpi =>
    refine bind fun dest => bind fun cond => ?_
    split
    · exact pure fun _ => trivial
    · exact jumpTo dest "JUMPI"
  case jumpdest => exact pure fun _ => trivial
  case create =>
    refine refuseStatic _ (bind fun value => bind fun offset => bind fun size => ?_)
    exact bind fun initCode => bind fun newAddr => startCreate value initCode newAddr
  case create2 =>
    refine refuseStatic _ (bind fun value => bind fun offset => bind fun size => ?_)
    refine bind fun salt => ?_
    exact bind fun initCode => bind fun newAddr => startCreate value initCode newAddr
  case call => exact opCall host .call
  case callcode => exact opCall host .callcode
  case delegatecall => exact opCall host .delegatecall
  case staticcall => exact opCall host .staticcall
  case invalid => exact burns _
  case unknown => exact burns _
  all_goals first
    | exact proceeds _
    | exact refuseStatic _ (proceeds _)

end Opening

theorem step_opens {host : Host} {b : UInt8} {vm vm' : Vm} {next : Next}
    (h : step host b vm = .ok next vm') : next.Opens vm' := by
  obtain ⟨_, r, -, hdispatch⟩ := of_bind_ok h
  exact Opening.dispatch host (.ofByte b) r next vm' hdispatch

end Qubitcoin.PythonVm
