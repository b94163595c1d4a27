import Qubitcoin.Evm.Failures
import Qubitcoin.Evm.StaticContext
import Qubitcoin.Evm.Termination

/-! Which bytecode makes the interpreter panic.  An empty stack is recovered from; what is left
are slices whose bounds are out of range, a transaction context that is not there, and the
precompiled contracts. -/

namespace Qubitcoin.Evm

open Command Exec Interpreter

/-! ## The opcodes that do not -/

/-- The command does not panic in any state. -/
abbrev Calm {α : Type} (x : Exec α) : Prop := Spares .panic x

theorem error_ne_panic (err : String) : Halt.error err ≠ .panic := Halt.noConfusion

theorem calm_prepareCreate (isCreate2 : Bool) : Calm (prepareCreate isCreate2) := by
  have p := Halt.special_panic
  have hrest (value offset size : Int) (salt : Option Int) (amount : U64) :
      Calm (chargeCreate value offset size salt amount) := by
    unfold chargeCreate
    grind
  rw [prepareCreate_eq]
  refine p.mustPop1.bind fun _ => p.mustPop1.bind fun _ => p.mustPop1.bind fun _ => ?_
  exact (FailsOnly.ite p.mustPop1.map (.pure _)).bind fun _ => hrest _ _ _ _ _

theorem calm_opCreate (host : Host) (isCreate2 : Bool) : Calm (opCreate host isCreate2) := by
  have hprepare := calm_prepareCreate isCreate2
  have hstart := Halt.special_panic.startCreate host
  unfold opCreate
  grind

theorem calm_storeSlot : Calm storeSlot := by
  have p := Halt.special_panic
  unfold storeSlot
  refine p.mustPop1.bind fun _ => p.mustPop1.bind fun _ => (Spares.reads _).bind fun _ => ?_
  refine (Spares.reads _).bind fun _ => (Spares.modifies _).bind fun _ => ?_
  refine (Spares.reads _).bind fun _ => (Spares.reads _).bind fun _ => ?_
  refine (Spares.modifies _).bind fun _ => (Spares.charge (error_ne_panic _) _).bind fun _ => ?_
  exact (Spares.modifies _).bind fun _ => Spares.modifiesState _

theorem calm_destroy : Calm destroy := by
  have p := Halt.special_panic
  have hmove (self beneficiary : Address) (balance : Int) : Calm (do
      modifiesState fun state =>
        state.setBalance beneficiary (state.getBalance beneficiary + balance)
      modifiesState fun state => state.setBalance self 0
      modifies Vm.stop) := by
    grind
  unfold destroy
  refine (Spares.charge (error_ne_panic _) _).bind fun _ => p.mustPop1.bind fun _ => ?_
  refine (Spares.touchAddress (error_ne_panic _) _ _).bind fun _ => (Spares.reads _).bind fun _ => ?_
  refine (Spares.reads _).bind fun _ => ?_
  split
  · refine (Spares.reads _).bind fun _ => ?_
    split
    · exact hmove _ _ _
    · exact (Spares.charge (error_ne_panic _) _).bind fun _ => hmove _ _ _
  · exact Spares.modifies _

theorem calm_appendLog (numTopics : Nat) : Calm (appendLog numTopics) := by
  have p := Halt.special_panic
  unfold appendLog
  grind

theorem calm_jumpTo (dest : Int) (opName : String) : Calm (jumpTo dest opName) := by
  unfold jumpTo
  grind

theorem calm_returns (err : String) (leave : Vm → Vm) : Calm (returns err leave) := by
  have p := Halt.special_panic
  unfold returns
  grind

/-- The opcodes that slice without a check, read the transaction or run precompiled contracts. -/
def Opcode.risky : Opcode → Bool
  | .calldatacopy | .codecopy | .extcodecopy | .returndatacopy | .origin | .gasprice | .call
  | .callcode | .delegatecall | .staticcall => true
  | _ => false

theorem calm_dispatch (host : Host) {op : Opcode} (h : op.risky = false) :
    Calm (dispatch host op) := by
  have p := Halt.special_panic
  have hstack (f : Stack → Except String Stack) : Calm (onStack f) := by
    intro vm halt vm' hrun
    unfold onStack at hrun
    split at hrun
    · cases hrun
    · cases hrun
      exact error_ne_panic _
  have hmemory (f : Memory → Except String Memory) : Calm (onMemory f) := by
    intro vm halt vm' hrun
    unfold onMemory at hrun
    split at hrun
    · cases hrun
    · cases hrun
      exact error_ne_panic _
  have hjump := calm_jumpTo
  have hreturns := calm_returns
  cases op
  case sstore => exact Spares.refuseStatic (error_ne_panic _) (Spares.proceeds calm_storeSlot)
  case log n => exact Spares.refuseStatic (error_ne_panic _) (Spares.proceeds (calm_appendLog n))
  case selfdestruct => exact Spares.refuseStatic (error_ne_panic _) (Spares.proceeds calm_destroy)
  case create => exact calm_opCreate host false
  case create2 => exact calm_opCreate host true
  all_goals first
    | (simp [Opcode.risky] at h; done)
    | (simp only [dispatch, unary, binary, ternary, pushesOf, opExp, opKeccak256, opCallDataLoad,
        opBlockHash, opMLoad, opMStore, opMStore8, opSLoad, opJump, opJumpI, opPush, opDup, opSwap,
        opPop]
       grind)

/-! ## The opcodes that may -/

/-- The command panics in this state. -/
abbrev Panics {α : Type} (x : Exec α) (vm : Vm) : Prop := Halts .panic x vm

theorem panics_orPanic_bind {α β : Type} {a : Option α} {f : α → Exec β} {vm : Vm} :
    Panics (orPanic a >>= f) vm ↔ a = none ∨ ∃ x, a = some x ∧ Panics (f x) vm := by
  cases a with
  | none => exact iff_of_true ⟨vm, rfl⟩ (.inl rfl)
  | some x =>
    constructor
    · exact fun h => .inr ⟨x, rfl, h⟩
    · rintro (h | ⟨y, h, hpanics⟩)
      · cases h
      · cases h
        exact hpanics

/-- The memory can be grown to the size and paid for along with the amount. -/
def Vm.Affords (vm : Vm) (size amount : U64) : Prop :=
  ∃ memory cost, vm.ctx.memory.resize size = .ok (memory, cost) ∧ vm.Pays (amount + cost)

theorem Vm.affords_and {vm : Vm} {size amount : U64} {P : Prop} :
    (∃ memory cost, vm.ctx.memory.resize size = .ok (memory, cost) ∧ vm.Pays (amount + cost) ∧ P) ↔
      vm.Affords size amount ∧ P := by
  simp only [← and_assoc, exists_and_right, Affords]

/-- The end of the slice wraps around, or the padding is negative or cannot be allocated. -/
def OutOfRange (length off size : U64) : Prop :=
  size ≠ 0 ∧ (off < length ∧ off + size < off ∨ 2 ^ 63 ≤ size.toNat ∨
    maxAlloc < size.toNat ∧ length.toNat - off.toNat < size.toNat)

theorem toInt_neg_iff (size : U64) : size.toInt < 0 ↔ 2 ^ 63 ≤ size.toNat := by
  have hsize := size.isLt
  rw [BitVec.toInt_eq_toNat_cond]
  split <;> omega

theorem padRight_eq_none_iff (data : Bytes) (size : U64) : padRight data size = none ↔
    2 ^ 63 ≤ size.toNat ∨ maxAlloc < size.toNat ∧ data.length < size.toNat := by
  have hneg := toInt_neg_iff size
  unfold padRight
  dsimp only
  split
  · next h => exact iff_of_true rfl (.inl (hneg.mp h))
  · next h =>
    have hsmall : ¬2 ^ 63 ≤ size.toNat := fun hle => h (hneg.mpr hle)
    have htoInt : size.toInt = size.toNat := BitVec.toInt_eq_toNat_of_lt (by omega)
    rw [htoInt, Int.toNat_natCast]
    split
    · next hle => simp only [reduceCtorEq, false_iff]; omega
    · split
      · simp only [true_iff]; omega
      · simp only [reduceCtorEq, false_iff]; omega

theorem slice_out_of_range_iff (source : Bytes) (off size : U64) :
    (sliceBytes source off size = none ∨
      ∃ slice, sliceBytes source off size = some slice ∧ padRight slice size = none) ↔
    OutOfRange (len64 source) off size := by
  have hoff := off.isLt
  have hsize := size.isLt
  have hlen : (len64 source).toNat ≤ source.length := by
    unfold len64
    rw [BitVec.toNat_ofNat]
    exact Nat.mod_le _ _
  unfold sliceBytes OutOfRange
  by_cases hzero : size = 0
  · subst hzero
    simp [padRight]
  · have hpos : 0 < size.toNat := Nat.pos_of_ne_zero fun h => hzero (BitVec.eq_of_toNat_eq h)
    rw [if_neg hzero]
    by_cases hpast : len64 source ≤ off
    · rw [if_pos hpast]
      simp only [reduceCtorEq, Option.some.injEq, exists_eq_left', false_or, padRight_eq_none_iff,
        List.length_nil]
      rw [BitVec.le_def] at hpast
      simp only [ne_eq, hzero, not_false_eq_true, true_and, BitVec.lt_def]
      omega
    · rw [if_neg hpast]
      rw [BitVec.le_def] at hpast
      dsimp only
      simp only [ne_eq, hzero, not_false_eq_true, true_and]
      by_cases hwraps : off + size < off
      · have hstop : (if len64 source < off + size then len64 source else off + size) < off := by
          rw [BitVec.lt_def] at hwraps
          split
          · next h =>
            rw [BitVec.lt_def] at h
            omega
          · exact hwraps
        rw [if_pos hstop]
        refine iff_of_true (.inl rfl) (.inl ⟨?_, hwraps⟩)
        rw [BitVec.lt_def]
        omega
      · rw [BitVec.lt_def, BitVec.toNat_add] at hwraps
        have hsum : (off + size).toNat = off.toNat + size.toNat := by
          rw [BitVec.toNat_add]
          omega
        have hstop : (if len64 source < off + size then len64 source else off + size).toNat =
            min (len64 source).toNat (off.toNat + size.toNat) := by
          split
          · next h =>
            rw [BitVec.lt_def] at h
            omega
          · next h =>
            rw [BitVec.lt_def] at h
            omega
        generalize (if len64 source < off + size then len64 source else off + size) = stop at hstop
        rw [if_neg (by rw [BitVec.lt_def]; omega)]
        have hlength : (stop - off).toNat = stop.toNat - off.toNat := by
          rw [BitVec.toNat_sub_of_le (by rw [BitVec.le_def]; omega)]
        simp only [reduceCtorEq, Option.some.injEq, exists_eq_left', false_or, padRight_eq_none_iff,
          List.length_take, List.length_drop, hlength]
        simp only [BitVec.lt_def, hsum]
        omega

/-- A copy panics with these operands. -/
def Vm.CopyPanics (vm : Vm) (source : Bytes) : List Int → Prop
  | destOff :: srcOff :: size :: _ =>
    vm.Affords (uint64 destOff + uint64 size) (copyGasCost (uint64 size)) ∧
      OutOfRange (len64 source) (uint64 srcOff) (uint64 size)
  | _ => False

/-- `RETURNDATACOPY` panics with these operands; its check lets a wrapped sum pass. -/
def Vm.ReturnCopyPanics (vm : Vm) : List Int → Prop
  | destOff :: off :: size :: _ =>
    uint64 off + uint64 size ≤ len64 vm.ctx.returnData ∧
      vm.Affords (uint64 destOff + uint64 size) (copyGasCost (uint64 size)) ∧
      uint64 off + uint64 size < uint64 off
  | _ => False

theorem panics_copies (vm : Vm) (source : Bytes) (err : String) :
    Panics (copies source err) vm ↔ vm.CopyPanics source vm.ctx.stack.data := by
  have p := Halt.special_panic
  have hset (offset : U64) (data : Bytes) (r : Vm) : ¬Panics (memorySet offset data) r :=
    Spares.not_halts (p.memorySet offset data)
  unfold copies
  match hdata : vm.ctx.stack.data with
  | [] => simp [p.mustPop1_bind, hdata, Vm.CopyPanics]
  | [_] => simp [p.mustPop1_bind, hdata, Vm.CopyPanics]
  | [_, _] => simp [p.mustPop1_bind, hdata, Vm.CopyPanics]
  | destOff :: srcOff :: size :: rest =>
    simp [p.mustPop1_bind, hdata, Vm.CopyPanics, ← slice_out_of_range_iff, p.resize_bind,
      halts_charge_bind, panics_orPanic_bind, hset, Vm.affords_and]

theorem panics_opCopy (vm : Vm) (source : CallContext → Bytes) :
    Panics (opCopy source) vm ↔ vm.CopyPanics (source vm.ctx.call) vm.ctx.stack.data :=
  halts_reads_bind.trans (panics_copies vm _ _)

theorem panics_opReturnDataCopy (vm : Vm) :
    Panics opReturnDataCopy vm ↔ vm.ReturnCopyPanics vm.ctx.stack.data := by
  have p := Halt.special_panic
  have hset (offset : U64) (data : Bytes) (r : Vm) : ¬Panics (memorySet offset data) r :=
    Spares.not_halts (p.memorySet offset data)
  have hfail (err : String) (r : Vm) : ¬Panics (fail err : Exec Unit) r :=
    Spares.not_halts (Spares.fail (error_ne_panic err))
  have hpanic (r : Vm) : Panics (panic : Exec Unit) r := ⟨r, rfl⟩
  unfold opReturnDataCopy
  match hdata : vm.ctx.stack.data with
  | [] => simp [p.mustPop1_bind, hdata, Vm.ReturnCopyPanics]
  | [_] => simp [p.mustPop1_bind, hdata, Vm.ReturnCopyPanics]
  | [_, _] => simp [p.mustPop1_bind, hdata, Vm.ReturnCopyPanics]
  | destOff :: off :: size :: rest =>
    by_cases hbounds : len64 vm.ctx.returnData < uint64 off + uint64 size
    · simp [p.mustPop1_bind, hdata, Vm.ReturnCopyPanics, hbounds, hfail]
    · have hle : uint64 off + uint64 size ≤ len64 vm.ctx.returnData := BitVec.not_lt.mp hbounds
      by_cases hwraps : uint64 off + uint64 size < uint64 off
      · simp [p.mustPop1_bind, hdata, Vm.ReturnCopyPanics, p.resize_bind, halts_charge_bind,
          hbounds, hle, hwraps, Vm.Affords, hpanic]
      · simp [p.mustPop1_bind, hdata, Vm.ReturnCopyPanics, p.resize_bind, halts_charge_bind,
          hbounds, hwraps, hset]

theorem panics_opExtCodeCopy (vm : Vm) : Panics opExtCodeCopy vm ↔
    match vm.ctx.stack.data with
    | addr :: rest => vm.CopyPanics (vm.world.state.getCode (safeAddrBytes addr)) rest
    | [] => False := by
  have p := Halt.special_panic
  unfold opExtCodeCopy
  cases hdata : vm.ctx.stack.data with
  | nil => simp [p.mustPop1_bind, hdata]
  | cons addr rest =>
    have hsame (source : Bytes) : vm.popped.CopyPanics source rest ↔ vm.CopyPanics source rest := by
      unfold Vm.CopyPanics
      rfl
    simp [p.mustPop1_bind, hdata, panics_copies, hsame]

/-- A precompiled contract is called, and panics. -/
def Vm.CallPanics (host : Host) (vm : Vm) (o : CallOperands) : Prop :=
  o.isPrecompile host.precompiles = true ∧ ∃ memory cost memory' cost' args,
    vm.ctx.memory.resize (o.argsOff + o.argsLen) = .ok (memory, cost) ∧
    memory.resize (o.retOff + o.retLen) = .ok (memory', cost') ∧
    vm.Pays (cost + cost') ∧ memory'.get o.argsOff o.argsLen = .ok args ∧
    executePrecompile host.precompiles o.low args
      (if (vm.pay (cost + cost')).ctx.gasRemaining < o.gas then
        (vm.pay (cost + cost')).ctx.gasRemaining else o.gas) = none

/-- The `CALL` branch panics. -/
def Vm.SubCallPanics (host : Host) (vm : Vm) (kind : CallKind) : Prop :=
  kind.operands ≤ vm.ctx.stack.data.length ∧
    vm.CallPanics host (.ofStack kind vm.ctx.stack.data)

/-- With its constant cost paid the opcode panics. -/
def Vm.PanicsOn (host : Host) (vm : Vm) : Opcode → Prop
  | .calldatacopy => vm.CopyPanics vm.ctx.call.input vm.ctx.stack.data
  | .codecopy => vm.CopyPanics vm.ctx.call.code vm.ctx.stack.data
  | .extcodecopy =>
    match vm.ctx.stack.data with
    | addr :: rest => vm.CopyPanics (vm.world.state.getCode (safeAddrBytes addr)) rest
    | [] => False
  | .returndatacopy => vm.ReturnCopyPanics vm.ctx.stack.data
  | .origin | .gasprice => vm.ctx.tx = none
  | .call => vm.SubCallPanics host .call
  | .callcode => vm.SubCallPanics host .callcode
  | .delegatecall => vm.SubCallPanics host .delegatecall
  | .staticcall => vm.SubCallPanics host .staticcall
  | _ => False

theorem panics_callPrecompile (host : Host) (o : CallOperands) (vm : Vm) :
    Panics (callPrecompile host o) vm ↔ ∃ args, vm.ctx.memory.get o.argsOff o.argsLen = .ok args ∧
      executePrecompile host.precompiles o.low args
        (if vm.ctx.gasRemaining < o.gas then vm.ctx.gasRemaining else o.gas) = none := by
  have p := Halt.special_panic
  have hrest (answer : U64 × Except String Bytes) (r : Vm) :
      ¬Panics (useGas answer.1 >>= fun _ => answerPrecompile o.retOff o.retLen answer.2) r :=
    Spares.not_halts ((Spares.useGas _).bind fun _ => p.answerPrecompile _ _ _)
  unfold callPrecompile
  simp [p.memoryGet_bind, panics_orPanic_bind, hrest]

theorem panics_opCall (host : Host) (kind : CallKind) (vm : Vm) :
    Panics (opCall host kind) vm ↔ vm.SubCallPanics host kind := by
  have p := Halt.special_panic
  have hstart : Panics (opCall host kind) vm ↔ Panics (prepareCall host kind) vm := by
    apply halts_bind_of_spares
    intro request
    cases request with
    | none => exact .pure _
    | some request => exact p.startCall kind request
  rw [hstart]
  apply p.callOperands_bind
  intro o stack
  unfold callMemory Vm.CallPanics
  cases o.isPrecompile host.precompiles with
  | false =>
    have hgas (r : Vm) : ¬Panics (some <$> callGas o) r := by
      apply Spares.not_halts
      exact (p.callGas (error_ne_panic _) (error_ne_panic _) (error_ne_panic _) o).map
    simp [bind_assoc, p.resize_bind, halts_charge_bind, hgas]
  | true =>
    have hnone (r : Vm) : Panics (callPrecompile host o >>= fun _ =>
        pure (none : Option CallRequest)) r ↔ Panics (callPrecompile host o) r :=
      halts_bind_of_spares fun _ => .pure _
    simp only [bind_assoc, p.resize_bind, halts_charge_bind (error_ne_panic _), hnone, if_true,
      panics_callPrecompile, true_and]
    constructor
    · rintro ⟨memory, cost, hgrow, memory', cost', hgrow', hpays, args, hargs, hnone⟩
      exact ⟨memory, cost, memory', cost', args, hgrow, hgrow', hpays, hargs, hnone⟩
    · rintro ⟨memory, cost, memory', cost', args, hgrow, hgrow', hpays, hargs, hnone⟩
      exact ⟨memory, cost, hgrow, memory', cost', hgrow', hpays, args, hargs, hnone⟩

theorem panics_dispatch (host : Host) (op : Opcode) (vm : Vm) :
    Panics (dispatch host op) vm ↔ vm.PanicsOn host op := by
  have htx (f : TxContext → Int) : Panics (proceeds (pushesTx f)) vm ↔ vm.ctx.tx = none := by
    have hpush (x : TxContext) (r : Vm) : ¬Panics (push (f x)) r :=
      Spares.not_halts (Halt.special_panic.push _)
    apply halts_proceeds.trans
    unfold pushesTx
    simp [panics_orPanic_bind, hpush]
  cases hrisky : op.risky with
  | false =>
    refine iff_of_false (Spares.not_halts (calm_dispatch host hrisky)) ?_
    cases op
    case calldatacopy | codecopy | extcodecopy | returndatacopy | origin | gasprice => cases hrisky
    case call | callcode | delegatecall | staticcall => cases hrisky
    all_goals exact id
  | true =>
    cases op
    case calldatacopy => exact halts_proceeds.trans (panics_opCopy vm _)
    case codecopy => exact halts_proceeds.trans (panics_opCopy vm _)
    case extcodecopy => exact halts_proceeds.trans (panics_opExtCodeCopy vm)
    case returndatacopy => exact halts_proceeds.trans (panics_opReturnDataCopy vm)
    case origin => exact htx _
    case gasprice => exact htx _
    case call => exact panics_opCall host .call vm
    case callcode => exact panics_opCall host .callcode vm
    case delegatecall => exact panics_opCall host .delegatecall vm
    case staticcall => exact panics_opCall host .staticcall vm
    all_goals cases hrisky

/-- The next opcode is fetched, its constant cost is paid, and it panics. -/
def Vm.Panics (host : Host) (vm : Vm) : Prop :=
  ∃ b, vm.fetch = some b ∧ match constGas (.ofByte b) with
    | none => vm.PanicsOn host (.ofByte b)
    | some cost => vm.Pays cost ∧ (vm.pay cost).PanicsOn host (.ofByte b)

theorem panics_step (host : Host) (b : UInt8) (vm : Vm) : Panics (step host b) vm ↔
    match constGas (.ofByte b) with
    | none => vm.PanicsOn host (.ofByte b)
    | some cost => vm.Pays cost ∧ (vm.pay cost).PanicsOn host (.ofByte b) := by
  unfold step chargeConst
  cases constGas (.ofByte b) with
  | none => exact panics_dispatch host _ vm
  | some cost => simp [bind_assoc, halts_charge_bind, panics_dispatch]

/-! ## Whole executions -/

variable {host : Host} {config : InterpreterConfig}

theorem panics_of_step {vm : Vm} {b : UInt8} (hfetch : vm.fetch = some b)
    (hstep : Panics (step host b) vm) : vm.Panics host :=
  ⟨b, hfetch, (panics_step host b vm).mp hstep⟩

/-- A frame that panics has come to an opcode that does, in itself or below. -/
theorem reaches_of_run_panicked {fuel : Nat} {vm vm' : Vm}
    (h : run host config fuel vm = .panicked vm') :
    ∃ t, Reaches host config vm t ∧ t.Panics host := by
  induction fuel generalizing vm vm' with
  | zero => cases h
  | succ fuel ih =>
    unfold run at h
    cases hfetch : vm.fetch with
    | none =>
      rw [hfetch] at h
      cases h
    | some b =>
      simp only [hfetch] at h
      cases hstep : step host b vm with
      | error halt r =>
        simp only [hstep] at h
        cases halt with
        | panic => exact ⟨vm, .here vm, panics_of_step hfetch ⟨r, hstep⟩⟩
        | error err => cases h
        | stackUnderflow => cases h
      | ok next r =>
        simp only [hstep] at h
        cases next with
        | proceed =>
          obtain ⟨t, ht, hpanics⟩ := ih h
          exact ⟨t, .proceed hfetch hstep ht, hpanics⟩
        | jumped =>
          obtain ⟨t, ht, hpanics⟩ := ih h
          exact ⟨t, .jumped hfetch hstep ht, hpanics⟩
        | subCall call pending =>
          simp only at h
          cases hexec : r.executeSub config (run host config fuel) call with
          | unfinished => simp only [hexec, reduceCtorEq] at h
          | panicked world =>
            unfold Vm.executeSub executeWithAccess at hexec
            dsimp only at hexec
            split at hexec
            · cases hexec
            · next hdepth =>
              cases hrun : run host config fuel (r.enterSub call) with
              | finished err s =>
                rw [Vm.enterSub] at hrun
                rw [hrun] at hexec
                cases hexec
              | panicked s =>
                obtain ⟨t, ht, hpanics⟩ := ih hrun
                exact ⟨t, .enter hfetch hstep hdepth ht, hpanics⟩
              | unfinished =>
                rw [Vm.enterSub] at hrun
                rw [hrun] at hexec
                cases hexec
          | returned result world =>
            simp only [hexec] at h
            cases hresume : resume host pending result { r with world := world } with
            | error halt s =>
              simp only [hresume] at h
              cases halt with
              | panic => exact (Halt.special_panic.resume host pending result _ _ _ hresume rfl).elim
              | error err => cases h
              | stackUnderflow => cases h
            | ok u s =>
              simp only [hresume] at h
              obtain ⟨t, ht, hpanics⟩ := ih h
              exact ⟨t, .resume hfetch hstep hexec hresume ht, hpanics⟩

theorem run_panicked_of_reaches {vm t : Vm} (ht : Reaches host config vm t)
    (hpanics : t.Panics host) : ∃ fuel vm', run host config fuel vm = .panicked vm' := by
  induction ht with
  | here vm =>
    obtain ⟨b, hfetch, hpanics⟩ := hpanics
    obtain ⟨r, hstep⟩ := (panics_step host b vm).mpr hpanics
    refine ⟨1, r, ?_⟩
    simp only [run, hfetch, hstep]
    rfl
  | proceed hfetch hstep _ ih =>
    obtain ⟨fuel, vm', hrun⟩ := ih hpanics
    refine ⟨fuel + 1, vm', ?_⟩
    simpa only [run, hfetch, hstep] using hrun
  | jumped hfetch hstep _ ih =>
    obtain ⟨fuel, vm', hrun⟩ := ih hpanics
    refine ⟨fuel + 1, vm', ?_⟩
    simpa only [run, hfetch, hstep] using hrun
  | @enter vm r t b call pending hfetch hstep hdepth _ ih =>
    obtain ⟨fuel, vm', hrun⟩ := ih hpanics
    have hexec : r.executeSub config (run host config fuel) call = .panicked vm'.world := by
      unfold Vm.executeSub executeWithAccess
      rw [if_neg hdepth]
      exact congrArg RunOutcome.leave hrun
    refine ⟨fuel + 1, { r with world := vm'.world }, ?_⟩
    simp only [run, hfetch, hstep, hexec]
  | @resume vm r s t b call pending fuel result world hfetch hstep hexec hresume _ ih =>
    obtain ⟨fuel', vm', hrun⟩ := ih hpanics
    have hfinished : run host config fuel' s.advance ≠ .unfinished := by
      rw [hrun]
      exact RunOutcome.noConfusion
    have hreturned : r.executeSub config (run host config fuel) call ≠ .unfinished := by
      rw [hexec]
      exact Execution.noConfusion
    have hrun' := (run_mono (Nat.le_max_right fuel fuel') hfinished).trans hrun
    have hexec' := (executeSub_mono (Nat.le_max_left fuel fuel') hreturned).trans hexec
    refine ⟨max fuel fuel' + 1, vm', ?_⟩
    simpa only [run, hfetch, hstep, hexec', hresume] using hrun'

/-- An execution does not panic exactly if no frame of it comes to an opcode that does. -/
theorem executeWithAccess_ne_panicked_iff (host : Host) (config : InterpreterConfig)
    (block : BlockContext) (tx : Option TxContext) (call : CallContext)
    (parentAccess : Option AccessSet) (parentOriginalStorage : Option OriginalStorage)
    (state : StateDB) :
    (∀ fuel world, executeWithAccess config (run host config fuel) block tx call parentAccess
      parentOriginalStorage state ≠ .panicked world) ↔
    (call.depth ≤ config.maxCallDepth →
      ∀ t, Reaches host config (.enter block tx call parentAccess parentOriginalStorage state) t →
        ¬t.Panics host) := by
  unfold executeWithAccess
  by_cases hdepth : config.maxCallDepth < call.depth
  · simp only [hdepth, if_true]
    exact iff_of_true (fun _ _ => Execution.noConfusion) fun hle => absurd hle (not_le.mpr hdepth)
  · simp only [hdepth, if_false, not_lt.mp hdepth, true_imp_iff]
    constructor
    · intro h t ht hpanics
      obtain ⟨fuel, vm', hrun⟩ := run_panicked_of_reaches ht hpanics
      exact h fuel vm'.world (congrArg RunOutcome.leave hrun)
    · intro h fuel world hexec
      cases hrun : run host config fuel
          (.enter block tx call parentAccess parentOriginalStorage state) with
      | finished err vm' =>
        rw [hrun] at hexec
        cases hexec
      | panicked vm' =>
        obtain ⟨t, ht, hpanics⟩ := reaches_of_run_panicked hrun
        exact h t ht hpanics
      | unfinished =>
        rw [hrun] at hexec
        cases hexec

namespace Sample

/-- `CALLDATACOPY` of `2 ^ 64 - 1` bytes to offset 1: both sizes wrap around, so that it costs
next to nothing. -/
def copyCode : Bytes :=
  [0x67, 0xff, 0xff, 0xff, 0xff, 0xff, 0xff, 0xff, 0xff, 0x60, 0, 0x60, 1, 0x37]

end Sample

/-- The padding of the copy has the length -1. -/
theorem calldatacopy_panics : ∃ world, execute Sample.host .default 4 Sample.block
    (some Sample.tx) (Sample.call Sample.copyCode) .new = .panicked world :=
  ⟨_, rfl⟩

end Qubitcoin.Evm
