import Qubitcoin.Evm.Failures
import Qubitcoin.Evm.StaticContext

/-! Operands that are narrowed before they are tested.  What an opcode makes of a word of 256
bits is decided by its low 64 bits. -/

namespace Qubitcoin.Evm

open Command Exec Interpreter

/-- The memory can be grown to the size, but the gas left does not pay for it and the rest of
the charge. -/
def Vm.Unpaid (vm : Vm) (size amount : U64) : Prop :=
  ∃ memory cost, vm.ctx.memory.resize size = .ok (memory, cost) ∧ ¬vm.Pays (amount + cost)

/-! ## Accesses to memory -/

/-- Where the offset of an access stands on the stack and what its size is, with the gas that
is charged beside that for the memory. -/
structure Access where
  operands : Nat
  offset : Nat
  size : List Int → Int
  amount : U64 → U64
  err : String

def Opcode.access : Opcode → Option Access
  | .keccak256 =>
    some ⟨2, 0, fun data => data.getD 1 0, fun sz => keccak256GasCost sz - gasKeccak256,
      "out of gas: KECCAK256"⟩
  | .calldatacopy | .codecopy =>
    some ⟨3, 0, fun data => data.getD 2 0, copyGasCost, "out of gas: COPY"⟩
  | .extcodecopy =>
    some ⟨4, 1, fun data => data.getD 3 0, copyGasCost, "out of gas: EXTCODECOPY"⟩
  | .returndatacopy =>
    some ⟨3, 0, fun data => data.getD 2 0, copyGasCost, "out of gas: RETURNDATACOPY"⟩
  | .mload => some ⟨1, 0, fun _ => 32, fun _ => 0, "out of gas: MLOAD"⟩
  | .mstore => some ⟨2, 0, fun _ => 32, fun _ => 0, "out of gas: MSTORE"⟩
  | .mstore8 => some ⟨2, 0, fun _ => 1, fun _ => 0, "out of gas: MSTORE8"⟩
  | .log numTopics =>
    some ⟨2 + numTopics, 0, fun data => data.getD 1 0, fun sz => logGasCost numTopics sz - gasLog,
      "out of gas: LOG"⟩
  | .create => some ⟨3, 1, fun data => data.getD 2 0, fun _ => gasCreate, "out of gas: CREATE"⟩
  | .create2 =>
    some ⟨4, 1, fun data => data.getD 2 0, fun sz => gasCreate + gasKeccak256Word * ((sz + 31) / 32),
      "out of gas: CREATE"⟩
  | .ret => some ⟨2, 0, fun data => data.getD 1 0, fun _ => 0, "out of gas: RETURN"⟩
  | .revert => some ⟨2, 0, fun data => data.getD 1 0, fun _ => 0, "out of gas: REVERT"⟩
  | _ => none

/-- What an access checks before it comes to the memory. -/
def Opcode.Admits (vm : Vm) : Opcode → Prop
  | .log _ | .create | .create2 => vm.ctx.call.isStatic = false
  | .returndatacopy =>
    uint64 (vm.ctx.stack.data.getD 1 0) + uint64 (vm.ctx.stack.data.getD 2 0) ≤
      len64 vm.ctx.returnData
  | _ => True

@[simp] theorem Vm.popped_unpaid {vm : Vm} {size amount : U64} :
    vm.popped.Unpaid size amount ↔ vm.Unpaid size amount := Iff.rfl

/-- The low halves of the operands decide: the access fails with the message of its charge. -/
def Access.Unpaid (a : Access) (vm : Vm) : Prop :=
  let size := uint64 (a.size vm.ctx.stack.data)
  vm.Unpaid (uint64 (vm.ctx.stack.data.getD a.offset 0) + size) (a.amount size)

/-- The same for the two accesses of the `CALL` family, which are charged together. -/
def Interpreter.CallOperands.Unpaid (o : CallOperands) (vm : Vm) : Prop :=
  ∃ memory cost, vm.ctx.memory.resize (o.argsOff + o.argsLen) = .ok (memory, cost) ∧
    (vm.withMemory memory).Unpaid (o.retOff + o.retLen) cost

section Access

variable {α : Type} {err : String} {vm : Vm}

/-- Growing the memory and charging for it fails with the message of the charge, or goes on to
what has other messages. -/
theorem halts_access (s : Halt.Special (.error err)) {size amount : U64} {total : U64 → U64}
    {f : Exec α} (htotal : ∀ cost, total cost = amount + cost) (hf : Spares (.error err) f) :
    Halts (.error err) (resize size >>= fun cost => charge (total cost) err >>= fun _ => f) vm ↔
      vm.Unpaid size amount := by
  rw [s.resize_bind]
  simp only [halts_bind_of_spares fun _ => hf, halts_charge_iff, Vm.withMemory_pays, htotal]
  rfl

end Access

section Opcodes

variable {vm : Vm}

theorem halts_opMLoad (h : 1 ≤ vm.ctx.stack.data.length) :
    Halts (.error "out of gas: MLOAD") opMLoad vm ↔
      vm.Unpaid (uint64 (vm.ctx.stack.data.getD 0 0) + 32) 0 := by
  have s : Halt.Special (.error "out of gas: MLOAD") :=
    Halt.special_error rfl (by decide) (by decide)
  have h₀ : 0 < vm.ctx.stack.data.length := h
  unfold opMLoad
  rw [s.mustPop1_bind, and_iff_right h₀]
  exact halts_access s (fun _ => (BitVec.zero_add _).symm) (by grind)

theorem halts_opMStore (h : 2 ≤ vm.ctx.stack.data.length) :
    Halts (.error "out of gas: MSTORE") opMStore vm ↔
      vm.Unpaid (uint64 (vm.ctx.stack.data.getD 0 0) + 32) 0 := by
  have s : Halt.Special (.error "out of gas: MSTORE") :=
    Halt.special_error rfl (by decide) (by decide)
  have h₀ : 0 < vm.ctx.stack.data.length := by omega
  have h₁ : 0 < vm.ctx.stack.data.length - 1 := by omega
  unfold opMStore
  simp only [s.mustPop1_bind, Vm.popped_data, List.length_tail, h₀, h₁, true_and]
  apply (halts_access s (fun _ => (BitVec.zero_add _).symm) ?_).trans
  · rfl
  · exact s.onMemory fun _ _ hset => Memory.set32_error hset

theorem halts_opMStore8 (h : 2 ≤ vm.ctx.stack.data.length) :
    Halts (.error "out of gas: MSTORE8") opMStore8 vm ↔
      vm.Unpaid (uint64 (vm.ctx.stack.data.getD 0 0) + 1) 0 := by
  have s : Halt.Special (.error "out of gas: MSTORE8") :=
    Halt.special_error rfl (by decide) (by decide)
  have h₀ : 0 < vm.ctx.stack.data.length := by omega
  have h₁ : 0 < vm.ctx.stack.data.length - 1 := by omega
  unfold opMStore8
  simp only [s.mustPop1_bind, Vm.popped_data, List.length_tail, h₀, h₁, true_and]
  apply (halts_access s (fun _ => (BitVec.zero_add _).symm) ?_).trans
  · rfl
  · exact s.onMemory fun _ _ hset => Memory.setByte_error hset

theorem halts_opKeccak256 (host : Host) (h : 2 ≤ vm.ctx.stack.data.length) :
    Halts (.error "out of gas: KECCAK256") (opKeccak256 host) vm ↔
      let size := uint64 (vm.ctx.stack.data.getD 1 0)
      vm.Unpaid (uint64 (vm.ctx.stack.data.getD 0 0) + size)
        (keccak256GasCost size - gasKeccak256) := by
  have s : Halt.Special (.error "out of gas: KECCAK256") :=
    Halt.special_error rfl (by decide) (by decide)
  have h₀ : 0 < vm.ctx.stack.data.length := by omega
  have h₁ : 0 < vm.ctx.stack.data.length - 1 := by omega
  unfold opKeccak256
  simp only [s.mustPop1_bind, Vm.popped_data, List.length_tail, getD_tail, h₀, h₁, true_and]
  exact halts_access s (fun cost => BitVec.add_comm cost _) (by grind)

theorem halts_returns {err : String} (s : Halt.Special (.error err)) (leave : Vm → Vm)
    (h : 2 ≤ vm.ctx.stack.data.length) : Halts (.error err) (returns err leave) vm ↔
      vm.Unpaid (uint64 (vm.ctx.stack.data.getD 0 0) + uint64 (vm.ctx.stack.data.getD 1 0)) 0 := by
  have h₀ : 0 < vm.ctx.stack.data.length := by omega
  have h₁ : 0 < vm.ctx.stack.data.length - 1 := by omega
  unfold returns
  simp only [s.mustPop1_bind, Vm.popped_data, List.length_tail, getD_tail, h₀, h₁, true_and]
  exact halts_access s (fun _ => (BitVec.zero_add _).symm) (by grind)

theorem halts_copies {err : String} (s : Halt.Special (.error err)) (source : Bytes)
    (h : 3 ≤ vm.ctx.stack.data.length) : Halts (.error err) (copies source err) vm ↔
      let size := uint64 (vm.ctx.stack.data.getD 2 0)
      vm.Unpaid (uint64 (vm.ctx.stack.data.getD 0 0) + size) (copyGasCost size) := by
  have h₀ : 0 < vm.ctx.stack.data.length := by omega
  have h₁ : 0 < vm.ctx.stack.data.length - 1 := by omega
  have h₂ : 0 < vm.ctx.stack.data.length - 1 - 1 := by omega
  unfold copies
  simp only [s.mustPop1_bind, Vm.popped_data, List.length_tail, getD_tail, h₀, h₁, h₂, true_and]
  apply halts_access s (fun _ => rfl)
  refine (Spares.orPanic Halt.noConfusion _).bind fun _ => ?_
  exact (Spares.orPanic Halt.noConfusion _).bind fun _ => s.memorySet _ _

theorem halts_opCopy (source : CallContext → Bytes) (h : 3 ≤ vm.ctx.stack.data.length) :
    Halts (.error "out of gas: COPY") (opCopy source) vm ↔
      let size := uint64 (vm.ctx.stack.data.getD 2 0)
      vm.Unpaid (uint64 (vm.ctx.stack.data.getD 0 0) + size) (copyGasCost size) :=
  halts_copies (Halt.special_error rfl (by decide) (by decide)) (source vm.ctx.call) h

theorem halts_opReturnDataCopy (h : 3 ≤ vm.ctx.stack.data.length) :
    Halts (.error "out of gas: RETURNDATACOPY") opReturnDataCopy vm ↔
      let size := uint64 (vm.ctx.stack.data.getD 2 0)
      uint64 (vm.ctx.stack.data.getD 1 0) + size ≤ len64 vm.ctx.returnData ∧
        vm.Unpaid (uint64 (vm.ctx.stack.data.getD 0 0) + size) (copyGasCost size) := by
  have s : Halt.Special (.error "out of gas: RETURNDATACOPY") :=
    Halt.special_error rfl (by decide) (by decide)
  have h₀ : 0 < vm.ctx.stack.data.length := by omega
  have h₁ : 0 < vm.ctx.stack.data.length - 1 := by omega
  have h₂ : 0 < vm.ctx.stack.data.length - 1 - 1 := by omega
  unfold opReturnDataCopy
  simp only [s.mustPop1_bind, Vm.popped_data, Vm.popped_returnData, halts_reads_bind,
    List.length_tail, getD_tail, h₀, h₁, h₂, true_and, Nat.zero_add, Nat.reduceAdd]
  by_cases hbounds : len64 vm.ctx.returnData <
      uint64 (vm.ctx.stack.data.getD 1 0) + uint64 (vm.ctx.stack.data.getD 2 0)
  · have hfail : Spares (.error "out of gas: RETURNDATACOPY")
        (fail "return data out of bounds" : Exec Unit) := by
      grind
    simp only [hbounds, if_true]
    exact iff_of_false hfail.not_halts fun hle => absurd hle.1 (BitVec.not_le.mpr hbounds)
  · rw [and_iff_right (BitVec.not_lt.mp hbounds)]
    simp only [hbounds, if_false]
    apply halts_access s (fun _ => rfl)
    split
    · intro r halt r' hrun
      cases hrun
      exact Halt.noConfusion
    · exact s.memorySet _ _

theorem popTopics_ok (n : Nat) (vm : Vm) (h : n ≤ vm.ctx.stack.data.length) :
    ∃ topics stack, popTopics n vm = .ok topics (vm.withStack stack) := by
  induction n generalizing vm with
  | zero => exact ⟨[], vm.ctx.stack, rfl⟩
  | succ n ih =>
    have hlength : n ≤ vm.popped.ctx.stack.data.length := by
      rw [Vm.popped_data, List.length_tail]
      omega
    obtain ⟨topics, stack, hrest⟩ := ih vm.popped hlength
    refine ⟨safeFillBytes (vm.ctx.stack.data.getD 0 0) :: topics, stack, ?_⟩
    rw [popTopics, mustPop1_getD_bind (by omega), bind_ok hrest]
    rfl

theorem halts_appendLog (numTopics : Nat) (h : 2 + numTopics ≤ vm.ctx.stack.data.length) :
    Halts (.error "out of gas: LOG") (appendLog numTopics) vm ↔
      let size := uint64 (vm.ctx.stack.data.getD 1 0)
      vm.Unpaid (uint64 (vm.ctx.stack.data.getD 0 0) + size)
        (logGasCost numTopics size - gasLog) := by
  have s : Halt.Special (.error "out of gas: LOG") :=
    Halt.special_error rfl (by decide) (by decide)
  have h₀ : 0 < vm.ctx.stack.data.length := by omega
  have h₁ : 0 < vm.ctx.stack.data.length - 1 := by omega
  obtain ⟨topics, stack, htopics⟩ := popTopics_ok numTopics vm.popped.popped (by
    simp only [Vm.popped_data, List.length_tail]
    omega)
  unfold appendLog
  simp only [s.mustPop1_bind, Vm.popped_data, List.length_tail, getD_tail, h₀, h₁, true_and]
  rw [Halts, bind_ok htopics]
  exact halts_access s (fun _ => rfl) (by grind)

theorem halts_refuseStatic {err : String} {halt : Halt} (herr : .error err ≠ halt)
    {x : Exec Next} : Halts halt (refuseStatic err x) vm ↔
      vm.ctx.call.isStatic = false ∧ Halts halt x vm := by
  unfold refuseStatic
  rw [halts_reads_bind]
  cases vm.ctx.call.isStatic with
  | true => exact iff_of_false (Spares.fail herr).not_halts fun h => Bool.noConfusion h.1
  | false => simp

theorem halts_opExtCodeCopy (h : 4 ≤ vm.ctx.stack.data.length) :
    Halts (.error "out of gas: EXTCODECOPY") opExtCodeCopy vm ↔
      let size := uint64 (vm.ctx.stack.data.getD 3 0)
      vm.Unpaid (uint64 (vm.ctx.stack.data.getD 1 0) + size) (copyGasCost size) := by
  have s : Halt.Special (.error "out of gas: EXTCODECOPY") :=
    Halt.special_error rfl (by decide) (by decide)
  have h₀ : 0 < vm.ctx.stack.data.length := by omega
  have h₁ : 3 ≤ vm.popped.ctx.stack.data.length := by
    rw [Vm.popped_data, List.length_tail]
    omega
  unfold opExtCodeCopy
  simp only [s.mustPop1_bind, h₀, true_and, halts_reads_bind, halts_copies s _ h₁, Vm.popped_data,
    getD_tail, Vm.popped_unpaid]

theorem halts_prepareCreate (isCreate2 : Bool)
    (h : (if isCreate2 then 4 else 3) ≤ vm.ctx.stack.data.length) :
    Halts (.error "out of gas: CREATE") (prepareCreate isCreate2) vm ↔
      let size := uint64 (vm.ctx.stack.data.getD 2 0)
      vm.Unpaid (uint64 (vm.ctx.stack.data.getD 1 0) + size)
        (if isCreate2 then gasCreate + gasKeccak256Word * ((size + 31) / 32) else gasCreate) := by
  have s : Halt.Special (.error "out of gas: CREATE") :=
    Halt.special_error rfl (by decide) (by decide)
  have h₀ : 0 < vm.ctx.stack.data.length := by split at h <;> omega
  have h₁ : 0 < vm.ctx.stack.data.length - 1 := by split at h <;> omega
  have h₂ : 0 < vm.ctx.stack.data.length - 1 - 1 := by split at h <;> omega
  unfold prepareCreate
  cases isCreate2 with
  | false =>
    simp only [Bool.false_eq_true, if_false, pure_bind, s.mustPop1_bind, Vm.popped_data,
      List.length_tail, getD_tail, h₀, h₁, h₂, true_and]
    exact halts_access s (fun cost => BitVec.add_comm cost _) (by grind)
  | true =>
    have h₃ : 0 < vm.ctx.stack.data.length - 1 - 1 - 1 := by
      rw [if_pos rfl] at h
      omega
    simp only [if_true, bind_map_left, s.mustPop1_bind, Vm.popped_data, List.length_tail, getD_tail,
      h₀, h₁, h₂, h₃, true_and]
    exact halts_access s (fun cost => BitVec.add_comm cost _) (by grind)

theorem halts_opCreate (host : Host) (isCreate2 : Bool)
    (h : (if isCreate2 then 4 else 3) ≤ vm.ctx.stack.data.length) :
    Halts (.error "out of gas: CREATE") (opCreate host isCreate2) vm ↔
      vm.ctx.call.isStatic = false ∧
      let size := uint64 (vm.ctx.stack.data.getD 2 0)
      vm.Unpaid (uint64 (vm.ctx.stack.data.getD 1 0) + size)
        (if isCreate2 then gasCreate + gasKeccak256Word * ((size + 31) / 32) else gasCreate) := by
  have s : Halt.Special (.error "out of gas: CREATE") :=
    Halt.special_error rfl (by decide) (by decide)
  unfold opCreate
  rw [halts_refuseStatic (by simp), ← halts_prepareCreate isCreate2 h]
  apply and_congr_right
  intro _
  apply halts_bind_of_spares
  intro request
  cases request with
  | none => exact .pure _
  | some request => exact s.startCreate host request

theorem halts_opCall (host : Host) (kind : CallKind)
    (h : kind.operands ≤ vm.ctx.stack.data.length) :
    Halts (.error "out of gas: CALL memory") (opCall host kind) vm ↔
      (CallOperands.ofStack kind vm.ctx.stack.data).Unpaid vm := by
  have s : Halt.Special (.error "out of gas: CALL memory") :=
    Halt.special_error rfl (by decide) (by decide)
  have hstart : Halts (.error "out of gas: CALL memory") (opCall host kind) vm ↔
      Halts (.error "out of gas: CALL memory") (prepareCall host kind) vm := by
    apply halts_bind_of_spares
    intro request
    cases request with
    | none => exact .pure _
    | some request => exact s.startCall kind request
  have hrest (o : CallOperands) : Spares (.error "out of gas: CALL memory")
      (if o.isPrecompile host.precompiles = true then do
        callPrecompile host o
        pure none
      else some <$> callGas o) := by
    have hgas := s.callGas (by simp) (by simp) (by simp) o
    grind
  have hmemory (o : CallOperands) (stack : Stack) :
      Halts (.error "out of gas: CALL memory") (do
        callMemory o
        if o.isPrecompile host.precompiles = true then do
          callPrecompile host o
          pure none
        else some <$> callGas o) (vm.withStack stack) ↔ o.Unpaid vm := by
    unfold callMemory
    simp only [bind_assoc, s.resize_bind, halts_bind_of_spares fun _ => hrest o, halts_charge_iff]
    rfl
  exact hstart.trans ((s.callOperands_bind hmemory).trans (and_iff_right h))

end Opcodes

/-- An access at any offset runs out of gas exactly if the one at its low half does. -/
theorem halts_access_iff (host : Host) {op : Opcode} {a : Access} (ha : op.access = some a) {vm : Vm}
    (h : a.operands ≤ vm.ctx.stack.data.length) :
    Halts (.error a.err) (dispatch host op) vm ↔ op.Admits vm ∧ a.Unpaid vm := by
  cases op
  case keccak256 =>
    cases ha
    exact halts_proceeds.trans ((halts_opKeccak256 host h).trans (and_iff_right trivial).symm)
  case calldatacopy =>
    cases ha
    exact halts_proceeds.trans ((halts_opCopy _ h).trans (and_iff_right trivial).symm)
  case codecopy =>
    cases ha
    exact halts_proceeds.trans ((halts_opCopy _ h).trans (and_iff_right trivial).symm)
  case extcodecopy =>
    cases ha
    exact halts_proceeds.trans ((halts_opExtCodeCopy h).trans (and_iff_right trivial).symm)
  case returndatacopy =>
    cases ha
    exact halts_proceeds.trans (halts_opReturnDataCopy h)
  case mload =>
    cases ha
    exact halts_proceeds.trans ((halts_opMLoad h).trans (and_iff_right trivial).symm)
  case mstore =>
    cases ha
    exact halts_proceeds.trans ((halts_opMStore h).trans (and_iff_right trivial).symm)
  case mstore8 =>
    cases ha
    exact halts_proceeds.trans ((halts_opMStore8 h).trans (and_iff_right trivial).symm)
  case log n =>
    cases ha
    apply (halts_refuseStatic (by simp)).trans
    exact and_congr_right fun _ => halts_proceeds.trans (halts_appendLog n h)
  case create =>
    cases ha
    exact halts_opCreate host false h
  case create2 =>
    cases ha
    exact halts_opCreate host true h
  case ret =>
    have s : Halt.Special (.error "out of gas: RETURN") :=
      Halt.special_error rfl (by decide) (by decide)
    cases ha
    exact halts_proceeds.trans ((halts_returns s _ h).trans (and_iff_right trivial).symm)
  case revert =>
    have s : Halt.Special (.error "out of gas: REVERT") :=
      Halt.special_error rfl (by decide) (by decide)
    cases ha
    exact halts_proceeds.trans ((halts_returns s _ h).trans (and_iff_right trivial).symm)
  all_goals cases ha

/-! ## Jumps, call data, block hashes and precompiled contracts -/

/-- The failure of a jump to this target. -/
def invalidDestination (opName : String) (target : U64) : Halt :=
  .error ("invalid " ++ opName ++ " destination: " ++ toString target.toNat)

theorem halts_jumpTo (x : Int) (opName : String) (vm : Vm) :
    Halts (invalidDestination opName (uint64 x)) (jumpTo x opName) vm ↔
      uint64 x ∉ vm.ctx.validJumpdests := by
  unfold jumpTo
  rw [halts_reads_bind, ← List.contains_iff_mem]
  cases vm.ctx.validJumpdests.contains (uint64 x) with
  | true =>
    rw [if_pos rfl]
    refine iff_of_false ?_ (not_not_intro rfl)
    rintro ⟨vm', h⟩
    cases h
  | false =>
    rw [if_neg Bool.false_ne_true]
    exact iff_of_true ⟨vm, rfl⟩ Bool.false_ne_true

theorem halts_opJump {vm : Vm} {x : Int} {rest : List Int} (h : vm.ctx.stack.data = x :: rest) :
    Halts (invalidDestination "JUMP" (uint64 x)) opJump vm ↔
      uint64 x ∉ vm.ctx.validJumpdests := by
  unfold opJump
  rw [Halts, mustPop1_bind h]
  exact halts_jumpTo x "JUMP" vm.popped

theorem halts_opJumpI {vm : Vm} {x cond : Int} {rest : List Int}
    (h : vm.ctx.stack.data = x :: cond :: rest) (hcond : cond ≠ 0) :
    Halts (invalidDestination "JUMPI" (uint64 x)) opJumpI vm ↔
      uint64 x ∉ vm.ctx.validJumpdests := by
  have hrest : vm.popped.ctx.stack.data = cond :: rest := congrArg List.tail h
  unfold opJumpI
  rw [Halts, mustPop1_bind h, mustPop1_bind hrest, if_neg hcond]
  exact halts_jumpTo x "JUMPI" vm.popped.popped

/-- The opcode replaces the top of the stack by this. -/
def Replaces (x : Exec Next) (vm : Vm) (val : Int) : Prop :=
  ∃ vm', x vm = .ok .proceed vm' ∧ vm'.ctx.stack.data = val :: vm.ctx.stack.data.tail

theorem push_ok {val : Int} {vm : Vm} (hroom : vm.ctx.stack.data.length < maxStackDepth)
    (hval : 0 ≤ val ∧ val < uint256Mod) :
    ∃ vm', push val vm = .ok () vm' ∧ vm'.ctx.stack.data = val :: vm.ctx.stack.data := by
  have hu256 : u256 val = val := Int.emod_eq_of_lt hval.1 hval.2
  obtain ⟨stack, hdata, hpush⟩ := push_eq val hroom
  refine ⟨vm.withStack stack, hpush, ?_⟩
  rw [← hu256]
  exact hdata

theorem replaces_iff {val val' : Int} {vm : Vm} {x : Int} {rest : List Int} {f : Int → Exec Unit}
    (h : vm.ctx.stack.data = x :: rest) (hf : f x vm.popped = push val vm.popped)
    (hval : 0 ≤ val ∧ val < uint256Mod) :
    Replaces (proceeds (mustPop1 >>= f)) vm val' ↔ val = val' := by
  have hroom : vm.popped.ctx.stack.data.length < maxStackDepth := by
    have hbounded := vm.ctx.stack.bounded
    rw [h, List.length_cons] at hbounded
    rw [Vm.popped_data, h]
    exact hbounded
  obtain ⟨vm', hpush, hdata⟩ := push_ok hroom hval
  have hrun : proceeds (mustPop1 >>= f) vm = .ok .proceed vm' := by
    have hbody : (mustPop1 >>= f) vm = .ok () vm' := (mustPop1_bind h).trans (hf.trans hpush)
    exact bind_ok hbody
  constructor
  · rintro ⟨r, hr, hstack⟩
    rw [hrun] at hr
    cases hr
    rw [hdata] at hstack
    exact (List.cons.inj hstack).1
  · rintro rfl
    exact ⟨vm', hrun, hdata⟩

theorem ofBigEndian_eq_zero_iff (bs : Bytes) : ofBigEndian bs = 0 ↔ ∀ b ∈ bs, b = 0 := by
  simp [ofBigEndian, Bytes.ofLe_eq_zero_iff]

theorem natCast_word {n : Nat} (h : n < 2 ^ 256) : 0 ≤ (n : Int) ∧ (n : Int) < uint256Mod := by
  have hmod : ((2 ^ 256 : Nat) : Int) = uint256Mod := by
    rw [uint256Mod]
    norm_num
  exact ⟨Int.natCast_nonneg n, hmod ▸ Int.ofNat_lt.mpr h⟩

/-- The 32 bytes of call data from the low half on. -/
def CallContext.loaded (call : CallContext) (x : Int) : Bytes :=
  (List.range 32).map fun i => call.input.getD (uint64 x + BitVec.ofNat 64 i).toNat 0

theorem replaces_opCallDataLoad {vm : Vm} {x : Int} {rest : List Int}
    (h : vm.ctx.stack.data = x :: rest) : Replaces (proceeds opCallDataLoad) vm 0 ↔
      ∀ b ∈ vm.ctx.call.loaded x, b = 0 := by
  have hlt : ofBigEndian (vm.ctx.call.loaded x) < 2 ^ 256 := by
    have hbound := Bytes.ofLe_lt (vm.ctx.call.loaded x).reverse
    have hlength : (vm.ctx.call.loaded x).reverse.length = 32 := by simp [CallContext.loaded]
    rw [hlength] at hbound
    exact hbound
  refine (replaces_iff h ?_ (natCast_word hlt)).trans ?_
  · rfl
  · rw [Int.natCast_eq_zero, ofBigEndian_eq_zero_iff]

/-- The hash of the block that the low half names, if that is among the last 256. -/
def Vm.recentHash (vm : Vm) (x : Int) : Word :=
  if uint64 x < vm.ctx.block.blockNumber ∧ vm.ctx.block.blockNumber - 256 ≤ uint64 x then
    vm.world.state.getBlockHash (uint64 x)
  else 0

theorem replaces_opBlockHash {vm : Vm} {x : Int} {rest : List Int}
    (h : vm.ctx.stack.data = x :: rest) : Replaces (proceeds opBlockHash) vm 0 ↔
      vm.recentHash x = 0 := by
  have hval : (if uint64 x < vm.ctx.block.blockNumber ∧
        vm.ctx.block.blockNumber - 256 ≤ uint64 x then
      ((vm.world.state.getBlockHash (uint64 x)).toNat : Int) else 0) = (vm.recentHash x).toNat := by
    unfold Vm.recentHash
    split
    · rfl
    · rfl
  have hpush := congrArg (push · vm.popped) hval
  apply (replaces_iff h hpush (natCast_word (vm.recentHash x).isLt)).trans
  rw [Int.natCast_eq_zero]
  exact ⟨fun hzero => BitVec.eq_of_toNat_eq hzero, fun hzero => hzero ▸ rfl⟩

theorem isSome_precompileMap (p : Precompiles) {addr : U64} (hpos : 1 ≤ addr.toNat)
    (hle : addr.toNat ≤ 9) : (precompileMap p addr).isSome := by
  unfold precompileMap
  generalize addr.toNat = n at hpos hle
  interval_cases n <;> rfl

theorem isPrecompile_iff (p : Precompiles) (o : CallOperands) :
    o.isPrecompile p = true ↔ 1 ≤ o.low.toNat ∧ o.low.toNat ≤ 9 := by
  have hpos : 0 < o.low ↔ 1 ≤ o.low.toNat := BitVec.lt_def
  have hle : o.low ≤ 9 ↔ o.low.toNat ≤ 9 := BitVec.le_def
  unfold CallOperands.isPrecompile
  rw [Bool.and_eq_true, Bool.and_eq_true, decide_eq_true_iff, decide_eq_true_iff, hpos, hle]
  exact ⟨fun h => h.1, fun h => ⟨h, isSome_precompileMap p h.1 h.2⟩⟩

def Interpreter.CallKind.opcode : CallKind → Opcode
  | .call => .call
  | .callcode => .callcode
  | .delegatecall => .delegatecall
  | .staticcall => .staticcall

theorem dispatch_opcode (host : Host) (kind : CallKind) :
    dispatch host kind.opcode = opCall host kind := by
  cases kind <;> rfl

/-- The `CALL` family takes the branch of the precompiled contracts. -/
def DispatchesToPrecompile (host : Host) (kind : CallKind) (vm : Vm) : Prop :=
  ∃ o r, callOperands kind vm = .ok o r ∧ o.isPrecompile host.precompiles = true

theorem dispatchesToPrecompile_iff (host : Host) {kind : CallKind} {vm : Vm}
    (h : kind.operands ≤ vm.ctx.stack.data.length) : DispatchesToPrecompile host kind vm ↔
      let low : U64 := (safeAddrBytes (vm.ctx.stack.data.getD 1 0)).setWidth 64
      1 ≤ low.toNat ∧ low.toNat ≤ 9 := by
  obtain ⟨stack, heq⟩ := callOperands_eq h
  constructor
  · rintro ⟨o, r, hoperands, hpre⟩
    rw [heq] at hoperands
    cases hoperands
    exact (isPrecompile_iff _ _).mp hpre
  · intro hlow
    exact ⟨_, _, heq, (isPrecompile_iff _ _).mpr hlow⟩

/-- For every word the low 64 bits decide: where a jump is refused, where call data and block
hashes read as zero, where an access to memory runs out of gas, and, of the low 160 bits of an
address, where a precompiled contract is taken for another address. -/
theorem narrowed_operands (host : Host) (vm : Vm) :
    (∀ x rest, vm.ctx.stack.data = x :: rest →
      (Halts (invalidDestination "JUMP" (uint64 x)) (dispatch host .jump) vm ↔
        uint64 x ∉ vm.ctx.validJumpdests) ∧
      (Replaces (dispatch host .calldataload) vm 0 ↔ ∀ b ∈ vm.ctx.call.loaded x, b = 0) ∧
      (Replaces (dispatch host .blockhash) vm 0 ↔ vm.recentHash x = 0)) ∧
    (∀ x cond rest, vm.ctx.stack.data = x :: cond :: rest → cond ≠ 0 →
      (Halts (invalidDestination "JUMPI" (uint64 x)) (dispatch host .jumpi) vm ↔
        uint64 x ∉ vm.ctx.validJumpdests)) ∧
    (∀ (op : Opcode) (a : Access), op.access = some a → a.operands ≤ vm.ctx.stack.data.length →
      (Halts (.error a.err) (dispatch host op) vm ↔ op.Admits vm ∧ a.Unpaid vm)) ∧
    ∀ kind : CallKind, kind.operands ≤ vm.ctx.stack.data.length →
      (Halts (.error "out of gas: CALL memory") (dispatch host kind.opcode) vm ↔
        (CallOperands.ofStack kind vm.ctx.stack.data).Unpaid vm) ∧
      let addr := safeAddrBytes (vm.ctx.stack.data.getD 1 0)
      let low : U64 := addr.setWidth 64
      (DispatchesToPrecompile host kind vm → 1 ≤ addr.toNat ∧ addr.toNat ≤ 9) ↔
        ¬(1 ≤ low.toNat ∧ low.toNat ≤ 9 ∧ 9 < addr.toNat) := by
  refine ⟨fun x rest h => ⟨?_, ?_, ?_⟩, fun x cond rest h hcond => ?_, fun op a ha h => ?_,
    fun kind h => ⟨?_, ?_⟩⟩
  · exact halts_opJump h
  · exact replaces_opCallDataLoad h
  · exact replaces_opBlockHash h
  · exact halts_opJumpI h hcond
  · exact halts_access_iff host ha h
  · rw [dispatch_opcode]
    exact halts_opCall host kind h
  · dsimp only
    rw [dispatchesToPrecompile_iff host h]
    generalize safeAddrBytes (vm.ctx.stack.data.getD 1 0) = addr
    dsimp only
    have hlow : (addr.setWidth 64).toNat = addr.toNat % 2 ^ 64 := BitVec.toNat_setWidth 64 addr
    rw [hlow]
    omega

namespace Sample

/-- `PUSH9 2^64 + 11`, `JUMP`, `JUMPDEST`. -/
def jumpCode : Bytes := [0x68, 1, 0, 0, 0, 0, 0, 0, 0, 11, 0x56, 0x5b]

def jumping : Vm :=
  (Vm.enter block (some tx) (call jumpCode) none none .new).withStack
    ⟨[2 ^ 64 + 11], by decide, by decide⟩

end Sample

/-- A jump to a position past all code goes to the one at its low half. -/
theorem jump_taken : ¬∀ (host : Host) (vm : Vm) (x : Int) (rest : List Int),
    vm.ctx.stack.data = x :: rest → 2 ^ 64 ≤ x →
      ∃ target, Halts (invalidDestination "JUMP" target) (dispatch host .jump) vm := by
  intro h
  obtain ⟨target, vm', hrun⟩ := h Sample.host Sample.jumping (2 ^ 64 + 11) [] rfl (by decide)
  have hjump : dispatch Sample.host .jump Sample.jumping =
      .ok .jumped (Sample.jumping.popped.withPc 11) := rfl
  rw [hjump] at hrun
  cases hrun

end Qubitcoin.Evm
