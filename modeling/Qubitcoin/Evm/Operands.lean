import Qubitcoin.Evm.InterpreterLaws

/-! An opcode with its operands on the stack. -/

namespace Qubitcoin.Evm

open Command Exec Interpreter

/-- The stack less its top. -/
def Stack.tail (s : Stack) : Stack where
  data := s.data.tail
  bounded := by
    rw [List.length_tail]
    exact (Nat.sub_le _ _).trans s.bounded
  words v hv := s.words v (List.mem_of_mem_tail hv)

def Vm.popped (vm : Vm) : Vm := vm.withStack vm.ctx.stack.tail

@[simp] theorem Vm.withStack_withStack (vm : Vm) (stack stack' : Stack) :
    (vm.withStack stack).withStack stack' = vm.withStack stack' := rfl

section Pops

variable {α : Type} {vm vm' : Vm} {x : Int} {rest : List Int}

@[simp] theorem Vm.popped_data : vm.popped.ctx.stack.data = vm.ctx.stack.data.tail := rfl

@[simp] theorem Vm.popped_call : vm.popped.ctx.call = vm.ctx.call := rfl

@[simp] theorem Vm.popped_memory : vm.popped.ctx.memory = vm.ctx.memory := rfl

@[simp] theorem Vm.popped_returnData : vm.popped.ctx.returnData = vm.ctx.returnData := rfl

@[simp] theorem Vm.popped_world : vm.popped.world = vm.world := rfl

theorem Stack.pop_cons {s : Stack} (h : s.data = x :: rest) : s.pop = .ok (x, s.tail) := by
  obtain ⟨data, bounded, words⟩ := s
  cases h
  rfl

theorem Stack.pop_nil {s : Stack} (h : s.data = []) : s.pop = .error "stack underflow" := by
  obtain ⟨data, bounded, words⟩ := s
  cases h
  rfl

theorem mustPop1_cons (h : vm.ctx.stack.data = x :: rest) : mustPop1 vm = .ok x vm.popped := by
  simp only [mustPop1, Stack.pop_cons h]
  rfl

theorem mustPop1_bind {f : Int → Exec α} (h : vm.ctx.stack.data = x :: rest) :
    (mustPop1 >>= f) vm = f x vm.popped :=
  bind_ok (mustPop1_cons h)

/-- A pop that goes through takes the top. -/
theorem mustPop1_ok (h : mustPop1 vm = .ok x vm') :
    ∃ rest, vm.ctx.stack.data = x :: rest ∧ vm' = vm.popped := by
  cases hdata : vm.ctx.stack.data with
  | nil =>
    simp only [mustPop1, Stack.pop_nil hdata] at h
    cases h
  | cons top rest =>
    rw [mustPop1_cons hdata] at h
    cases h
    exact ⟨rest, rfl, rfl⟩

end Pops

theorem reads_bind {α β : Type} {g : Vm → α} {f : α → Exec β} {vm : Vm} :
    (reads g >>= f) vm = f (g vm) vm := rfl

theorem push_eq (val : Int) {vm : Vm} (hroom : vm.ctx.stack.data.length < maxStackDepth) :
    ∃ stack : Stack, stack.data = u256 val :: vm.ctx.stack.data ∧
      push val vm = .ok () (vm.withStack stack) := by
  have hpush : ∃ stack : Stack, vm.ctx.stack.push val = .ok stack ∧
      stack.data = u256 val :: vm.ctx.stack.data := by
    unfold Stack.push
    rw [dif_pos hroom]
    exact ⟨_, rfl, rfl⟩
  obtain ⟨stack, hpush, hdata⟩ := hpush
  refine ⟨stack, hdata, ?_⟩
  simp only [push, onStack, hpush]

/-! ## Operands by their position -/

theorem getD_tail (data : List Int) (n : Nat) : data.tail.getD n 0 = data.getD (n + 1) 0 := by
  cases data <;> rfl

theorem mustPop1_getD {vm : Vm} (h : 0 < vm.ctx.stack.data.length) :
    mustPop1 vm = .ok (vm.ctx.stack.data.getD 0 0) vm.popped := by
  cases hdata : vm.ctx.stack.data with
  | nil =>
    rw [hdata] at h
    cases h
  | cons x rest => exact mustPop1_cons hdata

theorem mustPop1_getD_bind {α : Type} {f : Int → Exec α} {vm : Vm}
    (h : 0 < vm.ctx.stack.data.length) :
    (mustPop1 >>= f) vm = f (vm.ctx.stack.data.getD 0 0) vm.popped :=
  bind_ok (mustPop1_getD h)

theorem length_of_mustPop1 {x : Int} {vm vm' : Vm} (h : mustPop1 vm = .ok x vm') :
    vm.ctx.stack.data.length = vm'.ctx.stack.data.length + 1 := by
  obtain ⟨rest, hdata, rfl⟩ := mustPop1_ok h
  rw [Vm.popped_data, hdata]
  rfl

namespace Interpreter

/-- How many operands the `CALL` branch pops. -/
def CallKind.operands (kind : CallKind) : Nat := if kind.takesValue then 7 else 6

/-- The operands of the `CALL` branch on a stack that holds them. -/
def CallOperands.ofStack (kind : CallKind) (data : List Int) : CallOperands :=
  let value := if kind.takesValue then 1 else 0
  { gas := uint64 (data.getD 0 0)
    toAddr := safeAddrBytes (data.getD 1 0)
    value := if kind.takesValue then data.getD 2 0 else 0
    argsOff := uint64 (data.getD (2 + value) 0)
    argsLen := uint64 (data.getD (3 + value) 0)
    retOff := uint64 (data.getD (4 + value) 0)
    retLen := uint64 (data.getD (5 + value) 0) }

end Interpreter

theorem callOperands_eq {kind : CallKind} {vm : Vm} (h : kind.operands ≤ vm.ctx.stack.data.length) :
    ∃ stack, callOperands kind vm =
      .ok (.ofStack kind vm.ctx.stack.data) (vm.withStack stack) := by
  have hnext {r : Vm} {n : Nat} (hr : n + 1 ≤ r.ctx.stack.data.length) :
      n ≤ r.popped.ctx.stack.data.length := by
    rw [Vm.popped_data, List.length_tail]
    omega
  unfold callOperands CallOperands.ofStack
  unfold CallKind.operands at h
  cases hkind : kind.takesValue with
  | true =>
    rw [hkind, if_pos rfl] at h
    have h₂ := hnext h
    have h₃ := hnext h₂
    have h₄ := hnext h₃
    have h₅ := hnext h₄
    have h₆ := hnext h₅
    have h₇ := hnext h₆
    simp only [if_true]
    rw [mustPop1_getD_bind (by omega), mustPop1_getD_bind (by omega), mustPop1_getD_bind (by omega),
      mustPop1_getD_bind (by omega), mustPop1_getD_bind (by omega), mustPop1_getD_bind (by omega),
      mustPop1_getD_bind h₇]
    simp only [Vm.popped_data, getD_tail]
    simp only [Vm.popped, Vm.withStack_withStack]
    exact ⟨_, rfl⟩
  | false =>
    rw [hkind, if_neg Bool.false_ne_true] at h
    have h₂ := hnext h
    have h₃ := hnext h₂
    have h₄ := hnext h₃
    have h₅ := hnext h₄
    have h₆ := hnext h₅
    simp only [Bool.false_eq_true, if_false, pure_bind]
    rw [mustPop1_getD_bind (by omega), mustPop1_getD_bind (by omega), mustPop1_getD_bind (by omega),
      mustPop1_getD_bind (by omega), mustPop1_getD_bind (by omega), mustPop1_getD_bind h₆]
    simp only [Vm.popped_data, getD_tail]
    simp only [Vm.popped, Vm.withStack_withStack]
    exact ⟨_, rfl⟩

theorem callOperands_ok {kind : CallKind} {o : CallOperands} {vm vm' : Vm}
    (h : callOperands kind vm = .ok o vm') :
    kind.operands ≤ vm.ctx.stack.data.length ∧ o = .ofStack kind vm.ctx.stack.data ∧
      ∃ stack, vm' = vm.withStack stack := by
  have hlength : kind.operands ≤ vm.ctx.stack.data.length := by
    have hrun := h
    unfold callOperands at hrun
    unfold CallKind.operands
    obtain ⟨_, r₁, h₁, hrun⟩ := of_bind_ok hrun
    obtain ⟨_, r₂, h₂, hrun⟩ := of_bind_ok hrun
    have hl₁ := length_of_mustPop1 h₁
    have hl₂ := length_of_mustPop1 h₂
    cases hkind : kind.takesValue with
    | true =>
      simp only [hkind, if_true] at hrun ⊢
      obtain ⟨_, r₃, h₃, hrun⟩ := of_bind_ok hrun
      obtain ⟨_, r₄, h₄, hrun⟩ := of_bind_ok hrun
      obtain ⟨_, r₅, h₅, hrun⟩ := of_bind_ok hrun
      obtain ⟨_, r₆, h₆, hrun⟩ := of_bind_ok hrun
      obtain ⟨_, r₇, h₇, hrun⟩ := of_bind_ok hrun
      have hl₃ := length_of_mustPop1 h₃
      have hl₄ := length_of_mustPop1 h₄
      have hl₅ := length_of_mustPop1 h₅
      have hl₆ := length_of_mustPop1 h₆
      have hl₇ := length_of_mustPop1 h₇
      omega
    | false =>
      simp only [hkind, Bool.false_eq_true, if_false, pure_bind] at hrun ⊢
      obtain ⟨_, r₃, h₃, hrun⟩ := of_bind_ok hrun
      obtain ⟨_, r₄, h₄, hrun⟩ := of_bind_ok hrun
      obtain ⟨_, r₅, h₅, hrun⟩ := of_bind_ok hrun
      obtain ⟨_, r₆, h₆, hrun⟩ := of_bind_ok hrun
      have hl₃ := length_of_mustPop1 h₃
      have hl₄ := length_of_mustPop1 h₄
      have hl₅ := length_of_mustPop1 h₅
      have hl₆ := length_of_mustPop1 h₆
      omega
  obtain ⟨stack, heq⟩ := callOperands_eq hlength
  rw [heq] at h
  cases h
  exact ⟨hlength, rfl, stack, rfl⟩

/-! ## Charges -/

/-- The gas left covers the amount. -/
def Vm.Pays (vm : Vm) (amount : U64) : Prop :=
  vm.ctx.gasUsed.toNat + amount.toNat ≤ vm.ctx.call.gas.toNat

def Vm.pay (vm : Vm) (amount : U64) : Vm := { vm with ctx.gasUsed := vm.ctx.gasUsed + amount }

@[simp] theorem Vm.popped_pays {vm : Vm} {amount : U64} : vm.popped.Pays amount ↔ vm.Pays amount :=
  Iff.rfl

@[simp] theorem Vm.withMemory_pays {vm : Vm} {memory : Memory} {amount : U64} :
    (vm.withMemory memory).Pays amount ↔ vm.Pays amount := Iff.rfl

theorem ExecutionContext.useGas_eq_none_iff (ctx : ExecutionContext) (amount : U64) :
    ctx.useGas amount = none ↔ ctx.call.gas.toNat < ctx.gasUsed.toNat + amount.toNat := by
  have hgas := ctx.call.gas.isLt
  have hused := ctx.gasUsed.isLt
  have hamount := amount.isLt
  simp only [useGas, BitVec.lt_def, BitVec.toNat_add, ite_eq_left_iff, reduceCtorEq, imp_false,
    not_not]
  omega

theorem useGas_of_pays {vm : Vm} {amount : U64} (h : vm.Pays amount) :
    useGas amount vm = .ok true (vm.pay amount) := by
  cases hgas : vm.ctx.useGas amount with
  | none => exact absurd ((vm.ctx.useGas_eq_none_iff amount).mp hgas) (not_lt.mpr h)
  | some ctx =>
    simp only [useGas, hgas, ExecutionContext.useGas_eq_some hgas]
    rfl

theorem useGas_of_not_pays {vm : Vm} {amount : U64} (h : ¬vm.Pays amount) :
    useGas amount vm = .ok false vm := by
  have hgas := (vm.ctx.useGas_eq_none_iff amount).mpr (not_le.mp h)
  simp only [useGas, hgas]

theorem charge_eq_ok_iff {amount : U64} {err : String} {u : Unit} {vm vm' : Vm} :
    charge amount err vm = .ok u vm' ↔ vm.Pays amount ∧ vm' = vm.pay amount := by
  by_cases hpays : vm.Pays amount
  · rw [charge, bind_ok (useGas_of_pays hpays)]
    constructor
    · intro h
      cases h
      exact ⟨hpays, rfl⟩
    · rintro ⟨-, rfl⟩
      rfl
  · rw [charge, bind_ok (useGas_of_not_pays hpays)]
    refine iff_of_false (fun h => ?_) fun h => hpays h.1
    cases h

theorem charge_error {amount : U64} {err : String} {halt : Halt} {vm vm' : Vm}
    (h : charge amount err vm = .error halt vm') : halt = .error err := by
  by_cases hpays : vm.Pays amount
  · rw [charge, bind_ok (useGas_of_pays hpays)] at h
    cases h
  · rw [charge, bind_ok (useGas_of_not_pays hpays)] at h
    cases h
    rfl

end Qubitcoin.Evm
