import Qubitcoin.Evm.Operands

/-! How commands fail.  The stack and the memory have messages of their own, and a charge
has the message it is given: for any other failure the proof goes past them. -/

namespace Qubitcoin.Evm

open Command Exec Interpreter

/-- A failure that neither the stack nor the memory ends in. -/
structure Halt.Special (halt : Halt) : Prop where
  underflow : .stackUnderflow ≠ halt
  stack : ∀ msg, .error ("stack " ++ msg) ≠ halt
  memory : ∀ msg, .error ("memory: " ++ msg) ≠ halt

theorem Halt.special_panic : Halt.Special .panic where
  underflow := Halt.noConfusion
  stack _ := Halt.noConfusion
  memory _ := Halt.noConfusion

theorem append_ne {start other : String} {c : Char} (hother : other.toList.head? = some c)
    (hne : start.toList.head? ≠ some c) (hstart : start.toList.head?.isSome) (msg : String) :
    start ++ msg ≠ other := by
  intro h
  have hhead := congrArg (fun s => s.toList.head?) h
  cases hs : start.toList with
  | nil =>
    rw [hs] at hstart
    cases hstart
  | cons d ds =>
    rw [hs] at hne
    simp [hs, hother] at hhead
    exact hne (congrArg some hhead)

/-- The messages that do not start as those do. -/
theorem Halt.special_error {err : String} {c : Char} (herr : err.toList.head? = some c)
    (hs : c ≠ 's') (hm : c ≠ 'm') : Halt.Special (.error err) where
  underflow := Halt.noConfusion
  stack msg h := by
    injection h with h
    refine append_ne herr ?_ (by decide) msg h
    rw [show "stack ".toList.head? = some 's' from rfl]
    exact fun heq => hs (Option.some.inj heq).symm
  memory msg h := by
    injection h with h
    refine append_ne herr ?_ (by decide) msg h
    rw [show "memory: ".toList.head? = some 'm' from rfl]
    exact fun heq => hm (Option.some.inj heq).symm

def Halt.Other (halt other : Halt) : Prop := other ≠ halt

/-- The command does not end in this failure. -/
abbrev Spares {α : Type} (halt : Halt) (x : Exec α) : Prop := FailsOnly halt.Other x

variable {α β : Type} {halt : Halt}

namespace Spares

@[grind ←] theorem reads (f : Vm → α) : Spares halt (reads f) := by
  intro vm halt vm' h
  cases h

@[grind ←] theorem modifies (f : Vm → Vm) : Spares halt (modifies f) := by
  intro vm halt vm' h
  cases h

@[grind ←] theorem fail {err : String} (h : .error err ≠ halt) :
    Spares halt (fail err : Exec α) := by
  intro vm halt vm' hrun
  cases hrun
  exact h

@[grind ←] theorem orPanic (h : .panic ≠ halt) (a : Option α) : Spares halt (orPanic a) := by
  cases a with
  | none =>
    intro vm halt vm' hrun
    cases hrun
    exact h
  | some a => exact .pure a

@[grind ←] theorem useGas (amount : U64) : Spares halt (useGas amount) := by
  intro vm halt vm' h
  unfold Exec.useGas at h
  split at h <;> cases h

@[grind ←] theorem charge {err : String} (h : .error err ≠ halt) (amount : U64) :
    Spares halt (charge amount err) := by
  unfold Exec.charge
  grind

@[grind ←] theorem modifiesState (f : StateDB → StateDB) : Spares halt (modifiesState f) :=
  modifies _

@[grind ←] theorem snapshot : Spares halt snapshot := by
  unfold Exec.snapshot
  grind

@[grind ←] theorem proceeds {x : Exec Unit} (h : Spares halt x) : Spares halt (proceeds x) := by
  unfold Interpreter.proceeds
  grind

@[grind ←] theorem refuseStatic {err : String} (herr : .error err ≠ halt) {x : Exec Next}
    (h : Spares halt x) : Spares halt (refuseStatic err x) := by
  unfold Interpreter.refuseStatic
  grind

@[grind ←] theorem touchAddress {err : String} (h : .error err ≠ halt) (addr : Address)
    (surcharge : U64) : Spares halt (touchAddress addr surcharge err) := by
  unfold Exec.touchAddress
  grind

@[grind ←] theorem endow (sender newAddr : Address) (val : Int) :
    Spares halt (endow sender newAddr val) := by
  unfold Interpreter.endow
  grind

@[grind ←] theorem transferValue (sender toAddr : Address) (callValue : Int) :
    Spares halt (transferValue sender toAddr callValue) := by
  unfold Interpreter.transferValue
  grind

end Spares

theorem Stack.push_error {s : Stack} {val : Int} {err : String} (h : s.push val = .error err) :
    ∃ msg, err = "stack " ++ msg := by
  have hstart : "stack overflow: depth " = "stack " ++ "overflow: depth " := by decide
  unfold push at h
  split at h
  · cases h
  · injection h with h
    rw [← h, hstart]
    simp only [String.append_assoc]
    exact ⟨_, rfl⟩

theorem Stack.dup_error {s : Stack} {depth : Nat} {err : String} (h : s.dup depth = .error err) :
    ∃ msg, err = "stack " ++ msg := by
  have hstart : "stack underflow: dup depth " = "stack " ++ "underflow: dup depth " := by decide
  unfold dup at h
  split at h
  · split at h
    · injection h with h
      rw [← h, hstart]
      simp only [String.append_assoc]
      exact ⟨_, rfl⟩
    · exact push_error h
  · injection h with h
    rw [← h, hstart]
    simp only [String.append_assoc]
    exact ⟨_, rfl⟩

theorem Stack.swap_error {s : Stack} {depth : Nat} {err : String} (h : s.swap depth = .error err) :
    ∃ msg, err = "stack " ++ msg := by
  have hstart : "stack underflow: swap depth " = "stack " ++ "underflow: swap depth " := by decide
  unfold swap at h
  split at h
  · cases h
  · injection h with h
    rw [← h, hstart]
    simp only [String.append_assoc]
    exact ⟨_, rfl⟩

theorem Memory.resize_error {m : Memory} {size : U64} {err : String}
    (h : m.resize size = .error err) : ∃ msg, err = "memory: " ++ msg := by
  have hstart : "memory: Resize exceeds max (" = "memory: " ++ "Resize exceeds max (" := by decide
  unfold resize at h
  dsimp only at h
  repeat' split at h
  all_goals first
    | cases h; done
    | injection h with h
      rw [← h, hstart]
      simp only [String.append_assoc]
      exact ⟨_, rfl⟩

theorem Memory.get_error {m : Memory} {offset size : U64} {err : String}
    (h : m.get offset size = .error err) : ∃ msg, err = "memory: " ++ msg := by
  have hstart : "memory: Get out of bounds: offset=" = "memory: " ++ "Get out of bounds: offset=" := by
    decide
  unfold get at h
  dsimp only at h
  repeat' split at h
  all_goals first
    | cases h; done
    | injection h with h
      rw [← h, hstart]
      simp only [String.append_assoc]
      exact ⟨_, rfl⟩

theorem Memory.set_error {m : Memory} {offset : U64} {data : Bytes} {err : String}
    (h : m.set offset data = .error err) : ∃ msg, err = "memory: " ++ msg := by
  have hstart : "memory: Set out of bounds: offset=" = "memory: " ++ "Set out of bounds: offset=" := by
    decide
  unfold set at h
  dsimp only at h
  repeat' split at h
  all_goals first
    | cases h; done
    | injection h with h
      rw [← h, hstart]
      simp only [String.append_assoc]
      exact ⟨_, rfl⟩

theorem Memory.set32_error {m : Memory} {offset : U64} {val : Int} {err : String}
    (h : m.set32 offset val = .error err) : ∃ msg, err = "memory: " ++ msg := by
  have hstart : "memory: Set32 out of bounds: offset=" =
      "memory: " ++ "Set32 out of bounds: offset=" := by
    decide
  unfold set32 at h
  dsimp only at h
  split at h
  · injection h with h
    rw [← h, hstart]
    simp only [String.append_assoc]
    exact ⟨_, rfl⟩
  · cases h

theorem Memory.setByte_error {m : Memory} {offset : U64} {val : UInt8} {err : String}
    (h : m.setByte offset val = .error err) : ∃ msg, err = "memory: " ++ msg := by
  have hstart : "memory: SetByte out of bounds: offset=" =
      "memory: " ++ "SetByte out of bounds: offset=" := by
    decide
  unfold setByte at h
  split at h
  · injection h with h
    rw [← h, hstart]
    simp only [String.append_assoc]
    exact ⟨_, rfl⟩
  · cases h

namespace Halt.Special

variable (s : Halt.Special halt)
include s

@[grind ←] theorem mustPop1 : Spares halt mustPop1 := by
  intro vm halt vm' h
  unfold Exec.mustPop1 at h
  split at h
  · cases h
  · cases h
    exact s.underflow

theorem onStack {f : Stack → Except String Stack}
    (hf : ∀ stack err, f stack = .error err → ∃ msg, err = "stack " ++ msg) :
    Spares halt (onStack f) := by
  intro vm halt vm' h
  unfold Exec.onStack at h
  split at h
  · cases h
  · next err hrun =>
    cases h
    obtain ⟨msg, rfl⟩ := hf _ err hrun
    exact s.stack msg

@[grind ←] theorem push (val : Int) : Spares halt (push val) :=
  s.onStack fun _ _ h => Stack.push_error h

@[grind ←] theorem pushes (f : Vm → Int) : Spares halt (pushes f) := by
  unfold Interpreter.pushes
  grind

@[grind ←] theorem resize (size : U64) : Spares halt (resize size) := by
  intro vm halt vm' h
  unfold Exec.resize at h
  split at h
  · cases h
  · next err hrun =>
    cases h
    obtain ⟨msg, rfl⟩ := Memory.resize_error hrun
    exact s.memory msg

@[grind ←] theorem memoryGet (offset size : U64) : Spares halt (memoryGet offset size) := by
  intro vm halt vm' h
  unfold Exec.memoryGet at h
  split at h
  · cases h
  · next err hrun =>
    cases h
    obtain ⟨msg, rfl⟩ := Memory.get_error hrun
    exact s.memory msg

theorem onMemory {f : Memory → Except String Memory}
    (hf : ∀ memory err, f memory = .error err → ∃ msg, err = "memory: " ++ msg) :
    Spares halt (onMemory f) := by
  intro vm halt vm' h
  unfold Exec.onMemory at h
  split at h
  · cases h
  · next err hrun =>
    cases h
    obtain ⟨msg, rfl⟩ := hf _ err hrun
    exact s.memory msg

@[grind ←] theorem memorySet (offset : U64) (data : Bytes) : Spares halt (memorySet offset data) :=
  s.onMemory fun _ _ h => Memory.set_error h

@[grind ←] theorem giveUp (snapID : Nat) : Spares halt (giveUp snapID) := by
  unfold Interpreter.giveUp revertToSnapshot
  grind

@[grind ←] theorem copyOutput (retOff retLen : U64) (output : Bytes) :
    Spares halt (copyOutput retOff retLen output) := by
  unfold Interpreter.copyOutput
  grind

@[grind ←] theorem answerPrecompile (retOff retLen : U64) (output : Except String Bytes) :
    Spares halt (answerPrecompile retOff retLen output) := by
  cases output with
  | error err => exact s.push 0
  | ok output =>
    simp only [Interpreter.answerPrecompile]
    grind

@[grind ←] theorem callPrecompile (hpanic : .panic ≠ halt) (host : Host) (o : CallOperands) :
    Spares halt (callPrecompile host o) := by
  unfold Interpreter.callPrecompile
  grind

@[grind ←] theorem callOperands (kind : CallKind) : Spares halt (callOperands kind) := by
  unfold Interpreter.callOperands
  grind

@[grind ←] theorem callGas (hcold : .error "out of gas: CALL cold address" ≠ halt)
    (hvalue : .error "out of gas: CALL value transfer" ≠ halt)
    (hnew : .error "out of gas: CALL new account" ≠ halt) (o : CallOperands) :
    Spares halt (callGas o) := by
  unfold Interpreter.callGas
  grind

@[grind ←] theorem finishCall (snapID : Nat) (retOff retLen : U64) (r : ExecutionResult) :
    Spares halt (finishCall snapID retOff retLen r) := by
  unfold Interpreter.finishCall
  grind

@[grind ←] theorem enterTarget (kind : CallKind) (request : CallRequest) (call : CallContext)
    (snapID : Nat) : Spares halt (enterTarget kind request call snapID) := by
  unfold Interpreter.enterTarget
  grind

@[grind ←] theorem startCall (kind : CallKind) (request : CallRequest) :
    Spares halt (startCall kind request) := by
  unfold Interpreter.startCall
  grind

@[grind ←] theorem popTopics (n : Nat) : Spares halt (popTopics n) := by
  induction n with
  | zero => exact .pure _
  | succ n ih =>
    unfold Interpreter.popTopics
    grind

theorem startCreate (host : Host) (request : CreateRequest) :
    Spares halt (startCreate host request) := by
  unfold Interpreter.startCreate
  refine (Spares.reads _).bind fun sender => (Spares.reads _).bind fun nonce => ?_
  refine (Spares.modifiesState _).bind fun _ => Spares.snapshot.bind fun snapID => ?_
  refine (Spares.modifiesState _).bind fun _ => (Spares.endow _ _ _).bind fun paid => ?_
  split
  · exact (Spares.reads _).bind fun _ => (Spares.reads _).bind fun _ => .pure _
  · exact (s.giveUp snapID).bind fun _ => .pure _

theorem resume (host : Host) (pending : Pending) (r : ExecutionResult) :
    Spares halt (resume host pending r) := by
  cases pending with
  | call snapID retOff retLen => exact s.finishCall snapID retOff retLen r
  | create snapID newAddr =>
    simp only [Interpreter.resume, finishCreate]
    grind

end Halt.Special

/-! ## Reaching a failure -/

/-- The command ends in this failure. -/
def Halts (halt : Halt) (x : Exec α) (vm : Vm) : Prop := ∃ vm', x vm = .error halt vm'

variable {vm : Vm}

theorem Spares.not_halts {x : Exec α} (hx : Spares halt x) : ¬Halts halt x vm := by
  rintro ⟨vm', h⟩
  exact hx vm _ vm' h rfl

theorem Spares.halts_bind {x : Exec α} {f : α → Exec β} (hx : Spares halt x) :
    Halts halt (x >>= f) vm ↔ ∃ a r, x vm = .ok a r ∧ Halts halt (f a) r := by
  constructor
  · rintro ⟨vm', h⟩
    cases hrun : x vm with
    | ok a r =>
      rw [bind_ok hrun] at h
      exact ⟨a, r, rfl, vm', h⟩
    | error _ r =>
      rw [bind_error hrun] at h
      cases h
      exact (hx vm _ _ hrun rfl).elim
  · rintro ⟨a, r, hrun, vm', h⟩
    exact ⟨vm', (bind_ok hrun).trans h⟩

/-- What comes after is not what fails. -/
theorem halts_bind_of_spares {x : Exec α} {f : α → Exec β} (hf : ∀ a, Spares halt (f a)) :
    Halts halt (x >>= f) vm ↔ Halts halt x vm := by
  constructor
  · rintro ⟨vm', h⟩
    cases hrun : x vm with
    | ok a r =>
      rw [bind_ok hrun] at h
      exact (hf a r _ _ h rfl).elim
    | error halt r =>
      rw [bind_error hrun] at h
      cases h
      exact ⟨_, hrun⟩
  · rintro ⟨vm', h⟩
    exact ⟨vm', bind_error h⟩

theorem halts_proceeds {x : Exec Unit} : Halts halt (proceeds x) vm ↔ Halts halt x vm :=
  halts_bind_of_spares fun _ => .pure _

@[simp] theorem halts_reads_bind {g : Vm → α} {f : α → Exec β} :
    Halts halt (reads g >>= f) vm ↔ Halts halt (f (g vm)) vm := Iff.rfl

section Past

variable (s : Halt.Special halt)
include s

theorem Halt.Special.mustPop1_bind {f : Int → Exec β} : Halts halt (Exec.mustPop1 >>= f) vm ↔
    0 < vm.ctx.stack.data.length ∧ Halts halt (f (vm.ctx.stack.data.getD 0 0)) vm.popped := by
  rw [s.mustPop1.halts_bind]
  constructor
  · rintro ⟨x, r, hpop, h⟩
    obtain ⟨rest, hdata, rfl⟩ := mustPop1_ok hpop
    rw [hdata]
    exact ⟨Nat.succ_pos _, h⟩
  · rintro ⟨hlength, h⟩
    exact ⟨_, _, mustPop1_getD hlength, h⟩

theorem Halt.Special.resize_bind {size : U64} {f : U64 → Exec β} :
    Halts halt (Exec.resize size >>= f) vm ↔
      ∃ memory cost, vm.ctx.memory.resize size = .ok (memory, cost) ∧
        Halts halt (f cost) (vm.withMemory memory) := by
  rw [(s.resize size).halts_bind]
  unfold Exec.resize
  cases vm.ctx.memory.resize size with
  | error err => simp
  | ok grown => simp [Prod.ext_iff, and_assoc]

theorem Halt.Special.memoryGet_bind {offset size : U64} {f : Bytes → Exec β} :
    Halts halt (Exec.memoryGet offset size >>= f) vm ↔
      ∃ data, vm.ctx.memory.get offset size = .ok data ∧ Halts halt (f data) vm := by
  rw [(s.memoryGet offset size).halts_bind]
  unfold Exec.memoryGet
  cases vm.ctx.memory.get offset size with
  | error err => simp
  | ok data => simp

theorem Halt.Special.callOperands_bind {kind : CallKind} {f : CallOperands → Exec α}
    {P : CallOperands → Prop} (hf : ∀ o stack, Halts halt (f o) (vm.withStack stack) ↔ P o) :
    Halts halt (Interpreter.callOperands kind >>= f) vm ↔
      kind.operands ≤ vm.ctx.stack.data.length ∧ P (.ofStack kind vm.ctx.stack.data) := by
  unfold Interpreter.callOperands CallOperands.ofStack CallKind.operands
  cases kind.takesValue with
  | true =>
    simp only [if_true, bind_assoc, pure_bind, s.mustPop1_bind, Vm.popped_data, getD_tail,
      List.length_tail]
    simp only [Vm.popped, Vm.withStack_withStack, hf]
    constructor
    · rintro ⟨h₁, h₂, h₃, h₄, h₅, h₆, h₇, hhalts⟩
      exact ⟨by omega, hhalts⟩
    · rintro ⟨hlength, hhalts⟩
      exact ⟨by omega, by omega, by omega, by omega, by omega, by omega, by omega, hhalts⟩
  | false =>
    simp only [Bool.false_eq_true, if_false, bind_assoc, pure_bind, s.mustPop1_bind,
      Vm.popped_data, getD_tail, List.length_tail]
    simp only [Vm.popped, Vm.withStack_withStack, hf]
    constructor
    · rintro ⟨h₁, h₂, h₃, h₄, h₅, h₆, hhalts⟩
      exact ⟨by omega, hhalts⟩
    · rintro ⟨hlength, hhalts⟩
      exact ⟨by omega, by omega, by omega, by omega, by omega, by omega, hhalts⟩

end Past

theorem halts_charge_bind {amount : U64} {err : String} {f : Unit → Exec β}
    (h : .error err ≠ halt) : Halts halt (charge amount err >>= f) vm ↔
      vm.Pays amount ∧ Halts halt (f ()) (vm.pay amount) := by
  rw [(Spares.charge h amount).halts_bind]
  constructor
  · rintro ⟨u, r, hcharge, h⟩
    obtain ⟨hpay, rfl⟩ := charge_eq_ok_iff.mp hcharge
    exact ⟨hpay, h⟩
  · rintro ⟨hpay, h⟩
    exact ⟨(), _, charge_eq_ok_iff.mpr ⟨hpay, rfl⟩, h⟩

theorem halts_charge_iff {amount : U64} {err : String} :
    Halts (.error err) (charge amount err) vm ↔ ¬vm.Pays amount := by
  constructor
  · rintro ⟨r, h⟩ hpays
    have hok : charge amount err vm = .ok () (vm.pay amount) := charge_eq_ok_iff.mpr ⟨hpays, rfl⟩
    rw [hok] at h
    cases h
  · intro hpays
    cases hrun : charge amount err vm with
    | ok u r => exact absurd (charge_eq_ok_iff.mp hrun).1 hpays
    | error halt r =>
      rw [charge_error hrun] at hrun
      exact ⟨r, hrun⟩

end Qubitcoin.Evm
