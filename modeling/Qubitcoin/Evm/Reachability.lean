import Qubitcoin.Evm.InterpreterLaws

/-! The frames of an execution as the loop meets them, sub-frames at every depth
included, and the rule for what holds of all of them. -/

namespace Qubitcoin.Evm

open Command Interpreter

variable (host : Host) (config : InterpreterConfig)

/-- From `vm` the loop comes to `t`, in the same frame or in one started below it. -/
inductive Reaches : Vm → Vm → Prop
  | here (vm : Vm) : Reaches vm vm
  | proceed {vm vm' t : Vm} {b : UInt8} : vm.fetch = some b →
      step host b vm = .ok .proceed vm' → Reaches vm'.advance t → Reaches vm t
  | jumped {vm vm' t : Vm} {b : UInt8} : vm.fetch = some b →
      step host b vm = .ok .jumped vm' → Reaches vm' t → Reaches vm t
  | enter {vm vm' t : Vm} {b : UInt8} {call : CallContext} {pending : Pending} :
      vm.fetch = some b → step host b vm = .ok (.subCall call pending) vm' →
      ¬config.maxCallDepth < call.depth → Reaches (vm'.enterSub call) t → Reaches vm t
  | resume {vm vm' vm'' t : Vm} {b : UInt8} {call : CallContext} {pending : Pending}
      {fuel : Nat} {result : ExecutionResult} {world : World} : vm.fetch = some b →
      step host b vm = .ok (.subCall call pending) vm' →
      vm'.executeSub config (run host config fuel) call = .returned result world →
      Interpreter.resume host pending result { vm' with world := world } = .ok () vm'' →
      Reaches vm''.advance t → Reaches vm t

/-- What is claimed of the shared world, of every frame and of every suspended
opcode. -/
structure Invariant where
  world : World → Prop
  frame : ExecutionContext → Prop
  pending : Pending → Prop

namespace Invariant

variable (I : Invariant)

def Holds (vm : Vm) : Prop := I.world vm.world ∧ I.frame vm.ctx

def Outcome : RunOutcome → Prop
  | .finished _ vm => I.Holds vm
  | .panicked vm => I.world vm.world
  | .unfinished => True

def Executed : Execution → Prop
  | .returned _ world => I.world world
  | .panicked world => I.world world
  | .unfinished => True

/-- How a turn leaves things; a sub-frame that is too deep is not entered. -/
def AfterStep : EStateM.Result Halt Vm Next → Prop
  | .error _ vm => I.Holds vm
  | .ok (.subCall call pending) vm =>
    I.Holds vm ∧ I.pending pending ∧
      (¬config.maxCallDepth < call.depth → I.frame (.new vm.ctx.block vm.ctx.tx call))
  | .ok _ vm => I.Holds vm

/-- One turn of the loop keeps the invariant where the guard `G` is met. -/
structure Kept (G : Vm → Prop) : Prop where
  step : ∀ vm b, I.Holds vm → G vm → vm.fetch = some b →
    I.AfterStep config (Interpreter.step host b vm)
  resume : ∀ pending result, I.pending pending →
    Ensures I.Holds (Interpreter.resume host pending result) (fun _ => I.Holds) I.Holds
  advance : ∀ vm, I.Holds vm → I.Holds vm.advance
  underflow : ∀ vm : Vm, I.Holds vm →
    I.Holds { vm with ctx.stopped := true, ctx.gasUsed := vm.ctx.call.gas }

end Invariant

variable {host config} {I : Invariant} {G : Vm → Prop}

theorem Invariant.afterStep_proceeds {x : Exec Unit} (hx : Keeps (.preserving I.Holds) x)
    {vm : Vm} (h : I.Holds vm) : I.AfterStep config (proceeds x vm) := by
  unfold proceeds
  cases hrun : x vm with
  | ok u vm' =>
    rw [bind_ok hrun]
    exact hx.of_ok hrun h
  | error halt vm' =>
    rw [bind_error hrun]
    exact hx.of_error hrun h

variable (kept : I.Kept host config G)
include kept

theorem Invariant.outcome_halted {vm : Vm} (h : I.Holds vm) (halt : Halt) :
    I.Outcome (vm.halted halt) := by
  cases halt with
  | error err => exact h
  | stackUnderflow => exact kept.underflow vm h
  | panic => exact h.1

omit kept in
theorem Invariant.executed_leave {outcome : RunOutcome} (h : I.Outcome outcome) :
    I.Executed outcome.leave := by
  cases outcome with
  | finished err vm => exact h.1
  | panicked vm => exact h
  | unfinished => trivial

omit kept in
/-- The world a sub-frame leaves, by what is known of its run. -/
theorem Invariant.executed_executeSub {vm : Vm} {call : CallContext}
    {runFrame : Vm → RunOutcome} (hworld : I.world vm.world)
    (hrun : ¬config.maxCallDepth < call.depth → I.Outcome (runFrame (vm.enterSub call))) :
    I.Executed (vm.executeSub config runFrame call) := by
  unfold Vm.executeSub executeWithAccess
  by_cases hdepth : config.maxCallDepth < call.depth
  · simp only [hdepth, if_true]
    exact hworld
  · simp only [hdepth, if_false]
    exact executed_leave (hrun hdepth)

/-- The rule for a run: what every turn under the guard keeps, the run keeps. -/
theorem Invariant.run_holds {fuel : Nat} {vm : Vm} (h : I.Holds vm)
    (hG : ∀ t, Reaches host config vm t → G t) : I.Outcome (run host config fuel vm) := by
  induction fuel generalizing vm with
  | zero => trivial
  | succ fuel ih =>
    unfold run
    cases hfetch : vm.fetch with
    | none => exact h
    | some b =>
      simp only
      have hstep := kept.step vm b h (hG vm (.here vm)) hfetch
      cases hrun : step host b vm with
      | error halt vm' =>
        rw [hrun] at hstep
        exact outcome_halted kept hstep halt
      | ok next vm' =>
        rw [hrun] at hstep
        cases next with
        | proceed =>
          apply ih (kept.advance vm' hstep)
          intro t ht
          exact hG t (.proceed hfetch hrun ht)
        | jumped =>
          apply ih hstep
          intro t ht
          exact hG t (.jumped hfetch hrun ht)
        | subCall call pending =>
          obtain ⟨hvm, hpending, henter⟩ := hstep
          have hsub : I.Executed (vm'.executeSub config (run host config fuel) call) := by
            apply executed_executeSub hvm.1
            intro hdepth
            have hentry : I.Holds (vm'.enterSub call) := ⟨hvm.1, henter hdepth⟩
            apply ih hentry
            intro t ht
            exact hG t (.enter hfetch hrun hdepth ht)
          simp only
          cases hexec : vm'.executeSub config (run host config fuel) call with
          | unfinished => trivial
          | panicked world =>
            rw [hexec] at hsub
            exact hsub
          | returned result world =>
            rw [hexec] at hsub
            have hresume := kept.resume pending result hpending
              { vm' with world := world } ⟨hsub, hvm.2⟩
            simp only
            cases hres : resume host pending result { vm' with world := world } with
            | error halt vm'' =>
              rw [hres] at hresume
              exact outcome_halted kept hresume halt
            | ok u vm'' =>
              rw [hres] at hresume
              apply ih (kept.advance vm'' hresume)
              intro t ht
              exact hG t (.resume hfetch hrun hexec hres ht)

/-- The rule for every frame the loop meets on the way. -/
theorem Invariant.reaches_holds {vm t : Vm} (ht : Reaches host config vm t) (h : I.Holds vm)
    (hG : ∀ r, Reaches host config vm r → G r) : I.Holds t := by
  induction ht with
  | here vm => exact h
  | @proceed vm vm' t b hfetch hrun _ ih =>
    have hstep := kept.step vm b h (hG vm (.here vm)) hfetch
    rw [hrun] at hstep
    exact ih (kept.advance vm' hstep) fun r hr => hG r (.proceed hfetch hrun hr)
  | @jumped vm vm' t b hfetch hrun _ ih =>
    have hstep := kept.step vm b h (hG vm (.here vm)) hfetch
    rw [hrun] at hstep
    exact ih hstep fun r hr => hG r (.jumped hfetch hrun hr)
  | @enter vm vm' t b call pending hfetch hrun hdepth _ ih =>
    have hstep := kept.step vm b h (hG vm (.here vm)) hfetch
    rw [hrun] at hstep
    exact ih ⟨hstep.1.1, hstep.2.2 hdepth⟩ fun r hr => hG r (.enter hfetch hrun hdepth hr)
  | @resume vm vm' vm'' t b call pending fuel result world hfetch hrun hexec hres _ ih =>
    have hstep := kept.step vm b h (hG vm (.here vm)) hfetch
    rw [hrun] at hstep
    obtain ⟨hvm, hpending, henter⟩ := hstep
    have hsub : I.Executed (vm'.executeSub config (run host config fuel) call) := by
      apply executed_executeSub hvm.1
      intro hdepth
      have hentry : I.Holds (vm'.enterSub call) := ⟨hvm.1, henter hdepth⟩
      apply run_holds kept hentry
      intro r hr
      exact hG r (.enter hfetch hrun hdepth hr)
    rw [hexec] at hsub
    have hresume := kept.resume pending result hpending { vm' with world := world } ⟨hsub, hvm.2⟩
    rw [hres] at hresume
    exact ih (kept.advance vm'' hresume) fun r hr => hG r (.resume hfetch hrun hexec hres hr)

end Qubitcoin.Evm
