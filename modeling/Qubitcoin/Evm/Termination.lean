import Qubitcoin.Evm.FreeOpcodes

/-! Every execution ends.  Within a frame the gas left goes down, or else the stack does;
a sub-frame is one deeper. -/

namespace Qubitcoin.Evm

open Command Exec Interpreter

variable (host : Host) (config : InterpreterConfig)

/-- One iteration of the loop that goes on, with the sub-frame it may have waited for. -/
inductive Turn : Vm → Vm → Prop
  | proceed {vm vm' : Vm} {b : UInt8} : vm.fetch = some b →
      step host b vm = .ok .proceed vm' → Turn vm vm'.advance
  | jumped {vm vm' : Vm} {b : UInt8} : vm.fetch = some b →
      step host b vm = .ok .jumped vm' → Turn vm vm'
  | resume {vm vm' vm'' : Vm} {b : UInt8} {call : CallContext} {pending : Pending}
      {result : ExecutionResult} {world : World} : vm.fetch = some b →
      step host b vm = .ok (.subCall call pending) vm' →
      Interpreter.resume host pending result { vm' with world := world } = .ok () vm'' →
      Turn vm vm''.advance

variable {host config}

theorem Vm.fetch_eq_some {vm : Vm} {b : UInt8} (h : vm.fetch = some b) :
    vm.ctx.pc.toNat < vm.ctx.call.code.length := by
  unfold fetch at h
  split at h
  · cases h
  · exact (List.getElem?_eq_some_iff.mp h).1

theorem Vm.fetch_of_stopped {vm : Vm} (h : vm.ctx.stopped = true) : vm.fetch = none := by
  simp [fetch, h]

theorem opens_step {b : UInt8} {vm vm' : Vm} {call : CallContext} {pending : Pending}
    (h : step host b vm = .ok (.subCall call pending) vm') :
    (Opcode.ofByte b).free = true ∧ call.depth = vm.ctx.call.depth + 1 := by
  have hfree : (Opcode.ofByte b).free = true := by
    by_contra hfree
    obtain ⟨_, r, hcharge, h⟩ := of_bind_ok h
    generalize Opcode.ofByte b = op at hfree h
    by_cases hop : op.writes = false
    · simpa using dispatch_ok_ne_subCall hop h
    · cases op
      case sstore | log | selfdestruct =>
        obtain ⟨isStatic, t, -, h⟩ := of_bind_ok h
        split at h
        · cases h
        · cases proceeds_ok h
      all_goals first
        | exact hop rfl
        | exact hfree rfl
  exact ⟨hfree, (freeTurn_step hfree h).opens⟩

/-- What one iteration does to the frame. -/
structure Advances (vm vm' : Vm) : Prop where
  call : vm'.ctx.call = vm.ctx.call
  gas : vm.ctx.gasUsed.toNat ≤ vm'.ctx.gasUsed.toNat
  spends : vm.ctx.gasUsed.toNat < vm'.ctx.gasUsed.toNat ∨
    vm'.ctx.pc = vm.ctx.pc + 1 ∧ (vm'.fetch = none ∨ vm'.height < vm.height)

theorem Turn.advances {vm vm' : Vm} (h : Turn host vm vm') : Advances vm vm' := by
  cases h with
  | @proceed r b hfetch hstep =>
    obtain ⟨hcall, hgas⟩ := (metered_step host b).of_ok hstep
    refine ⟨hcall, hgas, ?_⟩
    by_cases hfree : (Opcode.ofByte b).free = true
    · have hturn := freeTurn_step hfree hstep
      refine .inr ⟨congrArg (· + 1) hturn.pc, ?_⟩
      cases hturn.shrinks with
      | inl hstop => exact .inl (Vm.fetch_of_stopped hstop.2)
      | inr hshort =>
        refine .inr (Nat.lt_of_lt_of_le ?_ hshort)
        exact Nat.lt_add_of_pos_right (by decide)
    · have hburnt := burns_step host (Bool.eq_false_iff.mpr hfree) hstep
      exact .inl hburnt
  | @jumped _ b hfetch hstep =>
    obtain ⟨hcall, hgas⟩ := (metered_step host b).of_ok hstep
    refine ⟨hcall, hgas, .inl ?_⟩
    by_cases hfree : (Opcode.ofByte b).free = true
    · exact (freeTurn_step hfree hstep).opens.elim
    · exact burns_step host (Bool.eq_false_iff.mpr hfree) hstep
  | @resume r r' b call pending result world hfetch hstep hresume =>
    obtain ⟨hcall, hgas⟩ := (metered_step host b).of_ok hstep
    obtain ⟨hcall', hgas'⟩ := (metered_resume host pending result).of_ok hresume
    have hturn := freeTurn_step (opens_step hstep).1 hstep
    obtain ⟨hpc, hle⟩ := grows_resume host pending result hresume
    refine ⟨hcall'.trans hcall, hgas.trans hgas', .inr ⟨congrArg (· + 1) (hpc.trans hturn.pc), ?_⟩⟩
    cases hturn.shrinks with
    | inl hstop => cases hstop.1
    | inr hshort =>
      change (r'.height : Int) ≤ r.height + 1 at hle
      refine .inr (show r'.height < vm.height from ?_)
      omega

/-- What bounds the iterations that are left. -/
def turnsLeft (vm : Vm) : Nat :=
  (maxStackDepth + 1) * (2 ^ 64 - vm.ctx.gasUsed.toNat) + vm.height

theorem Advances.turnsLeft_lt {vm vm' : Vm} (h : Advances vm vm') :
    vm'.fetch = none ∨ turnsLeft vm' < turnsLeft vm := by
  have hgas := h.gas
  have hword := vm'.ctx.gasUsed.isLt
  have hheight : vm'.height ≤ maxStackDepth := vm'.ctx.stack.bounded
  unfold turnsLeft
  cases h.spends with
  | inl hless =>
    refine .inr (Nat.lt_of_lt_of_le (Nat.add_lt_add_left (Nat.lt_succ_of_le hheight) _) ?_)
    rw [← Nat.mul_succ]
    exact (Nat.mul_le_mul_left _ (by omega)).trans (Nat.le_add_right _ _)
  | inr hfree =>
    refine hfree.2.imp id fun hshort => ?_
    exact Nat.add_lt_add_of_le_of_lt (Nat.mul_le_mul_left _ (by omega)) hshort

section Fuel

theorem executeSub_congr (config : InterpreterConfig) {vm : Vm} {call : CallContext}
    {runFrame runFrame' : Vm → RunOutcome}
    (h : runFrame (vm.enterSub call) = .unfinished ∨
      runFrame' (vm.enterSub call) = runFrame (vm.enterSub call)) :
    vm.executeSub config runFrame call = .unfinished ∨
      vm.executeSub config runFrame' call = vm.executeSub config runFrame call := by
  unfold Vm.executeSub executeWithAccess
  dsimp only
  split
  · exact .inr rfl
  · refine h.imp (fun h => ?_) (fun h => ?_)
    · exact congrArg RunOutcome.leave h
    · exact congrArg RunOutcome.leave h

/-- With more fuel a finished run ends in the same way. -/
theorem run_succ (fuel : Nat) (vm : Vm) :
    run host config fuel vm = .unfinished ∨
      run host config (fuel + 1) vm = run host config fuel vm := by
  induction fuel generalizing vm with
  | zero => exact .inl rfl
  | succ fuel ih =>
    rw [run, run]
    cases vm.fetch with
    | none => exact .inr rfl
    | some b =>
      dsimp only
      cases step host b vm with
      | error halt vm' => exact .inr rfl
      | ok next vm' =>
        cases next with
        | proceed => exact ih _
        | jumped => exact ih _
        | subCall call pending =>
          dsimp only
          cases executeSub_congr config (ih (vm'.enterSub call)) with
          | inl h =>
            rw [h]
            exact .inl rfl
          | inr h =>
            rw [h]
            cases vm'.executeSub config (run host config fuel) call with
            | unfinished => exact .inr rfl
            | panicked world => exact .inr rfl
            | returned result world =>
              dsimp only
              cases resume host pending result { vm' with world := world } with
              | error halt vm'' => exact .inr rfl
              | ok _ vm'' => exact ih _

theorem run_mono {fuel more : Nat} {vm : Vm} (hle : fuel ≤ more)
    (h : run host config fuel vm ≠ .unfinished) :
    run host config more vm = run host config fuel vm := by
  induction more, hle using Nat.le_induction with
  | base => rfl
  | succ more _ ih =>
    rw [← ih]
    exact (run_succ more vm).resolve_left (ih ▸ h)

theorem executeSub_mono {fuel more : Nat} {vm : Vm} {call : CallContext} (hle : fuel ≤ more)
    (h : vm.executeSub config (run host config fuel) call ≠ .unfinished) :
    vm.executeSub config (run host config more) call =
      vm.executeSub config (run host config fuel) call := by
  apply (executeSub_congr config ?_).resolve_left h
  by_cases hrun : run host config fuel (vm.enterSub call) = .unfinished
  · exact .inl hrun
  · exact .inr (run_mono hle hrun)

end Fuel

/-- The frames that a run comes to. -/
def frames (host : Host) (config : InterpreterConfig) : Nat → Vm → List Vm
  | 0, _ => []
  | fuel + 1, vm =>
    vm :: match vm.fetch with
    | none => []
    | some b =>
      match step host b vm with
      | .error _ _ => []
      | .ok .proceed vm' => frames host config fuel vm'.advance
      | .ok .jumped vm' => frames host config fuel vm'
      | .ok (.subCall call pending) vm' =>
        (if config.maxCallDepth < call.depth then []
          else frames host config fuel (vm'.enterSub call)) ++
        match vm'.executeSub config (run host config fuel) call with
        | .returned result world =>
          match resume host pending result { vm' with world := world } with
          | .ok _ vm'' => frames host config fuel vm''.advance
          | .error _ _ => []
        | _ => []

theorem enterSub_finishes {fuel : Nat} {vm : Vm} {call : CallContext}
    (hdepth : ¬config.maxCallDepth < call.depth)
    (h : vm.executeSub config (run host config fuel) call ≠ .unfinished) :
    run host config fuel (vm.enterSub call) ≠ .unfinished := by
  intro hrun
  apply h
  unfold Vm.executeSub executeWithAccess
  rw [if_neg hdepth]
  exact congrArg RunOutcome.leave hrun

/-- A run that ends has been through every frame there is. -/
theorem mem_frames_of_reaches {vm t : Vm} (ht : Reaches host config vm t) {fuel : Nat}
    (hrun : run host config fuel vm ≠ .unfinished) : t ∈ frames host config fuel vm := by
  induction ht generalizing fuel with
  | here vm =>
    cases fuel with
    | zero => exact absurd rfl hrun
    | succ fuel => exact List.mem_cons_self
  | proceed hfetch hstep _ ih =>
    cases fuel with
    | zero => exact absurd rfl hrun
    | succ fuel =>
      simp only [run, hfetch, hstep] at hrun
      simp only [frames, hfetch, hstep]
      exact List.mem_cons_of_mem _ (ih hrun)
  | jumped hfetch hstep _ ih =>
    cases fuel with
    | zero => exact absurd rfl hrun
    | succ fuel =>
      simp only [run, hfetch, hstep] at hrun
      simp only [frames, hfetch, hstep]
      exact List.mem_cons_of_mem _ (ih hrun)
  | @enter vm vm' t b call pending hfetch hstep hdepth _ ih =>
    cases fuel with
    | zero => exact absurd rfl hrun
    | succ fuel =>
      simp only [run, hfetch, hstep] at hrun
      simp only [frames, hfetch, hstep, if_neg hdepth]
      apply List.mem_cons_of_mem
      apply List.mem_append_left
      apply ih
      apply enterSub_finishes hdepth
      intro hexec
      simp only [hexec] at hrun
      exact hrun rfl
  | @resume vm vm' vm'' t b call pending fuel' result world hfetch hstep hexec hresume _ ih =>
    cases fuel with
    | zero => exact absurd rfl hrun
    | succ fuel =>
      simp only [run, hfetch, hstep] at hrun
      have hsub : vm'.executeSub config (run host config fuel) call ≠ .unfinished := by
        intro hexec'
        simp only [hexec'] at hrun
        exact hrun rfl
      have hsame : vm'.executeSub config (run host config fuel) call = .returned result world := by
        rw [← executeSub_mono (Nat.le_max_left fuel fuel') hsub, ← hexec]
        apply executeSub_mono (Nat.le_max_right fuel fuel')
        rw [hexec]
        exact Execution.noConfusion
      simp only [hsame, hresume] at hrun
      simp only [frames, hfetch, hstep, hsame, hresume]
      apply List.mem_cons_of_mem
      exact List.mem_append_right _ (ih hrun)

/-- Some fuel is enough. -/
def Finishes (host : Host) (config : InterpreterConfig) (vm : Vm) : Prop :=
  ∃ fuel, run host config fuel vm ≠ .unfinished

theorem finishes_of_fetch {vm : Vm} (h : vm.fetch = none) : Finishes host config vm := by
  refine ⟨1, ?_⟩
  rw [run, h]
  exact RunOutcome.noConfusion

theorem halted_ne_unfinished (vm : Vm) (halt : Halt) : vm.halted halt ≠ .unfinished := by
  cases halt <;> exact RunOutcome.noConfusion

theorem leave_ne_unfinished {outcome : RunOutcome} (h : outcome ≠ .unfinished) :
    outcome.leave ≠ .unfinished := by
  cases outcome with
  | finished err vm => exact Execution.noConfusion
  | panicked vm => exact Execution.noConfusion
  | unfinished => exact absurd rfl h

/-- A sub-frame that is not refused ends if its loop does. -/
theorem exists_executeSub {vm : Vm} {call : CallContext}
    (h : call.depth ≤ config.maxCallDepth → Finishes host config (vm.enterSub call)) :
    ∃ fuel, ∀ more, fuel ≤ more →
      vm.executeSub config (run host config more) call =
          vm.executeSub config (run host config fuel) call ∧
        vm.executeSub config (run host config more) call ≠ .unfinished := by
  unfold Vm.executeSub executeWithAccess
  dsimp only
  split
  · exact ⟨0, fun _ _ => ⟨rfl, Execution.noConfusion⟩⟩
  · next hdepth =>
    obtain ⟨fuel, hfuel⟩ := h (not_lt.mp hdepth)
    refine ⟨fuel, fun more hle => ?_⟩
    have hmore : run host config more (vm.enterSub call) = run host config fuel (vm.enterSub call) :=
      run_mono hle hfuel
    change (run host config more (vm.enterSub call)).leave = _ ∧
      (run host config more (vm.enterSub call)).leave ≠ _
    rw [hmore]
    exact ⟨rfl, leave_ne_unfinished hfuel⟩

/-- The frame ends if the frames below it do. -/
theorem finishes_of_subs {call : CallContext}
    (hsub : ∀ (vm : Vm) (sub : CallContext), sub.depth = call.depth + 1 →
      sub.depth ≤ config.maxCallDepth → Finishes host config (vm.enterSub sub))
    (vm : Vm) (hcall : vm.ctx.call = call) : Finishes host config vm := by
  induction hturns : turnsLeft vm using Nat.strong_induction_on generalizing vm with
  | _ n ih =>
    subst hturns
    have hnext {vm' : Vm} (h : Turn host vm vm') : Finishes host config vm' := by
      have hadvances := h.advances
      cases hadvances.turnsLeft_lt with
      | inl hfetch => exact finishes_of_fetch hfetch
      | inr hless => exact ih _ hless vm' (hadvances.call.trans hcall) rfl
    cases hfetch : vm.fetch with
    | none => exact finishes_of_fetch hfetch
    | some b =>
      cases hstep : step host b vm with
      | error halt vm' =>
        refine ⟨1, ?_⟩
        simpa only [run, hfetch, hstep] using halted_ne_unfinished vm' halt
      | ok next vm' =>
        cases next with
        | proceed =>
          obtain ⟨fuel, hfuel⟩ := hnext (.proceed hfetch hstep)
          refine ⟨fuel + 1, ?_⟩
          simpa only [run, hfetch, hstep] using hfuel
        | jumped =>
          obtain ⟨fuel, hfuel⟩ := hnext (.jumped hfetch hstep)
          refine ⟨fuel + 1, ?_⟩
          simpa only [run, hfetch, hstep] using hfuel
        | subCall sub pending =>
          have hdepth : sub.depth = call.depth + 1 := hcall ▸ (opens_step hstep).2
          obtain ⟨fuel, hfuel⟩ := exists_executeSub (hsub vm' sub hdepth)
          cases hexec : vm'.executeSub config (run host config fuel) sub with
          | unfinished => exact absurd hexec (hfuel fuel (Nat.le_refl _)).2
          | panicked world =>
            refine ⟨fuel + 1, ?_⟩
            simp only [run, hfetch, hstep, hexec]
            exact RunOutcome.noConfusion
          | returned result world =>
            cases hresume : resume host pending result { vm' with world := world } with
            | error halt vm'' =>
              refine ⟨fuel + 1, ?_⟩
              simpa only [run, hfetch, hstep, hexec, hresume] using halted_ne_unfinished vm'' halt
            | ok u vm'' =>
              obtain ⟨fuel', hfuel'⟩ := hnext (.resume hfetch hstep hresume)
              refine ⟨max fuel fuel' + 1, ?_⟩
              have hsame := (hfuel (max fuel fuel') (Nat.le_max_left _ _)).1
              have hrest := run_mono (Nat.le_max_right fuel fuel') hfuel'
              simpa only [run, hfetch, hstep, hsame, hexec, hresume, hrest] using hfuel'

theorem finishes (host : Host) (config : InterpreterConfig) (vm : Vm) :
    Finishes host config vm := by
  induction hlevels : (config.maxCallDepth - vm.ctx.call.depth).toNat using
    Nat.strong_induction_on generalizing vm with
  | _ n ih =>
    subst hlevels
    refine finishes_of_subs (fun r sub hdepth hle => ih _ ?_ _ rfl) vm rfl
    change (config.maxCallDepth - sub.depth).toNat < _
    omega

/-- An iteration uses gas or advances the position within the code, which is shorter than
`2 ^ 63` as every slice; a sub-frame is one deeper and is run within the limit only; and every
execution ends, with a result or a panic. -/
theorem executeWithAccess_terminates (host : Host) (config : InterpreterConfig) :
    (∀ vm vm', Turn host vm vm' →
      vm'.ctx.call = vm.ctx.call ∧
        (vm.ctx.gasUsed.toNat < vm'.ctx.gasUsed.toNat ∨
          vm'.ctx.gasUsed.toNat = vm.ctx.gasUsed.toNat ∧
            vm.ctx.pc.toNat < vm.ctx.call.code.length ∧ vm'.ctx.pc = vm.ctx.pc + 1 ∧
            (vm.ctx.call.code.length < 2 ^ 64 → vm.ctx.pc.toNat < vm'.ctx.pc.toNat))) ∧
    (∀ (vm vm' : Vm) b call pending, step host b vm = .ok (.subCall call pending) vm' →
      call.depth = vm.ctx.call.depth + 1 ∧
        ∀ runFrame, config.maxCallDepth < call.depth →
          ∃ result, vm'.executeSub config runFrame call = .returned result vm'.world) ∧
    ∀ block tx call parentAccess parentOriginalStorage state,
      ∃ fuel, ∀ more, fuel ≤ more →
        executeWithAccess config (run host config more) block tx call parentAccess
          parentOriginalStorage state ≠ .unfinished := by
  refine ⟨?_, ?_, ?_⟩
  · intro vm vm' h
    have hadvances := h.advances
    have hfetch : vm.ctx.pc.toNat < vm.ctx.call.code.length := by
      cases h with
      | proceed hfetch => exact Vm.fetch_eq_some hfetch
      | jumped hfetch => exact Vm.fetch_eq_some hfetch
      | resume hfetch => exact Vm.fetch_eq_some hfetch
    refine ⟨hadvances.call, ?_⟩
    cases hadvances.gas.lt_or_eq with
    | inl hless => exact .inl hless
    | inr heq =>
      have hfree := hadvances.spends.resolve_left (by omega)
      refine .inr ⟨heq.symm, hfetch, hfree.1, fun hlength => ?_⟩
      have hone : (1 : U64).toNat = 1 := rfl
      rw [hfree.1, BitVec.toNat_add, hone]
      omega
  · intro vm vm' b call pending h
    refine ⟨(opens_step h).2, fun runFrame hdepth => ?_⟩
    unfold Vm.executeSub executeWithAccess
    rw [if_pos hdepth]
    exact ⟨_, rfl⟩
  · intro block tx call parentAccess parentOriginalStorage state
    obtain ⟨fuel, hfuel⟩ := finishes host config
      (Vm.enter block tx call parentAccess parentOriginalStorage state)
    refine ⟨fuel, fun more hle => ?_⟩
    unfold executeWithAccess
    dsimp only
    split
    · exact Execution.noConfusion
    · rw [run_mono hle hfuel]
      exact leave_ne_unfinished hfuel

end Qubitcoin.Evm
