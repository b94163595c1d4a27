import Qubitcoin.Evm.Metering
import Qubitcoin.Evm.StaticContext
import Qubitcoin.Library.CallTree

/-! The logs and refunds of an execution.  A frame hands its own to its caller, and the opcode
that started the frame leaves them there. -/

namespace Qubitcoin.Evm

open Command Exec Interpreter

/-- What a turn of the loop adds to the log or to the refund of its frame. -/
inductive Effect
  | log (entry : Log)
  | refund (amount : ℕ+)
  deriving DecidableEq

namespace Effect

def logs : List Effect → List Log
  | [] => []
  | .log entry :: es => entry :: logs es
  | .refund _ :: es => logs es

def refunds : List Effect → Nat
  | [] => 0
  | .log _ :: es => refunds es
  | .refund amount :: es => amount + refunds es

def weight : Effect → Nat
  | .log _ => 1
  | .refund amount => amount

theorem weight_pos : ∀ e : Effect, 0 < e.weight
  | .log _ => Nat.one_pos
  | .refund amount => amount.pos

theorem sum_weight (es : List Effect) : (es.map weight).sum = (logs es).length + refunds es := by
  induction es with
  | nil => rfl
  | cons e es ih =>
    cases e with
    | log entry =>
      simp only [List.map_cons, List.sum_cons, weight, logs, refunds, List.length_cons, ih]
      omega
    | refund amount =>
      simp only [List.map_cons, List.sum_cons, weight, logs, refunds, ih]
      omega

theorem logs_append (es es' : List Effect) : logs (es ++ es') = logs es ++ logs es' := by
  induction es with
  | nil => rfl
  | cons e es ih => cases e <;> simp [logs, ih]

theorem refunds_append (es es' : List Effect) :
    refunds (es ++ es') = refunds es + refunds es' := by
  induction es with
  | nil => simp [refunds]
  | cons e es ih => cases e <;> simp [refunds, ih, Nat.add_assoc]

theorem logs_map_log (entries : List Log) : logs (entries.map .log) = entries := by
  induction entries with
  | nil => rfl
  | cons entry entries ih => exact congrArg (entry :: ·) ih

theorem refunds_map_log (entries : List Log) : refunds (entries.map .log) = 0 := by
  induction entries with
  | nil => rfl
  | cons entry entries ih => exact ih

end Effect

/-- What the second state of a frame has beyond the first. -/
def Vm.effects (vm vm' : Vm) : List Effect :=
  (vm'.ctx.logs.drop vm.ctx.logs.length).map .log ++
    if h : 0 < vm'.ctx.gasRefund.toNat - vm.ctx.gasRefund.toNat then [.refund ⟨_, h⟩] else []

/-- The frame goes from one state to another with these effects. -/
structure Accrues (vm : Vm) (es : List Effect) (vm' : Vm) : Prop where
  logs : vm'.ctx.logs = vm.ctx.logs ++ Effect.logs es
  refund : vm'.ctx.gasRefund.toNat = vm.ctx.gasRefund.toNat + Effect.refunds es

theorem Accrues.trans {vm r t : Vm} {es es' : List Effect} (h : Accrues vm es r)
    (h' : Accrues r es' t) : Accrues vm (es ++ es') t where
  logs := by rw [h'.logs, h.logs, Effect.logs_append, List.append_assoc]
  refund := by rw [h'.refund, h.refund, Effect.refunds_append, Nat.add_assoc]

/-! ## Turns of the loop -/

/-- The log and the refund of the frame stay. -/
def unaccrued : Guarantee Vm := .fixing fun vm => (vm.ctx.logs, vm.ctx.gasRefund)

theorem unaccrued_stateful : Stateful unaccrued where
  stack _ _ := rfl
  memory _ _ := rfl
  returnData _ _ := rfl
  access _ _ := rfl
  gas vm amount ctx h := by
    rw [ExecutionContext.useGas_eq_some h]
    rfl
  stop _ := rfl
  revert _ := rfl
  state _ _ := rfl

/-- The log and the refund of the frame only grow. -/
def growing : Guarantee Vm where
  rel vm vm' := vm.ctx.logs <+: vm'.ctx.logs ∧ vm.ctx.gasRefund.toNat ≤ vm'.ctx.gasRefund.toNat
  refl _ := ⟨List.prefix_rfl, Nat.le_refl _⟩
  trans h h' := ⟨h.1.trans h'.1, h.2.trans h'.2⟩

theorem growing_stateful : Stateful growing where
  stack _ _ := ⟨List.prefix_rfl, Nat.le_refl _⟩
  memory _ _ := ⟨List.prefix_rfl, Nat.le_refl _⟩
  returnData _ _ := ⟨List.prefix_rfl, Nat.le_refl _⟩
  access _ _ := ⟨List.prefix_rfl, Nat.le_refl _⟩
  gas vm amount ctx h := by
    rw [ExecutionContext.useGas_eq_some h]
    exact ⟨List.prefix_rfl, Nat.le_refl _⟩
  stop _ := ⟨List.prefix_rfl, Nat.le_refl _⟩
  revert _ := ⟨List.prefix_rfl, Nat.le_refl _⟩
  state _ _ := ⟨List.prefix_rfl, Nat.le_refl _⟩

theorem growing_quiet : Quiet growing where
  toLocal := growing_stateful.toLocal
  pc _ _ := ⟨List.prefix_rfl, Nat.le_refl _⟩

theorem accrues_of_growing {vm vm' : Vm} (h : growing.rel vm vm') :
    Accrues vm (vm.effects vm') vm' := by
  obtain ⟨⟨new, hnew⟩, hrefund⟩ := h
  have hdrop : vm'.ctx.logs.drop vm.ctx.logs.length = new := by
    rw [← hnew, List.drop_left]
  unfold Vm.effects
  rw [hdrop]
  constructor
  · rw [Effect.logs_append, Effect.logs_map_log, ← hnew]
    split <;> simp [Effect.logs]
  · rw [Effect.refunds_append, Effect.refunds_map_log]
    split
    · simp only [Effect.refunds, PNat.mk_coe]
      omega
    · simp only [Effect.refunds]
      omega

theorem accrues_of_unaccrued {vm vm' : Vm} (h : unaccrued.rel vm vm') : Accrues vm [] vm' where
  logs := by
    rw [Effect.logs, List.append_nil]
    exact congrArg Prod.fst h
  refund := congrArg (BitVec.toNat ∘ Prod.snd) h

theorem accrues_advance (vm : Vm) : Accrues vm [] vm.advance := accrues_of_unaccrued rfl

theorem le_addRefund (gasRefund : U64) (refund : Int) :
    gasRefund.toNat ≤ (addRefund gasRefund refund).toNat := by
  have hmax := gasRefund.isLt
  unfold addRefund
  split
  · dsimp only
    split
    · rw [BitVec.toNat_allOnes]
      omega
    · next hfits =>
      rw [BitVec.lt_def, BitVec.toNat_sub, BitVec.toNat_allOnes] at hfits
      rw [BitVec.toNat_add]
      have hdelta := (BitVec.ofInt 64 refund).isLt
      omega
  · exact Nat.le_refl _

theorem growing_storeSlot : Keeps growing storeSlot := by
  have l := growing_stateful.toLocal
  unfold storeSlot
  refine l.mustPop1.bind fun _ => l.mustPop1.bind fun _ => (Quiet.reads _).bind fun _ => ?_
  refine (Quiet.reads _).bind fun _ => .bind (Quiet.modifies fun _ => growing.refl _) fun _ => ?_
  refine (Quiet.reads _).bind fun _ => (Quiet.reads _).bind fun _ => ?_
  refine .bind (Quiet.modifies fun _ => l.access _ _) fun _ => (l.charge _ _).bind fun _ => ?_
  refine .bind (Quiet.modifies fun vm => ⟨List.prefix_rfl, ?_⟩) fun _ =>
    growing_stateful.modifiesState _
  exact le_addRefund _ _

theorem growing_appendLog (numTopics : Nat) : Keeps growing (appendLog numTopics) := by
  have l := growing_stateful.toLocal
  have htopics := l.popTopics numTopics
  have hlog (vm : Vm) (log : Log) : growing.rel vm (vm.withLogs (vm.ctx.logs ++ [log])) :=
    ⟨List.prefix_append _ _, Nat.le_refl _⟩
  unfold appendLog
  grind

theorem growing_dispatch (host : Host) (op : Opcode) : Keeps growing (dispatch host op) := by
  have q := growing_stateful
  by_cases hop : op.writes = false
  · exact growing_quiet.dispatch host hop
  · cases op
    case sstore => exact keeps_refuseStatic _ (Quiet.proceeds growing_storeSlot)
    case log n => exact keeps_refuseStatic _ (Quiet.proceeds (growing_appendLog n))
    case create => exact q.opCreate host false
    case create2 => exact q.opCreate host true
    case call => exact q.opCall host .call
    case callcode => exact q.opCall host .callcode
    case delegatecall => exact q.opCall host .delegatecall
    case staticcall => exact q.opCall host .staticcall
    case selfdestruct => exact keeps_refuseStatic _ (Quiet.proceeds q.destroy)
    all_goals exact absurd rfl hop

theorem growing_step (host : Host) (b : UInt8) : Keeps growing (step host b) :=
  (growing_quiet.chargeConst b).bind fun _ => growing_dispatch host _

/-! ## The tree of an execution -/

/-- The opcode that started the frame keeps what it has done. -/
def Pending.keeps (vm : Vm) (r : ExecutionResult) : Pending → Bool
  | .call _ _ _ => r.success
  | .create _ _ => r.success && (r.returnData.isEmpty || (len64 r.returnData ≤ maxCodeSize &&
      (vm.ctx.useGas (gasCodeDeposit * len64 r.returnData + r.gasUsed)).isSome))

/-- The tree of a frame, by that of its loop; a frame that is too deep is not run. -/
def frameTree (config : InterpreterConfig) (loopTree : Vm → CallTree Effect) (call : CallContext)
    (entry : Vm) : CallTree Effect :=
  if config.maxCallDepth < call.depth then .done else loopTree entry

/-- The effects of the loop from a state on, and the frames it starts. -/
def callTree (host : Host) (config : InterpreterConfig) : Nat → Vm → CallTree Effect
  | 0, _ => .done
  | fuel + 1, vm =>
    match vm.fetch with
    | none => .done
    | some b =>
      match step host b vm with
      | .error _ vm' => .emitAll (vm.effects vm') .done
      | .ok .proceed vm' => .emitAll (vm.effects vm') (callTree host config fuel vm'.advance)
      | .ok .jumped vm' => .emitAll (vm.effects vm') (callTree host config fuel vm')
      | .ok (.subCall call pending) vm' =>
        .emitAll (vm.effects vm') <|
        match vm'.executeSub config (run host config fuel) call with
        | .returned result world =>
          .sub (pending.keeps vm' result)
            (frameTree config (callTree host config fuel) call (vm'.enterSub call)) <|
          match resume host pending result { vm' with world := world } with
          | .ok _ vm'' => callTree host config fuel vm''.advance
          | .error _ _ => .done
        | _ => .done

section Runs

variable {host : Host} {config : InterpreterConfig}

theorem halted_finished {vm vm' : Vm} {halt : Halt} {err : Option String}
    (h : vm.halted halt = .finished err vm') : unaccrued.rel vm vm' := by
  cases halt with
  | error e =>
    cases h
    rfl
  | stackUnderflow =>
    cases h
    rfl
  | panic => cases h

/-- A frame's log and refund are its own effects and no others. -/
theorem accrues_run {fuel : Nat} {vm vm' : Vm} {err : Option String}
    (h : run host config fuel vm = .finished err vm') :
    Accrues vm (callTree host config fuel vm).own vm' := by
  induction fuel generalizing vm with
  | zero => cases h
  | succ fuel ih =>
    unfold run at h
    unfold callTree
    cases hfetch : vm.fetch with
    | none =>
      rw [hfetch] at h
      cases h
      exact accrues_of_unaccrued rfl
    | some b =>
      simp only [hfetch] at h ⊢
      cases hstep : step host b vm with
      | error halt r =>
        simp only [hstep] at h ⊢
        rw [CallTree.own_emitAll]
        exact (accrues_of_growing ((growing_step host b).of_error hstep)).trans
          (accrues_of_unaccrued (halted_finished h))
      | ok next r =>
        have hturn := accrues_of_growing ((growing_step host b).of_ok hstep)
        simp only [hstep] at h ⊢
        cases next with
        | proceed =>
          simp only [CallTree.own_emitAll]
          exact hturn.trans ((accrues_advance r).trans (ih h))
        | jumped =>
          simp only [CallTree.own_emitAll]
          exact hturn.trans (ih h)
        | subCall call pending =>
          simp only [CallTree.own_emitAll] at h ⊢
          apply hturn.trans
          cases hexec : r.executeSub config (run host config fuel) call with
          | unfinished => simp only [hexec, reduceCtorEq] at h
          | panicked world => simp only [hexec, reduceCtorEq] at h
          | returned result world =>
            simp only [hexec] at h ⊢
            have hquiet := unaccrued_stateful.resume host pending result
            have hworld : Accrues r [] { r with world := world } := accrues_of_unaccrued rfl
            cases hresume : resume host pending result { r with world := world } with
            | error halt s =>
              simp only [hresume] at h ⊢
              exact hworld.trans ((accrues_of_unaccrued (hquiet.of_error hresume)).trans
                (accrues_of_unaccrued (halted_finished h)))
            | ok u s =>
              simp only [hresume] at h ⊢
              exact hworld.trans ((accrues_of_unaccrued (hquiet.of_ok hresume)).trans
                ((accrues_advance s).trans (ih h)))

variable {fuel : Nat} {block : BlockContext} {tx : Option TxContext} {call : CallContext}
  {parentAccess : Option AccessSet} {parentOriginalStorage : Option OriginalStorage}
  {state : StateDB} {result : ExecutionResult} {world : World}

theorem accrued_result (h : executeWithAccess config (run host config fuel) block tx call
      parentAccess parentOriginalStorage state = .returned result world) :
    let tree := frameTree config (callTree host config fuel) call
      (.enter block tx call parentAccess parentOriginalStorage state)
    result.logs = Effect.logs tree.own ∧ result.gasRefund.toNat = Effect.refunds tree.own := by
  unfold executeWithAccess at h
  unfold frameTree
  by_cases hdepth : config.maxCallDepth < call.depth
  · simp only [hdepth, if_true] at h ⊢
    cases h
    exact ⟨rfl, rfl⟩
  · simp only [hdepth, if_false] at h ⊢
    cases hrun : run host config fuel
        (.enter block tx call parentAccess parentOriginalStorage state) with
    | finished err vm =>
      rw [hrun] at h
      cases h
      have haccrues := accrues_run hrun
      refine ⟨haccrues.logs, ?_⟩
      rw [← Nat.zero_add (Effect.refunds _)]
      exact haccrues.refund
    | panicked vm =>
      rw [hrun] at h
      cases h
    | unfinished =>
      rw [hrun] at h
      cases h

end Runs

/-- The result holds the logs and refunds that survive exactly if none survives below the top
frame, and that frame succeeds or has none of its own. -/
theorem result_effects_iff (host : Host) (config : InterpreterConfig) (fuel : Nat)
    (block : BlockContext) (tx : Option TxContext) (call : CallContext)
    (parentAccess : Option AccessSet) (parentOriginalStorage : Option OriginalStorage)
    (state : StateDB) (result : ExecutionResult) (world : World)
    (h : executeWithAccess config (run host config fuel) block tx call parentAccess
      parentOriginalStorage state = .returned result world) :
    let tree := frameTree config (callTree host config fuel) call
      (.enter block tx call parentAccess parentOriginalStorage state)
    let surviving := (CallTree.sub result.success tree .done).survivors
    result.logs = Effect.logs surviving ∧ result.gasRefund.toNat = Effect.refunds surviving ↔
      if result.success then tree.Quiet else tree.own = [] := by
  obtain ⟨hlogs, hrefund⟩ := accrued_result h
  dsimp only at hlogs hrefund ⊢
  generalize frameTree config (callTree host config fuel) call
    (.enter block tx call parentAccess parentOriginalStorage state) = tree at hlogs hrefund ⊢
  rw [hlogs, hrefund]
  cases result.success with
  | true =>
    simp only [CallTree.survivors, if_true, List.append_nil]
    constructor
    · rintro ⟨hlogs, hrefunds⟩
      apply CallTree.quiet_of_sum_le Effect.weight_pos
      rw [Effect.sum_weight, Effect.sum_weight, hlogs, hrefunds]
    · intro hquiet
      rw [hquiet.survivors_eq]
      exact ⟨rfl, rfl⟩
  | false =>
    simp only [CallTree.survivors, Bool.false_eq_true, if_false, List.append_nil]
    constructor
    · rintro ⟨hlogs, hrefunds⟩
      have hsum := Effect.sum_weight tree.own
      rw [hlogs, hrefunds] at hsum
      cases hown : tree.own with
      | nil => rfl
      | cons e es =>
        have hpos := e.weight_pos
        rw [hown, List.map_cons, List.sum_cons] at hsum
        simp only [Effect.logs, Effect.refunds, List.length_nil] at hsum
        omega
    · intro hown
      rw [hown]
      exact ⟨rfl, rfl⟩

namespace Sample

/-- `PUSH1 0`, `PUSH1 0`, `LOG0`. -/
def logger : Bytes := [0x60, 0, 0x60, 0, 0xa0]

/-- `PUSH1 0` five times, `PUSH1 library`, `PUSH2 0x4000`, `CALL`. -/
def loggerCaller : Bytes :=
  [0x60, 0, 0x60, 0, 0x60, 0, 0x60, 0, 0x60, 0, 0x60, 0x20, 0x61, 0x40, 0, 0xf1]

def loggerState : StateDB := StateDB.setCode host.keccak256 .new library logger

def logCall (code : Bytes) : CallContext := { call code with isStatic := false }

def logRun (code : Bytes) : Execution :=
  executeWithAccess .default (run host .default 12) block (some tx) (logCall code) none none
    loggerState

def logTree (code : Bytes) : CallTree Effect :=
  frameTree .default (callTree host .default 12) (logCall code)
    (.enter block (some tx) (logCall code) none none loggerState)

/-- The execution ends with success and so many logs. -/
def LogsCount (n : Nat) : Execution → Prop
  | .returned result _ => result.success = true ∧ result.logs.length = n
  | _ => False

instance (n : Nat) (e : Execution) : Decidable (LogsCount n e) := by
  unfold LogsCount
  split
  · infer_instance
  · infer_instance

theorem LogsCount.returned {n : Nat} {e : Execution} (h : LogsCount n e) :
    ∃ result world, e = .returned result world ∧ result.success = true ∧ result.logs.length = n := by
  cases e with
  | returned result world => exact ⟨result, world, rfl, h⟩
  | panicked world => exact h.elim
  | unfinished => exact h.elim

theorem logger_logs : LogsCount 1 (logRun logger) := by decide +kernel

theorem logTree_logger : logTree logger = .emit (.log ⟨contract, [], []⟩) .done := by
  decide +kernel

theorem loggerCaller_logs : LogsCount 0 (logRun loggerCaller) := by decide +kernel

theorem logTree_loggerCaller :
    logTree loggerCaller = .sub true (.emit (.log ⟨library, [], []⟩) .done) .done := by
  decide +kernel

end Sample

/-- A contract that logs is called on its own. -/
theorem result_effects_sample : ∃ result world, Sample.logRun Sample.logger = .returned result world ∧
    result.logs = [⟨Sample.contract, [], []⟩] := by
  obtain ⟨result, world, hrun, hsuccess, -⟩ := Sample.logger_logs.returned
  have heffects : (result.logs = Effect.logs (CallTree.sub result.success
        (Sample.logTree Sample.logger) .done).survivors ∧ _) ↔
      if result.success then (Sample.logTree Sample.logger).Quiet else _ :=
    result_effects_iff Sample.host .default 12 Sample.block (some Sample.tx)
      (Sample.logCall Sample.logger) none none Sample.loggerState result world hrun
  rw [hsuccess, Sample.logTree_logger] at heffects
  exact ⟨result, world, hrun, (heffects.mpr trivial).1⟩

/-- The log of a contract that is called by another one is lost. -/
theorem log_lost : ¬∀ (host : Host) (config : InterpreterConfig) (fuel : Nat)
    (block : BlockContext) (tx : Option TxContext) (call : CallContext)
    (parentAccess : Option AccessSet) (parentOriginalStorage : Option OriginalStorage)
    (state : StateDB) (result : ExecutionResult) (world : World),
    executeWithAccess config (run host config fuel) block tx call parentAccess
      parentOriginalStorage state = .returned result world →
    result.logs = Effect.logs (CallTree.sub result.success
      (frameTree config (callTree host config fuel) call
        (.enter block tx call parentAccess parentOriginalStorage state)) .done).survivors := by
  intro h
  obtain ⟨result, world, hrun, hsuccess, hlogs⟩ := Sample.loggerCaller_logs.returned
  have hsurviving : result.logs = Effect.logs (CallTree.sub result.success
      (Sample.logTree Sample.loggerCaller) .done).survivors :=
    h Sample.host .default 12 Sample.block (some Sample.tx) (Sample.logCall Sample.loggerCaller)
      none none Sample.loggerState result world hrun
  rw [Sample.logTree_loggerCaller, hsuccess] at hsurviving
  rw [hsurviving] at hlogs
  cases hlogs

end Qubitcoin.Evm
