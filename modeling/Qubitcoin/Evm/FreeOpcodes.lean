import Qubitcoin.Evm.Metering

/-! The opcodes that may cost nothing.  They do not set the position, and they stop the frame
or shorten the stack; a sub-frame they start is one deeper. -/

namespace Qubitcoin.Evm

open Command Exec Interpreter

def Vm.height (vm : Vm) : Nat := vm.ctx.stack.data.length

/-- On success the position is the same and the stack has grown by at most `n`. -/
def Grows {α : Type} (n : Int) (x : Exec α) : Prop :=
  ∀ ⦃vm vm' : Vm⦄ ⦃a : α⦄, x vm = .ok a vm' →
    vm'.ctx.pc = vm.ctx.pc ∧ (vm'.height : Int) ≤ vm.height + n

variable {α β : Type}

theorem Grows.bind {m n : Int} {x : Exec α} {f : α → Exec β} (hx : Grows m x)
    (hf : ∀ a, Grows (n - m) (f a)) : Grows n (x >>= f) := by
  intro vm vm' b h
  obtain ⟨a, r, hrun, hrest⟩ := of_bind_ok h
  obtain ⟨hpc, hle⟩ := hx hrun
  obtain ⟨hpc', hle'⟩ := hf a hrest
  exact ⟨hpc'.trans hpc, by omega⟩

theorem Grows.mono {m n : Int} {x : Exec α} (hx : Grows m x) (h : m ≤ n) : Grows n x := by
  intro vm vm' a hrun
  obtain ⟨hpc, hle⟩ := hx hrun
  exact ⟨hpc, by omega⟩

theorem grows_pure (a : α) : Grows 0 (pure a : Exec α) := by
  intro vm vm' a' h
  cases h
  exact ⟨rfl, by omega⟩

theorem grows_ite {c : Prop} [Decidable c] {n : Int} {x y : Exec α} (hx : Grows n x)
    (hy : Grows n y) : Grows n (if c then x else y) := by
  split
  · exact hx
  · exact hy

theorem grows_reads (f : Vm → α) : Grows 0 (reads f) := by
  intro vm vm' a h
  cases h
  exact ⟨rfl, by omega⟩

theorem grows_fail (n : Int) (err : String) : Grows n (fail err : Exec α) := by
  intro vm vm' a h
  cases h

theorem grows_modifies {f : Vm → Vm} (hpc : ∀ vm, (f vm).ctx.pc = vm.ctx.pc)
    (hstack : ∀ vm, (f vm).ctx.stack = vm.ctx.stack) : Grows 0 (modifies f) := by
  intro vm vm' a h
  cases h
  refine ⟨hpc vm, ?_⟩
  rw [Vm.height, hstack]
  exact (Int.add_zero _).ge

theorem grows_modifiesState (f : StateDB → StateDB) : Grows 0 (modifiesState f) :=
  grows_modifies (fun _ => rfl) fun _ => rfl

theorem grows_mustPop1 : Grows (-1) mustPop1 := by
  intro vm vm' a h
  unfold mustPop1 at h
  split at h
  · next val stack hpop =>
    cases h
    refine ⟨rfl, ?_⟩
    unfold Stack.pop at hpop
    split at hpop
    · cases hpop
    · next data bounded words heq =>
      cases hpop
      simp only [Vm.height, Vm.withStack, heq, List.length_cons]
      omega
  · cases h

theorem grows_push (val : Int) : Grows 1 (push val) := by
  intro vm vm' a h
  unfold push onStack at h
  split at h
  · next stack hpush =>
    cases h
    refine ⟨rfl, ?_⟩
    change vm.ctx.stack.push val = .ok stack at hpush
    unfold Stack.push at hpush
    split at hpush
    · cases hpush
      simp only [Vm.height, Vm.withStack, List.length_cons]
      omega
    · cases hpush
  · cases h

theorem grows_useGas (amount : U64) : Grows 0 (useGas amount) := by
  intro vm vm' a h
  unfold useGas at h
  split at h
  · next ctx hctx =>
    cases h
    cases ExecutionContext.useGas_eq_some hctx
    exact ⟨rfl, by simp [Vm.height]⟩
  · cases h
    exact ⟨rfl, by omega⟩

theorem grows_charge (amount : U64) (err : String) : Grows 0 (charge amount err) :=
  (grows_useGas amount).bind fun _ => grows_ite (grows_pure _) (grows_fail 0 err)

theorem grows_resize (size : U64) : Grows 0 (resize size) := by
  intro vm vm' a h
  unfold resize at h
  split at h
  · cases h
    exact ⟨rfl, (Int.add_zero _).ge⟩
  · cases h

theorem grows_memoryGet (offset size : U64) : Grows 0 (memoryGet offset size) := by
  intro vm vm' a h
  unfold memoryGet at h
  split at h
  · cases h
    exact ⟨rfl, (Int.add_zero _).ge⟩
  · cases h

theorem grows_memorySet (offset : U64) (data : Bytes) : Grows 0 (memorySet offset data) := by
  intro vm vm' a h
  unfold memorySet onMemory at h
  split at h
  · cases h
    exact ⟨rfl, (Int.add_zero _).ge⟩
  · cases h

theorem grows_orPanic (a : Option α) : Grows 0 (orPanic a) := by
  cases a with
  | none =>
    intro vm vm' a h
    cases h
  | some a => exact grows_pure a

theorem grows_touchAddress (addr : Address) (surcharge : U64) (err : String) :
    Grows 0 (touchAddress addr surcharge err) := by
  have hwarm : Grows 0
      (modifies fun vm => vm.withAccess (vm.world.accessList.markAddressWarm addr)) :=
    grows_modifies (fun _ => rfl) fun _ => rfl
  exact (grows_reads _).bind fun _ =>
    grows_ite (grows_pure _) (hwarm.bind fun _ => grows_charge _ _)

theorem grows_proceeds {n : Int} {x : Exec Unit} (h : Grows n x) : Grows n (proceeds x) :=
  h.bind fun _ => (grows_pure _).mono (by omega)

theorem grows_refuseStatic {n : Int} {x : Exec Next} (err : String) (h : Grows n x) :
    Grows n (refuseStatic err x) :=
  (grows_reads _).bind fun _ => grows_ite (grows_fail _ err) (h.mono (by omega))

theorem grows_snapshot : Grows 0 snapshot :=
  (grows_reads _).bind fun _ => (grows_modifiesState _).bind fun _ => grows_pure _

theorem grows_giveUp (snapID : Nat) : Grows 1 (giveUp snapID) :=
  (grows_modifiesState _).bind fun _ => grows_push 0

theorem grows_chargeConst (b : UInt8) : Grows 0 (chargeConst b) := by
  unfold chargeConst
  split
  · exact grows_pure _
  · exact (grows_reads _).bind fun _ => grows_charge _ _

theorem grows_withReturnData (data : Bytes) :
    Grows 0 (modifies fun vm => vm.withReturnData data) :=
  grows_modifies (fun _ => rfl) fun _ => rfl

theorem grows_copyOutput (retOff retLen : U64) (output : Bytes) :
    Grows 0 (copyOutput retOff retLen output) :=
  grows_ite (grows_memorySet _ _) (grows_pure _)

theorem grows_callOperands (kind : CallKind) : Grows (-6) (callOperands kind) := by
  refine grows_mustPop1.bind fun _ => grows_mustPop1.bind fun _ =>
    grows_ite (grows_mustPop1.bind fun _ => ?_) ((grows_pure _).bind fun _ => ?_) <;>
  exact grows_mustPop1.bind fun _ => grows_mustPop1.bind fun _ => grows_mustPop1.bind fun _ =>
    grows_mustPop1.bind fun _ => (grows_pure _).mono (by decide)

theorem grows_callMemory (o : CallOperands) : Grows 0 (callMemory o) :=
  (grows_resize _).bind fun _ => (grows_resize _).bind fun _ => grows_charge _ _

theorem grows_answerPrecompile (retOff retLen : U64) (output : Except String Bytes) :
    Grows 1 (answerPrecompile retOff retLen output) := by
  cases output with
  | error err => exact grows_push 0
  | ok output =>
    exact (grows_withReturnData output).bind fun _ => (grows_copyOutput _ _ _).bind fun _ =>
      grows_push 1

theorem grows_callPrecompile (host : Host) (o : CallOperands) : Grows 1 (callPrecompile host o) :=
  (grows_memoryGet _ _).bind fun _ => (grows_reads _).bind fun _ => (grows_orPanic _).bind fun _ =>
    (grows_useGas _).bind fun _ => grows_answerPrecompile _ _ _

theorem grows_callGas (o : CallOperands) : Grows 0 (callGas o) := by
  refine (grows_touchAddress _ _ _).bind fun _ => (grows_reads _).bind fun _ => grows_ite ?_ ?_
  · refine (grows_charge _ _).bind fun _ => (grows_reads _).bind fun _ => grows_ite ?_ ?_
    · exact (grows_memoryGet _ _).bind fun _ => grows_pure _
    · exact (grows_charge _ _).bind fun _ => (grows_memoryGet _ _).bind fun _ => grows_pure _
  · exact (grows_memoryGet _ _).bind fun _ => grows_pure _

theorem grows_prepareCall (host : Host) (kind : CallKind) : Grows (-5) (prepareCall host kind) := by
  refine (grows_callOperands kind).bind fun o => (grows_callMemory o).bind fun _ => grows_ite ?_ ?_
  · exact (grows_callPrecompile host o).bind fun _ => grows_pure _
  · exact (grows_callGas o).bind fun _ => (grows_pure _).mono (by decide)

theorem grows_transferValue (sender toAddr : Address) (callValue : Int) :
    Grows 0 (transferValue sender toAddr callValue) := by
  refine (grows_reads _).bind fun _ => grows_ite (grows_pure _) ?_
  refine (grows_modifiesState _).bind fun _ => (grows_reads _).bind fun _ => ?_
  exact grows_ite (grows_pure _) ((grows_modifiesState _).bind fun _ => grows_pure _)

theorem grows_finishCall (snapID : Nat) (retOff retLen : U64) (r : ExecutionResult) :
    Grows 1 (finishCall snapID retOff retLen r) := by
  refine (grows_useGas _).bind fun _ => (grows_withReturnData _).bind fun _ => ?_
  exact grows_ite ((grows_copyOutput _ _ _).bind fun _ => grows_push 1) (grows_giveUp _)

theorem grows_enterTarget (kind : CallKind) (request : CallRequest) (call : CallContext)
    (snapID : Nat) : Grows 1 (enterTarget kind request call snapID) := by
  refine (grows_reads _).bind fun _ => grows_ite ?_ ((grows_pure _).mono (by omega))
  exact (grows_finishCall _ _ _ _).bind fun _ => grows_pure _

theorem grows_startCall (kind : CallKind) (request : CallRequest) :
    Grows 1 (startCall kind request) := by
  have hrest (call : CallContext) (snapID : Nat) (paid : Bool) :
      Grows 1 (if paid then enterTarget kind request call snapID else do
        giveUp snapID
        pure .proceed) :=
    grows_ite (grows_enterTarget _ _ _ _) ((grows_giveUp snapID).bind fun _ => grows_pure _)
  refine grows_snapshot.bind fun snapID => (grows_reads _).bind fun call => grows_ite ?_ ?_
  · exact (grows_transferValue _ _ _).bind fun paid => hrest call snapID paid
  · exact (grows_pure true).bind fun paid => hrest call snapID paid

theorem grows_opCall (host : Host) (kind : CallKind) : Grows (-4) (opCall host kind) := by
  apply (grows_prepareCall host kind).bind
  intro request
  cases request with
  | none => exact (grows_pure _).mono (by decide)
  | some request => exact grows_startCall kind request

theorem grows_chargeCreate {value offset size : Int} {salt : Option Int} {amount : U64}
    {vm vm' : Vm} {request : Option CreateRequest}
    (h : chargeCreate value offset size salt amount vm = .ok request vm') :
    vm'.ctx.pc = vm.ctx.pc ∧ (vm'.height : Int) ≤ vm.height + if request.isSome then 0 else 1 := by
  obtain ⟨memCost, r, hresize, h⟩ := of_bind_ok h
  obtain ⟨_, r', hcharge, h⟩ := of_bind_ok h
  obtain ⟨initCode, r'', hget, h⟩ := of_bind_ok h
  obtain ⟨hpc, hle⟩ := grows_resize _ hresize
  obtain ⟨hpc', hle'⟩ := grows_charge _ _ hcharge
  obtain ⟨hpc'', hle''⟩ := grows_memoryGet _ _ hget
  have hmiddle : r''.ctx.pc = vm.ctx.pc := hpc''.trans (hpc'.trans hpc)
  split at h
  · obtain ⟨_, t, hpush, h⟩ := of_bind_ok h
    cases h
    obtain ⟨hpush_pc, hpush_le⟩ := grows_push 0 hpush
    refine ⟨hpush_pc.trans hmiddle, ?_⟩
    change _ ≤ (vm.height : Int) + 1
    omega
  · cases h
    refine ⟨hmiddle, ?_⟩
    change _ ≤ (vm.height : Int) + 0
    omega

theorem grows_prepareCreate {isCreate2 : Bool} {vm vm' : Vm} {request : Option CreateRequest}
    (h : prepareCreate isCreate2 vm = .ok request vm') :
    vm'.ctx.pc = vm.ctx.pc ∧
      (vm'.height : Int) ≤ vm.height + if request.isSome then -3 else -2 := by
  rw [prepareCreate_eq] at h
  have hsalt : Grows 0 (if isCreate2 then some <$> mustPop1 else pure none) :=
    grows_ite (grows_mustPop1.bind fun _ => (grows_pure _).mono (by decide)) (grows_pure _)
  obtain ⟨value, r, hvalue, h⟩ := of_bind_ok h
  obtain ⟨offset, r', hoffset, h⟩ := of_bind_ok h
  obtain ⟨size, r'', hsize, h⟩ := of_bind_ok h
  obtain ⟨salt, t, hpop, h⟩ := of_bind_ok h
  obtain ⟨hpc₁, hle₁⟩ := grows_mustPop1 hvalue
  obtain ⟨hpc₂, hle₂⟩ := grows_mustPop1 hoffset
  obtain ⟨hpc₃, hle₃⟩ := grows_mustPop1 hsize
  obtain ⟨hpc₄, hle₄⟩ := hsalt hpop
  obtain ⟨hpc, hle⟩ := grows_chargeCreate h
  refine ⟨hpc.trans (hpc₄.trans (hpc₃.trans (hpc₂.trans hpc₁))), ?_⟩
  split at hle <;> simp_all <;> omega

theorem grows_endow (sender newAddr : Address) (val : Int) : Grows 0 (endow sender newAddr val) := by
  refine (grows_reads _).bind fun _ => grows_ite (grows_ite (grows_pure _) ?_) (grows_pure _)
  exact (grows_modifiesState _).bind fun _ => (grows_modifiesState _).bind fun _ => grows_pure _

theorem grows_startCreate (host : Host) (request : CreateRequest) :
    Grows 1 (startCreate host request) := by
  refine (grows_reads _).bind fun _ => (grows_reads _).bind fun _ =>
    (grows_modifiesState _).bind fun _ => grows_snapshot.bind fun snapID =>
      (grows_modifiesState _).bind fun _ => (grows_endow _ _ _).bind fun _ => grows_ite ?_ ?_
  · exact (grows_reads _).bind fun _ => (grows_reads _).bind fun _ =>
      (grows_pure _).mono (by decide)
  · exact (grows_giveUp snapID).bind fun _ => grows_pure _

theorem grows_opCreate (host : Host) (isCreate2 : Bool) : Grows (-2) (opCreate host isCreate2) := by
  apply grows_refuseStatic
  intro vm vm' next h
  obtain ⟨request, r, hprepare, hstart⟩ := of_bind_ok h
  obtain ⟨hpc, hle⟩ := grows_prepareCreate hprepare
  cases request with
  | none =>
    cases hstart
    exact ⟨hpc, hle⟩
  | some request =>
    obtain ⟨hpc', hle'⟩ := grows_startCreate host request hstart
    refine ⟨hpc'.trans hpc, ?_⟩
    simp only [Option.isSome_some, if_true] at hle
    omega

theorem grows_resume (host : Host) (pending : Pending) (r : ExecutionResult) :
    Grows 1 (resume host pending r) := by
  cases pending with
  | call snapID retOff retLen => exact grows_finishCall snapID retOff retLen r
  | create snapID newAddr =>
    refine grows_ite (grows_ite (grows_giveUp _) ?_) ?_
    · refine (grows_useGas _).bind fun _ => grows_ite ?_ (grows_giveUp _)
      exact (grows_modifiesState _).bind fun _ => grows_push _
    · exact (grows_useGas _).bind fun _ => grows_ite (grows_push _) (grows_giveUp _)

/-- The next frame of an opcode is one below its own, and the position is not set. -/
def Opens (call : CallContext) : Next → Prop
  | .proceed => True
  | .jumped => False
  | .subCall sub _ => sub.depth = call.depth + 1

theorem opens_startCall {kind : CallKind} {request : CallRequest} {vm vm' : Vm} {next : Next}
    (h : startCall kind request vm = .ok next vm') : Opens vm.ctx.call next := by
  obtain ⟨snapID, r, hsnapshot, h⟩ := of_bind_ok h
  obtain ⟨call, r', hcall, h⟩ := of_bind_ok h
  have hkept := metered_wide.snapshot.of_ok hsnapshot
  cases hcall
  have hrest (paid : Bool) {t : Vm} (h : (if paid then enterTarget kind request r.ctx.call snapID
      else do
        giveUp snapID
        pure .proceed) t = .ok next vm') : Opens vm.ctx.call next := by
    split at h
    · obtain ⟨code, t', hcode, h⟩ := of_bind_ok h
      split at h
      · obtain ⟨_, t'', -, hpure⟩ := of_bind_ok h
        cases hpure
        trivial
      · cases h
        cases kind <;> exact congrArg (fun call => call.depth + 1) hkept.1
    · obtain ⟨_, t', -, hpure⟩ := of_bind_ok h
      cases hpure
      trivial
  split at h
  · obtain ⟨paid, t, -, h⟩ := of_bind_ok h
    exact hrest paid h
  · exact hrest true h

theorem opens_opCall {host : Host} {kind : CallKind} {vm vm' : Vm} {next : Next}
    (h : opCall host kind vm = .ok next vm') : Opens vm.ctx.call next := by
  obtain ⟨request, r, hprepare, h⟩ := of_bind_ok h
  have hkept := (metered_quiet.prepareCall host kind).of_ok hprepare
  cases request with
  | none =>
    cases h
    trivial
  | some request =>
    rw [← hkept.1]
    exact opens_startCall h

theorem opens_opCreate {host : Host} {isCreate2 : Bool} {vm vm' : Vm} {next : Next}
    (h : opCreate host isCreate2 vm = .ok next vm') : Opens vm.ctx.call next := by
  obtain ⟨isStatic, r, hstatic, h⟩ := of_bind_ok h
  cases hstatic
  split at h
  · cases h
  · obtain ⟨request, t, hprepare, h⟩ := of_bind_ok h
    cases request with
    | none =>
      cases h
      trivial
    | some request =>
      obtain ⟨sender, t₁, hsender, h⟩ := of_bind_ok h
      obtain ⟨nonce, t₂, hnonce, h⟩ := of_bind_ok h
      obtain ⟨_, t₃, hset, h⟩ := of_bind_ok h
      obtain ⟨snapID, t₄, hsnapshot, h⟩ := of_bind_ok h
      obtain ⟨_, t₅, hcreate, h⟩ := of_bind_ok h
      obtain ⟨paid, t₆, hendow, h⟩ := of_bind_ok h
      have hkept : metered.rel vm t₆ :=
        metered.trans ((metered_quiet.prepareCreate isCreate2).of_ok hprepare) <|
          metered.trans ((Quiet.reads _).of_ok hsender) <|
          metered.trans ((Quiet.reads _).of_ok hnonce) <|
          metered.trans ((metered_wide.modifiesState _).of_ok hset) <|
          metered.trans (metered_wide.snapshot.of_ok hsnapshot) <|
          metered.trans ((metered_wide.modifiesState _).of_ok hcreate)
            ((metered_wide.endow _ _ _).of_ok hendow)
      split at h
      · cases h
        exact congrArg (fun call => call.depth + 1) hkept.1
      · obtain ⟨_, t₇, -, hpure⟩ := of_bind_ok h
        cases hpure
        trivial

theorem returns_ok {err : String} {leave : Vm → Vm} {vm vm' : Vm} {u : Unit}
    (hpc : ∀ vm, (leave vm).ctx.pc = vm.ctx.pc) (hstop : ∀ vm, (leave vm).ctx.stopped = true)
    (h : returns err leave vm = .ok u vm') :
    vm'.ctx.pc = vm.ctx.pc ∧ vm'.ctx.stopped = true := by
  obtain ⟨offset, r₁, hoffset, h⟩ := of_bind_ok h
  obtain ⟨size, r₂, hsize, h⟩ := of_bind_ok h
  obtain ⟨memCost, r₃, hresize, h⟩ := of_bind_ok h
  obtain ⟨_, r₄, hcharge, h⟩ := of_bind_ok h
  obtain ⟨data, r₅, hget, h⟩ := of_bind_ok h
  cases h
  refine ⟨?_, hstop _⟩
  calc (leave (r₅.withReturnData data)).ctx.pc = r₅.ctx.pc := hpc _
    _ = r₄.ctx.pc := (grows_memoryGet _ _ hget).1
    _ = r₃.ctx.pc := (grows_charge _ _ hcharge).1
    _ = r₂.ctx.pc := (grows_resize _ hresize).1
    _ = r₁.ctx.pc := (grows_mustPop1 hsize).1
    _ = vm.ctx.pc := (grows_mustPop1 hoffset).1

/-- What a free opcode does: the position is not set, and the frame stops or its stack gets
shorter, by more than what a sub-frame adds on its return. -/
structure FreeTurn (vm : Vm) (next : Next) (vm' : Vm) : Prop where
  pc : vm'.ctx.pc = vm.ctx.pc
  opens : Opens vm.ctx.call next
  shrinks : next = .proceed ∧ vm'.ctx.stopped = true ∨ vm'.height + 2 ≤ vm.height

section Opcodes

variable {host : Host} {vm vm' : Vm} {next : Next}

theorem freeTurn_opCall {kind : CallKind} (h : opCall host kind vm = .ok next vm') :
    FreeTurn vm next vm' := by
  obtain ⟨hpc, hle⟩ := grows_opCall host kind h
  exact ⟨hpc, opens_opCall h, .inr (by omega)⟩

theorem freeTurn_opCreate {isCreate2 : Bool} (h : opCreate host isCreate2 vm = .ok next vm') :
    FreeTurn vm next vm' := by
  obtain ⟨hpc, hle⟩ := grows_opCreate host isCreate2 h
  exact ⟨hpc, opens_opCreate h, .inr (by omega)⟩

theorem freeTurn_returns {err : String} {leave : Vm → Vm}
    (hpc : ∀ vm, (leave vm).ctx.pc = vm.ctx.pc) (hstop : ∀ vm, (leave vm).ctx.stopped = true)
    (h : proceeds (returns err leave) vm = .ok next vm') : FreeTurn vm next vm' := by
  obtain ⟨_, r, hrun, hpure⟩ := of_bind_ok h
  cases hpure
  obtain ⟨hpc', hstopped⟩ := returns_ok hpc hstop hrun
  exact ⟨hpc', trivial, .inl ⟨rfl, hstopped⟩⟩

theorem freeTurn_dispatch {op : Opcode} (hfree : op.free = true)
    (h : dispatch host op vm = .ok next vm') : FreeTurn vm next vm' := by
  cases op
  case stop =>
    cases h
    exact ⟨rfl, trivial, .inl ⟨rfl, rfl⟩⟩
  case ret =>
    rw [dispatch] at h
    apply freeTurn_returns _ _ h <;> exact fun vm => rfl
  case revert =>
    rw [dispatch] at h
    apply freeTurn_returns _ _ h <;> exact fun vm => rfl
  case create => exact freeTurn_opCreate h
  case create2 => exact freeTurn_opCreate h
  case call => exact freeTurn_opCall h
  case callcode => exact freeTurn_opCall h
  case delegatecall => exact freeTurn_opCall h
  case staticcall => exact freeTurn_opCall h
  all_goals cases hfree

theorem freeTurn_step {b : UInt8} (hfree : (Opcode.ofByte b).free = true)
    (h : step host b vm = .ok next vm') : FreeTurn vm next vm' := by
  obtain ⟨_, r, hcharge, h⟩ := of_bind_ok h
  obtain ⟨hpc, hle⟩ := grows_chargeConst b hcharge
  have hkept := (metered_quiet.chargeConst b).of_ok hcharge
  have hturn := freeTurn_dispatch hfree h
  refine ⟨hturn.pc.trans hpc, hkept.1 ▸ hturn.opens, hturn.shrinks.imp id ?_⟩
  intro hshort
  omega

end Opcodes

end Qubitcoin.Evm
