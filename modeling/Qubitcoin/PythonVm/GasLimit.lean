import Qubitcoin.PythonVm.InterpreterLaws

/-! The gas that an execution of the Python QVM reports against the limit it was given. -/

namespace Qubitcoin.PythonVm

open Command Exec Interpreter

/-- Charges are made within the limit; the message stays. -/
def metered : Guarantee Vm where
  rel vm vm' := vm'.ctx.toMessage = vm.ctx.toMessage ∧ vm.ctx.gasUsed ≤ vm'.ctx.gasUsed ∧
    (vm'.ctx.gasUsed = vm.ctx.gasUsed ∨ vm'.ctx.gasUsed ≤ vm.ctx.gas)
  refl _ := ⟨rfl, le_rfl, .inl rfl⟩
  trans := by
    rintro s t r ⟨hmessage, hle, hcharge⟩ ⟨hmessage', hle', hcharge'⟩
    have hgas : t.ctx.gas = s.ctx.gas := congrArg Message.gas hmessage
    refine ⟨hmessage'.trans hmessage, hle.trans hle', ?_⟩
    omega

theorem wide_metered : Wide metered where
  gas _ _ h := ⟨rfl, Nat.le_add_right _ _, .inr h⟩
  stack _ _ := metered.refl _
  memory _ _ := metered.refl _
  pc _ _ := metered.refl _
  returnData _ _ := metered.refl _
  refund _ _ := metered.refl _
  original _ _ := metered.refl _
  address _ _ := metered.refl _
  slot _ _ := metered.refl _
  tick _ := metered.refl _
  stop _ := metered.refl _
  revert _ := metered.refl _
  logs _ _ := metered.refl _
  cache _ _ := metered.refl _

/-- The gas used is at most the limit. -/
def Vm.Fits (vm : Vm) : Prop := vm.ctx.gasUsed ≤ vm.ctx.gas

section Charges

variable {vm vm' : Vm}

theorem metered_fits (h : metered.rel vm vm') (hfits : vm.Fits) : vm'.Fits := by
  have hgas : vm'.ctx.gas = vm.ctx.gas := congrArg Message.gas h.1
  have hcharge := h.2.2
  unfold Vm.Fits at hfits ⊢
  omega

theorem useGas_ok {amount : ℕ} {u : Unit} (h : useGas amount vm = .ok u vm') :
    vm.ctx.gasUsed + amount ≤ vm.ctx.gas ∧ vm' = vm.addGas amount := by
  unfold useGas at h
  split at h
  · cases h
  · next hle =>
    cases h
    exact ⟨not_lt.mp hle, rfl⟩

theorem useGas_error {amount : ℕ} {halt : Halt} (h : useGas amount vm = .error halt vm') :
    vm' = vm ∧ ∃ err, halt = .outOfGas err := by
  unfold useGas at h
  split at h
  · cases h
    exact ⟨rfl, _, rfl⟩
  · cases h

theorem useGas_overdrawn (h : ¬vm.Fits) (amount : ℕ) :
    ∃ err, useGas amount vm = .error (.outOfGas err) vm := by
  have hlt : vm.ctx.gas < vm.ctx.gasUsed + amount := by
    unfold Vm.Fits at h
    omega
  exact ⟨_, if_pos hlt⟩

end Charges

/-- What an exception adds to the gas used. -/
def burnt (ctx : ExecutionContext) : Halt → ℤ
  | .outOfGas _ => ctx.gas - ctx.gasUsed
  | .execution _ | .internal _ => 0

theorem ofHalt_gasUsed (host : Host) (ctx : ExecutionContext) (halt : Halt) :
    ((ExecutionResult.ofHalt host ctx halt).gasUsed : ℤ) = ctx.gasUsed + burnt ctx halt := by
  cases halt with
  | outOfGas err => exact (add_sub_cancel (ctx.gasUsed : ℤ) ctx.gas).symm
  | execution err => exact (add_zero _).symm
  | internal fault => exact (add_zero _).symm

/-- Out of gas or not, an exception in a frame within its limit leaves it there. -/
theorem ofHalt_gasUsed_le (host : Host) {vm : Vm} (h : vm.Fits) (halt : Halt) :
    (ExecutionResult.ofHalt host vm.ctx halt).gasUsed ≤ vm.ctx.gas := by
  cases halt with
  | outOfGas err => exact le_rfl
  | execution err => exact h
  | internal fault => exact h

theorem refund_le (ctx : ExecutionContext) : ExecutionResult.refund ctx ≤ ctx.gasUsed := by
  unfold ExecutionResult.refund
  split
  · exact Nat.zero_le _
  · exact min_le_right _ _

section Step

variable {host : Host} {b : UInt8} {vm vm' : Vm}

theorem step_ok {next : Next} (h : step host b vm = .ok next vm') :
    vm.Fits ∧ vm'.Fits ∧ vm'.ctx.toMessage = vm.ctx.toMessage ∧
      vm.ctx.gasUsed + getGasCost (.ofByte b) ≤ vm'.ctx.gasUsed := by
  obtain ⟨_, r, hcharge, hdispatch⟩ := of_bind_ok h
  obtain ⟨hle, rfl⟩ := useGas_ok hcharge
  have hburns : (Opcode.ofByte b).burns = false := by
    by_contra hburns
    obtain ⟨err, heq⟩ := dispatch_burns host (Bool.not_eq_false _ ▸ hburns) (vm.addGas _)
    rw [heq] at hdispatch
    cases hdispatch
  have hrel := (wide_metered.dispatch host hburns).of_ok hdispatch
  exact ⟨(Nat.le_add_right _ _).trans hle, metered_fits hrel hle, hrel.1, hrel.2.1⟩

theorem step_overdrawn (host : Host) (b : UInt8) (h : ¬vm.Fits) :
    ∃ err, step host b vm = .error (.outOfGas err) vm := by
  obtain ⟨err, heq⟩ := useGas_overdrawn h (getGasCost (.ofByte b))
  exact ⟨err, bind_error heq⟩

theorem step_error (hfits : vm.Fits) {halt : Halt} (h : step host b vm = .error halt vm') :
    vm'.Fits ∧ vm'.ctx.toMessage = vm.ctx.toMessage := by
  cases hcharge : useGas (getGasCost (.ofByte b)) vm with
  | error halt' r =>
    rw [step, bind_error hcharge] at h
    cases h
    obtain ⟨rfl, -⟩ := useGas_error hcharge
    exact ⟨hfits, rfl⟩
  | ok u r =>
    rw [step, bind_ok hcharge] at h
    obtain ⟨hle, rfl⟩ := useGas_ok hcharge
    by_cases hburns : (Opcode.ofByte b).burns = true
    · obtain ⟨err, heq⟩ := dispatch_burns host hburns (vm.addGas (getGasCost (.ofByte b)))
      rw [heq] at h
      cases h
      exact ⟨le_rfl, rfl⟩
    · have hrel := (wide_metered.dispatch host (Bool.not_eq_true _ ▸ hburns)).of_error h
      exact ⟨metered_fits hrel hle, hrel.1⟩

end Step

/-- The command charges for something. -/
def Spends {α : Type} (x : Exec α) : Prop :=
  ∀ vm a vm', x vm = .ok a vm' → vm.ctx.gasUsed < vm'.ctx.gasUsed

namespace Spends

variable {α β : Type} {x : Exec α} {f : α → Exec β}

theorem bind_left (hx : Spends x) (hf : ∀ a, Keeps metered (f a)) : Spends (x >>= f) := by
  intro vm b vm' hrun
  obtain ⟨a, r, hfirst, hrest⟩ := of_bind_ok hrun
  exact (hx vm a r hfirst).trans_le ((hf a).of_ok hrest).2.1

theorem bind_right (hx : Keeps metered x) (hf : ∀ a, Spends (f a)) : Spends (x >>= f) := by
  intro vm b vm' hrun
  obtain ⟨a, r, hfirst, hrest⟩ := of_bind_ok hrun
  exact (hx.of_ok hfirst).2.1.trans_lt (hf a r b vm' hrest)

theorem ite {c : Prop} [Decidable c] {y : Exec α} (hx : Spends x) (hy : Spends y) :
    Spends (if c then x else y) := by
  split
  · exact hx
  · exact hy

theorem useGas {amount : ℕ} (h : 0 < amount) : Spends (useGas amount) := by
  intro vm _ vm' hrun
  obtain ⟨-, rfl⟩ := useGas_ok hrun
  exact Nat.lt_add_of_pos_right h

theorem accessAddress (addr : String) : Spends (accessAddress addr) := by
  refine bind_right (keeps_reads _) fun warm => ite (useGas (by decide)) ?_
  exact bind_right (keeps_modifies fun _ => wide_metered.address _ _) fun _ => useGas (by decide)

theorem accessSlot (slot : String × String) : Spends (accessSlot slot) := by
  refine bind_right (keeps_reads _) fun warm => ite (useGas (by decide)) ?_
  exact bind_right (keeps_modifies fun _ => wide_metered.slot _ _) fun _ => useGas (by decide)

theorem chargeStore (originalHex currentHex valHex : String) (newIsZero : Bool) (coldCost : ℕ) :
    Spends (chargeStore originalHex currentHex valHex newIsZero coldCost) := by
  have hrefund (f : Vm → ℕ) : Keeps metered (modifies fun vm => vm.withRefund (f vm)) :=
    keeps_modifies fun _ => wide_metered.refund _ _
  refine ite (useGas (by omega)) (ite (ite (useGas (by omega)) ?_) ?_)
  · exact bind_left (useGas (by omega)) fun _ => .ite (hrefund _) (.pure _)
  · exact bind_left (useGas (by omega)) fun _ => .ite (hrefund _) (.ite (hrefund _) (.pure _))

theorem proceeds {x : Exec Unit} (h : Spends x) : Spends (proceeds x) :=
  bind_left h fun _ => .pure _

theorem opCall (host : Host) (kind : CallKind) : Spends (opCall host kind) := by
  have q := wide_metered.toQuiet
  refine bind_right (q.callOperands kind) fun o => ?_
  refine bind_right (q.refuseValue kind o.value) fun _ => ?_
  refine bind_left (accessAddress _) fun _ => (q.memoryRead host _ _).bind fun data => ?_
  exact .ite (keeps_reads _) (q.callCode host kind o _ data)

theorem storeSlot (host : Host) : Spends (storeSlot host) := by
  have q := wide_metered.toQuiet
  refine bind_right q.pop fun key => bind_right q.pop fun value => ?_
  refine bind_right (keeps_reads _) fun address => bind_right (q.currentValue host _ _) fun _ => ?_
  refine bind_right (q.originalValue host _ _) fun _ => bind_right (keeps_reads _) fun _ => ?_
  refine bind_right (keeps_modifies fun _ => wide_metered.slot _ _) fun _ => ?_
  exact bind_left (chargeStore _ _ _ _ _) fun _ =>
    keeps_modifies fun _ => wide_metered.cache _ _

theorem opExtCodeCopy (host : Host) : Spends (opExtCodeCopy host) := by
  have q := wide_metered.toQuiet
  refine bind_right q.pop fun addrInt => bind_right q.pop fun dest => ?_
  refine bind_right q.pop fun offset => bind_right q.pop fun size => ?_
  exact bind_left (accessAddress _) fun _ => (q.codeOf host _).bind fun code =>
    q.copies host code dest offset size

/-- The opcodes without a cost of their own charge for something, end the frame or take all the
gas. -/
theorem dispatch (host : Host) {op : Opcode} (hcost : getGasCost op = 0) :
    Spends (dispatch host op) ∨ op = .stop ∨ op = .ret ∨ op = .revert ∨ op.burns = true := by
  have q := wide_metered.toQuiet
  cases op
  case stop => exact .inr (.inl rfl)
  case ret => exact .inr (.inr (.inl rfl))
  case revert => exact .inr (.inr (.inr (.inl rfl)))
  case invalid => exact .inr (.inr (.inr (.inr rfl)))
  case unknown => exact .inr (.inr (.inr (.inr rfl)))
  case balance =>
    refine .inl (proceeds (bind_right q.pop fun addrInt => bind_left (accessAddress _) fun _ => ?_))
    exact (q.balanceOf host _).bind fun balance => q.push balance
  case extcodesize =>
    refine .inl (proceeds (bind_right q.pop fun addrInt => bind_left (accessAddress _) fun _ => ?_))
    exact (q.bytecodeOf host _).bind fun bc => q.push _
  case extcodehash =>
    refine .inl (proceeds (bind_right q.pop fun addrInt => bind_left (accessAddress _) fun _ => ?_))
    exact (q.codeHashOf host _).bind fun codeHash => q.push codeHash
  case extcodecopy => exact .inl (proceeds (opExtCodeCopy host))
  case sload =>
    refine .inl (proceeds (bind_right q.pop fun key => ?_))
    refine bind_right (keeps_reads _) fun address => ?_
    exact bind_left (accessSlot _) fun _ => q.loadSlot host _ _
  case sstore =>
    refine .inl (bind_right (keeps_reads _) fun isStatic => ?_)
    split
    · intro vm next vm' hrun
      cases hrun
    · exact proceeds (storeSlot host)
  case call => exact .inl (opCall host .call)
  case callcode => exact .inl (opCall host .callcode)
  case delegatecall => exact .inl (opCall host .delegatecall)
  case staticcall => exact .inl (opCall host .staticcall)
  all_goals simp [getGasCost] at hcost

end Spends

/-- A turn after which the loop goes on has used gas. -/
theorem step_progress {host : Host} {b : UInt8} {vm vm' : Vm} {next : Next}
    (h : step host b vm = .ok next vm') :
    vm.ctx.gasUsed < vm'.ctx.gasUsed ∨ vm'.ctx.stopped = true ∧ next = .proceed := by
  have hused := (step_ok h).2.2.2
  by_cases hcost : 0 < getGasCost (.ofByte b)
  · exact .inl (by omega)
  · obtain ⟨_, r, hcharge, hdispatch⟩ := of_bind_ok h
    obtain ⟨-, rfl⟩ := useGas_ok hcharge
    have hstops {leave : Vm → Vm} (hleave : ∀ t, (leave t).ctx.stopped = true)
        (hrun : proceeds (returns host leave) (vm.addGas (getGasCost (.ofByte b))) =
          .ok next vm') : vm'.ctx.stopped = true ∧ next = .proceed := by
      obtain ⟨_, t, hreturns, hpure⟩ := of_bind_ok hrun
      obtain ⟨offset, t₁, -, hreturns⟩ := of_bind_ok hreturns
      obtain ⟨size, t₂, -, hreturns⟩ := of_bind_ok hreturns
      obtain ⟨data, t₃, -, hmodifies⟩ := of_bind_ok hreturns
      cases hmodifies
      cases hpure
      exact ⟨hleave _, rfl⟩
    obtain hspends | heq | heq | heq | hburns := Spends.dispatch host (Nat.eq_zero_of_not_pos hcost)
    · exact .inl ((Nat.le_add_right _ _).trans_lt (hspends _ next vm' hdispatch))
    · rw [heq] at hdispatch
      cases hdispatch
      exact .inr ⟨rfl, rfl⟩
    · rw [heq] at hdispatch hstops
      exact .inr (hstops (fun _ => rfl) hdispatch)
    · rw [heq] at hdispatch hstops
      exact .inr (hstops (fun _ => rfl) hdispatch)
    · obtain ⟨err, heq⟩ := dispatch_burns host hburns (vm.addGas (getGasCost (.ofByte b)))
      rw [heq] at hdispatch
      cases hdispatch

theorem Vm.fetch_of_stopped {vm : Vm} (h : vm.ctx.stopped = true) : vm.fetch = none := if_pos h

theorem awaits_spends {host : Host} {b : UInt8} {vm vm' : Vm} {request : Request}
    {pending : Pending} (h : step host b vm = .ok (.awaits request pending) vm') :
    vm.ctx.gasUsed < vm'.ctx.gasUsed := by
  obtain hless | ⟨-, heq⟩ := step_progress h
  · exact hless
  · cases heq

/-- What a resumed frame has used. -/
theorem resume_metered (host : Host) (pending : Pending) (r : ExecutionResult) (vm : Vm) :
    metered.rel (vm.addGas r.gasUsed) (left (resume host pending r vm)) :=
  wide_metered.resume host pending r vm

theorem execute_finishes {host : Host} {runFrame : Vm → RunOutcome} {message : Message}
    {shared : Shared} (h : runFrame (.enter message shared) ≠ .unfinished) :
    execute host runFrame message shared ≠ none := by
  unfold execute
  split
  · exact Option.some_ne_none _
  · cases hrun : runFrame (.enter message shared) with
    | finished t => exact Option.some_ne_none _
    | raised halt t => exact Option.some_ne_none _
    | unfinished => exact absurd hrun h

/-- The gas that is left and one turn more are fuel enough. -/
theorem run_finishes (host : Host) (fuel : ℕ) (vm : Vm)
    (hfuel : vm.ctx.gas + 1 - vm.ctx.gasUsed < fuel) : run host fuel vm ≠ .unfinished := by
  induction fuel generalizing vm with
  | zero => exact absurd hfuel (Nat.not_lt_zero _)
  | succ fuel ih =>
    rw [run]
    cases hfetch : vm.fetch with
    | none => exact RunOutcome.noConfusion
    | some b =>
      dsimp only
      cases hstep : step host b vm with
      | error halt vm' => exact RunOutcome.noConfusion
      | ok next vm' =>
        obtain ⟨hfits, hfits', hmessage, -⟩ := step_ok hstep
        have hgas : vm'.ctx.gas = vm.ctx.gas := congrArg Message.gas hmessage
        have hopens := step_opens hstep
        unfold Vm.Fits at hfits hfits'
        have hprogress := step_progress hstep
        cases next with
        | proceed =>
          obtain hless | ⟨hstop, -⟩ := hprogress
          · exact ih _ (show vm'.ctx.gas + 1 - vm'.ctx.gasUsed < fuel by omega)
          · obtain ⟨more, rfl⟩ : ∃ more, fuel = more + 1 := ⟨fuel - 1, by omega⟩
            have hnone : vm'.advance.fetch = none := Vm.fetch_of_stopped hstop
            simp [run, hnone]
        | jumped =>
          obtain hless | ⟨-, heq⟩ := hprogress
          · exact ih _ (by omega)
          · cases heq
        | awaits request pending =>
          have hless := awaits_spends hstep
          have hserve : serve host (run host fuel) vm' request ≠ none := by
            cases request with
            | precompile address data gas => exact Option.some_ne_none _
            | frame message =>
              have hle : message.gas ≤ vm'.ctx.gas - vm'.ctx.gasUsed := hopens.1
              exact execute_finishes (ih _ (show message.gas + 1 - 0 < fuel by omega))
          cases hanswer : serve host (run host fuel) vm' request with
          | none => exact absurd hanswer hserve
          | some answer =>
            obtain ⟨result, shared⟩ := answer
            simp only [hanswer]
            have hmetered := resume_metered host pending result { vm' with shared := shared }
            cases hresume : resume host pending result { vm' with shared := shared } with
            | error halt vm'' => simp
            | ok u vm'' =>
              rw [hresume] at hmetered
              obtain ⟨hmessage', hle, -⟩ := hmetered
              have hgas' : vm''.ctx.gas = vm'.ctx.gas := congrArg Message.gas hmessage'
              change vm'.ctx.gasUsed + result.gasUsed ≤ vm''.ctx.gasUsed at hle
              exact ih _ (show vm''.ctx.gas + 1 - vm''.ctx.gasUsed < fuel by omega)

/-- What an execution does with gas: what a frame is charged, what a precompiled contract costs a
frame that has so much left, with the refund where the frame's code ends there, and what a frame
reports of the limit it was given. -/
inductive Entry
  | charge (amount : ℤ)
  | precompile (left cost : ℕ) (back : Option ℕ)
  | frame (gas gasUsed : ℕ)
  deriving DecidableEq

/-- What an entry takes; what a frame reports is the sum of its entries. -/
def Entry.amount : Entry → ℤ
  | .charge amount => amount
  | .precompile _ cost _ => cost
  | .frame _ _ => 0

def spent (entries : List Entry) : ℤ := (entries.map Entry.amount).sum

/-- The refund of a frame whose loop has come to its end. -/
def back (vm : Vm) : Option ℕ :=
  if vm.fetch.isNone then some (ExecutionResult.refund vm.ctx) else none

/-- The entries of a frame, which are `below`, and of its result. -/
def frameEntries (below : Vm → List Entry) (message : Message) (shared : Shared)
    (result : ExecutionResult) : List Entry :=
  (if 1024 < message.depth then [] else below (.enter message shared)) ++
    [.frame message.gas result.gasUsed]

def answered (below : Vm → List Entry) (vm : Vm) (result : ExecutionResult) (back : Option ℕ) :
    Request → List Entry
  | .precompile _ _ _ => [.precompile (available vm) result.gasUsed back]
  | .frame message => frameEntries below message vm.shared result

/-- What a frame that had used so much is charged when an exception ends it. -/
def raisedEntry (used : ℕ) (halt : Halt) (vm : Vm) : Entry :=
  .charge (vm.ctx.gasUsed + burnt vm.ctx halt - used)

/-- The entries of a run, as `run` comes to them. -/
def ledger (host : Host) : ℕ → Vm → List Entry
  | 0, _ => []
  | fuel + 1, vm =>
    match vm.fetch with
    | none => [.charge (-(ExecutionResult.refund vm.ctx : ℤ))]
    | some b =>
      match step host b vm with
      | .error halt vm' => [raisedEntry vm.ctx.gasUsed halt vm']
      | .ok .proceed vm' =>
        .charge (vm'.ctx.gasUsed - vm.ctx.gasUsed) :: ledger host fuel vm'.advance
      | .ok .jumped vm' => .charge (vm'.ctx.gasUsed - vm.ctx.gasUsed) :: ledger host fuel vm'
      | .ok (.awaits request pending) vm' =>
        match serve host (run host fuel) vm' request with
        | none => []
        | some (result, shared) =>
          let used := vm'.ctx.gasUsed + result.gasUsed
          match resume host pending result { vm' with shared := shared } with
          | .error halt vm'' =>
            .charge (vm'.ctx.gasUsed - vm.ctx.gasUsed) ::
              (answered (ledger host fuel) vm' result none request ++ [raisedEntry used halt vm''])
          | .ok () vm'' =>
            .charge (vm'.ctx.gasUsed - vm.ctx.gasUsed) ::
              (answered (ledger host fuel) vm' result (back vm''.advance) request ++
                .charge (vm''.ctx.gasUsed - used) :: ledger host fuel vm''.advance)

/-- The entries of an execution, the last of them that of its result. -/
def executionLedger (host : Host) (fuel : ℕ) (message : Message) (shared : Shared) : List Entry :=
  match execute host (run host fuel) message shared with
  | none => []
  | some (result, _) => frameEntries (ledger host fuel) message shared result

/-- No frame reports more than its limit. -/
def Within (entries : List Entry) : Prop :=
  ∀ gas gasUsed, .frame gas gasUsed ∈ entries → gasUsed ≤ gas

/-- No frame's code ends right after a precompiled contract that costs more than the frame has left,
with its refund. -/
def Afforded (entries : List Entry) : Prop :=
  ∀ left cost refund, .precompile left cost (some refund) ∈ entries → cost ≤ left + refund

@[simp] theorem spent_nil : spent [] = 0 := rfl

@[simp] theorem spent_cons (e : Entry) (es : List Entry) :
    spent (e :: es) = e.amount + spent es := by
  simp [spent]

@[simp] theorem spent_append (es es' : List Entry) : spent (es ++ es') = spent es + spent es' := by
  simp [spent]

@[simp] theorem within_nil : Within [] := by
  intro gas gasUsed h
  cases h

@[simp] theorem within_append (es es' : List Entry) :
    Within (es ++ es') ↔ Within es ∧ Within es' := by
  simp only [Within, List.mem_append]
  grind

@[simp] theorem within_charge (amount : ℤ) (es : List Entry) :
    Within (.charge amount :: es) ↔ Within es := by
  simp [Within]

@[simp] theorem within_precompile (left cost : ℕ) (back : Option ℕ) (es : List Entry) :
    Within (.precompile left cost back :: es) ↔ Within es := by
  simp [Within]

@[simp] theorem within_frame (gas gasUsed : ℕ) (es : List Entry) :
    Within (.frame gas gasUsed :: es) ↔ gasUsed ≤ gas ∧ Within es := by
  simp only [Within, List.mem_cons]
  grind

@[simp] theorem afforded_nil : Afforded [] := by
  intro left cost refund h
  cases h

@[simp] theorem afforded_append (es es' : List Entry) :
    Afforded (es ++ es') ↔ Afforded es ∧ Afforded es' := by
  simp only [Afforded, List.mem_append]
  grind

@[simp] theorem afforded_charge (amount : ℤ) (es : List Entry) :
    Afforded (.charge amount :: es) ↔ Afforded es := by
  simp [Afforded]

@[simp] theorem afforded_frame (gas gasUsed : ℕ) (es : List Entry) :
    Afforded (.frame gas gasUsed :: es) ↔ Afforded es := by
  simp [Afforded]

@[simp] theorem afforded_precompile (left cost : ℕ) (back : Option ℕ) (es : List Entry) :
    Afforded (.precompile left cost back :: es) ↔
      (∀ refund ∈ back, cost ≤ left + refund) ∧ Afforded es := by
  simp only [Afforded, List.mem_cons]
  constructor
  · intro h
    refine ⟨fun refund hback => ?_, fun left cost refund hmem => h left cost refund (.inr hmem)⟩
    exact h left cost refund (.inl (by rw [Option.mem_def.mp hback]))
  · rintro ⟨hback, hes⟩ left' cost' refund (heq | hmem)
    · cases heq
      exact hback refund rfl
    · exact hes left' cost' refund hmem

/-- What the entries of a frame say about the gas that it reports. -/
structure Settled (vm : Vm) (entries : List Entry) (result : ExecutionResult) : Prop where
  total : vm.ctx.gasUsed + spent entries = result.gasUsed
  limit : vm.Fits → (result.gasUsed ≤ vm.ctx.gas ∧ Within entries ↔ Afforded entries)
  overdrawn : ¬vm.Fits → Within entries ∧ Afforded entries ∧
    (result.gasUsed ≤ vm.ctx.gas ↔ ∀ refund ∈ back vm, vm.ctx.gasUsed ≤ vm.ctx.gas + refund)

theorem back_of_fetch {vm : Vm} {b : UInt8} (h : vm.fetch = some b) : back vm = none := by
  simp [back, h]

namespace Settled

variable {host : Host} {b : UInt8} {vm vm' t : Vm} {entries : List Entry}
  {result : ExecutionResult}

theorem ended (host : Host) (hfetch : vm.fetch = none) :
    Settled vm [.charge (-(ExecutionResult.refund vm.ctx : ℤ))] (.ofRun host vm) := by
  have hle := refund_le vm.ctx
  have hback : back vm = some (ExecutionResult.refund vm.ctx) := by simp [back, hfetch]
  have hgas : (ExecutionResult.ofRun host vm).gasUsed =
      vm.ctx.gasUsed - ExecutionResult.refund vm.ctx := rfl
  refine ⟨?_, fun hfits => ?_, fun _ => ?_⟩
  · simp only [spent_cons, spent_nil, Entry.amount, hgas]
    omega
  · unfold Vm.Fits at hfits
    simp only [within_charge, within_nil, afforded_charge, afforded_nil, and_true, iff_true,
      hgas]
    omega
  · simp [hback, hgas]

theorem raised (hfetch : vm.fetch = some b) {halt : Halt}
    (hstep : step host b vm = .error halt vm') :
    Settled vm [raisedEntry vm.ctx.gasUsed halt vm'] (.ofHalt host vm'.ctx halt) := by
  refine ⟨?_, fun hfits => ?_, fun hover => ?_⟩
  · rw [ofHalt_gasUsed]
    simp [raisedEntry, Entry.amount]
  · obtain ⟨hfits', hmessage⟩ := step_error hfits hstep
    have hle := ofHalt_gasUsed_le host hfits' halt
    rw [show vm'.ctx.gas = vm.ctx.gas from congrArg Message.gas hmessage] at hle
    simp [raisedEntry, hle]
  · obtain ⟨err, heq⟩ := step_overdrawn host b hover
    rw [heq] at hstep
    cases hstep
    have hgas : (ExecutionResult.ofHalt host vm.ctx (.outOfGas err)).gasUsed ≤ vm.ctx.gas := le_rfl
    simp [raisedEntry, back_of_fetch hfetch, hgas]

theorem turn {next : Next} (hstep : step host b vm = .ok next vm')
    (ht : t.ctx.toMessage = vm'.ctx.toMessage ∧ t.ctx.gasUsed = vm'.ctx.gasUsed)
    (h : Settled t entries result) :
    Settled vm (.charge (vm'.ctx.gasUsed - vm.ctx.gasUsed) :: entries) result := by
  obtain ⟨hfits, hfits', hmessage, -⟩ := step_ok hstep
  have hgas : t.ctx.gas = vm.ctx.gas := congrArg Message.gas (ht.1.trans hmessage)
  have hgas' : vm'.ctx.gas = vm.ctx.gas := congrArg Message.gas hmessage
  refine ⟨?_, fun _ => ?_, fun hover => absurd hfits hover⟩
  · have htotal := h.total
    rw [ht.2] at htotal
    simp only [spent_cons, Entry.amount]
    omega
  · have hlimit := h.limit (by unfold Vm.Fits at hfits' ⊢; omega)
    rw [hgas] at hlimit
    simpa using hlimit

end Settled

theorem push_room {vm : Vm} (h : vm.ctx.stack.items.length < maxStackDepth) (value : ℤ) :
    ∃ vm', push value vm = .ok () vm' := by
  simp only [push, Stack.push, dif_pos h]
  exact ⟨_, rfl⟩

theorem memoryWrite_overdrawn {host : Host} {offset : ℕ} {data : Bytes} {vm vm' : Vm} {halt : Halt}
    (hover : ¬vm.Fits) (h : memoryWrite host offset data vm = .error halt vm') :
    ∃ err, halt = .outOfGas err := by
  unfold memoryWrite at h
  split at h
  · cases h
  · cases hextend : memoryExtend host offset data.length vm with
    | ok u r =>
      rw [bind_ok hextend] at h
      cases h
    | error halt' r =>
      rw [bind_error hextend] at h
      cases h
      unfold memoryExtend at hextend
      split at hextend
      · cases hextend
      · obtain ⟨err, hcharge⟩ := useGas_overdrawn hover
          (memoryCost (words (offset + data.length)) - memoryCost (words vm.ctx.memory.length))
        rw [bind_ok (show reads (fun vm => vm.ctx.memory.length) vm = .ok _ vm from rfl)] at hextend
        split at hextend
        · rw [bind_error hcharge] at hextend
          cases hextend
          exact ⟨err, rfl⟩
        · cases hextend

/-- A frame that a precompiled contract has taken over its limit ends only for want of gas. -/
theorem resume_overdrawn {host : Host} {retOffset retSize : ℕ} {r : ExecutionResult} {vm vm' : Vm}
    {halt : Halt} (hroom : vm.ctx.stack.items.length < maxStackDepth)
    (hover : ¬(vm.addGas r.gasUsed).Fits)
    (h : resume host (.precompile retOffset retSize) r vm = .error halt vm') :
    ∃ err, halt = .outOfGas err := by
  change answerCall host retOffset retSize r ((vm.addGas r.gasUsed).withReturnData r.returnData) = _
    at h
  cases hwrite : memoryWrite host retOffset (r.returnData.take retSize)
      ((vm.addGas r.gasUsed).withReturnData r.returnData) with
  | error halt' t =>
    rw [answerCall, bind_error hwrite] at h
    cases h
    have hover' : ¬((vm.addGas r.gasUsed).withReturnData r.returnData).Fits := hover
    exact memoryWrite_overdrawn hover' hwrite
  | ok u t =>
    rw [answerCall, bind_ok hwrite] at h
    have hlow := (calm_lowered.memoryWrite host _ _).of_ok hwrite
    obtain ⟨vm'', hpush⟩ := push_room (hlow.trans_lt hroom) (Arithmetic.ofBool r.success)
    rw [hpush] at h
    cases h

namespace Settled

variable {host : Host} {b : UInt8} {vm vm' vm'' : Vm} {below : Vm → List Entry}
  {request : Request} {pending : Pending} {result result' : ExecutionResult} {shared : Shared}

/-- What a request that has been answered adds to the entries. -/
structure Answered (vm : Vm) (request : Request) (entries : List Entry) (result : ExecutionResult)
    (back : Option ℕ) : Prop where
  total : spent entries = result.gasUsed
  cases : (vm.addGas result.gasUsed).Fits ∧ (Within entries ↔ Afforded entries) ∨
    ¬Within entries ∧ ¬Afforded entries ∨
    ¬(vm.addGas result.gasUsed).Fits ∧ Within entries ∧
      (Afforded entries ↔ ∀ refund ∈ back, vm.ctx.gasUsed + result.gasUsed ≤ vm.ctx.gas + refund) ∧
      ∃ address data gas, request = .precompile address data gas

theorem answered_precompile (hfits : vm.Fits) (address : ℕ) (data : Bytes) (gas : ℕ)
    (result : ExecutionResult) (back : Option ℕ) :
    Answered vm (.precompile address data gas)
      (answered below vm result back (.precompile address data gas)) result back := by
  have hleft (refund : ℕ) : result.gasUsed ≤ available vm + refund ↔
      vm.ctx.gasUsed + result.gasUsed ≤ vm.ctx.gas + refund := by
    unfold Vm.Fits at hfits
    unfold available
    omega
  refine ⟨by simp [answered, Entry.amount], ?_⟩
  by_cases hafter : (vm.addGas result.gasUsed).Fits
  · refine .inl ⟨hafter, ?_⟩
    change vm.ctx.gasUsed + result.gasUsed ≤ vm.ctx.gas at hafter
    have hall (refund : ℕ) : result.gasUsed ≤ available vm + refund := (hleft refund).mpr (by omega)
    simp [answered, hall]
  · refine .inr (.inr ⟨hafter, ?_, ?_, address, data, gas, rfl⟩)
    · simp [answered]
    · simp [answered, hleft]

theorem answered_frame (hfits : vm.Fits) {message : Message}
    (hgas : message.gas ≤ available vm)
    (hbelow : ¬1024 < message.depth →
      Settled (.enter message vm.shared) (below (.enter message vm.shared)) result)
    (hdeep : 1024 < message.depth → result.gasUsed = 0) (back : Option ℕ) :
    Answered vm (.frame message) (answered below vm result back (.frame message)) result back := by
  have hafter (h : result.gasUsed ≤ message.gas) : (vm.addGas result.gasUsed).Fits := by
    unfold Vm.Fits at hfits
    unfold available at hgas
    change vm.ctx.gasUsed + result.gasUsed ≤ vm.ctx.gas
    omega
  by_cases hdepth : 1024 < message.depth
  · have hzero := hdeep hdepth
    refine ⟨?_, .inl ⟨hafter (by omega), ?_⟩⟩
    · simp [answered, frameEntries, hdepth, hzero, Entry.amount]
    · simp [answered, frameEntries, hdepth, hzero]
  · have hsub := hbelow hdepth
    have htotal : 0 + spent (below (.enter message vm.shared)) = result.gasUsed := hsub.total
    have hlimit : (result.gasUsed ≤ message.gas ∧ Within (below (.enter message vm.shared)) ↔
        Afforded (below (.enter message vm.shared))) := hsub.limit (Nat.zero_le _)
    refine ⟨?_, ?_⟩
    · simp [answered, frameEntries, hdepth, Entry.amount, ← htotal]
    · have hentries : (Within (answered below vm result back (.frame message)) ↔
          Afforded (answered below vm result back (.frame message))) := by
        simp only [answered, frameEntries, if_neg hdepth, within_append, within_frame, within_nil,
          afforded_append, afforded_frame, afforded_nil, and_true]
        rw [and_comm]
        exact hlimit
      by_cases hle : result.gasUsed ≤ message.gas
      · exact .inl ⟨hafter hle, hentries⟩
      · have hnot : ¬Within (answered below vm result back (.frame message)) := by
          simp [answered, frameEntries, hle]
        exact .inr (.inl ⟨hnot, fun h => hnot (hentries.mpr h)⟩)

theorem resumed {entries rest : List Entry}
    (hstep : step host b vm = .ok (.awaits request pending) vm')
    (hanswered : Answered vm' request entries result (back vm''.advance))
    (hresume : resume host pending result { vm' with shared := shared } = .ok () vm'')
    (h : Settled vm''.advance rest result') :
    Settled vm
      (.charge (vm'.ctx.gasUsed - vm.ctx.gasUsed) ::
        (entries ++ .charge (vm''.ctx.gasUsed - (vm'.ctx.gasUsed + result.gasUsed : ℕ)) :: rest))
      result' := by
  obtain ⟨hfits, hfits', hmessage, -⟩ := step_ok hstep
  have hmetered := resume_metered host pending result { vm' with shared := shared }
  rw [hresume] at hmetered
  have hgas' : vm''.ctx.gas = vm'.ctx.gas := congrArg Message.gas hmetered.1
  have hgas : vm'.ctx.gas = vm.ctx.gas := congrArg Message.gas hmessage
  have hadvance : vm''.advance.ctx.gas = vm.ctx.gas := hgas'.trans hgas
  refine ⟨?_, fun _ => ?_, fun hover => absurd hfits hover⟩
  · have htotal := h.total
    have hentries := hanswered.total
    change (vm''.ctx.gasUsed : ℤ) + spent rest = result'.gasUsed at htotal
    simp only [spent_cons, spent_append, Entry.amount]
    omega
  · simp only [within_charge, within_append, afforded_charge, afforded_append]
    obtain ⟨hafter, hiff⟩ | ⟨hwithin, hafforded⟩ | ⟨hafter, hwithin, hiff, -⟩ := hanswered.cases
    · have hlimit := h.limit (metered_fits hmetered hafter)
      rw [hadvance] at hlimit
      rw [← hlimit, ← hiff]
      exact and_left_comm
    · exact ⟨fun hall => absurd hall.2.1 hwithin, fun hall => absurd hall.1 hafforded⟩
    · have hused : vm''.ctx.gasUsed = vm'.ctx.gasUsed + result.gasUsed :=
        hmetered.2.2.resolve_right fun hle => hafter (hmetered.2.1.trans hle)
      have hover : ¬vm''.advance.Fits := by
        change ¬vm''.ctx.gasUsed ≤ vm''.ctx.gas
        rw [hused, hgas']
        exact hafter
      obtain ⟨hrest, hrest', hback⟩ := h.overdrawn hover
      change (result'.gasUsed ≤ vm''.ctx.gas ↔
        ∀ refund ∈ back vm''.advance, vm''.ctx.gasUsed ≤ vm''.ctx.gas + refund) at hback
      rw [hused, hgas', hgas] at hback
      rw [hiff, hgas, hback]
      simp [hwithin, hrest, hrest']

theorem resumed_raised {entries : List Entry}
    (hstep : step host b vm = .ok (.awaits request pending) vm')
    (hanswered : Answered vm' request entries result none) {halt : Halt}
    (hresume : resume host pending result { vm' with shared := shared } = .error halt vm'') :
    Settled vm
      (.charge (vm'.ctx.gasUsed - vm.ctx.gasUsed) ::
        (entries ++ [raisedEntry (vm'.ctx.gasUsed + result.gasUsed) halt vm'']))
      (.ofHalt host vm''.ctx halt) := by
  obtain ⟨hfits, hfits', hmessage, -⟩ := step_ok hstep
  have hmetered := resume_metered host pending result { vm' with shared := shared }
  rw [hresume] at hmetered
  have hgas' : vm''.ctx.gas = vm'.ctx.gas := congrArg Message.gas hmetered.1
  have hgas : vm''.ctx.gas = vm.ctx.gas := hgas'.trans (congrArg Message.gas hmessage)
  refine ⟨?_, fun _ => ?_, fun hover => absurd hfits hover⟩
  · have hentries := hanswered.total
    rw [ofHalt_gasUsed]
    simp only [spent_cons, spent_append, spent_nil, raisedEntry, Entry.amount]
    omega
  · rw [← hgas]
    simp only [within_charge, within_append, within_nil, afforded_charge, afforded_append,
      afforded_nil, raisedEntry, and_true]
    obtain ⟨hafter, hiff⟩ | ⟨hwithin, hafforded⟩ | ⟨hafter, hwithin, hiff, hrequest⟩ :=
      hanswered.cases
    · rw [← hiff]
      exact and_iff_right (ofHalt_gasUsed_le host (metered_fits hmetered hafter) halt)
    · exact ⟨fun hall => absurd hall.2 hwithin, fun hall => absurd hall hafforded⟩
    · obtain ⟨address, data, gas, rfl⟩ := hrequest
      obtain ⟨hroom, retOffset, retSize, rfl⟩ := step_opens hstep
      have hroom' : ({ vm' with shared := shared } : Vm).ctx.stack.items.length < maxStackDepth :=
        hroom
      have hafter' : ¬(({ vm' with shared := shared } : Vm).addGas result.gasUsed).Fits := hafter
      obtain ⟨err, rfl⟩ := resume_overdrawn hroom' hafter' hresume
      have hle : (ExecutionResult.ofHalt host vm''.ctx (.outOfGas err)).gasUsed ≤ vm''.ctx.gas :=
        le_rfl
      simp [hle, hwithin, hiff]

end Settled

/-- Every run that ends is settled, by induction on the fuel. -/
theorem run_settled (host : Host) (fuel : ℕ) {vm : Vm} {result : ExecutionResult} {shared : Shared}
    (hrun : (run host fuel vm).leave host = some (result, shared)) :
    Settled vm (ledger host fuel vm) result := by
  induction fuel generalizing vm result shared with
  | zero => cases hrun
  | succ fuel ih =>
    rw [run] at hrun
    rw [ledger]
    cases hfetch : vm.fetch with
    | none =>
      rw [hfetch] at hrun
      cases hrun
      exact .ended host hfetch
    | some b =>
      simp only [hfetch] at hrun
      dsimp only
      cases hstep : step host b vm with
      | error halt vm' =>
        rw [hstep] at hrun
        cases hrun
        exact .raised hfetch hstep
      | ok next vm' =>
        simp only [hstep] at hrun
        cases next with
        | proceed => exact .turn (t := vm'.advance) hstep ⟨rfl, rfl⟩ (ih hrun)
        | jumped => exact .turn hstep ⟨rfl, rfl⟩ (ih hrun)
        | awaits request pending =>
          dsimp only at hrun ⊢
          cases hserve : serve host (run host fuel) vm' request with
          | none =>
            rw [hserve] at hrun
            cases hrun
          | some answer =>
            obtain ⟨result₁, shared₁⟩ := answer
            simp only [hserve] at hrun
            dsimp only
            have hanswered (back : Option ℕ) : Settled.Answered vm' request
                (answered (ledger host fuel) vm' result₁ back request) result₁ back := by
              have hfits := (step_ok hstep).2.1
              cases request with
              | precompile address data gas =>
                exact Settled.answered_precompile hfits address data gas result₁ back
              | frame message =>
                refine Settled.answered_frame hfits (step_opens hstep).1 (fun hdepth => ?_)
                  (fun hdepth => ?_) back
                · rw [serve, execute, if_neg hdepth] at hserve
                  exact ih hserve
                · rw [serve, execute, if_pos hdepth] at hserve
                  cases hserve
                  rfl
            cases hresume : resume host pending result₁ { vm' with shared := shared₁ } with
            | error halt vm'' =>
              rw [hresume] at hrun
              cases hrun
              exact .resumed_raised hstep (hanswered none) hresume
            | ok u vm'' =>
              simp only [hresume] at hrun
              exact .resumed hstep (hanswered _) hresume (ih hrun)

/-- What an execution and all that it calls use is what it reports.  No frame reports more than its
limit, and all of them together no more than the first one's, if and only if no frame's code ends
right after a precompiled contract that it cannot afford. -/
theorem execute_within_limit_iff (host : Host) (message : Message) (shared : Shared) (fuel : ℕ)
    (hfuel : message.gas + 1 < fuel) :
    ∃ result shared', execute host (run host fuel) message shared = some (result, shared') ∧
      spent (executionLedger host fuel message shared) = result.gasUsed ∧
      (result.gasUsed ≤ message.gas ∧ Within (executionLedger host fuel message shared) ∧
          spent (executionLedger host fuel message shared) ≤ message.gas ↔
        Afforded (executionLedger host fuel message shared)) := by
  have hfinishes : execute host (run host fuel) message shared ≠ none :=
    execute_finishes (run_finishes host fuel _ hfuel)
  cases hexecute : execute host (run host fuel) message shared with
  | none => exact absurd hexecute hfinishes
  | some answer =>
    obtain ⟨result, shared'⟩ := answer
    refine ⟨result, shared', rfl, ?_⟩
    rw [executionLedger, hexecute]
    dsimp only [frameEntries]
    by_cases hdepth : 1024 < message.depth
    · rw [execute, if_pos hdepth] at hexecute
      cases hexecute
      simp [hdepth, Entry.amount, tooDeep, ExecutionResult.new]
    · rw [execute, if_neg hdepth] at hexecute
      have hsettled := run_settled host fuel hexecute
      have htotal : 0 + spent (ledger host fuel (.enter message shared)) = result.gasUsed :=
        hsettled.total
      have hlimit : (result.gasUsed ≤ message.gas ∧
          Within (ledger host fuel (.enter message shared)) ↔
          Afforded (ledger host fuel (.enter message shared))) := hsettled.limit (Nat.zero_le _)
      rw [zero_add] at htotal
      simp only [if_neg hdepth, spent_append, spent_cons, spent_nil, Entry.amount, htotal,
        within_append, within_frame, within_nil, afforded_append, afforded_frame, afforded_nil,
        and_true, add_zero, ← hlimit, true_and]
      constructor
      · rintro ⟨hle, hwithin, -⟩
        exact ⟨hle, hwithin.1⟩
      · rintro ⟨hle, hwithin⟩
        exact ⟨hle, ⟨hwithin, hle⟩, by exact_mod_cast hle⟩

/-- A machine without a database or engines, whose pairings hold. -/
def Sample.host : Host where
  crypto :=
    { keccak256 := fun _ => zeros 32
      sha256 := fun _ => zeros 32
      ripemd160 := fun _ => .ok (zeros 20)
      ecrecover := fun _ _ _ _ => zeros 32
      pairingCheck := fun _ _ => .answered true
      maxLength := 2 ^ 40 }
  config := ⟨0, 30000000, 3303⟩
  block := ⟨none, none, none, none, none⟩
  db := none
  quantum := none
  compliance := none
  verifyDilithium := fun _ _ _ _ => .ok false
  quantumStateStore := none
  registeredProofs := fun _ _ => .ok false
  systemicRiskModel := none
  bridgeManager := none
  verifiedBridgeProofs := fun _ _ => .ok false
  aetherEngine := none
  describe := fun _ => ""
  decode := fun _ => ""

/-- A call of the pairing contract, which costs 45000, as the last opcode. -/
def Sample.pairing (gas : ℕ) : Message where
  caller := "00000000000000000000000000000000000000aa"
  address := "00000000000000000000000000000000000000bb"
  code := [0x60, 0, 0x60, 0, 0x60, 0, 0x60, 0, 0x60, 0, 0x60, 8, 0x60, 0, 0xf1]
  data := []
  value := 0
  gas := gas
  origin := ""
  isStatic := false
  depth := 0

/-- The fuel is more than this execution needs. -/
theorem pairing_affordable :
    ∃ result shared', execute Sample.host (run Sample.host 50002) (Sample.pairing 50000) .new =
        some (result, shared') ∧
      spent (executionLedger Sample.host 50002 (Sample.pairing 50000) .new) = result.gasUsed ∧
      (result.gasUsed ≤ (Sample.pairing 50000).gas ∧
          Within (executionLedger Sample.host 50002 (Sample.pairing 50000) .new) ∧
          spent (executionLedger Sample.host 50002 (Sample.pairing 50000) .new) ≤
            (Sample.pairing 50000).gas ↔
        Afforded (executionLedger Sample.host 50002 (Sample.pairing 50000) .new)) :=
  execute_within_limit_iff Sample.host (Sample.pairing 50000) .new 50002
    (show 50000 + 1 < 50002 by decide)

/-- With 3000 gas the execution succeeds, having used 47621. -/
theorem pairing_over_limit :
    (execute Sample.host (run Sample.host 3002) (Sample.pairing 3000) .new).map
        (fun answer => (answer.1.success, answer.1.gasUsed)) = some (true, 47621) ∧
      (Sample.pairing 3000).gas = 3000 := by
  decide +kernel

end Qubitcoin.PythonVm
