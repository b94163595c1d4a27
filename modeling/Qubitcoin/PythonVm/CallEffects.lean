import Qubitcoin.Library.CallTree
import Qubitcoin.PythonVm.GasLimit

/-! What the frames of an execution of the Python QVM do to the storage and the logs. -/

namespace Qubitcoin.PythonVm

open Command Exec Interpreter

/-- What a frame does for others to see.  A frame starts another by a call or by a creation, and is
static or not. -/
inductive Effect
  | write (address key value : String)
  | log (entry : Log)
  | start (kind : Option CallKind) (isStatic : Bool)
  deriving DecidableEq

namespace Effect

def apply (storage : Storage) : Effect → Storage
  | .write address key value => Storage.set storage address key value
  | .log _ | .start _ _ => storage

end Effect

/-- The storage once the writes have been made in order. -/
def replay (storage : Storage) (es : List Effect) : Storage := es.foldl Effect.apply storage

/-- The last value that is written to a slot. -/
def lastWrite (address key : String) : List Effect → Option String
  | [] => none
  | .write address' key' value :: es =>
    (lastWrite address key es).or (if address' = address ∧ key' = key then some value else none)
  | .log _ :: es => lastWrite address key es
  | .start _ _ :: es => lastWrite address key es

theorem get_set (storage : Storage) (address key value address' key' : String) :
    Storage.get (Storage.set storage address key value) address' key' =
      if address = address' ∧ key = key' then some value
      else Storage.get storage address' key' := by
  unfold Storage.get Storage.set
  rw [StorageMap.value_insert_eq]
  by_cases haddress : address' = address
  · subst haddress
    rw [if_pos rfl, StorageMap.lookup_insert_eq]
    simp [eq_comm]
  · rw [if_neg haddress, if_neg fun h => haddress h.1.symm]

theorem get_replay (address key : String) (es : List Effect) (storage : Storage) :
    Storage.get (replay storage es) address key =
      (lastWrite address key es).or (Storage.get storage address key) := by
  induction es generalizing storage with
  | nil => rfl
  | cons e es ih =>
    rw [replay, List.foldl_cons]
    change Storage.get (replay (e.apply storage) es) address key = _
    rw [ih]
    cases e with
    | write address' key' value =>
      rw [Effect.apply, get_set, lastWrite, Option.or_assoc]
      split
      · rfl
      · rfl
    | log entry => rfl
    | start kind isStatic => rfl

/-- The effects of a turn after which the loop goes on past the opcode. -/
def effectsOf (b : UInt8) (vm vm' : Vm) : List Effect :=
  match Opcode.ofByte b with
  | .sstore =>
    match vm.ctx.stack.items with
    | key :: value :: _ =>
      [.write vm.ctx.address (formatHex 64 key.toNat) (formatHex 64 value.toNat)]
    | _ => []
  | .log _ => (vm'.ctx.logs.drop vm.ctx.logs.length).map .log
  | _ => []

/-! ## Turns of the loop -/

/-- The storage, the logs and the message stay. -/
def unwritten : Guarantee Vm :=
  .fixing fun vm => (vm.shared.storageCache, vm.ctx.logs, vm.ctx.toMessage)

theorem quiet_unwritten : Quiet unwritten where
  gas _ _ _ := rfl
  stack _ _ := rfl
  memory _ _ := rfl
  pc _ _ := rfl
  returnData _ _ := rfl
  refund _ _ := rfl
  original _ _ := rfl
  address _ _ := rfl
  slot _ _ := rfl
  tick _ := rfl
  stop _ := rfl
  revert _ := rfl

section Unwritten

variable {vm vm' : Vm}

theorem unwritten_cache (h : unwritten.rel vm vm') :
    vm'.shared.storageCache = vm.shared.storageCache := congrArg Prod.fst h

theorem unwritten_logs (h : unwritten.rel vm vm') : vm'.ctx.logs = vm.ctx.logs :=
  congrArg (fun x => x.2.1) h

theorem unwritten_message (h : unwritten.rel vm vm') : vm'.ctx.toMessage = vm.ctx.toMessage :=
  congrArg (fun x => x.2.2) h

end Unwritten

theorem unwritten_dispatch (host : Host) {op : Opcode} (h : op.writes = false) :
    Keeps unwritten (dispatch host op) := by
  by_cases hburns : op.burns = false
  · exact quiet_unwritten.dispatch host h hburns
  · intro vm
    obtain ⟨err, heq⟩ := dispatch_burns host (Bool.not_eq_false _ ▸ hburns) vm
    rw [heq]
    exact unwritten.refl vm

theorem unwritten_step (host : Host) {b : UInt8} (h : (Opcode.ofByte b).writes = false) :
    Keeps unwritten (step host b) :=
  (quiet_unwritten.useGas _).bind fun _ => unwritten_dispatch host h

theorem refuseStatic_of_static {vm : Vm} (h : vm.ctx.isStatic = true) (err : String)
    (x : Exec Next) : refuseStatic err x vm = .error (.execution err) vm := by
  unfold refuseStatic
  rw [bind_ok (show reads (fun vm => vm.ctx.isStatic) vm = .ok true vm from
    congrArg (EStateM.Result.ok · vm) h)]
  rfl

/-- In a static frame nothing is written, whatever the opcode. -/
theorem static_step (host : Host) (b : UInt8) {vm : Vm} (hstatic : vm.ctx.isStatic = true) :
    unwritten.rel vm (left (step host b vm)) := by
  by_cases hwrites : (Opcode.ofByte b).writes = false
  · exact unwritten_step host hwrites vm
  · cases hcharge : useGas (getGasCost (.ofByte b)) vm with
    | error halt vm' =>
      rw [step, bind_error hcharge]
      exact (quiet_unwritten.useGas _).of_error hcharge
    | ok u vm' =>
      rw [step, bind_ok hcharge]
      have hrel := (quiet_unwritten.useGas _).of_ok hcharge
      have hstatic' : vm'.ctx.isStatic = true :=
        (congrArg Message.isStatic (unwritten_message hrel)).trans hstatic
      generalize Opcode.ofByte b = op at hwrites
      cases op
      case sstore =>
        simp only [dispatch]
        rw [refuseStatic_of_static hstatic']
        exact hrel
      case log numTopics =>
        simp only [dispatch]
        rw [refuseStatic_of_static hstatic']
        exact hrel
      all_goals exact absurd rfl hwrites

theorem static_left {host : Host} {b : UInt8} {vm vm' : Vm} (hstatic : vm.ctx.isStatic = true)
    (h : left (step host b vm) = vm') : unwritten.rel vm vm' := h ▸ static_step host b hstatic

/-- The writing opcodes go on past themselves, and not in a static frame. -/
theorem step_writes {host : Host} {b : UInt8} {vm vm' : Vm} {next : Next}
    (hwrites : (Opcode.ofByte b).writes = true) (h : step host b vm = .ok next vm') :
    next = .proceed ∧ vm.ctx.isStatic = false := by
  obtain ⟨_, r, hcharge, h⟩ := of_bind_ok h
  obtain ⟨-, rfl⟩ := useGas_ok hcharge
  have hproceeds {err : String} {x : Exec Unit}
      (h : refuseStatic err (proceeds x) (vm.addGas (getGasCost (.ofByte b))) = .ok next vm') :
      next = .proceed ∧ vm.ctx.isStatic = false := by
    by_cases hstatic : vm.ctx.isStatic = true
    · have hstatic' : (vm.addGas (getGasCost (.ofByte b))).ctx.isStatic = true := hstatic
      cases (refuseStatic_of_static hstatic' err (proceeds x)).symm.trans h
    · refine ⟨?_, Bool.not_eq_true _ ▸ hstatic⟩
      obtain ⟨isStatic, t, -, h⟩ := of_bind_ok h
      split at h
      · cases h
      · obtain ⟨_, t', -, hpure⟩ := of_bind_ok h
        cases hpure
        rfl
  generalize Opcode.ofByte b = op at hwrites h hproceeds
  cases op
  case sstore => exact hproceeds h
  case log numTopics => exact hproceeds h
  all_goals cases hwrites

theorem pop_top {vm vm' : Vm} {value : ℕ} (h : pop vm = .ok value vm') :
    ∃ top, vm.ctx.stack.items = top :: vm'.ctx.stack.items ∧ value = top.toNat ∧
      unwritten.rel vm vm' := by
  have hrel := quiet_unwritten.pop.of_ok h
  unfold pop at h
  split at h
  · next top stack hpop =>
    cases h
    refine ⟨top, ?_, rfl, hrel⟩
    unfold Stack.pop at hpop
    split at hpop
    · cases hpop
    · next items bounded hstack =>
      cases hpop
      exact congrArg Stack.items hstack
  · cases h

theorem storeSlot_ok {host : Host} {vm vm' : Vm} {u : Unit} (h : storeSlot host vm = .ok u vm') :
    ∃ key value items, vm.ctx.stack.items = key :: value :: items ∧
      vm'.shared.storageCache = Storage.set vm.shared.storageCache vm.ctx.address
        (formatHex 64 key.toNat) (formatHex 64 value.toNat) ∧
      vm'.ctx.logs = vm.ctx.logs := by
  obtain ⟨key, r₁, hkey, h⟩ := of_bind_ok h
  obtain ⟨value, r₂, hvalue, h⟩ := of_bind_ok h
  obtain ⟨keyTop, hkeyTop, rfl, hrel₁⟩ := pop_top hkey
  obtain ⟨valueTop, hvalueTop, rfl, hrel₂⟩ := pop_top hvalue
  refine ⟨keyTop, valueTop, r₂.ctx.stack.items, by rw [hkeyTop, hvalueTop], ?_⟩
  have hrel := unwritten.trans hrel₁ hrel₂
  have haddress : r₂.ctx.address = vm.ctx.address :=
    congrArg Message.address (unwritten_message hrel)
  -- all but the last command leave the storage
  obtain ⟨address, r₃, hreads, h⟩ := of_bind_ok h
  cases hreads
  obtain ⟨currentHex, r₄, hcurrent, h⟩ := of_bind_ok h
  obtain ⟨originalHex, r₅, horiginal, h⟩ := of_bind_ok h
  obtain ⟨isCold, r₆, hcold, h⟩ := of_bind_ok h
  cases hcold
  obtain ⟨_, r₇, htouch, h⟩ := of_bind_ok h
  obtain ⟨_, r₈, hcharge, hwrite⟩ := of_bind_ok h
  have hcurrent' := (quiet_unwritten.currentValue host _ _).of_ok hcurrent
  have horiginal' := (quiet_unwritten.originalValue host _ _).of_ok horiginal
  have htouch' := (keeps_modifies (G := unwritten) fun _ => quiet_unwritten.slot _ _).of_ok htouch
  have hcharge' := (quiet_unwritten.chargeStore _ _ _ _ _).of_ok hcharge
  have hrest := unwritten.trans (unwritten.trans (unwritten.trans hcurrent' horiginal') htouch')
    hcharge'
  cases hwrite
  refine ⟨?_, (unwritten_logs hrest).trans (unwritten_logs hrel)⟩
  change Storage.set r₈.shared.storageCache r₂.ctx.address _ _ = _
  rw [unwritten_cache hrest, unwritten_cache hrel, haddress]

theorem appendLog_ok {host : Host} {numTopics : ℕ} {vm vm' : Vm} {u : Unit}
    (h : appendLog host numTopics vm = .ok u vm') :
    ∃ entry, vm'.ctx.logs = vm.ctx.logs ++ [entry] ∧
      vm'.shared.storageCache = vm.shared.storageCache := by
  obtain ⟨offset, r₁, hoffset, h⟩ := of_bind_ok h
  obtain ⟨size, r₂, hsize, h⟩ := of_bind_ok h
  obtain ⟨topics, r₃, htopics, h⟩ := of_bind_ok h
  obtain ⟨logData, r₄, hread, h⟩ := of_bind_ok h
  obtain ⟨_, r₅, hcharge, happend⟩ := of_bind_ok h
  have hoffset' := quiet_unwritten.pop.of_ok hoffset
  have hsize' := quiet_unwritten.pop.of_ok hsize
  have htopics' := (quiet_unwritten.popTopics _).of_ok htopics
  have hread' := (quiet_unwritten.memoryRead host _ _).of_ok hread
  have hcharge' := (quiet_unwritten.useGas _).of_ok hcharge
  have hrel := unwritten.trans (unwritten.trans (unwritten.trans (unwritten.trans hoffset' hsize')
    htopics') hread') hcharge'
  have hlogs : r₅.ctx.logs = vm.ctx.logs := unwritten_logs hrel
  have hcache : r₅.shared.storageCache = vm.shared.storageCache := unwritten_cache hrel
  cases happend
  exact ⟨_, congrArg (· ++ [_]) hlogs, hcache⟩

theorem effectsOf_of_quiet {b : UInt8} {vm vm' : Vm} (h : (Opcode.ofByte b).writes = false) :
    effectsOf b vm vm' = [] := by
  unfold effectsOf
  split
  · next heq =>
    rw [heq] at h
    cases h
  · next heq =>
    rw [heq] at h
    cases h
  · rfl

/-- What a turn does that goes on past its opcode: it writes a slot, logs or does neither. -/
theorem step_effects {host : Host} {b : UInt8} {vm vm' : Vm}
    (h : step host b vm = .ok .proceed vm') :
    (effectsOf b vm vm' = [] ∧ unwritten.rel vm vm') ∨
      (∃ key value, effectsOf b vm vm' = [.write vm.ctx.address key value] ∧
        vm'.shared.storageCache = Storage.set vm.shared.storageCache vm.ctx.address key value ∧
        vm'.ctx.logs = vm.ctx.logs) ∨
      ∃ entry, effectsOf b vm vm' = [.log entry] ∧
        vm'.shared.storageCache = vm.shared.storageCache ∧
        vm'.ctx.logs = vm.ctx.logs ++ [entry] := by
  by_cases hwrites : (Opcode.ofByte b).writes = false
  · exact .inl ⟨effectsOf_of_quiet hwrites, (unwritten_step host hwrites).of_ok h⟩
  · obtain ⟨_, r, hcharge, h⟩ := of_bind_ok h
    obtain ⟨-, rfl⟩ := useGas_ok hcharge
    unfold effectsOf
    generalize Opcode.ofByte b = op at hwrites h
    cases op
    case sstore =>
      obtain ⟨isStatic, t, hreads, h⟩ := of_bind_ok h
      cases hreads
      split at h
      · cases h
      · obtain ⟨_, t', hstore, hpure⟩ := of_bind_ok h
        cases hpure
        obtain ⟨key, value, items, hitems, hcache, hlogs⟩ := storeSlot_ok hstore
        have hitems' : vm.ctx.stack.items = key :: value :: items := hitems
        simp only [hitems']
        exact .inr (.inl ⟨_, _, rfl, hcache, hlogs⟩)
    case log numTopics =>
      obtain ⟨isStatic, t, hreads, h⟩ := of_bind_ok h
      cases hreads
      split at h
      · cases h
      · obtain ⟨_, t', hlog, hpure⟩ := of_bind_ok h
        cases hpure
        obtain ⟨entry, hlogs, hcache⟩ := appendLog_ok hlog
        have hlogs' : vm'.ctx.logs = vm.ctx.logs ++ [entry] := hlogs
        refine .inr (.inr ⟨entry, ?_, hcache, hlogs'⟩)
        rw [hlogs', List.drop_left]
        rfl
    all_goals exact absurd rfl hwrites

/-- What a turn that goes on past its opcode does to the storage. -/
theorem step_cache {host : Host} {b : UInt8} {vm vm' : Vm}
    (h : step host b vm = .ok .proceed vm') :
    vm'.shared.storageCache = replay vm.shared.storageCache (effectsOf b vm vm') := by
  obtain ⟨heffects, hrel⟩ | ⟨key, value, heffects, hcache, -⟩ | ⟨entry, heffects, hcache, -⟩ :=
    step_effects h
  · rw [heffects]
    exact unwritten_cache hrel
  · rw [heffects, hcache]
    rfl
  · rw [heffects, hcache]
    rfl

/-- What a turn that ends in a jump or a request does to the storage. -/
theorem step_quiet {host : Host} {b : UInt8} {vm vm' : Vm} {next : Next}
    (h : step host b vm = .ok next vm') (hnext : next ≠ .proceed) : unwritten.rel vm vm' := by
  by_cases hwrites : (Opcode.ofByte b).writes = false
  · exact (unwritten_step host hwrites).of_ok h
  · exact absurd (step_writes (Bool.not_eq_false _ ▸ hwrites) h).1 hnext

/-! ## The tree of an execution -/

/-- The call that a result is waited for with; a creation is none. -/
def Pending.kind : Pending → Option CallKind
  | .call kind _ _ _ => some kind
  | .precompile _ _ | .create _ _ => none

/-- The tree of a frame's loop from a state on. -/
def callTree (host : Host) : ℕ → Vm → CallTree Effect
  | 0, _ => .done
  | fuel + 1, vm =>
    match vm.fetch with
    | none => .done
    | some b =>
      match step host b vm with
      | .error _ _ => .done
      | .ok .proceed vm' => .emitAll (effectsOf b vm vm') (callTree host fuel vm'.advance)
      | .ok .jumped vm' => callTree host fuel vm'
      | .ok (.awaits request pending) vm' =>
        match serve host (run host fuel) vm' request with
        | none => .done
        | some (result, shared) =>
          let rest :=
            match resume host pending result { vm' with shared := shared } with
            | .error _ _ => .done
            | .ok () vm'' => callTree host fuel vm''.advance
          match request with
          | .precompile _ _ _ => rest
          | .frame message =>
            if 1024 < message.depth then rest
            else
              .emit (.start pending.kind vm'.ctx.isStatic)
                (.sub result.success (callTree host fuel (.enter message vm'.shared)) rest)

/-- The tree of an execution, which is empty where it is too deep. -/
def executionTree (host : Host) (fuel : ℕ) (message : Message) (shared : Shared) :
    CallTree Effect :=
  if 1024 < message.depth then .done else callTree host fuel (.enter message shared)

/-- Where a frame stands: before a turn of its loop, or with the answer to a request. -/
inductive Stage
  | turn (vm : Vm)
  | answer (pending : Pending) (result : ExecutionResult) (vm : Vm)

/-- The storage that the frame goes on with: a sub-frame that failed is rolled back. -/
def Stage.cache : Stage → Storage
  | .turn vm => vm.shared.storageCache
  | .answer pending result vm =>
    if result.success then vm.shared.storageCache
    else pending.snapshot.getD vm.shared.storageCache

def Stage.vm : Stage → Vm
  | .turn vm => vm
  | .answer _ _ vm => vm

/-- The derivations of runs, with their trees. -/
inductive Runs (host : Host) : Stage → CallTree Effect → RunOutcome → Prop
  | ended {vm : Vm} : vm.fetch = none → Runs host (.turn vm) .done (.finished vm)
  | raised {vm vm' : Vm} {b : UInt8} {halt : Halt} : vm.fetch = some b →
      step host b vm = .error halt vm' → Runs host (.turn vm) .done (.raised halt vm')
  | proceed {vm vm' : Vm} {b : UInt8} {tree : CallTree Effect} {out : RunOutcome} :
      vm.fetch = some b → step host b vm = .ok .proceed vm' →
      Runs host (.turn vm'.advance) tree out →
      Runs host (.turn vm) (.emitAll (effectsOf b vm vm') tree) out
  | jumped {vm vm' : Vm} {b : UInt8} {tree : CallTree Effect} {out : RunOutcome} :
      vm.fetch = some b → step host b vm = .ok .jumped vm' →
      Runs host (.turn vm') tree out → Runs host (.turn vm) tree out
  | precompile {vm vm' : Vm} {b : UInt8} {address gas : ℕ} {data : Bytes} {pending : Pending}
      {tree : CallTree Effect} {out : RunOutcome} :
      vm.fetch = some b →
      step host b vm = .ok (.awaits (.precompile address data gas) pending) vm' →
      Runs host (.answer pending
        (.ofPrecompiled (executePrecompile host.crypto vm'.shared.clock address data gas)) vm'.tick)
        tree out →
      Runs host (.turn vm) tree out
  | deep {vm vm' : Vm} {b : UInt8} {message : Message} {pending : Pending}
      {tree : CallTree Effect} {out : RunOutcome} :
      vm.fetch = some b → step host b vm = .ok (.awaits (.frame message) pending) vm' →
      1024 < message.depth → Runs host (.answer pending tooDeep vm') tree out →
      Runs host (.turn vm) tree out
  | frame {vm vm' : Vm} {b : UInt8} {message : Message} {pending : Pending}
      {child tree : CallTree Effect} {below out : RunOutcome} {result : ExecutionResult}
      {shared : Shared} :
      vm.fetch = some b → step host b vm = .ok (.awaits (.frame message) pending) vm' →
      ¬1024 < message.depth → Runs host (.turn (.enter message vm'.shared)) child below →
      below.leave host = some (result, shared) →
      Runs host (.answer pending result { vm' with shared := shared }) tree out →
      Runs host (.turn vm)
        (.emit (.start pending.kind vm'.ctx.isStatic) (.sub result.success child tree)) out
  | resumeRaised {vm vm' : Vm} {pending : Pending} {result : ExecutionResult} {halt : Halt} :
      resume host pending result vm = .error halt vm' →
      Runs host (.answer pending result vm) .done (.raised halt vm')
  | resumed {vm vm' : Vm} {pending : Pending} {result : ExecutionResult}
      {tree : CallTree Effect} {out : RunOutcome} :
      resume host pending result vm = .ok () vm' → Runs host (.turn vm'.advance) tree out →
      Runs host (.answer pending result vm) tree out

/-- A run that ends has a derivation. -/
theorem runs_callTree (host : Host) (fuel : ℕ) {vm : Vm} (h : run host fuel vm ≠ .unfinished) :
    Runs host (.turn vm) (callTree host fuel vm) (run host fuel vm) := by
  induction fuel generalizing vm with
  | zero => exact absurd rfl h
  | succ fuel ih =>
    rw [run] at h ⊢
    rw [callTree]
    cases hfetch : vm.fetch with
    | none => exact .ended hfetch
    | some b =>
      simp only [hfetch] at h
      dsimp only
      cases hstep : step host b vm with
      | error halt vm' => exact .raised hfetch hstep
      | ok next vm' =>
        simp only [hstep] at h
        cases next with
        | proceed => exact .proceed hfetch hstep (ih h)
        | jumped => exact .jumped hfetch hstep (ih h)
        | awaits request pending =>
          dsimp only at h ⊢
          cases hserve : serve host (run host fuel) vm' request with
          | none =>
            rw [hserve] at h
            exact absurd rfl h
          | some answer =>
            obtain ⟨result, shared⟩ := answer
            simp only [hserve] at h
            dsimp only
            have hanswer : Runs host (.answer pending result { vm' with shared := shared })
                (match resume host pending result { vm' with shared := shared } with
                  | .error _ _ => .done
                  | .ok () vm'' => callTree host fuel vm''.advance)
                (match resume host pending result { vm' with shared := shared } with
                  | .error halt vm'' => .raised halt vm''
                  | .ok () vm'' => run host fuel vm''.advance) := by
              cases hresume : resume host pending result { vm' with shared := shared } with
              | error halt vm'' => exact .resumeRaised hresume
              | ok u vm'' =>
                simp only [hresume] at h
                exact .resumed hresume (ih h)
            cases request with
            | precompile address data gas =>
              cases hserve
              exact .precompile hfetch hstep hanswer
            | frame message =>
              by_cases hdepth : 1024 < message.depth
              · rw [serve, execute, if_pos hdepth] at hserve
                cases hserve
                dsimp only
                rw [if_pos hdepth]
                exact .deep hfetch hstep hdepth hanswer
              · rw [serve, execute, if_neg hdepth] at hserve
                dsimp only
                rw [if_neg hdepth]
                refine .frame hfetch hstep hdepth (ih fun hrun => ?_) hserve hanswer
                rw [hrun] at hserve
                cases hserve

/-! ## What failed frames leave -/

theorem settleCall_eq (kind : CallKind) (cacheSnap : Storage) (r : ExecutionResult) (vm : Vm) :
    settleCall kind cacheSnap r vm = .ok ()
      (if r.success then if kind = .staticcall then vm else vm.withLogs (vm.ctx.logs ++ r.logs)
        else vm.withCache cacheSnap) := by
  unfold settleCall
  split
  · split
    · rfl
    · rfl
  · rfl

theorem settleCall_cache {kind : CallKind} {cacheSnap : Storage} {r : ExecutionResult}
    {vm vm' : Vm} {u : Unit} (h : settleCall kind cacheSnap r vm = .ok u vm') :
    vm'.shared.storageCache = if r.success then vm.shared.storageCache else cacheSnap := by
  rw [settleCall_eq] at h
  cases h
  split
  · split
    · rfl
    · rfl
  · rfl

theorem settleCreate_ok {cacheSnap : Storage} {newAddr : String} {r : ExecutionResult}
    {vm vm' : Vm} {u : Unit} (h : settleCreate cacheSnap newAddr r vm = .ok u vm') :
    vm'.shared.storageCache = (if r.success then vm.shared.storageCache else cacheSnap) ∧
      vm'.ctx.logs = vm.ctx.logs := by
  unfold settleCreate at h
  split at h
  · next hsuccess =>
    obtain ⟨n, s, hparse, hpush⟩ := of_bind_ok h
    have hparse' := (keeps_parseHex (G := unwritten) newAddr).of_ok hparse
    have hpush' := (quiet_unwritten.push n).of_ok hpush
    have hrel := unwritten.trans hparse' hpush'
    rw [if_pos hsuccess]
    exact ⟨unwritten_cache hrel, unwritten_logs hrel⟩
  · next hfailed =>
    obtain ⟨_, s, hpush, hmodifies⟩ := of_bind_ok h
    have hlogs := unwritten_logs ((quiet_unwritten.push 0).of_ok hpush)
    cases hmodifies
    rw [if_neg hfailed]
    exact ⟨rfl, hlogs⟩

/-- A resumed frame goes on with the storage of the answer. -/
theorem resume_cache {host : Host} {pending : Pending} {r : ExecutionResult} {vm vm' : Vm}
    {u : Unit} (h : resume host pending r vm = .ok u vm') :
    vm'.shared.storageCache = (Stage.answer pending r vm).cache := by
  cases pending with
  | precompile retOffset retSize =>
    obtain ⟨_, t, htake, hanswer⟩ := of_bind_ok h
    cases htake
    have hrel := (quiet_unwritten.answerCall host _ _ r).of_ok hanswer
    simp only [Stage.cache, Pending.snapshot, Option.getD_none, ite_self]
    exact unwritten_cache hrel
  | call kind cacheSnap retOffset retSize =>
    obtain ⟨_, t, htake, h⟩ := of_bind_ok h
    cases htake
    obtain ⟨_, t', hsettle, hanswer⟩ := of_bind_ok h
    have hrel := (quiet_unwritten.answerCall host _ _ r).of_ok hanswer
    have hcache := settleCall_cache hsettle
    exact (unwritten_cache hrel).trans hcache
  | create cacheSnap newAddr =>
    obtain ⟨_, t, htake, h⟩ := of_bind_ok h
    cases htake
    obtain ⟨_, t', hsettle, hreturn⟩ := of_bind_ok h
    have hcache := (settleCreate_ok hsettle).1
    cases hreturn
    exact hcache

theorem enter_cache {message : Message} (h : message.depth ≠ 0) (shared : Shared) :
    (Vm.enter message shared).shared = shared := if_neg h

/-- The result of a frame that succeeded is that of a loop that has come to its end. -/
theorem leave_success {host : Host} {out : RunOutcome} {result : ExecutionResult} {shared : Shared}
    (h : out.leave host = some (result, shared)) (hsuccess : result.success = true) :
    ∃ vm, out = .finished vm ∧ shared = vm.shared ∧
      result.storageChanges = vm.shared.storageCache := by
  cases out with
  | finished vm =>
    cases h
    exact ⟨vm, rfl, rfl, rfl⟩
  | raised halt vm =>
    cases h
    cases halt <;> cases hsuccess
  | unfinished => cases h

/-- The storage of a frame that has come to its end is the one it started with and the writes that
survive, by induction on the derivation. -/
theorem runs_cache {host : Host} {stage : Stage} {tree : CallTree Effect} {out : RunOutcome}
    (h : Runs host stage tree out) {vm : Vm} (hout : out = .finished vm) :
    vm.shared.storageCache = replay stage.cache tree.survivors := by
  induction h generalizing vm with
  | ended hfetch =>
    cases hout
    rfl
  | raised hfetch hstep => cases hout
  | proceed hfetch hstep hrest ih =>
    have hturn := step_cache hstep
    rw [ih hout, CallTree.survivors_emitAll, replay, replay, List.foldl_append]
    exact congrArg (List.foldl Effect.apply · _) hturn
  | jumped hfetch hstep hrest ih =>
    have hquiet := unwritten_cache (step_quiet hstep (by simp))
    rw [ih hout]
    exact congrArg (replay · _) hquiet
  | precompile hfetch hstep hanswer ih =>
    obtain ⟨-, retOffset, retSize, rfl⟩ := step_opens hstep
    have hquiet := unwritten_cache (step_quiet hstep (by simp))
    rw [ih hout]
    simp only [Stage.cache, Pending.snapshot, Option.getD_none, ite_self]
    exact congrArg (replay · _) hquiet
  | deep hfetch hstep hdepth hanswer ih =>
    obtain ⟨-, -, hsnap⟩ := step_opens hstep
    have hquiet := unwritten_cache (step_quiet hstep (by simp))
    rw [ih hout]
    simp only [Stage.cache, hsnap, Option.getD_some, ite_self]
    exact congrArg (replay · _) hquiet
  | @frame s t b message pending child tree below out result shared hfetch hstep hdepth hchild
      hleave hanswer ihchild ih =>
    obtain ⟨-, hbelow, hsnap⟩ := step_opens hstep
    have hquiet := unwritten_cache (step_quiet hstep (by simp))
    rw [ih hout, CallTree.survivors, CallTree.survivors, replay, replay, List.foldl_cons,
      List.foldl_append]
    apply congrArg (List.foldl Effect.apply · _)
    by_cases hsuccess : result.success = true
    · obtain ⟨r, hr, hshared, -⟩ := leave_success hleave hsuccess
      have hentry : (Vm.enter message t.shared).shared = t.shared :=
        enter_cache (by omega) t.shared
      have hcache := ihchild hr
      simp only [Stage.cache, hsuccess, if_true, hshared, Effect.apply] at hcache ⊢
      rw [hcache, hentry, hquiet]
      rfl
    · simp only [Stage.cache, hsuccess, hsnap, Option.getD_some, Effect.apply]
      exact hquiet
  | resumeRaised hresume => cases hout
  | resumed hresume hrest ih =>
    have hcache := resume_cache hresume
    rw [ih hout]
    exact congrArg (replay · _) hcache

/-! ## Logs -/

/-- A call hands on the logs of the frame that it starts; `STATICCALL` and a creation drop them. -/
def handsOnLogs : Option CallKind → Bool
  | some .call | some .delegatecall | some .callcode => true
  | some .staticcall | none => false

/-- The logs of a frame and of those below it that are handed on; the flag is that of the frame that
has just been started. -/
def keptLogs : Bool → CallTree Effect → List Log
  | _, .done => []
  | handsOn, .emit (.write _ _ _) rest => keptLogs handsOn rest
  | handsOn, .emit (.log entry) rest => entry :: keptLogs handsOn rest
  | _, .emit (.start kind _) rest => keptLogs (handsOnLogs kind) rest
  | handsOn, .sub kept child rest =>
    (if kept && handsOn then keptLogs false child else []) ++ keptLogs false rest

/-- What a turn that goes on past its opcode logs. -/
theorem step_logs {host : Host} {b : UInt8} {vm vm' : Vm} (h : step host b vm = .ok .proceed vm')
    (rest : CallTree Effect) :
    vm.ctx.logs ++ keptLogs false (.emitAll (effectsOf b vm vm') rest) =
      vm'.ctx.logs ++ keptLogs false rest := by
  obtain ⟨heffects, hrel⟩ | ⟨key, value, heffects, -, hlogs⟩ | ⟨entry, heffects, -, hlogs⟩ :=
    step_effects h
  · rw [heffects, unwritten_logs hrel]
    rfl
  · rw [heffects, hlogs]
    rfl
  · rw [heffects, hlogs, List.append_assoc]
    rfl

/-- The logs that the frame goes on with. -/
def Stage.logs : Stage → List Log
  | .turn vm => vm.ctx.logs
  | .answer pending result vm =>
    vm.ctx.logs ++ if result.success && handsOnLogs pending.kind then result.logs else []

/-- A resumed frame goes on with the logs of the answer. -/
theorem resume_logs {host : Host} {pending : Pending} {r : ExecutionResult} {vm vm' : Vm}
    {u : Unit} (h : resume host pending r vm = .ok u vm') :
    vm'.ctx.logs = (Stage.answer pending r vm).logs := by
  cases pending with
  | precompile retOffset retSize =>
    obtain ⟨_, t, htake, hanswer⟩ := of_bind_ok h
    cases htake
    have hrel := (quiet_unwritten.answerCall host _ _ r).of_ok hanswer
    simp only [Stage.logs, Pending.kind, handsOnLogs, Bool.and_false, Bool.false_eq_true, if_false,
      List.append_nil]
    exact unwritten_logs hrel
  | call kind cacheSnap retOffset retSize =>
    obtain ⟨_, t, htake, h⟩ := of_bind_ok h
    cases htake
    obtain ⟨_, t', hsettle, hanswer⟩ := of_bind_ok h
    have hrel := (quiet_unwritten.answerCall host _ _ r).of_ok hanswer
    rw [unwritten_logs hrel]
    rw [settleCall_eq] at hsettle
    cases hsettle
    cases hsuccess : r.success with
    | false => simp [Stage.logs, hsuccess]; rfl
    | true => cases kind <;> simp [Stage.logs, hsuccess, Pending.kind, handsOnLogs] <;> rfl
  | create cacheSnap newAddr =>
    obtain ⟨_, t, htake, h⟩ := of_bind_ok h
    cases htake
    obtain ⟨_, t', hsettle, hreturn⟩ := of_bind_ok h
    have hlogs := (settleCreate_ok hsettle).2
    cases hreturn
    simp only [Stage.logs, Pending.kind, handsOnLogs, Bool.and_false, Bool.false_eq_true, if_false,
      List.append_nil]
    exact hlogs

/-- The logs of a frame that has come to its end are those it started with and those that are kept,
by induction on the derivation. -/
theorem runs_logs {host : Host} {stage : Stage} {tree : CallTree Effect} {out : RunOutcome}
    (h : Runs host stage tree out) {vm : Vm} (hout : out = .finished vm) :
    vm.ctx.logs = stage.logs ++ keptLogs false tree := by
  induction h generalizing vm with
  | ended hfetch =>
    cases hout
    exact (List.append_nil _).symm
  | raised hfetch hstep => cases hout
  | @proceed s t b tree out hfetch hstep hrest ih =>
    rw [ih hout]
    exact (step_logs hstep tree).symm
  | jumped hfetch hstep hrest ih =>
    have hquiet := unwritten_logs (step_quiet hstep (by simp))
    rw [ih hout]
    exact congrArg (· ++ _) hquiet
  | precompile hfetch hstep hanswer ih =>
    obtain ⟨-, retOffset, retSize, rfl⟩ := step_opens hstep
    have hquiet := unwritten_logs (step_quiet hstep (by simp))
    rw [ih hout]
    simp only [Stage.logs, Pending.kind, handsOnLogs, Bool.and_false, Bool.false_eq_true, if_false,
      List.append_nil]
    exact congrArg (· ++ _) hquiet
  | deep hfetch hstep hdepth hanswer ih =>
    have hquiet := unwritten_logs (step_quiet hstep (by simp))
    rw [ih hout]
    simp only [Stage.logs, tooDeep, Bool.false_and, Bool.false_eq_true, if_false, List.append_nil]
    exact congrArg (· ++ _) hquiet
  | @frame s t b message pending child tree below out result shared hfetch hstep hdepth hchild
      hleave hanswer ihchild ih =>
    have hquiet := unwritten_logs (step_quiet hstep (by simp))
    have hkept : (if result.success && handsOnLogs pending.kind then result.logs else []) =
        if result.success && handsOnLogs pending.kind then keptLogs false child else [] := by
      by_cases hsuccess : result.success = true
      · obtain ⟨r, rfl, -, -⟩ := leave_success hleave hsuccess
        have hlogs : r.ctx.logs = [] ++ keptLogs false child := ihchild rfl
        have hresult : result.logs = r.ctx.logs := by
          cases hleave
          rfl
        rw [hresult, hlogs, List.nil_append]
      · rw [Bool.not_eq_true] at hsuccess
        rw [hsuccess]
        rfl
    rw [ih hout, keptLogs, keptLogs, ← List.append_assoc]
    simp only [Stage.logs]
    rw [hkept, hquiet]
  | resumeRaised hresume => cases hout
  | resumed hresume hrest ih =>
    have hlogs := resume_logs hresume
    rw [ih hout]
    exact congrArg (· ++ _) hlogs

/-! ## Static executions -/

theorem rel_bind {G : Guarantee Vm} {α β : Type} {x : Exec α} {f : α → Exec β} {vm : Vm}
    (hx : G.rel vm (left (x vm))) (hf : ∀ a t, x vm = .ok a t → G.rel t (left (f a t))) :
    G.rel vm (left ((x >>= f) vm)) := by
  cases h : x vm with
  | ok a t =>
    rw [h] at hx
    rw [bind_ok h]
    exact G.trans hx (hf a t h)
  | error halt t =>
    rw [h] at hx
    rw [bind_error h]
    exact hx

/-- What a static frame is answered: its sub-frame has left the storage and logged nothing. -/
def Stage.Clean : Stage → Prop
  | .turn _ => True
  | .answer pending result vm =>
    (∀ storage, pending.snapshot = some storage → storage = vm.shared.storageCache) ∧
      result.logs = []

theorem clean_resume (host : Host) {pending : Pending} {r : ExecutionResult} {vm : Vm}
    (h : (Stage.answer pending r vm).Clean) :
    unwritten.rel vm (left (resume host pending r vm)) := by
  obtain ⟨hsnap, hlogs⟩ := h
  have htake : unwritten.rel vm (left (takeResult r vm)) := unwritten.refl vm
  cases pending with
  | precompile retOffset retSize =>
    exact rel_bind htake fun _ t _ => quiet_unwritten.answerCall host _ _ r t
  | call kind cacheSnap retOffset retSize =>
    refine rel_bind htake fun _ t ht => rel_bind ?_ fun _ t' _ =>
      quiet_unwritten.answerCall host _ _ r t'
    cases ht
    rw [settleCall_eq]
    obtain rfl := hsnap cacheSnap rfl
    split
    · split
      · exact unwritten.refl _
      · rw [hlogs]
        exact congrArg (fun logs => (vm.shared.storageCache, logs, vm.ctx.toMessage))
          (List.append_nil _)
    · exact unwritten.refl _
  | create cacheSnap newAddr =>
    have hadd : unwritten.rel vm (left ((modifies fun vm =>
        vm.withGasUsed (vm.ctx.gasUsed + r.gasUsed)) vm)) := unwritten.refl vm
    refine rel_bind hadd fun _ t ht => rel_bind ?_ fun _ t' _ => quiet_unwritten.returnData _ _
    cases ht
    obtain rfl := hsnap cacheSnap rfl
    unfold settleCreate
    split
    · exact rel_bind (keeps_parseHex newAddr _) fun n t _ => quiet_unwritten.push n t
    · refine rel_bind (quiet_unwritten.push 0 _) fun _ t ht => ?_
      have hrel := (quiet_unwritten.push 0).of_ok ht
      exact congrArg (fun cache => (cache, t.ctx.logs, t.ctx.toMessage)) (unwritten_cache hrel).symm

theorem proceeds_next {x : Exec Unit} {vm vm' : Vm} {next : Next}
    (h : proceeds x vm = .ok next vm') : next = .proceed := by
  obtain ⟨_, t, -, hpure⟩ := of_bind_ok h
  cases hpure
  rfl

theorem jumpTo_next {dest : ℕ} {opName : String} {vm vm' : Vm} {next : Next}
    (h : jumpTo dest opName vm = .ok next vm') : next = .jumped := by
  obtain ⟨valid, t, -, h⟩ := of_bind_ok h
  split at h
  · obtain ⟨_, t', -, hpure⟩ := of_bind_ok h
    cases hpure
    rfl
  · cases h

/-- The frame that a call starts is static where `STATICCALL` makes it so or `DELEGATECALL` hands
the flag on. -/
theorem opCall_starts {host : Host} {kind : CallKind} {vm vm' : Vm} {message : Message}
    {pending : Pending} (h : opCall host kind vm = .ok (.awaits (.frame message) pending) vm') :
    ∃ cacheSnap retOffset retSize, pending = .call kind cacheSnap retOffset retSize ∧
      (kind = .staticcall ∨ kind = .delegatecall → vm.ctx.isStatic = true →
        message.isStatic = true) := by
  have hrel : vm'.ctx.isStatic = vm.ctx.isStatic :=
    congrArg Message.isStatic (unwritten_message ((quiet_unwritten.opCall host kind).of_ok h))
  obtain ⟨o, r, -, h⟩ := of_bind_ok h
  obtain ⟨_, r₁, -, h⟩ := of_bind_ok h
  obtain ⟨_, r₂, -, h⟩ := of_bind_ok h
  obtain ⟨data, r₃, -, h⟩ := of_bind_ok h
  split at h
  · cases h
  · obtain ⟨code, r₄, -, h⟩ := of_bind_ok h
    split at h
    · obtain ⟨_, r₅, -, h⟩ := of_bind_ok h
      obtain ⟨_, r₆, -, h⟩ := of_bind_ok h
      cases h
    · cases h
      refine ⟨_, _, _, rfl, fun hkind hstatic => ?_⟩
      obtain rfl | rfl := hkind
      · rfl
      · exact hrel.trans hstatic

/-- A static frame starts others by calls only. -/
theorem static_starts {host : Host} {b : UInt8} {vm vm' : Vm} {message : Message}
    {pending : Pending} (hstatic : vm.ctx.isStatic = true)
    (h : step host b vm = .ok (.awaits (.frame message) pending) vm') :
    ∃ kind cacheSnap retOffset retSize, pending = .call kind cacheSnap retOffset retSize ∧
      (kind = .staticcall ∨ kind = .delegatecall → message.isStatic = true) := by
  obtain ⟨_, r, hcharge, h⟩ := of_bind_ok h
  obtain ⟨-, rfl⟩ := useGas_ok hcharge
  have hstatic' : (vm.addGas (getGasCost (.ofByte b))).ctx.isStatic = true := hstatic
  have hcall {kind : CallKind} (h : opCall host kind (vm.addGas (getGasCost (.ofByte b))) =
      .ok (.awaits (.frame message) pending) vm') :
      ∃ kind cacheSnap retOffset retSize, pending = .call kind cacheSnap retOffset retSize ∧
        (kind = .staticcall ∨ kind = .delegatecall → message.isStatic = true) := by
    obtain ⟨cacheSnap, retOffset, retSize, hpending, hflag⟩ := opCall_starts h
    exact ⟨kind, cacheSnap, retOffset, retSize, hpending, fun hkind => hflag hkind hstatic'⟩
  have hrefused {err : String} {x : Exec Next}
      (h : refuseStatic err x (vm.addGas (getGasCost (.ofByte b))) =
        .ok (.awaits (.frame message) pending) vm') : False := by
    cases (refuseStatic_of_static hstatic' err x).symm.trans h
  have hproceeds {x : Exec Unit} (h : proceeds x (vm.addGas (getGasCost (.ofByte b))) =
      .ok (.awaits (.frame message) pending) vm') : False := by
    cases proceeds_next h
  generalize Opcode.ofByte b = op at h hcall hrefused hproceeds
  cases op
  case call => exact hcall h
  case callcode => exact hcall h
  case delegatecall => exact hcall h
  case staticcall => exact hcall h
  case jump =>
    obtain ⟨dest, t, -, h⟩ := of_bind_ok h
    cases jumpTo_next h
  case jumpi =>
    obtain ⟨dest, t, -, h⟩ := of_bind_ok h
    obtain ⟨cond, t', -, h⟩ := of_bind_ok h
    split at h
    · cases h
    · cases jumpTo_next h
  case jumpdest => cases h
  case invalid =>
    obtain ⟨_, t, -, h⟩ := of_bind_ok h
    cases h
  case unknown =>
    obtain ⟨_, t, -, h⟩ := of_bind_ok h
    cases h
  all_goals first
    | exact (hproceeds h).elim
    | exact (hrefused h).elim

/-- The frame with which a run has ended. -/
def RunOutcome.Ends (vm : Vm) (out : RunOutcome) : Prop :=
  out = .finished vm ∨ ∃ halt, out = .raised halt vm

theorem leave_ends {host : Host} {out : RunOutcome} {result : ExecutionResult} {shared : Shared}
    (h : out.leave host = some (result, shared)) :
    ∃ vm, out.Ends vm ∧ shared = vm.shared ∧ (result.logs = [] ∨ result.logs = vm.ctx.logs) := by
  cases out with
  | finished vm =>
    cases h
    exact ⟨vm, .inl rfl, rfl, .inr rfl⟩
  | raised halt vm =>
    cases h
    refine ⟨vm, .inr ⟨halt, rfl⟩, rfl, .inl ?_⟩
    cases halt <;> rfl
  | unfinished => cases h

/-- No static frame starts another by `CALL` or by `CALLCODE`. -/
def Guarded (tree : CallTree Effect) : Prop :=
  .start (some .call) true ∉ tree.all ∧ .start (some .callcode) true ∉ tree.all

instance (tree : CallTree Effect) : Decidable (Guarded tree) := inferInstanceAs (Decidable (_ ∧ _))

/-- A static frame writes nothing and neither do the frames below it, as long as none is started by
a call that drops the flag, by induction on the derivation. -/
theorem static_runs {host : Host} {stage : Stage} {tree : CallTree Effect} {out : RunOutcome}
    (h : Runs host stage tree out) (hstatic : stage.vm.ctx.isStatic = true) (hclean : stage.Clean)
    (hguard : Guarded tree) :
    (∀ e ∈ tree.all, ∃ kind, e = .start kind true) ∧
      ∀ vm, out.Ends vm → unwritten.rel stage.vm vm := by
  have hends {vm t : Vm} {halt : Halt} (hvm : (RunOutcome.raised halt t).Ends vm) : vm = t := by
    obtain heq | ⟨halt', heq⟩ := hvm
    · cases heq
    · cases heq
      rfl
  have hkeeps {vm vm' : Vm} (hrel : unwritten.rel vm vm') (hstatic : vm.ctx.isStatic = true) :
      vm'.ctx.isStatic = true := (congrArg Message.isStatic (unwritten_message hrel)).trans hstatic
  induction h with
  | @ended vm hfetch =>
    refine ⟨by simp [CallTree.all], fun vm' hvm' => ?_⟩
    obtain heq | ⟨halt, heq⟩ := hvm'
    · cases heq
      exact unwritten.refl vm
    · cases heq
  | @raised vm vm' b halt hfetch hstep =>
    refine ⟨by simp [CallTree.all], fun t ht => ?_⟩
    obtain rfl := hends ht
    exact static_left hstatic (congrArg left hstep)
  | @proceed vm vm' b tree out hfetch hstep hrest ih =>
    have hrel : unwritten.rel vm vm' := static_left hstatic (congrArg left hstep)
    have hnone : effectsOf b vm vm' = [] := by
      by_cases hwrites : (Opcode.ofByte b).writes = true
      · exact absurd ((step_writes hwrites hstep).2.symm.trans hstatic) Bool.false_ne_true
      · exact effectsOf_of_quiet (Bool.not_eq_true _ ▸ hwrites)
    rw [hnone] at hguard ⊢
    obtain ⟨hall, hrun⟩ := ih (hkeeps hrel hstatic) trivial hguard
    exact ⟨hall, fun t ht => unwritten.trans hrel (hrun t ht)⟩
  | @jumped vm vm' b tree out hfetch hstep hrest ih =>
    have hrel : unwritten.rel vm vm' := static_left hstatic (congrArg left hstep)
    obtain ⟨hall, hrun⟩ := ih (hkeeps hrel hstatic) trivial hguard
    exact ⟨hall, fun t ht => unwritten.trans hrel (hrun t ht)⟩
  | @precompile vm vm' b address gas data pending tree out hfetch hstep hanswer ih =>
    have hrel : unwritten.rel vm vm' := static_left hstatic (congrArg left hstep)
    obtain ⟨-, retOffset, retSize, rfl⟩ := step_opens hstep
    have hanswered : (Stage.answer (.precompile retOffset retSize)
        (.ofPrecompiled (executePrecompile host.crypto vm'.shared.clock address data gas))
        vm'.tick).Clean := ⟨fun _ hnone => (nomatch hnone), rfl⟩
    obtain ⟨hall, hrun⟩ := ih (hkeeps hrel hstatic) hanswered hguard
    exact ⟨hall, fun t ht => unwritten.trans hrel (hrun t ht)⟩
  | @deep vm vm' b message pending tree out hfetch hstep hdepth hanswer ih =>
    have hrel : unwritten.rel vm vm' := static_left hstatic (congrArg left hstep)
    obtain ⟨-, -, hsnap⟩ := step_opens hstep
    have hanswered : (Stage.answer pending tooDeep vm').Clean :=
      ⟨fun storage hsome => Option.some.inj (hsome.symm.trans hsnap), rfl⟩
    obtain ⟨hall, hrun⟩ := ih (hkeeps hrel hstatic) hanswered hguard
    exact ⟨hall, fun t ht => unwritten.trans hrel (hrun t ht)⟩
  | @frame vm vm' b message pending child tree below out result shared hfetch hstep hdepth hchild
      hleave hanswer ihchild ih =>
    have hrel : unwritten.rel vm vm' := static_left hstatic (congrArg left hstep)
    have hstatic' := hkeeps hrel hstatic
    obtain ⟨-, hbelow, hsnap⟩ := step_opens hstep
    simp only [Guarded, CallTree.all, List.mem_cons, List.mem_append, not_or, hstatic'] at hguard
    obtain ⟨⟨hcall, hguardCall⟩, ⟨hcallcode, hguardCallcode⟩⟩ := hguard
    have hmessage : message.isStatic = true := by
      obtain ⟨kind, cacheSnap, retOffset, retSize, rfl, hflag⟩ := static_starts hstatic hstep
      cases kind
      case call => exact absurd rfl hcall
      case callcode => exact absurd rfl hcallcode
      case staticcall => exact hflag (.inl rfl)
      case delegatecall => exact hflag (.inr rfl)
    obtain ⟨hallChild, hrunChild⟩ := ihchild hmessage trivial ⟨hguardCall.1, hguardCallcode.1⟩
    obtain ⟨t, ht, hshared, hlogs⟩ := leave_ends hleave
    have hchildRel := hrunChild t ht
    have hentry : (Vm.enter message vm'.shared).shared = vm'.shared :=
      enter_cache (by omega) vm'.shared
    have hcache : shared.storageCache = vm'.shared.storageCache := by
      rw [hshared, unwritten_cache hchildRel]
      exact congrArg Shared.storageCache hentry
    have hempty : result.logs = [] := by
      obtain hnone | hsome := hlogs
      · exact hnone
      · rw [hsome, unwritten_logs hchildRel]
        rfl
    have hanswered : (Stage.answer pending result { vm' with shared := shared }).Clean := by
      refine ⟨fun storage hsome => ?_, hempty⟩
      exact (Option.some.inj (hsome.symm.trans hsnap)).trans hcache.symm
    obtain ⟨hall, hrun⟩ := ih hstatic' hanswered ⟨hguardCall.2, hguardCallcode.2⟩
    refine ⟨?_, fun r hr => unwritten.trans hrel (unwritten.trans ?_ (hrun r hr))⟩
    · simp only [CallTree.all, List.mem_cons, List.mem_append]
      rintro e (rfl | he | he)
      · exact ⟨pending.kind, by rw [hstatic']⟩
      · exact hallChild e he
      · exact hall e he
    · exact congrArg (fun cache => (cache, vm'.ctx.logs, vm'.ctx.toMessage)) hcache
  | @resumeRaised vm vm' pending result halt hresume =>
    refine ⟨by simp [CallTree.all], fun t ht => ?_⟩
    obtain rfl := hends ht
    have hrel := clean_resume host hclean
    rwa [hresume] at hrel
  | @resumed vm vm' pending result tree out hresume hrest ih =>
    have hrel : unwritten.rel vm vm' := by
      have hrel := clean_resume host hclean
      rwa [hresume] at hrel
    obtain ⟨hall, hrun⟩ := ih (hkeeps hrel hstatic) trivial hguard
    exact ⟨hall, fun t ht => unwritten.trans hrel (hrun t ht)⟩

/-- A static execution, unless a call in it drops the flag, writes no slot and logs nothing in any
of its frames, and the storage is the one it began with. -/
theorem static_execution_readonly (host : Host) (message : Message) (shared : Shared) (fuel : ℕ)
    (hstatic : message.isStatic = true) (hfuel : message.gas + 1 < fuel)
    (hguard : Guarded (executionTree host fuel message shared)) :
    ∃ result shared', execute host (run host fuel) message shared = some (result, shared') ∧
      (∀ e ∈ (executionTree host fuel message shared).all, ∃ kind, e = .start kind true) ∧
      shared'.storageCache = (Vm.enter message shared).shared.storageCache ∧
      result.logs = [] := by
  have hrun : run host fuel (.enter message shared) ≠ .unfinished := run_finishes host fuel _ hfuel
  unfold executionTree at hguard ⊢
  by_cases hdepth : 1024 < message.depth
  · rw [execute, if_pos hdepth]
    simp only [if_pos hdepth] at hguard ⊢
    refine ⟨tooDeep, shared, rfl, by simp [CallTree.all], ?_, rfl⟩
    rw [enter_cache (by omega)]
  · simp only [if_neg hdepth] at hguard ⊢
    obtain ⟨hall, hkeeps⟩ :=
      static_runs (runs_callTree host fuel hrun) (hstatic : _ = true) trivial hguard
    rw [execute, if_neg hdepth]
    cases hleave : (run host fuel (.enter message shared)).leave host with
    | none =>
      cases hout : run host fuel (.enter message shared) with
      | finished vm => rw [hout] at hleave; cases hleave
      | raised halt vm => rw [hout] at hleave; cases hleave
      | unfinished => exact absurd hout hrun
    | some answer =>
      obtain ⟨result, shared'⟩ := answer
      obtain ⟨vm, hends, rfl, hlogs⟩ := leave_ends hleave
      have hrel := hkeeps vm hends
      refine ⟨result, vm.shared, rfl, hall, unwritten_cache hrel, ?_⟩
      obtain hnone | hsome := hlogs
      · exact hnone
      · exact hsome.trans (unwritten_logs hrel)

/-- One contract, which stores 1 in its slot 0. -/
def Sample.writer : Database where
  getContractBytecode _ address :=
    .ok (if address = formatHex 40 0xcc then some "6001600055" else none)
  getStorage _ _ _ := .ok zeroHex
  getAccountBalance _ _ := .ok 0
  getAccount _ _ := .ok none
  getBlock _ _ := .ok none

def Sample.writerHost : Host := { Sample.host with db := some Sample.writer }

/-- A static message whose code calls the contract with an opcode. -/
def Sample.calling (opcode : UInt8) : Message where
  caller := "00000000000000000000000000000000000000aa"
  address := "00000000000000000000000000000000000000bb"
  code := [0x60, 0, 0x60, 0, 0x60, 0, 0x60, 0, 0x60, 0, 0x60, 0xcc, 0x61, 0xff, 0xff, opcode]
  data := []
  value := 0
  gas := 100000
  origin := ""
  isStatic := true
  depth := 0

/-- `DELEGATECALL` hands the flag on, so the contract's code fails. -/
theorem delegate_readonly :
    ∃ result shared', execute Sample.writerHost (run Sample.writerHost 100002)
        (Sample.calling 0xf4) .new = some (result, shared') ∧
      (∀ e ∈ (executionTree Sample.writerHost 100002 (Sample.calling 0xf4) .new).all,
        ∃ kind, e = .start kind true) ∧
      shared'.storageCache = (Vm.enter (Sample.calling 0xf4) .new).shared.storageCache ∧
      result.logs = [] :=
  static_execution_readonly Sample.writerHost (Sample.calling 0xf4) .new 100002 rfl
    (show 100000 + 1 < 100002 by decide) (by decide +kernel)

/-- `CALL` drops the flag, and the contract writes its slot. -/
theorem call_writes_static :
    (Sample.calling 0xf1).isStatic = true ∧
      Storage.get (Vm.enter (Sample.calling 0xf1) .new).shared.storageCache (formatHex 40 0xcc)
        zeroHex = none ∧
      (execute Sample.writerHost (run Sample.writerHost 1000) (Sample.calling 0xf1) .new).map
          (fun answer => (answer.1.success,
            Storage.get answer.2.storageCache (formatHex 40 0xcc) zeroHex)) =
        some (true, some (formatHex 64 1)) := by
  decide +kernel

end Qubitcoin.PythonVm
