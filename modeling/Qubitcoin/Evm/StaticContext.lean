import Qubitcoin.Evm.Reachability

/-! What a static frame leaves unchanged.  The writing opcodes check the flag, but
`CALL` with a value does not, and `CALLCODE` and `DELEGATECALL` do not hand it on. -/

namespace Qubitcoin.Evm

open Command Exec Interpreter

namespace StateDB

/-- What the accounts show is the same. -/
structure Untouched (before after : StateDB) : Prop where
  balance : ∀ a, after.getBalance a = before.getBalance a
  nonce : ∀ a, after.getNonce a = before.getNonce a
  code : ∀ a, after.getCode a = before.getCode a
  storage : ∀ a key, after.getStorage a key = before.getStorage a key

/-- Nothing but snapshots has been taken since `before`, so that reverting to one of
them undoes nothing. -/
structure Frozen (before s : StateDB) : Prop where
  accounts : s.accounts = before.accounts
  codes : s.codes = before.codes
  storage : s.storage = before.storage
  journal : s.journal = before.journal
  snapshots : ∃ taken, s.snapshots = before.snapshots ++ taken ∧
    ∀ n ∈ taken, n = before.journal.length

namespace Frozen

variable {before s : StateDB}

theorem refl (s : StateDB) : Frozen s s := ⟨rfl, rfl, rfl, rfl, [], by simp, by simp⟩

theorem untouched (h : Frozen before s) : Untouched before s where
  balance a := by simp [getBalance, h.accounts]
  nonce a := by simp [getNonce, h.accounts]
  code a := by simp [getCode, h.accounts, h.codes]
  storage a key := by simp [getStorage, h.storage]

theorem snapshot (h : Frozen before s) : Frozen before s.snapshot := by
  obtain ⟨taken, htaken, hlength⟩ := h.snapshots
  refine ⟨h.accounts, h.codes, h.storage, h.journal, taken ++ [s.journal.length], ?_, ?_⟩
  · simp [StateDB.snapshot, htaken]
  · intro n hn
    cases List.mem_append.mp hn with
    | inl hn => exact hlength n hn
    | inr hn => rw [List.mem_singleton.mp hn, h.journal]

theorem le_snapshotId (h : Frozen before s) : before.snapshots.length ≤ s.snapshotId := by
  obtain ⟨taken, htaken, -⟩ := h.snapshots
  simp [snapshotId, htaken]

theorem revertToSnapshot (h : Frozen before s) {id : Nat} (hid : before.snapshots.length ≤ id) :
    Frozen before (s.revertToSnapshot id) := by
  obtain ⟨taken, htaken, hlength⟩ := h.snapshots
  unfold StateDB.revertToSnapshot
  split
  · exact h
  · next journalLen hsome =>
    rw [htaken, List.getElem?_append_right hid] at hsome
    have hlen : journalLen = s.journal.length := by
      rw [h.journal]
      exact hlength journalLen (List.mem_of_getElem? hsome)
    subst hlen
    rw [List.drop_length, List.foldr_nil, List.take_length]
    refine ⟨h.accounts, h.codes, h.storage, h.journal,
      taken.take (id - before.snapshots.length), ?_, ?_⟩
    · simp only [htaken, List.take_append, List.take_of_length_le hid]
    · intro n hn
      exact hlength n (List.mem_of_mem_take hn)

end Frozen

end StateDB

def Opcode.callKind : Opcode → Option CallKind
  | .call => some .call
  | .callcode => some .callcode
  | .delegatecall => some .delegatecall
  | .staticcall => some .staticcall
  | _ => none

/-- The request moves value, or starts a frame without the flag. -/
def Interpreter.CallRequest.Leaks (config : InterpreterConfig) (kind : CallKind)
    (request : CallRequest) (vm : Vm) : Prop :=
  match kind with
  | .call =>
    0 < request.value ∧ request.value ≤ vm.world.state.getBalance vm.ctx.call.address
  | .callcode | .delegatecall =>
    vm.world.state.getCode request.toAddr ≠ [] ∧ vm.ctx.call.depth + 1 ≤ config.maxCallDepth
  | .staticcall => False

/-- The loop is at an opcode of the `CALL` branch that passes its charges and then moves
value, or starts a frame without the flag. -/
def Vm.Leaks (host : Host) (config : InterpreterConfig) (vm : Vm) : Prop :=
  ∃ b kind request vm', vm.fetch = some b ∧ (Opcode.ofByte b).callKind = some kind ∧
    prepareCall host kind vm = .ok (some request) vm' ∧ request.Leaks config kind vm'

/-- The invariant of a static execution that started in `before`. -/
def readOnly (before : StateDB) : Invariant where
  world w := before.Frozen w.state
  frame ctx := ctx.call.isStatic = true ∧ ctx.logs = []
  pending
    | .call snapID _ _ => before.snapshots.length ≤ snapID
    | .create _ _ => False

section Static

variable {before : StateDB}

theorem readOnly_quiet : Quiet (.preserving (readOnly before).Holds) where
  stack _ _ h := h
  memory _ _ h := h
  pc _ _ h := h
  returnData _ _ h := h
  access _ _ h := h
  gas vm amount ctx hgas h := by
    cases ExecutionContext.useGas_eq_some hgas
    exact h
  stop _ h := h
  revert _ h := h

theorem giveUp_holds {id : Nat} (hid : before.snapshots.length ≤ id) :
    Keeps (.preserving (readOnly before).Holds) (giveUp id) := by
  have hrevert : Keeps (.preserving (readOnly before).Holds) (revertToSnapshot id) :=
    fun vm h => ⟨h.1.revertToSnapshot hid, h.2⟩
  unfold Interpreter.giveUp
  exact hrevert.bind fun _ => readOnly_quiet.push 0

theorem finishCall_holds {id : Nat} (hid : before.snapshots.length ≤ id) (retOff retLen : U64)
    (r : ExecutionResult) :
    Keeps (.preserving (readOnly before).Holds) (finishCall id retOff retLen r) := by
  have q : Quiet (.preserving (readOnly before).Holds) := readOnly_quiet
  have hgiveUp := giveUp_holds hid
  unfold Interpreter.finishCall
  grind

theorem enterTarget_holds {config : InterpreterConfig} {kind : CallKind} {request : CallRequest}
    {vm : Vm} (h : (readOnly before).Holds vm) (hleak : ¬request.Leaks config kind vm) {id : Nat}
    (hid : before.snapshots.length ≤ id) :
    (readOnly before).AfterStep config (enterTarget kind request vm.ctx.call id vm) := by
  unfold enterTarget
  rw [bind_ok (show reads (fun vm => vm.world.state.getCode request.toAddr) vm =
    .ok (vm.world.state.getCode request.toAddr) vm from rfl)]
  split
  · exact Invariant.afterStep_proceeds (finishCall_holds hid _ _ _) h
  · next hcode =>
    refine ⟨h, hid, ?_⟩
    intro hdepth
    have hne : vm.world.state.getCode request.toAddr ≠ [] := by simpa using hcode
    have hleaks : vm.ctx.call.depth + 1 ≤ config.maxCallDepth := by
      cases kind with
      | call => exact not_lt.mp hdepth
      | callcode => exact not_lt.mp hdepth
      | delegatecall => exact not_lt.mp hdepth
      | staticcall => exact not_lt.mp hdepth
    cases kind with
    | call => exact ⟨h.2.1, rfl⟩
    | callcode => exact absurd ⟨hne, hleaks⟩ hleak
    | delegatecall => exact absurd ⟨hne, hleaks⟩ hleak
    | staticcall => exact ⟨rfl, rfl⟩

/-- With no leak, a sub-frame is started without value and with the flag. -/
theorem startCall_holds {config : InterpreterConfig} {kind : CallKind} {request : CallRequest}
    {vm : Vm} (h : (readOnly before).Holds vm) (hleak : ¬request.Leaks config kind vm) :
    (readOnly before).AfterStep config (startCall kind request vm) := by
  have hid := h.1.le_snapshotId
  have hsnap : (readOnly before).Holds (vm.withState vm.world.state.snapshot) :=
    ⟨h.1.snapshot, h.2⟩
  have hleak' : ¬request.Leaks config kind (vm.withState vm.world.state.snapshot) := hleak
  unfold startCall
  rw [bind_ok (show snapshot vm = .ok vm.world.state.snapshotId
    (vm.withState vm.world.state.snapshot) from rfl)]
  generalize vm.withState vm.world.state.snapshot = vm₁ at hsnap hleak'
  rw [bind_ok (show reads (fun vm => vm.ctx.call) vm₁ = .ok vm₁.ctx.call vm₁ from rfl)]
  by_cases hvalue : 0 < request.value ∧ kind = .call
  · rw [if_pos hvalue]
    -- the sender cannot pay, so the transfer is refused before it writes
    have hpoor : vm₁.world.state.getBalance vm₁.ctx.call.address < request.value := by
      by_contra hle
      rw [hvalue.2] at hleak'
      exact hleak' ⟨hvalue.1, not_lt.mp hle⟩
    have hrefused : transferValue vm₁.ctx.call.address request.toAddr request.value vm₁ =
        .ok false vm₁ := by
      unfold transferValue
      rw [bind_ok (show reads (fun vm => vm.world.state.getBalance vm₁.ctx.call.address) vm₁ =
        .ok (vm₁.world.state.getBalance vm₁.ctx.call.address) vm₁ from rfl)]
      rw [if_pos (Or.inl hpoor)]
      rfl
    rw [bind_ok hrefused]
    exact Invariant.afterStep_proceeds (giveUp_holds hid) hsnap
  · rw [if_neg hvalue]
    exact enterTarget_holds hsnap hleak' hid

theorem opCall_holds {host : Host} {config : InterpreterConfig} {kind : CallKind} {vm : Vm}
    (h : (readOnly before).Holds vm)
    (hleak : ∀ request vm', prepareCall host kind vm = .ok (some request) vm' →
      ¬request.Leaks config kind vm') :
    (readOnly before).AfterStep config (opCall host kind vm) := by
  have q : Quiet (.preserving (readOnly before).Holds) := readOnly_quiet
  have hprepare := q.prepareCall host kind
  unfold opCall
  cases hrun : prepareCall host kind vm with
  | error halt vm' =>
    rw [bind_error hrun]
    exact hprepare.of_error hrun h
  | ok request vm' =>
    rw [bind_ok hrun]
    have hvm' := hprepare.of_ok hrun h
    cases request with
    | none => exact hvm'
    | some request => exact startCall_holds hvm' (hleak request vm' hrun)

theorem dispatch_holds {host : Host} {config : InterpreterConfig} {op : Opcode} {vm : Vm}
    (h : (readOnly before).Holds vm)
    (hleak : ∀ kind, op.callKind = some kind → ∀ request vm',
      prepareCall host kind vm = .ok (some request) vm' → ¬request.Leaks config kind vm') :
    (readOnly before).AfterStep config (dispatch host op vm) := by
  have q : Quiet (.preserving (readOnly before).Holds) := readOnly_quiet
  have hrefused (err : String) (x : Exec Next) :
      (readOnly before).AfterStep config (refuseStatic err x vm) := by
    rw [refuseStatic_of_static h.2.1]
    exact h
  by_cases hop : op.writes = false
  · have hkeeps := q.dispatch host hop
    cases hrun : dispatch host op vm with
    | error halt vm' => exact hkeeps.of_error hrun h
    | ok next vm' =>
      have hvm' := hkeeps.of_ok hrun h
      cases dispatch_ok_ne_subCall hop hrun with
      | inl hnext => exact hnext ▸ hvm'
      | inr hnext => exact hnext ▸ hvm'
  · cases op
    case sstore => exact hrefused _ _
    case log => exact hrefused _ _
    case create => exact hrefused _ _
    case create2 => exact hrefused _ _
    case selfdestruct => exact hrefused _ _
    case call => exact opCall_holds h (hleak .call rfl)
    case callcode => exact opCall_holds h (hleak .callcode rfl)
    case delegatecall => exact opCall_holds h (hleak .delegatecall rfl)
    case staticcall => exact opCall_holds h (hleak .staticcall rfl)
    all_goals exact absurd rfl hop

/-- The opcodes of the `CALL` branch have no constant cost. -/
theorem chargeConst_of_callKind {b : UInt8} {kind : CallKind}
    (h : (Opcode.ofByte b).callKind = some kind) : chargeConst b = pure () := by
  unfold chargeConst
  cases hop : Opcode.ofByte b
  case call => rfl
  case callcode => rfl
  case delegatecall => rfl
  case staticcall => rfl
  all_goals
    rw [hop] at h
    cases h

/-- One turn of a static frame. -/
theorem step_holds {host : Host} {config : InterpreterConfig} {vm : Vm} {b : UInt8}
    (h : (readOnly before).Holds vm) (hleak : ¬vm.Leaks host config) (hfetch : vm.fetch = some b) :
    (readOnly before).AfterStep config (step host b vm) := by
  have q : Quiet (.preserving (readOnly before).Holds) := readOnly_quiet
  unfold step
  cases hconst : chargeConst b vm with
  | error halt vm' =>
    rw [bind_error hconst]
    exact (q.chargeConst b).of_error hconst h
  | ok u vm' =>
    rw [bind_ok hconst]
    apply dispatch_holds ((q.chargeConst b).of_ok hconst h)
    intro kind hkind request vm'' hprepare hleaks
    rw [chargeConst_of_callKind hkind] at hconst
    cases hconst
    exact hleak ⟨b, kind, request, vm'', hfetch, hkind, hprepare, hleaks⟩

theorem readOnly_kept (host : Host) (config : InterpreterConfig) (before : StateDB) :
    (readOnly before).Kept host config fun vm => ¬vm.Leaks host config where
  step vm b h hleak hfetch := step_holds h hleak hfetch
  resume pending result hid := by
    cases pending with
    | call snapID retOff retLen => exact .of_keeps (finishCall_holds hid retOff retLen result)
    | create snapID newAddr => exact hid.elim
  advance vm h := h
  underflow vm h := h

end Static

/-- An execution that ends with the accounts as they were and without a log. -/
def Execution.ReadOnly (before : StateDB) : Execution → Prop
  | .returned result world => before.Untouched world.state ∧ result.logs = []
  | .panicked world => before.Untouched world.state
  | .unfinished => True

theorem readOnly_leave {before : StateDB} {outcome : RunOutcome}
    (h : (readOnly before).Outcome outcome) : outcome.leave.ReadOnly before := by
  cases outcome with
  | finished err vm => exact ⟨h.1.untouched, h.2.2⟩
  | panicked vm => exact StateDB.Frozen.untouched h
  | unfinished => trivial

/-- Where no frame of a static execution leaks, every state the loop passes through shows
the accounts as they were and no frame has logged; so it is when the execution ends. -/
theorem static_frame_readOnly (host : Host) (config : InterpreterConfig) (block : BlockContext)
    (tx : Option TxContext) (call : CallContext) (access : Option AccessSet)
    (original : Option OriginalStorage) (state : StateDB) (hstatic : call.isStatic = true)
    (hleak : ∀ vm, Reaches host config (.enter block tx call access original state) vm →
      ¬vm.Leaks host config) :
    (∀ vm, Reaches host config (.enter block tx call access original state) vm →
      state.Untouched vm.world.state ∧ vm.ctx.logs = []) ∧
    ∀ fuel, (executeWithAccess config (run host config fuel) block tx call access original
      state).ReadOnly state := by
  have hkept := readOnly_kept host config state
  have hentry : (readOnly state).Holds (.enter block tx call access original state) :=
    ⟨.refl state, hstatic, rfl⟩
  constructor
  · intro vm hvm
    have hholds := Invariant.reaches_holds hkept hvm hentry hleak
    exact ⟨hholds.1.untouched, hholds.2.2⟩
  · intro fuel
    have hout : (readOnly state).Outcome (run host config fuel _) :=
      Invariant.run_holds hkept hentry hleak
    unfold executeWithAccess
    by_cases hdepth : config.maxCallDepth < call.depth
    · simp only [hdepth, if_true]
      exact ⟨(StateDB.Frozen.refl state).untouched, rfl⟩
    · simp only [hdepth, if_false]
      exact readOnly_leave hout

namespace Sample

def contract : Address := 0xBB
def library : Address := 0x20

/-- `PUSH1 1 PUSH1 0 SSTORE`. -/
def writer : Bytes := [0x60, 0x01, 0x60, 0x00, 0x55]

/-- `DELEGATECALL` to the library. -/
def delegator : Bytes :=
  [0x60, 0x00, 0x60, 0x00, 0x60, 0x00, 0x60, 0x00, 0x60, 0x20, 0x61, 0xFF, 0xFF, 0xF4]

def refusing : PrecompiledContract := ⟨fun _ => 3000, fun _ => some (.error "unavailable")⟩

/-- Keccak-256 of the code the sample stores and, for the rest, of the empty string. -/
def host : Host where
  keccak256 bs :=
    if bs = writer then
      0x7efcce47028dabcb0d42f3a7eda8820bf6f7f4e618398c2547d52f703cafb073
    else 0xc5d2460186f7233c927e7db2dcc703c0e500b653ca82273b7bfad8045d85a470
  precompiles :=
    { ecRecover := refusing
      sha256Hash := refusing
      ripemd160Hash := refusing
      dataCopy := refusing
      bigModExp := refusing
      bn256Add := refusing
      bn256Mul := refusing
      bn256Pairing := refusing
      blake2F := refusing }

def block : BlockContext where
  coinbase := 1
  gasLimit := 30000000
  blockNumber := 100
  timestamp := 1700000000
  prevRandao := 0
  baseFee := some 1000000000
  chainID := some 3303

def tx : TxContext := ⟨0xAA, some 1000000000⟩

def call (code : Bytes) : CallContext where
  caller := 0xAA
  address := contract
  value := some 0
  input := []
  code := code
  gas := 100000
  isStatic := true
  depth := 0

def state : StateDB := StateDB.setCode host.keccak256 .new library writer

/-- A static frame that starts with `SSTORE`. -/
def entry : Vm := .enter block (some tx) (call [0x55]) none none state

theorem step_entry : step host 0x55 entry = .error (.error "SSTORE in static context") entry := by
  have hstatic : entry.ctx.call.isStatic = true := rfl
  have hconst : chargeConst 0x55 entry = .ok () entry := rfl
  unfold step
  rw [bind_ok hconst]
  exact refuseStatic_of_static hstatic _ _

theorem eq_entry_of_reaches {vm : Vm} (h : Reaches host .default entry vm) : vm = entry := by
  have hfetch : entry.fetch = some 0x55 := rfl
  cases h with
  | here => rfl
  | proceed hb hstep =>
    cases hfetch.symm.trans hb
    cases step_entry.symm.trans hstep
  | jumped hb hstep =>
    cases hfetch.symm.trans hb
    cases step_entry.symm.trans hstep
  | enter hb hstep =>
    cases hfetch.symm.trans hb
    cases step_entry.symm.trans hstep
  | resume hb hstep =>
    cases hfetch.symm.trans hb
    cases step_entry.symm.trans hstep

theorem entry_not_leaks : ¬entry.Leaks host .default := by
  rintro ⟨b, kind, request, vm', hfetch, hkind, -, -⟩
  cases Option.some.inj (show some (0x55 : UInt8) = some b from hfetch)
  cases hkind

end Sample

theorem static_frame_readOnly_sample :
    (∀ vm, Reaches Sample.host .default Sample.entry vm →
      Sample.state.Untouched vm.world.state ∧ vm.ctx.logs = []) ∧
    ∀ fuel, (executeWithAccess .default (run Sample.host .default fuel) Sample.block
      (some Sample.tx) (Sample.call [0x55]) none none Sample.state).ReadOnly Sample.state :=
  static_frame_readOnly Sample.host .default Sample.block (some Sample.tx) (Sample.call [0x55])
    none none Sample.state rfl fun _ h => Sample.eq_entry_of_reaches h ▸ Sample.entry_not_leaks

/-- A static frame whose code does nothing but `DELEGATECALL` writes to its storage. -/
theorem static_delegatecall_writes :
    ¬∀ (host : Host) (config : InterpreterConfig) (block : BlockContext) (tx : Option TxContext)
      (call : CallContext) (state : StateDB) (fuel : Nat), call.isStatic = true →
      (execute host config fuel block tx call state).ReadOnly state := by
  intro h
  have hreadOnly := h Sample.host .default Sample.block (some Sample.tx)
    (Sample.call Sample.delegator) Sample.state 20 rfl
  have hwritten : (match execute Sample.host .default 20 Sample.block (some Sample.tx)
      (Sample.call Sample.delegator) Sample.state with
    | .returned _ world => world.state.getStorage Sample.contract 0
    | _ => 0) = 1 := by decide +kernel
  cases hrun : execute Sample.host .default 20 Sample.block (some Sample.tx)
      (Sample.call Sample.delegator) Sample.state with
  | returned result world =>
    rw [hrun] at hreadOnly hwritten
    have hsame := hreadOnly.1.storage Sample.contract 0
    have hclear : Sample.state.getStorage Sample.contract 0 = 0 := by decide +kernel
    rw [hclear] at hsame
    exact absurd (hsame.symm.trans hwritten) (by decide)
  | panicked world =>
    rw [hrun] at hwritten
    exact absurd (show (0 : Word) = 1 from hwritten) (by decide)
  | unfinished =>
    rw [hrun] at hwritten
    exact absurd (show (0 : Word) = 1 from hwritten) (by decide)

end Qubitcoin.Evm
