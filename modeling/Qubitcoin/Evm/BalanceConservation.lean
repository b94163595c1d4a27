import Qubitcoin.Evm.Balances
import Qubitcoin.Evm.StaticContext
import Qubitcoin.Evm.Termination

/-! Balance conservation of an execution: no transfer, failed sub-frame or revert changes the
sum of the balances, as long as no contract is created over a balance. -/

namespace Qubitcoin.Evm

open Command Exec Interpreter

def Opcode.createKind : Opcode → Option Bool
  | .create => some false
  | .create2 => some true
  | _ => none

/-- The loop is at a `CREATE` or `CREATE2` that passes its charges, and the account at the
address of the new contract holds a balance. -/
def Vm.Overwrites (host : Host) (vm : Vm) : Prop :=
  ∃ b isCreate2 request vm', vm.fetch = some b ∧ (Opcode.ofByte b).createKind = some isCreate2 ∧
    vm.ctx.call.isStatic = false ∧ prepareCreate isCreate2 vm = .ok (some request) vm' ∧
    vm'.world.state.getBalance (createAddress host vm'.ctx.call.address
      (vm'.world.state.getNonce vm'.ctx.call.address) request) ≠ 0

/-- The loop is at a `CALL` that passes its charges, or at a `SELFDESTRUCT`, and the credit does
not fit a balance. -/
def Vm.Wraps (host : Host) (vm : Vm) : Prop :=
  ∃ b, vm.fetch = some b ∧
    ((Opcode.ofByte b = .call ∧ ∃ request vm', prepareCall host .call vm = .ok (some request) vm' ∧
        vm'.world.state.Wraps vm'.ctx.call.address request.toAddr request.value) ∨
      (Opcode.ofByte b = .selfdestruct ∧ ∃ val stack, vm.ctx.stack.pop = .ok (val, stack) ∧
        vm.world.state.Wraps vm.ctx.call.address (safeAddrBytes val)
          (vm.world.state.getBalance vm.ctx.call.address)))

/-- The loop is at a `SELFDESTRUCT` that names the executing contract. -/
def Vm.NamesItself (vm : Vm) : Prop :=
  ∃ b val stack, vm.fetch = some b ∧ Opcode.ofByte b = .selfdestruct ∧
    vm.ctx.stack.pop = .ok (val, stack) ∧ safeAddrBytes val = vm.ctx.call.address

/-- What the executing contract holds. -/
def Vm.ownFunds (vm : Vm) : Nat := vm.world.state.funds vm.ctx.call.address

/-- The invariant of an execution that started with `old` snapshots. -/
def balanced (P : Nat → Prop) (old : Nat) : Invariant where
  world w := w.state.Ledgered P old
  frame _ := True
  pending
    | .call snapID _ _ => old ≤ snapID
    | .create snapID _ => old ≤ snapID

section Balanced

variable {P : Nat → Prop} {old : Nat} {host : Host} {config : InterpreterConfig}

theorem balanced_quiet : Quiet (.preserving (balanced P old).Holds) where
  stack _ _ h := h
  memory _ _ h := h
  pc _ _ h := h
  returnData _ _ h := h
  access _ _ h := h
  gas _ _ _ _ h := ⟨h.1, trivial⟩
  stop _ h := h
  revert _ h := h

theorem balanced_modifiesState {f : StateDB → StateDB}
    (hrecorded : ∀ s, StateDB.Recorded s (f s)) (htotal : ∀ s, (f s).total = s.total) :
    Keeps (.preserving (balanced P old).Holds) (modifiesState f) :=
  fun vm h => ⟨h.1.record (hrecorded _) ((htotal vm.world.state).symm ▸ h.1.total), trivial⟩

theorem balanced_giveUp {id : Nat} (hid : old ≤ id) :
    Keeps (.preserving (balanced P old).Holds) (giveUp id) := by
  have hrevert : Keeps (.preserving (balanced P old).Holds) (revertToSnapshot id) :=
    fun vm h => ⟨h.1.revertToSnapshot hid, trivial⟩
  exact hrevert.bind fun _ => balanced_quiet.push 0

theorem balanced_finishCall {id : Nat} (hid : old ≤ id) (retOff retLen : U64)
    (r : ExecutionResult) :
    Keeps (.preserving (balanced P old).Holds) (finishCall id retOff retLen r) := by
  have q : Quiet (.preserving (balanced P old).Holds) := balanced_quiet
  have hgiveUp : Keeps (.preserving (balanced P old).Holds) (giveUp id) := balanced_giveUp hid
  unfold finishCall
  grind

theorem balanced_finishCreate {id : Nat} (hid : old ≤ id) (newAddr : Address)
    (r : ExecutionResult) :
    Keeps (.preserving (balanced P old).Holds) (finishCreate host id newAddr r) := by
  have q : Quiet (.preserving (balanced P old).Holds) := balanced_quiet
  have hgiveUp : Keeps (.preserving (balanced P old).Holds) (giveUp id) := balanced_giveUp hid
  have hcode : Keeps (.preserving (balanced P old).Holds)
      (modifiesState fun state => state.setCode host.keccak256 newAddr r.returnData) :=
    balanced_modifiesState (fun s => .setCode _ s _ _)
      fun s => StateDB.total_congr (s.funds_setCode _ _ _)
  unfold finishCreate
  grind

theorem balanced_storeSlot : Keeps (.preserving (balanced P old).Holds) storeSlot := by
  have q : Quiet (.preserving (balanced P old).Holds) := balanced_quiet
  unfold storeSlot
  refine q.mustPop1.bind fun _ => q.mustPop1.bind fun _ => (Quiet.reads _).bind fun _ => ?_
  refine (Quiet.reads _).bind fun _ => .bind (Quiet.modifies fun _ h => h) fun _ => ?_
  refine (Quiet.reads _).bind fun _ => (Quiet.reads _).bind fun _ => ?_
  refine .bind (Quiet.modifies fun _ => q.access _ _) fun _ => (q.charge _ _).bind fun _ => ?_
  refine .bind (Quiet.modifies fun _ h => h) fun _ => ?_
  exact balanced_modifiesState (fun s => .setStorage s _ _ _) fun s => rfl

theorem balanced_appendLog (numTopics : Nat) :
    Keeps (.preserving (balanced P old).Holds) (appendLog numTopics) := by
  have q : Quiet (.preserving (balanced P old).Holds) := balanced_quiet
  have htopics (n : Nat) : Keeps (.preserving (balanced P old).Holds) (popTopics n) := by
    induction n with
    | zero => exact .pure _
    | succ n ih => exact q.mustPop1.bind fun _ => ih.bind fun _ => .pure _
  unfold appendLog
  refine q.mustPop1.bind fun _ => q.mustPop1.bind fun _ => (htopics _).bind fun _ => ?_
  refine (q.resize _).bind fun _ => (q.charge _ _).bind fun _ => (Quiet.memoryGet _ _).bind fun _ => ?_
  exact Quiet.modifies fun _ h => h

/-- A positive value is refused, or moved whole. -/
theorem transferValue_eq (sender toAddr : Address) {val : Int} (hval : 0 < val) (vm : Vm) :
    transferValue sender toAddr val vm =
      if vm.world.state.getBalance sender < val then .ok false vm
      else .ok true (vm.withState (vm.world.state.transfer sender toAddr val)) := by
  unfold transferValue
  rw [bind_ok (show reads (fun vm => vm.world.state.getBalance sender) vm =
    .ok (vm.world.state.getBalance sender) vm from rfl)]
  split
  · next hpoor =>
    rw [if_pos (by omega)]
    rfl
  · next hrich =>
    rw [if_neg (by omega)]
    let debited := vm.withState
      (vm.world.state.setBalance sender (vm.world.state.getBalance sender - val))
    rw [bind_ok (show modifiesState (fun state => state.setBalance sender
      (vm.world.state.getBalance sender - val)) vm = .ok () debited from rfl),
      bind_ok (show reads (fun vm => vm.world.state.getBalance toAddr) debited =
        .ok (debited.world.state.getBalance toAddr) debited from rfl)]
    have hgrows : ¬debited.world.state.getBalance toAddr + val <
        debited.world.state.getBalance toAddr := by
      omega
    rw [if_neg hgrows]
    rfl

theorem endow_eq (sender newAddr : Address) (val : Int) (vm : Vm) :
    endow sender newAddr val vm =
      if 0 < val then
        if vm.world.state.getBalance sender < val then .ok false vm
        else .ok true (vm.withState (vm.world.state.transfer sender newAddr val))
      else .ok true vm := by
  unfold endow
  rw [bind_ok (show reads (fun vm => vm.world.state.getBalance sender) vm =
    .ok (vm.world.state.getBalance sender) vm from rfl)]
  split
  · split <;> rfl
  · rfl

theorem balanced_transfer {vm : Vm} (h : (balanced P old).Holds vm) {sender toAddr : Address}
    {val : Int} (hval : 0 < val) (hrich : ¬vm.world.state.getBalance sender < val)
    (hfits : ¬vm.world.state.Wraps sender toAddr val) :
    (balanced P old).Holds (vm.withState (vm.world.state.transfer sender toAddr val)) := by
  obtain ⟨n, rfl⟩ := Int.eq_ofNat_of_zero_le hval.le
  rw [StateDB.getBalance_eq, not_lt, Nat.cast_le] at hrich
  refine ⟨h.1.record (.transfer _ _ _ _) ?_, trivial⟩
  exact (StateDB.total_transfer _ hrich hfits).symm ▸ h.1.total

theorem balanced_enterTarget {kind : CallKind} {request : CallRequest} {call : CallContext}
    {vm : Vm} (h : (balanced P old).Holds vm) {id : Nat} (hid : old ≤ id) :
    (balanced P old).AfterStep config (enterTarget kind request call id vm) := by
  unfold enterTarget
  rw [bind_ok (show reads (fun vm => vm.world.state.getCode request.toAddr) vm =
    .ok (vm.world.state.getCode request.toAddr) vm from rfl)]
  split
  · exact Invariant.afterStep_proceeds (balanced_finishCall hid _ _ _) h
  · exact ⟨h, hid, fun _ => trivial⟩

theorem balanced_startCall {kind : CallKind} {request : CallRequest} {vm : Vm}
    (h : (balanced P old).Holds vm) (hfits : kind = .call →
      ¬vm.world.state.Wraps vm.ctx.call.address request.toAddr request.value) :
    (balanced P old).AfterStep config (startCall kind request vm) := by
  have hid := h.1.old_le
  have hsame : (vm.withState vm.world.state.snapshot).world.state.Wraps =
    vm.world.state.Wraps := rfl
  rw [← hsame] at hfits
  change kind = .call → ¬(vm.withState vm.world.state.snapshot).world.state.Wraps
    (vm.withState vm.world.state.snapshot).ctx.call.address request.toAddr request.value at hfits
  have hsnap : (balanced P old).Holds (vm.withState vm.world.state.snapshot) :=
    ⟨h.1.snapshot, trivial⟩
  unfold startCall
  rw [bind_ok (show snapshot vm = .ok vm.world.state.snapshotId
    (vm.withState vm.world.state.snapshot) from rfl)]
  generalize vm.withState vm.world.state.snapshot = vm₁ at hsnap hfits
  rw [bind_ok (show reads (fun vm => vm.ctx.call) vm₁ = .ok vm₁.ctx.call vm₁ from rfl)]
  dsimp only
  split
  · next hvalue =>
    have hmoved := transferValue_eq vm₁.ctx.call.address request.toAddr hvalue.1 vm₁
    split at hmoved
    · rw [bind_ok hmoved]
      exact Invariant.afterStep_proceeds (balanced_giveUp hid) hsnap
    · next hrich =>
      rw [bind_ok hmoved]
      exact balanced_enterTarget (balanced_transfer hsnap hvalue.1 hrich (hfits hvalue.2)) hid
  · exact balanced_enterTarget hsnap hid

theorem balanced_opCall (kind : CallKind) {vm : Vm} (h : (balanced P old).Holds vm)
    (hfits : kind = .call → ∀ request vm', prepareCall host .call vm = .ok (some request) vm' →
      ¬vm'.world.state.Wraps vm'.ctx.call.address request.toAddr request.value) :
    (balanced P old).AfterStep config (opCall host kind vm) := by
  have q : Quiet (.preserving (balanced P old).Holds) := balanced_quiet
  have hprepare := q.prepareCall host kind
  unfold opCall
  cases hrun : prepareCall host kind vm with
  | error halt vm' =>
    rw [bind_error hrun]
    exact hprepare.of_error hrun h
  | ok request vm' =>
    rw [bind_ok hrun]
    have hvm' := hprepare.of_ok hrun h
    cases request with
    | none => exact hvm'
    | some request =>
      apply balanced_startCall hvm'
      intro hkind
      exact hfits hkind request vm' (hkind ▸ hrun)

/-- `CREATE` behind the endowment. -/
def enterCreated (sender newAddr : Address) (id : Nat) (request : CreateRequest) (paid : Bool) :
    Exec Next :=
  if paid then do
    let subGas ← reads fun vm => vm.ctx.gasRemaining - vm.ctx.gasRemaining / 64
    let depth ← reads fun vm => vm.ctx.call.depth
    let subCall : CallContext :=
      { caller := sender
        address := newAddr
        value := some request.value
        input := []
        code := request.initCode
        gas := subGas
        isStatic := false
        depth := depth + 1 }
    pure (.subCall subCall (.create id newAddr))
  else do
    giveUp id
    pure .proceed

theorem startCreate_eq (request : CreateRequest) (vm : Vm) :
    let sender := vm.ctx.call.address
    let nonce := vm.world.state.getNonce sender
    let newAddr := createAddress host sender nonce request
    let noted := vm.world.state.setNonce sender (nonce + 1)
    startCreate host request vm =
      (endow sender newAddr request.value >>=
        enterCreated sender newAddr noted.snapshotId request)
        (vm.withState (noted.snapshot.createAccount newAddr)) := rfl

theorem balanced_enterCreated {vm : Vm} (h : (balanced P old).Holds vm) {id : Nat}
    (hid : old ≤ id) (sender newAddr : Address) (request : CreateRequest) (paid : Bool) :
    (balanced P old).AfterStep config (enterCreated sender newAddr id request paid vm) := by
  cases paid with
  | true => exact ⟨h, hid, fun _ => trivial⟩
  | false => exact Invariant.afterStep_proceeds (balanced_giveUp hid) h

theorem balanced_startCreate {request : CreateRequest} {vm : Vm} (h : (balanced P old).Holds vm)
    (hfresh : vm.world.state.getBalance (createAddress host vm.ctx.call.address
      (vm.world.state.getNonce vm.ctx.call.address) request) = 0) :
    (balanced P old).AfterStep config (startCreate host request vm) := by
  rw [StateDB.getBalance_eq, Nat.cast_eq_zero] at hfresh
  rw [startCreate_eq]
  generalize createAddress host vm.ctx.call.address _ request = newAddr at hfresh
  have hid : old ≤ (vm.world.state.setNonce vm.ctx.call.address
      (vm.world.state.getNonce vm.ctx.call.address + 1)).snapshotId := h.1.old_le
  have hcreated : (balanced P old).Holds (vm.withState ((vm.world.state.setNonce
      vm.ctx.call.address (vm.world.state.getNonce vm.ctx.call.address + 1)).snapshot.createAccount
        newAddr)) := ⟨h.1.create _ _ hfresh, trivial⟩
  have hzero : (vm.withState ((vm.world.state.setNonce vm.ctx.call.address
      (vm.world.state.getNonce vm.ctx.call.address + 1)).snapshot.createAccount
        newAddr)).world.state.getBalance newAddr = 0 := by
    rw [StateDB.getBalance_eq]
    change ((StateDB.funds (StateDB.createAccount _ newAddr) newAddr : Nat) : Int) = 0
    rw [StateDB.funds_createAccount, Function.update_self, Nat.cast_zero]
  generalize (vm.world.state.setNonce vm.ctx.call.address _).snapshotId = id at hid
  generalize vm.withState _ = created at hcreated hzero
  have hendow := endow_eq vm.ctx.call.address newAddr request.value created
  split at hendow
  · next hvalue =>
    split at hendow
    · rw [bind_ok hendow]
      exact balanced_enterCreated hcreated hid _ _ _ _
    · next hrich =>
      rw [bind_ok hendow]
      have hfits : ¬created.world.state.Wraps vm.ctx.call.address newAddr request.value := by
        rintro ⟨-, hpays, hwraps⟩
        have hword := created.world.state.funds_lt vm.ctx.call.address
        rw [hzero] at hwraps
        rw [StateDB.getBalance_eq] at hpays
        omega
      exact balanced_enterCreated (balanced_transfer hcreated hvalue hrich hfits) hid _ _ _ _
  · rw [bind_ok hendow]
    exact balanced_enterCreated hcreated hid _ _ _ _

theorem charge_stack {amount : U64} {err : String} {vm r : Vm} {u : Unit}
    (h : charge amount err vm = .ok u r) : r.ctx.stack = vm.ctx.stack := by
  obtain ⟨ctx, hgas, rfl⟩ := charge_ok h
  rw [ExecutionContext.useGas_eq_some hgas]

/-- The frame keeps its context and the accounts stay as they are. -/
def steady : Guarantee Vm where
  rel vm vm' := vm'.ctx.call = vm.ctx.call ∧ vm'.world.state = vm.world.state
  refl _ := ⟨rfl, rfl⟩
  trans h h' := ⟨h'.1.trans h.1, h'.2.trans h.2⟩

theorem steady_quiet : Quiet steady where
  stack _ _ := ⟨rfl, rfl⟩
  memory _ _ := ⟨rfl, rfl⟩
  pc _ _ := ⟨rfl, rfl⟩
  returnData _ _ := ⟨rfl, rfl⟩
  access _ _ := ⟨rfl, rfl⟩
  gas vm amount ctx h := by
    rw [ExecutionContext.useGas_eq_some h]
    exact ⟨rfl, rfl⟩
  stop _ := ⟨rfl, rfl⟩
  revert _ := ⟨rfl, rfl⟩

/-- What `SELFDESTRUCT` may do to the total: nothing, or take from it what the contract that
names itself holds. -/
def Allows (P : Nat → Prop) (state : StateDB) (self beneficiary : Address) : Prop :=
  (beneficiary = self → P state.total → P (state.total - state.funds self)) ∧
    ¬state.Wraps self beneficiary (state.getBalance self)

theorem balanced_destroyState {vm : Vm} (h : (balanced P old).Holds vm)
    {self beneficiary : Address} (hallows : Allows P vm.world.state self beneficiary) :
    (balanced P old).Holds (vm.withState (vm.world.state.destroy self beneficiary)) := by
  refine ⟨h.1.record (.destroy _ _ _) ?_, trivial⟩
  by_cases hself : beneficiary = self
  · have hloses := vm.world.state.total_destroy_self self
    have hP := hallows.1 hself h.1.total
    rw [hself]
    change P (vm.world.state.destroy self self).total
    rw [Nat.eq_sub_of_add_eq hloses]
    exact hP
  · exact (StateDB.total_destroy _ hself hallows.2).symm ▸ h.1.total

/-- `SELFDESTRUCT` behind the read of the balance. -/
theorem balanced_payOut {vm : Vm} (h : (balanced P old).Holds vm) {self beneficiary : Address}
    (hallows : Allows P vm.world.state self beneficiary) :
    (balanced P old).Holds (left ((do
      let exists_ ← reads fun vm => vm.world.state.accountExists beneficiary
      if exists_ then pure () else charge gasCallNewAcct "out of gas: SELFDESTRUCT new account"
      modifiesState fun state =>
        state.setBalance beneficiary
          (state.getBalance beneficiary + vm.world.state.getBalance self)
      modifiesState fun state => state.setBalance self 0
      modifies Vm.stop : Exec Unit) vm)) := by
  rw [bind_ok (show reads (fun vm => vm.world.state.accountExists beneficiary) vm =
    .ok (vm.world.state.accountExists beneficiary) vm from rfl)]
  split
  · exact balanced_destroyState h hallows
  · cases hcharge : charge gasCallNewAcct "out of gas: SELFDESTRUCT new account" vm with
    | error halt r =>
      rw [bind_error hcharge]
      exact (balanced_quiet.charge _ _).of_error hcharge h
    | ok u r =>
      have hsame := ((steady_quiet.charge _ _).of_ok hcharge).2
      rw [bind_ok hcharge, ← hsame]
      rw [← hsame] at hallows
      exact balanced_destroyState ((balanced_quiet.charge _ _).of_ok hcharge h) hallows

theorem balanced_destroy {vm : Vm} (h : (balanced P old).Holds vm)
    (hallows : ∀ val stack, vm.ctx.stack.pop = .ok (val, stack) →
      Allows P vm.world.state vm.ctx.call.address (safeAddrBytes val)) :
    (balanced P old).Holds (left (destroy vm)) := by
  have q : Quiet (.preserving (balanced P old).Holds) := balanced_quiet
  unfold destroy
  cases hcharge : charge gasSelfDestruct "out of gas: SELFDESTRUCT" vm with
  | error halt r =>
    rw [bind_error hcharge]
    exact (q.charge _ _).of_error hcharge h
  | ok u r =>
    have hr := (q.charge _ _).of_ok hcharge h
    have hsteady : steady.rel vm r := (steady_quiet.charge _ _).of_ok hcharge
    have hstack := charge_stack hcharge
    rw [bind_ok hcharge]
    cases hpop : mustPop1 r with
    | error halt r' =>
      rw [bind_error hpop]
      exact q.mustPop1.of_error hpop hr
    | ok val r' =>
      have hr' := q.mustPop1.of_ok hpop hr
      have hsteady' : steady.rel vm r' :=
        steady.trans hsteady (steady_quiet.mustPop1.of_ok hpop)
      have htop : ∃ stack, vm.ctx.stack.pop = .ok (val, stack) := by
        unfold mustPop1 at hpop
        rw [hstack] at hpop
        split at hpop
        · next stack hval =>
          cases hpop
          exact ⟨_, hval⟩
        · cases hpop
      obtain ⟨stack, hval⟩ := htop
      rw [bind_ok hpop]
      dsimp only
      cases htouch : touchAddress (safeAddrBytes val) gasCallCold
          "out of gas: SELFDESTRUCT cold address" r' with
      | error halt t =>
        rw [bind_error htouch]
        exact (q.touchAddress _ _ _).of_error htouch hr'
      | ok u t =>
        have ht := (q.touchAddress _ _ _).of_ok htouch hr'
        have hsteady'' : steady.rel vm t :=
          steady.trans hsteady' ((steady_quiet.touchAddress _ _ _).of_ok htouch)
        rw [bind_ok htouch,
          bind_ok (show reads (fun vm => vm.ctx.call.address) t = .ok t.ctx.call.address t from rfl),
          bind_ok (show reads (fun vm => vm.world.state.getBalance t.ctx.call.address) t =
            .ok (t.world.state.getBalance t.ctx.call.address) t from rfl)]
        split
        · apply balanced_payOut ht
          rw [hsteady''.1, hsteady''.2]
          exact hallows val stack hval
        · exact ht

theorem refuseStatic_of_not_static {vm : Vm} (h : vm.ctx.call.isStatic = false) (err : String)
    (x : Exec Next) : refuseStatic err x vm = x vm := by
  unfold refuseStatic
  rw [bind_ok (show reads (fun vm => vm.ctx.call.isStatic) vm = .ok false vm from
    congrArg (EStateM.Result.ok · vm) h)]
  rfl

theorem afterStep_refuseStatic {vm : Vm} (h : (balanced P old).Holds vm) {err : String}
    {x : Exec Next}
    (hx : vm.ctx.call.isStatic = false → (balanced P old).AfterStep config (x vm)) :
    (balanced P old).AfterStep config (refuseStatic err x vm) := by
  cases hstatic : vm.ctx.call.isStatic with
  | true =>
    rw [refuseStatic_of_static hstatic]
    exact h
  | false =>
    rw [refuseStatic_of_not_static hstatic]
    exact hx hstatic

theorem afterStep_of_left {vm : Vm} {x : Exec Unit} (h : (balanced P old).Holds (left (x vm))) :
    (balanced P old).AfterStep config (proceeds x vm) := by
  unfold proceeds
  cases hrun : x vm with
  | ok u vm' =>
    rw [hrun] at h
    rw [bind_ok hrun]
    exact h
  | error halt vm' =>
    rw [hrun] at h
    rw [bind_error hrun]
    exact h

theorem balanced_opCreate {isCreate2 : Bool} {vm : Vm} (h : (balanced P old).Holds vm)
    (hfresh : vm.ctx.call.isStatic = false → ∀ request vm',
      prepareCreate isCreate2 vm = .ok (some request) vm' →
      vm'.world.state.getBalance (createAddress host vm'.ctx.call.address
        (vm'.world.state.getNonce vm'.ctx.call.address) request) = 0) :
    (balanced P old).AfterStep config (opCreate host isCreate2 vm) := by
  apply afterStep_refuseStatic h
  intro hstatic
  have hprepare : Keeps (.preserving (balanced P old).Holds) (prepareCreate isCreate2) := by
    have q : Quiet (.preserving (balanced P old).Holds) := balanced_quiet
    exact q.prepareCreate isCreate2
  cases hrun : prepareCreate isCreate2 vm with
  | error halt vm' =>
    rw [bind_error hrun]
    exact hprepare.of_error hrun h
  | ok request vm' =>
    rw [bind_ok hrun]
    have hvm' := hprepare.of_ok hrun h
    cases request with
    | none => exact hvm'
    | some request => exact balanced_startCreate hvm' (hfresh hstatic request vm' hrun)

theorem balanced_opSelfDestruct {vm : Vm} (h : (balanced P old).Holds vm)
    (hallows : ∀ val stack, vm.ctx.stack.pop = .ok (val, stack) →
      Allows P vm.world.state vm.ctx.call.address (safeAddrBytes val)) :
    (balanced P old).AfterStep config (opSelfDestruct vm) := by
  apply afterStep_refuseStatic h
  intro _
  have hleft : (balanced P old).Holds (left (destroy vm)) := balanced_destroy h hallows
  -- otherwise the unifier runs the charges
  generalize destroy = pays at hleft ⊢
  exact afterStep_of_left hleft

/-- What is asked of an opcode that moves value. -/
structure Sound (P : Nat → Prop) (host : Host) (op : Opcode) (vm : Vm) : Prop where
  create : ∀ isCreate2, op.createKind = some isCreate2 → vm.ctx.call.isStatic = false →
    ∀ request vm', prepareCreate isCreate2 vm = .ok (some request) vm' →
    vm'.world.state.getBalance (createAddress host vm'.ctx.call.address
      (vm'.world.state.getNonce vm'.ctx.call.address) request) = 0
  call : op = .call → ∀ request vm', prepareCall host .call vm = .ok (some request) vm' →
    ¬vm'.world.state.Wraps vm'.ctx.call.address request.toAddr request.value
  destroy : op = .selfdestruct → ∀ val stack, vm.ctx.stack.pop = .ok (val, stack) →
    Allows P vm.world.state vm.ctx.call.address (safeAddrBytes val)

theorem balanced_dispatch {op : Opcode} {vm : Vm} (h : (balanced P old).Holds vm)
    (hsound : Sound P host op vm) :
    (balanced P old).AfterStep config (dispatch host op vm) := by
  have q : Quiet (.preserving (balanced P old).Holds) := balanced_quiet
  by_cases hop : op.writes = false
  · have hkeeps := q.dispatch host hop
    cases hrun : dispatch host op vm with
    | error halt vm' => exact hkeeps.of_error hrun h
    | ok next vm' =>
      have hvm' := hkeeps.of_ok hrun h
      cases dispatch_ok_ne_subCall hop hrun with
      | inl hnext => exact hnext ▸ hvm'
      | inr hnext => exact hnext ▸ hvm'
  · cases op
    case sstore =>
      exact afterStep_refuseStatic h fun _ => Invariant.afterStep_proceeds balanced_storeSlot h
    case log n =>
      exact afterStep_refuseStatic h fun _ =>
        Invariant.afterStep_proceeds (balanced_appendLog n) h
    case create => exact balanced_opCreate h (hsound.create false rfl)
    case create2 => exact balanced_opCreate h (hsound.create true rfl)
    case selfdestruct => exact balanced_opSelfDestruct h (hsound.destroy rfl)
    case call => exact balanced_opCall .call h fun _ => hsound.call rfl
    case callcode => exact balanced_opCall .callcode h nofun
    case delegatecall => exact balanced_opCall .delegatecall h nofun
    case staticcall => exact balanced_opCall .staticcall h nofun
    all_goals exact absurd rfl hop

/-- The opcodes that move value have no constant cost. -/
theorem chargeConst_eq_pure {b : UInt8} (h : constGas (.ofByte b) = none) :
    chargeConst b = pure () := by
  unfold chargeConst
  rw [h]

/-- The state before a turn, for an opcode that moves value. -/
theorem Sound.of_vm {vm vm' : Vm} {b : UInt8} {u : Unit}
    (hfetch : vm.fetch = some b) (hfresh : ¬vm.Overwrites host) (hfits : ¬vm.Wraps host)
    (hloses : vm.NamesItself → P vm.world.state.total → P (vm.world.state.total - vm.ownFunds))
    (hconst : chargeConst b vm = .ok u vm') : Sound P host (.ofByte b) vm' := by
  refine ⟨?_, ?_, ?_⟩
  · intro isCreate2 hkind hstatic request vm'' hprepare
    have hnone : constGas (.ofByte b) = none := by
      cases hop : Opcode.ofByte b
      case create => rfl
      case create2 => rfl
      all_goals
        rw [hop] at hkind
        cases hkind
    rw [chargeConst_eq_pure hnone] at hconst
    cases hconst
    by_contra hholds
    exact hfresh ⟨b, isCreate2, request, vm'', hfetch, hkind, hstatic, hprepare, hholds⟩
  · intro hop request vm'' hprepare hwraps
    rw [chargeConst_eq_pure (by rw [hop]; rfl)] at hconst
    cases hconst
    exact hfits ⟨b, hfetch, .inl ⟨hop, request, vm'', hprepare, hwraps⟩⟩
  · intro hop val stack hpop
    rw [chargeConst_eq_pure (by rw [hop]; rfl)] at hconst
    cases hconst
    refine ⟨fun hself => hloses ⟨b, val, stack, hfetch, hop, hpop, hself⟩, fun hwraps => ?_⟩
    exact hfits ⟨b, hfetch, .inr ⟨hop, val, stack, hpop, hwraps⟩⟩

theorem balanced_step {vm : Vm} {b : UInt8} (h : (balanced P old).Holds vm)
    (hfetch : vm.fetch = some b) (hfresh : ¬vm.Overwrites host) (hfits : ¬vm.Wraps host)
    (hloses : vm.NamesItself → P vm.world.state.total →
      P (vm.world.state.total - vm.ownFunds)) :
    (balanced P old).AfterStep config (step host b vm) := by
  have q : Quiet (.preserving (balanced P old).Holds) := balanced_quiet
  unfold step
  cases hconst : chargeConst b vm with
  | error halt vm' =>
    rw [bind_error hconst]
    exact (q.chargeConst b).of_error hconst h
  | ok u vm' =>
    rw [bind_ok hconst]
    apply balanced_dispatch ((q.chargeConst b).of_ok hconst h)
    exact .of_vm hfetch hfresh hfits hloses hconst

theorem balanced_kept {G : Vm → Prop} (hfresh : ∀ vm, G vm → ¬vm.Overwrites host)
    (hfits : ∀ vm, (balanced P old).Holds vm → G vm → ¬vm.Wraps host)
    (hloses : ∀ vm, G vm → vm.NamesItself → P vm.world.state.total →
      P (vm.world.state.total - vm.ownFunds)) : (balanced P old).Kept host config G where
  step vm b h hG hfetch :=
    balanced_step h hfetch (hfresh vm hG) (hfits vm h hG) (hloses vm hG)
  resume pending result hid := by
    cases pending with
    | call snapID retOff retLen => exact .of_keeps (balanced_finishCall hid retOff retLen result)
    | create snapID newAddr => exact .of_keeps (balanced_finishCreate hid newAddr result)
  advance vm h := h
  underflow vm h := h

/-- Totals below `2 ^ 256` do not wrap. -/
theorem not_wraps_of_holds (hP : ∀ t, P t → t < 2 ^ 256) {vm : Vm}
    (h : (balanced P old).Holds vm) : ¬vm.Wraps host := by
  rintro ⟨b, -, hcall | hdestroy⟩
  · obtain ⟨-, request, vm', hprepare, hwraps⟩ := hcall
    have hvm' := (balanced_quiet.prepareCall host .call).of_ok hprepare h
    exact StateDB.not_wraps_of_total_lt (hP _ hvm'.1.total) _ _ _ hwraps
  · obtain ⟨-, val, stack, -, hwraps⟩ := hdestroy
    exact StateDB.not_wraps_of_total_lt (hP _ h.1.total) _ _ _ hwraps

end Balanced

/-- What the contracts hold that name themselves in a `SELFDESTRUCT` on the way. -/
def Destroyed (host : Host) (config : InterpreterConfig) (entry : Vm) (destroyed : List Vm) :
    Prop :=
  ∀ vm ∈ destroyed, Reaches host config entry vm ∧ vm.NamesItself

/-- `t` is what is left of `before` after some of them. -/
def Remains (host : Host) (config : InterpreterConfig) (entry : Vm) (before t : Nat) : Prop :=
  ∃ destroyed, Destroyed host config entry destroyed ∧
    before = t + (destroyed.map Vm.ownFunds).sum

theorem Remains.le {host : Host} {config : InterpreterConfig} {entry : Vm} {before t : Nat}
    (h : Remains host config entry before t) : t ≤ before := by
  obtain ⟨destroyed, -, hsum⟩ := h
  exact hsum ▸ Nat.le_add_right _ _

theorem Remains.lose {host : Host} {config : InterpreterConfig} {entry vm : Vm} {before : Nat}
    (h : Remains host config entry before vm.world.state.total)
    (hreaches : Reaches host config entry vm) (hnames : vm.NamesItself) :
    Remains host config entry before (vm.world.state.total - vm.ownFunds) := by
  obtain ⟨destroyed, hdestroyed, hsum⟩ := h
  refine ⟨vm :: destroyed, ?_, ?_⟩
  · exact List.forall_mem_cons.mpr ⟨⟨hreaches, hnames⟩, hdestroyed⟩
  · have hle : vm.ownFunds ≤ vm.world.state.total := StateDB.funds_le_total _ _
    rw [List.map_cons, List.sum_cons]
    omega

/-- The sum of the balances when an execution ends, also by a panic. -/
def Execution.Leaves (P : Nat → Prop) : Execution → Prop
  | .returned _ world => P world.state.total
  | .panicked world => P world.state.total
  | .unfinished => True

/-- Where no frame creates a contract over a balance or makes a balance wrap, the sum of the
balances changes by what contracts hold that name themselves in a `SELFDESTRUCT`, and by
nothing else. A sum below `2 ^ 256` cannot wrap. -/
theorem executeWithAccess_total (host : Host) (config : InterpreterConfig) (block : BlockContext)
    (tx : Option TxContext) (call : CallContext) (access : Option AccessSet)
    (original : Option OriginalStorage) (state : StateDB)
    (hfresh : ∀ vm, Reaches host config (.enter block tx call access original state) vm →
      ¬vm.Overwrites host)
    (hfits : 2 ^ 256 ≤ state.total →
      ∀ vm, Reaches host config (.enter block tx call access original state) vm →
        ¬vm.Wraps host) :
    ∀ fuel, (executeWithAccess config (run host config fuel) block tx call access original
      state).Leaves
        (Remains host config (.enter block tx call access original state) state.total) := by
  intro fuel
  generalize hentry : Vm.enter block tx call access original state = entry at hfresh hfits ⊢
  have hkept : (balanced (Remains host config entry state.total) state.snapshots.length).Kept host
      config (Reaches host config entry) := by
    apply balanced_kept hfresh
    · intro vm h hreaches
      cases lt_or_ge state.total (2 ^ 256) with
      | inl hlt => exact not_wraps_of_holds (fun t ht => ht.le.trans_lt hlt) h
      | inr hle => exact hfits hle vm hreaches
    · intro vm hreaches hnames hremains
      exact hremains.lose hreaches hnames
  have hstart : Remains host config entry state.total state.total := ⟨[], by simp [Destroyed], rfl⟩
  have hholds : (balanced (Remains host config entry state.total) state.snapshots.length).Holds
      entry := by
    rw [← hentry]
    exact ⟨.start (hentry ▸ hstart), trivial⟩
  have hrun : (balanced (Remains host config entry state.total) state.snapshots.length).Outcome
      (run host config fuel entry) := Invariant.run_holds hkept hholds fun _ h => h
  unfold executeWithAccess
  by_cases hdepth : config.maxCallDepth < call.depth
  · simp only [hdepth, if_true]
    exact hstart
  · simp only [hdepth, if_false, hentry]
    cases hout : run host config fuel entry with
    | finished err vm =>
      rw [hout] at hrun
      exact hrun.1.total
    | panicked vm =>
      rw [hout] at hrun
      exact hrun.total
    | unfinished => trivial

def RunOutcome.ended : RunOutcome → Bool
  | .unfinished => false
  | _ => true

section Frames

variable {host : Host} {config : InterpreterConfig} {entry : Vm} {fuel : Nat}

theorem mem_frames_of_ended (hrun : (run host config fuel entry).ended = true) {vm : Vm}
    (h : Reaches host config entry vm) : vm ∈ frames host config fuel entry := by
  apply mem_frames_of_reaches h
  intro hunfinished
  rw [hunfinished] at hrun
  cases hrun

theorem not_overwrites_of_frames (hrun : (run host config fuel entry).ended = true)
    (hcreate : ∀ vm ∈ frames host config fuel entry,
      (vm.fetch.bind fun b => (Opcode.ofByte b).createKind) = none) {vm : Vm}
    (h : Reaches host config entry vm) : ¬vm.Overwrites host := by
  rintro ⟨b, isCreate2, request, vm', hfetch, hkind, -⟩
  have hnone := hcreate vm (mem_frames_of_ended hrun h)
  rw [hfetch, Option.bind_some, hkind] at hnone
  cases hnone

theorem Destroyed.eq_nil {destroyed : List Vm} (h : Destroyed host config entry destroyed)
    (hrun : (run host config fuel entry).ended = true)
    (hbytes : ∀ vm ∈ frames host config fuel entry, ∀ b ∈ vm.fetch,
      Opcode.ofByte b ≠ .selfdestruct) : destroyed = [] := by
  apply List.eq_nil_iff_forall_not_mem.mpr
  intro vm hvm
  obtain ⟨hreaches, b, -, -, hfetch, hop, -⟩ := h vm hvm
  exact hbytes vm (mem_frames_of_ended hrun hreaches) b hfetch hop

end Frames

namespace Sample

/-- `CALL` to the library with a value of 3. -/
def payer : Bytes :=
  [0x60, 0x00, 0x60, 0x00, 0x60, 0x00, 0x60, 0x00, 0x60, 0x03, 0x60, 0x20, 0x61, 0xFF, 0xFF, 0xF1]

def payerState : StateDB := StateDB.setBalance .new contract 5

def payerEntry : Vm :=
  .enter block (some tx) { call payer with isStatic := false } none none payerState

/-- `CREATE` without a value and without init code. -/
def creator : Bytes := [0x60, 0x00, 0x60, 0x00, 0x60, 0x00, 0xF0]

/-- Keccak-256 of the list of the creator's address and nonce. -/
def creatorHost : Host where
  keccak256 bs :=
    if bs = rlpEncodeCreateAddress contract 0 then
      0xaa334cf184d4b2ccfc53864b97e764b12bddc35fef587c10b2c6d09d49baedff
    else host.keccak256 bs
  precompiles := host.precompiles

def creatorState : StateDB := StateDB.setBalance .new (BitVec.setWidth 160
  (0xaa334cf184d4b2ccfc53864b97e764b12bddc35fef587c10b2c6d09d49baedff : Word)) 5

def creatorEntry : Vm :=
  .enter block (some tx) { call creator with isStatic := false } none none creatorState

/-- The sum of the balances after a call that returned. -/
def totalLeft : Execution → Option Nat
  | .returned _ world => some world.state.total
  | _ => none

end Sample

theorem executeWithAccess_total_payer :
    (executeWithAccess .default (run Sample.host .default 20) Sample.block (some Sample.tx)
      { Sample.call Sample.payer with isStatic := false } none none Sample.payerState).Leaves
        (Remains Sample.host .default Sample.payerEntry Sample.payerState.total) := by
  apply executeWithAccess_total Sample.host .default Sample.block (some Sample.tx)
    { Sample.call Sample.payer with isStatic := false } none none Sample.payerState
  · intro vm h
    have hrun : (run Sample.host .default 20 Sample.payerEntry).ended = true := by decide +kernel
    exact not_overwrites_of_frames hrun (by decide +kernel) h
  · intro hle
    exact absurd hle (by decide +kernel)

/-- A `CREATE` at an address that holds 5 leaves it with nothing. -/
theorem create_loses_balance :
    ¬∀ (host : Host) (config : InterpreterConfig) (block : BlockContext) (tx : Option TxContext)
      (call : CallContext) (state : StateDB) (fuel : Nat),
      (execute host config fuel block tx call state).Leaves
        (Remains host config (.enter block tx call none none state) state.total) := by
  intro h
  have hleaves := h Sample.creatorHost .default Sample.block (some Sample.tx)
    { Sample.call Sample.creator with isStatic := false } Sample.creatorState 20
  have hbefore : Sample.creatorState.total = 5 := by decide +kernel
  have hafter : Sample.totalLeft (execute Sample.creatorHost .default 20 Sample.block
      (some Sample.tx) { Sample.call Sample.creator with isStatic := false }
      Sample.creatorState) = some 0 := by decide +kernel
  have hrun : (run Sample.creatorHost .default 20 Sample.creatorEntry).ended = true := by
    decide +kernel
  have hbytes : ∀ vm ∈ frames Sample.creatorHost .default 20 Sample.creatorEntry,
      ∀ b ∈ vm.fetch, Opcode.ofByte b ≠ .selfdestruct := by
    decide +kernel
  cases hexec : execute Sample.creatorHost .default 20 Sample.block (some Sample.tx)
      { Sample.call Sample.creator with isStatic := false } Sample.creatorState with
  | returned result world =>
    rw [hexec] at hleaves hafter
    obtain ⟨destroyed, hdestroyed, hsum⟩ := hleaves
    have hzero : world.state.total = 0 := Option.some.inj hafter
    rw [Destroyed.eq_nil hdestroyed hrun hbytes, hbefore, hzero] at hsum
    cases hsum
  | panicked world =>
    rw [hexec] at hafter
    cases hafter
  | unfinished =>
    rw [hexec] at hafter
    cases hafter

end Qubitcoin.Evm
