import Qubitcoin.Evm.FreeOpcodes
import Qubitcoin.Evm.StaticContext

/-! Where the loop fetches.  Both the scan for `JUMPDEST`s and the loop decode the code from its
start, so the position never lies in the immediate bytes of a `PUSH`. -/

namespace Qubitcoin.Evm

open Command Exec Interpreter

/-- The number of bytes that belong to an opcode. -/
def Opcode.immediate : Opcode → Nat
  | .push numBytes => numBytes
  | _ => 0

/-- The positions that decoding the code from its start comes to. -/
inductive Boundary (code : Bytes) : Nat → Prop
  | start : Boundary code 0
  | next {pos : Nat} {b : UInt8} : Boundary code pos → code[pos]? = some b →
      Boundary code (pos + 1 + (Opcode.ofByte b).immediate)

theorem Opcode.immediate_le (b : UInt8) : (Opcode.ofByte b).immediate ≤ 32 := by
  have hall : ∀ n : Fin 256, (Opcode.ofByte (UInt8.ofNat n)).immediate ≤ 32 := by
    decide +kernel
  simpa using hall ⟨b.toNat, b.toNat_lt⟩

/-- The next boundary is behind the immediate bytes. -/
theorem Boundary.skips {code : Bytes} {pos : Nat} (h : Boundary code pos) {before : Nat}
    {b : UInt8} (hbefore : Boundary code before) (hb : code[before]? = some b)
    (hlt : before < pos) : before + (Opcode.ofByte b).immediate < pos := by
  induction pos using Nat.strong_induction_on generalizing before b with
  | _ pos ih =>
    cases h with
    | start => exact absurd hlt (Nat.not_lt_zero _)
    | @next pos' b' hpos' hb' =>
      obtain hless | rfl | hmore := Nat.lt_trichotomy before pos'
      · have := ih pos' (by omega) hpos' hbefore hb hless
        omega
      · cases hb.symm.trans hb'
        omega
      · have := ih before hlt hbefore hpos' hb' hmore
        omega

section Jumpdests

/-- Scanning from a position whose push data ends at a boundary finds boundaries. -/
theorem boundary_of_mem_scanJumpdests {code rest : Bytes} {pos skip : Nat} {dest : U64}
    (hrest : code.drop pos = rest) (hpos : Boundary code (pos + skip))
    (h : dest ∈ scanJumpdests pos skip rest) :
    ∃ n < code.length, Boundary code n ∧ dest = BitVec.ofNat 64 n := by
  induction rest generalizing pos skip with
  | nil => cases skip <;> cases h
  | cons b rest ih =>
    have hlt : pos < code.length := by
      by_contra hge
      rw [List.drop_eq_nil_of_le (Nat.le_of_not_lt hge)] at hrest
      cases hrest
    have hb : code[pos]? = some b := by
      rw [← List.head?_drop, hrest]
      rfl
    have htail : code.drop (pos + 1) = rest := by
      rw [← List.drop_drop, hrest]
      rfl
    cases skip with
    | succ skip =>
      apply ih htail _ h
      rw [Nat.add_right_comm]
      exact hpos
    | zero =>
      have hnext := Boundary.next hpos hb
      unfold scanJumpdests at h
      split at h
      · next hop =>
        rw [Nat.add_zero, hop] at hnext
        cases List.mem_cons.mp h with
        | inl heq => exact ⟨pos, hlt, hpos, heq⟩
        | inr hmem => exact ih htail hnext hmem
      · next pushSize hop =>
        rw [Nat.add_zero, hop] at hnext
        exact ih htail hnext h
      · next hnotPush =>
        have hzero : (Opcode.ofByte b).immediate = 0 := by
          unfold Opcode.immediate
          split
          · next numBytes hop => exact absurd hop (hnotPush numBytes)
          · rfl
        rw [Nat.add_zero, hzero] at hnext
        exact ih htail hnext h

theorem boundary_of_mem_analyzeJumpdests {code : Bytes} {dest : U64}
    (hslice : code.length < 2 ^ 63) (h : dest ∈ analyzeJumpdests code) :
    Boundary code dest.toNat := by
  obtain ⟨n, hlt, hn, rfl⟩ := boundary_of_mem_scanJumpdests (List.drop_zero) .start h
  rw [BitVec.toNat_ofNat, Nat.mod_eq_of_lt (by omega)]
  exact hn

end Jumpdests

/-! ## The position -/

/-- The frame keeps its code and its position. -/
def placed : Guarantee Vm where
  rel vm vm' := vm'.ctx.pc = vm.ctx.pc ∧ vm'.ctx.call = vm.ctx.call ∧
    vm'.ctx.validJumpdests = vm.ctx.validJumpdests
  refl _ := ⟨rfl, rfl, rfl⟩
  trans h h' := ⟨h'.1.trans h.1, h'.2.1.trans h.2.1, h'.2.2.trans h.2.2⟩

theorem placed_wide : Wide placed where
  stack _ _ := ⟨rfl, rfl, rfl⟩
  memory _ _ := ⟨rfl, rfl, rfl⟩
  returnData _ _ := ⟨rfl, rfl, rfl⟩
  access _ _ := ⟨rfl, rfl, rfl⟩
  gas vm amount ctx h := by
    rw [ExecutionContext.useGas_eq_some h]
    exact ⟨rfl, rfl, rfl⟩
  stop _ := ⟨rfl, rfl, rfl⟩
  revert _ := ⟨rfl, rfl, rfl⟩
  state _ _ := ⟨rfl, rfl, rfl⟩
  original _ _ := ⟨rfl, rfl, rfl⟩
  refund _ _ := ⟨rfl, rfl, rfl⟩
  logs _ _ := ⟨rfl, rfl, rfl⟩

section Run

variable {host : Host} {config : InterpreterConfig} {vm vm' : Vm} {next : Next}

theorem opPush_ok {numBytes : Nat} (h : opPush numBytes vm = .ok () vm') :
    placed.rel (vm.withPc (vm.ctx.pc + BitVec.ofNat 64 numBytes)) vm' := by
  obtain ⟨_, r, hcharge, h⟩ := of_bind_ok h
  obtain ⟨pushData, r', hread, h⟩ := of_bind_ok h
  obtain ⟨_, r'', hmove, h⟩ := of_bind_ok h
  cases hread
  cases hmove
  obtain ⟨hpc, hcall, hvalid⟩ := (placed_wide.charge _ _).of_ok hcharge
  obtain ⟨hpc', hcall', hvalid'⟩ := (placed_wide.push _).of_ok h
  refine ⟨?_, hcall'.trans hcall, hvalid'.trans hvalid⟩
  rw [hpc']
  exact congrArg (· + BitVec.ofNat 64 numBytes) hpc

/-- A jump comes to a position that the scan has found. -/
theorem jumpTo_jumped {dest : Int} {opName : String} (h : jumpTo dest opName vm = .ok next vm') :
    next = .jumped ∧ vm'.ctx.pc ∈ vm.ctx.validJumpdests ∧ vm'.ctx.call = vm.ctx.call ∧
      vm'.ctx.validJumpdests = vm.ctx.validJumpdests := by
  obtain ⟨valid, r, hread, h⟩ := of_bind_ok h
  cases hread
  split at h
  · next hvalid =>
    obtain ⟨_, r', hmove, h⟩ := of_bind_ok h
    cases hmove
    cases h
    exact ⟨rfl, List.contains_iff_mem.mp hvalid, rfl, rfl⟩
  · cases h

/-- What a turn does to the position, by the opcode's byte. -/
def Moves (b : UInt8) (vm : Vm) : Next → Vm → Prop
  | .jumped, vm' => vm'.ctx.pc ∈ vm.ctx.validJumpdests
  | .proceed, vm' => vm'.ctx.pc = vm.ctx.pc + BitVec.ofNat 64 (Opcode.ofByte b).immediate
  | .subCall _ _, vm' => vm'.ctx.pc = vm.ctx.pc ∧ (Opcode.ofByte b).immediate = 0

theorem dispatch_ne_jumped {op : Opcode} (hstays : op.moves = false)
    (h : dispatch host op vm = .ok next vm') : next ≠ .jumped := by
  rintro rfl
  by_cases hfree : op.free = true
  · exact (freeTurn_dispatch hfree h).opens
  · cases op
    case jumpdest => cases h
    case invalid =>
      obtain ⟨pc, r, -, h⟩ := of_bind_ok h
      cases h
    case unknown =>
      obtain ⟨pc, r, -, h⟩ := of_bind_ok h
      cases h
    case sstore | log | selfdestruct =>
      obtain ⟨isStatic, t, -, h⟩ := of_bind_ok h
      split at h
      · cases h
      · cases proceeds_ok h
    all_goals first
      | cases proceeds_ok h
      | exact absurd rfl hfree
      | cases hstays

theorem Opcode.immediate_of_stays {op : Opcode} (hstays : op.moves = false) : op.immediate = 0 := by
  cases op
  case push => cases hstays
  all_goals rfl

theorem step_moves {b : UInt8} (h : step host b vm = .ok next vm') :
    Moves b vm next vm' ∧ vm'.ctx.call = vm.ctx.call ∧
      vm'.ctx.validJumpdests = vm.ctx.validJumpdests := by
  obtain ⟨_, r, hcharge, h⟩ := of_bind_ok h
  obtain ⟨hpc, hcall, hvalid⟩ := (placed_wide.chargeConst b).of_ok hcharge
  rw [← hcall, ← hvalid]
  by_cases hstays : (Opcode.ofByte b).moves = false
  · obtain ⟨hpc', hcall', hvalid'⟩ := (placed_wide.dispatch host hstays).of_ok h
    refine ⟨?_, hcall', hvalid'⟩
    have hzero := Opcode.immediate_of_stays hstays
    cases next with
    | proceed =>
      change vm'.ctx.pc = vm.ctx.pc + BitVec.ofNat 64 (Opcode.ofByte b).immediate
      rw [hzero, hpc', hpc]
      exact (BitVec.add_zero _).symm
    | jumped => exact absurd rfl (dispatch_ne_jumped hstays h)
    | subCall call pending => exact ⟨hpc'.trans hpc, hzero⟩
  · generalize hop : Opcode.ofByte b = op at h hstays
    cases op
    case jump =>
      obtain ⟨dest, r', hpop, h⟩ := of_bind_ok h
      obtain ⟨hpc', hcall', hvalid'⟩ := placed_wide.mustPop1.of_ok hpop
      obtain ⟨rfl, hmem, hcall'', hvalid''⟩ := jumpTo_jumped h
      rw [hvalid', hvalid] at hmem
      exact ⟨hmem, hcall''.trans hcall', hvalid''.trans hvalid'⟩
    case jumpi =>
      obtain ⟨dest, r', hpop, h⟩ := of_bind_ok h
      obtain ⟨cond, r'', hpop', h⟩ := of_bind_ok h
      obtain ⟨hpc', hcall', hvalid'⟩ :=
        placed.trans (placed_wide.mustPop1.of_ok hpop) (placed_wide.mustPop1.of_ok hpop')
      split at h
      · cases h
        refine ⟨?_, hcall', hvalid'⟩
        change vm'.ctx.pc = vm.ctx.pc + BitVec.ofNat 64 (Opcode.ofByte b).immediate
        rw [hop, hpc', hpc]
        exact (BitVec.add_zero _).symm
      · obtain ⟨rfl, hmem, hcall'', hvalid''⟩ := jumpTo_jumped h
        rw [hvalid', hvalid] at hmem
        exact ⟨hmem, hcall''.trans hcall', hvalid''.trans hvalid'⟩
    case push numBytes =>
      obtain ⟨_, r', hpush, hpure⟩ := of_bind_ok h
      cases hpure
      obtain ⟨hpc', hcall', hvalid'⟩ := opPush_ok hpush
      refine ⟨?_, hcall', hvalid'⟩
      change vm'.ctx.pc = vm.ctx.pc + BitVec.ofNat 64 (Opcode.ofByte b).immediate
      rw [hop, hpc']
      exact congrArg (· + BitVec.ofNat 64 numBytes) hpc
    all_goals exact absurd rfl hstays

/-! ## Along a run -/

/-- The frame knows the jump destinations of its code and is at a boundary of it; a Go slice is
shorter than `2 ^ 63`. -/
structure Decoded (ctx : ExecutionContext) : Prop where
  jumpdests : ctx.validJumpdests = analyzeJumpdests ctx.call.code
  boundary : ctx.call.code.length < 2 ^ 63 → Boundary ctx.call.code ctx.pc.toNat

theorem decoded_new (block : BlockContext) (tx : Option TxContext) (call : CallContext) :
    Decoded (.new block tx call) := ⟨rfl, fun _ => .start⟩

/-- The position behind an opcode and its immediate bytes. -/
theorem Decoded.advance (h : Decoded vm.ctx) {b : UInt8} (hfetch : vm.fetch = some b)
    (hcall : vm'.ctx.call = vm.ctx.call)
    (hvalid : vm'.ctx.validJumpdests = vm.ctx.validJumpdests)
    (hpc : vm'.ctx.pc = vm.ctx.pc + BitVec.ofNat 64 (Opcode.ofByte b).immediate) :
    Decoded vm'.advance.ctx := by
  have hb : vm.ctx.call.code[vm.ctx.pc.toNat]? = some b := by
    unfold Vm.fetch at hfetch
    split at hfetch
    · cases hfetch
    · exact hfetch
  have hlt : vm.ctx.pc.toNat < vm.ctx.call.code.length := (List.getElem?_eq_some_iff.mp hb).1
  have himmediate := Opcode.immediate_le b
  constructor
  · change vm'.ctx.validJumpdests = analyzeJumpdests vm'.ctx.call.code
    rw [hvalid, hcall]
    exact h.jumpdests
  · intro hslice
    change vm'.ctx.call.code.length < 2 ^ 63 at hslice
    change Boundary vm'.ctx.call.code (vm'.ctx.pc + 1).toNat
    rw [hcall] at hslice ⊢
    have hnext := Boundary.next (h.boundary hslice) hb
    have hone : (1 : U64).toNat = 1 := rfl
    have hto : (vm'.ctx.pc + 1).toNat =
        vm.ctx.pc.toNat + 1 + (Opcode.ofByte b).immediate := by
      rw [hpc, BitVec.toNat_add, BitVec.toNat_add, BitVec.toNat_ofNat, hone]
      omega
    rw [hto]
    exact hnext

theorem Decoded.of_reaches {t : Vm} (ht : Reaches host config vm t) (h : Decoded vm.ctx) :
    Decoded t.ctx := by
  induction ht with
  | here vm => exact h
  | proceed hfetch hstep _ ih =>
    obtain ⟨hmoves, hcall, hvalid⟩ := step_moves hstep
    exact ih (h.advance hfetch hcall hvalid hmoves)
  | @jumped vm vm' t b hfetch hstep _ ih =>
    obtain ⟨hmem, hcall, hvalid⟩ := step_moves hstep
    apply ih
    constructor
    · rw [hvalid, hcall]
      exact h.jumpdests
    · intro hslice
      rw [hcall] at hslice ⊢
      apply boundary_of_mem_analyzeJumpdests hslice
      rw [← h.jumpdests]
      exact hmem
  | enter _ _ _ _ ih => exact ih (decoded_new _ _ _)
  | @resume vm vm' vm'' t b call pending fuel result world hfetch hstep _ hresume _ ih =>
    obtain ⟨⟨hpc, hzero⟩, hcall, hvalid⟩ := step_moves hstep
    obtain ⟨hpc', hcall', hvalid'⟩ := (placed_wide.resume host pending result).of_ok hresume
    apply ih
    apply h.advance hfetch (hcall'.trans hcall) (hvalid'.trans hvalid)
    rw [hpc', hzero]
    exact hpc.trans (BitVec.add_zero _).symm

end Run

/-- Every opcode is fetched at an instruction boundary of the code, so never within push data,
and the stack is bounded and holds words; a Go slice is shorter than `2 ^ 63`. -/
theorem fetch_at_boundary (host : Host) (config : InterpreterConfig) (block : BlockContext)
    (tx : Option TxContext) (call : CallContext) (parentAccess : Option AccessSet)
    (parentOriginalStorage : Option OriginalStorage) (state : StateDB) (t : Vm)
    (ht : Reaches host config
      (Vm.enter block tx call parentAccess parentOriginalStorage state) t)
    (hslice : t.ctx.call.code.length < 2 ^ 63) :
    (∀ b, t.fetch = some b → Boundary t.ctx.call.code t.ctx.pc.toNat ∧
      ∀ pos b', Boundary t.ctx.call.code pos → t.ctx.call.code[pos]? = some b' →
        ¬(pos < t.ctx.pc.toNat ∧ t.ctx.pc.toNat ≤ pos + (Opcode.ofByte b').immediate)) ∧
    t.ctx.stack.data.length ≤ 1024 ∧ ∀ v ∈ t.ctx.stack.data, 0 ≤ v ∧ v < 2 ^ 256 := by
  have hdecoded : Decoded t.ctx := Decoded.of_reaches ht (decoded_new block tx call)
  refine ⟨?_, t.ctx.stack.bounded, t.ctx.stack.words⟩
  intro b _
  have hboundary := hdecoded.boundary hslice
  refine ⟨hboundary, ?_⟩
  rintro pos b' hpos hb' ⟨hlt, hle⟩
  exact absurd hle (Nat.not_le_of_lt (hboundary.skips hpos hb' hlt))

namespace Sample

/-- `PUSH1 0x5B JUMPDEST`: the first `0x5B` is push data. -/
def pusher : Bytes := [0x60, 0x5B, 0x5B]

def pusherEntry : Vm := .enter block (some tx) (call pusher) none none state

/-- The frame behind the `PUSH1`. -/
def pushed : Vm := (left (step host 0x60 pusherEntry)).advance

theorem reaches_pushed : Reaches host .default pusherEntry pushed := by
  have hstep : step host 0x60 pusherEntry = .ok .proceed (left (step host 0x60 pusherEntry)) := rfl
  exact .proceed rfl hstep (.here _)

end Sample

theorem fetch_at_boundary_sample :
    Sample.pushed.fetch = some 0x5B ∧ Boundary Sample.pusher 2 :=
  ⟨rfl, ((fetch_at_boundary Sample.host .default Sample.block (some Sample.tx)
    (Sample.call Sample.pusher) none none Sample.state Sample.pushed Sample.reaches_pushed
    (by decide)).1 0x5B rfl).1⟩

end Qubitcoin.Evm
