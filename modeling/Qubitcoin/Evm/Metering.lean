import Qubitcoin.Evm.Reachability

/-! Gas is never given back, and every opcode but a few uses some. -/

namespace Qubitcoin.Evm

open Command Exec Interpreter

section Gas

/-- The frame keeps its context, and no gas is given back. -/
def metered : Guarantee Vm where
  rel vm vm' := vm'.ctx.call = vm.ctx.call ∧ vm.ctx.gasUsed.toNat ≤ vm'.ctx.gasUsed.toNat
  refl _ := ⟨rfl, Nat.le_refl _⟩
  trans h h' := ⟨h'.1.trans h.1, h.2.trans h'.2⟩

theorem ExecutionContext.toNat_gasUsed {ctx ctx' : ExecutionContext} {amount : U64}
    (h : ctx.useGas amount = some ctx') :
    ctx'.gasUsed.toNat = ctx.gasUsed.toNat + amount.toNat := by
  unfold useGas at h
  dsimp only at h
  split at h
  · cases h
  · next hfits =>
    cases h
    rw [not_or, BitVec.lt_def, BitVec.lt_def, BitVec.toNat_add] at hfits
    rw [BitVec.toNat_add]
    omega

theorem metered_wide : Wide metered where
  stack _ _ := ⟨rfl, Nat.le_refl _⟩
  memory _ _ := ⟨rfl, Nat.le_refl _⟩
  returnData _ _ := ⟨rfl, Nat.le_refl _⟩
  access _ _ := ⟨rfl, Nat.le_refl _⟩
  gas vm amount ctx h := by
    refine ⟨?_, ?_⟩
    · rw [ExecutionContext.useGas_eq_some h]
    · simp only [ExecutionContext.toNat_gasUsed h]
      omega
  stop _ := ⟨rfl, Nat.le_refl _⟩
  revert _ := ⟨rfl, Nat.le_refl _⟩
  state _ _ := ⟨rfl, Nat.le_refl _⟩
  original _ _ := ⟨rfl, Nat.le_refl _⟩
  refund _ _ := ⟨rfl, Nat.le_refl _⟩
  logs _ _ := ⟨rfl, Nat.le_refl _⟩

theorem metered_quiet : Quiet metered where
  toLocal := metered_wide.toLocal
  pc _ _ := ⟨rfl, Nat.le_refl _⟩

theorem metered_dispatch (host : Host) (op : Opcode) : Keeps metered (dispatch host op) := by
  by_cases hstays : op.moves = false
  · exact metered_wide.dispatch host hstays
  · apply metered_quiet.dispatch host
    cases op
    case jump | jumpi | push => rfl
    all_goals exact absurd rfl hstays

theorem metered_step (host : Host) (b : UInt8) : Keeps metered (step host b) :=
  (metered_quiet.chargeConst b).bind fun _ => metered_dispatch host _

theorem metered_resume (host : Host) (pending : Pending) (r : ExecutionResult) :
    Keeps metered (resume host pending r) := metered_wide.resume host pending r

end Gas

section Burning

/-- On success gas has been used. -/
def Burns {α : Type} (x : Exec α) : Prop :=
  ∀ ⦃vm vm' : Vm⦄ ⦃a : α⦄, x vm = .ok a vm' → vm.ctx.gasUsed.toNat < vm'.ctx.gasUsed.toNat

variable {α β : Type}

theorem Burns.first {x : Exec α} {f : α → Exec β} (hx : Burns x) (hf : ∀ a, Keeps metered (f a)) :
    Burns (x >>= f) := by
  intro vm vm' b h
  obtain ⟨a, r, hrun, hrest⟩ := of_bind_ok h
  exact (hx hrun).trans_le ((hf a).of_ok hrest).2

theorem Burns.rest {x : Exec α} {f : α → Exec β} (hx : Keeps metered x) (hf : ∀ a, Burns (f a)) :
    Burns (x >>= f) := by
  intro vm vm' b h
  obtain ⟨a, r, hrun, hrest⟩ := of_bind_ok h
  exact (hx.of_ok hrun).2.trans_lt (hf a hrest)

theorem burns_fail (err : String) : Burns (fail err : Exec α) := by
  intro vm vm' a h
  cases h

theorem burns_charge {amount : U64} (h : amount ≠ 0) (err : String) : Burns (charge amount err) := by
  intro vm vm' a hrun
  obtain ⟨paid, r, huse, hrest⟩ := of_bind_ok hrun
  have hpos : 0 < amount.toNat := Nat.pos_of_ne_zero fun hzero => h (BitVec.eq_of_toNat_eq hzero)
  unfold useGas at huse
  split at huse
  · next ctx hctx =>
    cases huse
    cases hrest
    rw [ExecutionContext.toNat_gasUsed hctx]
    omega
  · cases huse
    cases hrest

theorem burns_refuseStatic (err : String) {x : Exec Next} (h : Burns x) :
    Burns (refuseStatic err x) := by
  apply Burns.rest (Quiet.reads _)
  intro isStatic
  split
  · exact burns_fail err
  · exact h

theorem burns_proceeds {x : Exec Unit} (h : Burns x) : Burns (proceeds x) :=
  h.first fun _ => .pure _

theorem calcSstoreGas_cost_ne_zero (currentIsZero newIsZero currentEqualsNew originalIsZero cold
    originalEqualsCurrent : Bool) :
    (calcSstoreGas currentIsZero newIsZero currentEqualsNew originalIsZero cold
      originalEqualsCurrent).cost ≠ 0 := by
  revert currentIsZero newIsZero currentEqualsNew originalIsZero cold originalEqualsCurrent
  decide

theorem burns_storeSlot : Burns storeSlot := by
  have q := metered_quiet
  unfold storeSlot
  refine .rest q.mustPop1 fun _ => .rest q.mustPop1 fun _ => .rest (Quiet.reads _) fun _ => ?_
  refine .rest (Quiet.reads _) fun _ =>
    .rest (Quiet.modifies fun _ => metered_wide.original _ _) fun _ => ?_
  refine .rest (Quiet.reads _) fun _ => .rest (Quiet.reads _) fun _ => ?_
  refine .rest (Quiet.modifies fun _ => q.access _ _) fun _ => ?_
  apply Burns.first (burns_charge (calcSstoreGas_cost_ne_zero _ _ _ _ _ _) _)
  exact fun _ => .bind (Quiet.modifies fun _ => metered_wide.refund _ _) fun _ =>
    metered_wide.modifiesState _

theorem burns_destroy : Burns destroy := by
  obtain ⟨rest, hrest, heq⟩ := metered_wide.destroy_eq
  rw [heq]
  exact .first (burns_charge (by decide) _) fun _ => hrest

/-- The opcodes that may cost nothing. -/
def Opcode.free : Opcode → Bool
  | .stop | .ret | .revert | .create | .create2 | .call | .callcode | .delegatecall
  | .staticcall => true
  | _ => false

theorem constGas_ne_zero {op : Opcode} {cost : U64} (hfree : op.free = false)
    (hop : op ≠ .invalid) (h : constGas op = some cost) : cost ≠ 0 := by
  cases op <;> simp_all [Opcode.free, constGas] <;> subst h <;> decide

theorem burns_dispatch (host : Host) {op : Opcode} (hfree : op.free = false)
    (h : constGas op = none ∨ op = .invalid) : Burns (dispatch host op) := by
  have q := metered_quiet
  cases op
  case sstore => exact burns_refuseStatic _ (burns_proceeds burns_storeSlot)
  case selfdestruct => exact burns_refuseStatic _ (burns_proceeds burns_destroy)
  case push n =>
    apply burns_proceeds
    apply Burns.first (burns_charge (by decide) _)
    grind
  case dup n => exact burns_proceeds (.first (burns_charge (by decide) _) fun _ => q.onStack _)
  case swap n => exact burns_proceeds (.first (burns_charge (by decide) _) fun _ => q.onStack _)
  case invalid => exact .rest (Quiet.reads _) fun _ => burns_fail _
  case unknown op => exact .rest (Quiet.reads _) fun _ => burns_fail _
  all_goals simp [Opcode.free, constGas] at hfree h

theorem burns_step (host : Host) {b : UInt8} (hfree : (Opcode.ofByte b).free = false) :
    Burns (step host b) := by
  by_cases hconst : constGas (.ofByte b) = none ∨ Opcode.ofByte b = .invalid
  · exact .rest (metered_quiet.chargeConst b) fun _ => burns_dispatch host hfree hconst
  · rw [not_or] at hconst
    apply Burns.first _ fun _ => metered_dispatch host _
    unfold chargeConst
    split
    · next h => exact absurd h hconst.1
    · next cost h =>
      exact .rest (Quiet.reads _) fun _ => burns_charge (constGas_ne_zero hfree hconst.2 h) _

end Burning

end Qubitcoin.Evm
