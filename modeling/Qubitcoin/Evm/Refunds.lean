import Qubitcoin.Evm.Snapshots
import Qubitcoin.Evm.StaticContext

/-! The refund of a frame's stores.  Clearing a slot adds to it, and storing to a slot that was
cleared should take that back, but a negative refund is dropped. -/

namespace Qubitcoin.Evm

open Command Exec Interpreter

/-- What a frame's contract holds in a slot. -/
def Vm.current (vm : Vm) (key : Word) : Word :=
  vm.world.state.getStorage vm.ctx.call.address key

/-- What the slot held at the start of the transaction; the first store records it. -/
def Vm.original (vm : Vm) (key : Word) : Word :=
  ((vm.world.originalStorage.value ∅ vm.ctx.call.address).lookup key).getD (vm.current key)

/-- The slots that the transaction has cleared. -/
def Vm.cleared (vm : Vm) : Set Word := {key | vm.original key ≠ 0 ∧ vm.current key = 0}

section OneStore

variable (original current val : Word)

def Clears : Prop := original ≠ 0 ∧ current ≠ 0 ∧ val = 0

def Unclears : Prop := original ≠ 0 ∧ current = 0 ∧ val ≠ 0

instance : Decidable (Clears original current val) := by
  unfold Clears
  infer_instance

instance : Decidable (Unclears original current val) := by
  unfold Unclears
  infer_instance

/-- The refund of EIP-2200 and EIP-3529 for a changed slot that gets its original value back. -/
def resetRefund : Nat :=
  if original ≠ current ∧ current ≠ val ∧ val = original then
    if original = 0 then (gasSstoreCold - gasSloadWarm).toNat
    else (gasSstoreReset - gasSloadWarm).toNat
  else 0

theorem calcSstoreGas_refund (cold : Bool) :
    (calcSstoreGas (current == 0) (val == 0) (current == val) (original == 0) cold
      (original == current)).refund =
    if Clears original current val then 4800
    else if Unclears original current val then -4800
    else 0 := by
  have hrefund : gasSstoreRefund.toInt = 4800 := by decide
  unfold calcSstoreGas Clears Unclears
  by_cases horiginal : original = 0 <;> by_cases hcurrent : current = 0 <;>
    by_cases hval : val = 0 <;> by_cases hsame : current = val <;>
    by_cases hclean : original = current <;> simp_all

end OneStore

theorem toNat_addRefund (gasRefund : U64) (original current val : Word) :
    (addRefund gasRefund (if Clears original current val then 4800
      else if Unclears original current val then -4800 else 0)).toNat =
    min (gasRefund.toNat + if Clears original current val then 4800 else 0) (2 ^ 64 - 1) := by
  have hmax := gasRefund.isLt
  by_cases hclears : Clears original current val
  · have hdelta : (BitVec.ofInt 64 4800 : U64).toNat = 4800 := rfl
    have hones : (BitVec.allOnes 64 : U64).toNat = 2 ^ 64 - 1 := rfl
    have hroom : (BitVec.allOnes 64 - BitVec.ofInt 64 4800 : U64).toNat = 2 ^ 64 - 1 - 4800 := rfl
    simp only [if_pos hclears, addRefund]
    rw [if_pos (by decide)]
    split
    · next hfull =>
      rw [BitVec.lt_def, hroom] at hfull
      rw [hones]
      omega
    · next hfits =>
      rw [BitVec.lt_def, hroom] at hfits
      rw [BitVec.toNat_add, hdelta]
      omega
  · have hnonpos : ¬(0 : Int) < if Unclears original current val then -4800 else 0 := by
      split <;> decide
    simp only [if_neg hclears, addRefund, if_neg hnonpos]
    omega

/-! ## One store -/

/-- The effect of a store. -/
structure Stored (vm : Vm) (key val : Word) (vm' : Vm) : Prop where
  call : vm'.ctx.call = vm.ctx.call
  refund : vm'.ctx.gasRefund.toNat = min (vm.ctx.gasRefund.toNat +
    if Clears (vm.original key) (vm.current key) val then 4800 else 0) (2 ^ 64 - 1)
  recorded : vm'.world.originalStorage =
    recordOriginal vm.world.originalStorage vm.ctx.call.address key (vm.current key)
  state : vm'.world.state = vm.world.state.setStorage vm.ctx.call.address key val

theorem lookup_recordOriginal (recorded : OriginalStorage) (addr : Address)
    (key current k : Word) :
    ((recordOriginal recorded addr key current).value ∅ addr).lookup k =
      if k = key then some (((recorded.value ∅ addr).lookup key).getD current)
      else (recorded.value ∅ addr).lookup k := by
  cases hlookup : (recorded.value ∅ addr).lookup key with
  | some original =>
    have hsame : recordOriginal recorded addr key current = recorded := by
      simp only [recordOriginal, hlookup]
    rw [hsame]
    split
    · next heq =>
      rw [heq, hlookup]
      rfl
    · rfl
  | none =>
    have hnew : recordOriginal recorded addr key current =
        recorded.insert addr ((recorded.value ∅ addr).insert key current) := by
      simp only [recordOriginal, hlookup]
    rw [hnew, StorageMap.value_insert, StorageMap.lookup_insert_eq]
    rfl

theorem storeSlot_ok {vm vm' : Vm} {keyInt valInt : Int} {stack stack' : Stack}
    (hkey : vm.ctx.stack.pop = .ok (keyInt, stack)) (hval : stack.pop = .ok (valInt, stack'))
    (h : storeSlot vm = .ok () vm') :
    Stored vm (safeFillBytes keyInt) (safeFillBytes valInt) vm' := by
  have hpop : mustPop1 vm = .ok keyInt (vm.withStack stack) := by
    simp only [mustPop1, hkey]
  have hpop' : mustPop1 (vm.withStack stack) = .ok valInt (vm.withStack stack') := by
    have hnext : (vm.withStack stack).ctx.stack.pop = .ok (valInt, stack') := hval
    simp only [mustPop1, hnext]
    rfl
  unfold storeSlot at h
  rw [bind_ok hpop, bind_ok hpop'] at h
  generalize safeFillBytes keyInt = key at h ⊢
  generalize safeFillBytes valInt = val at h ⊢
  obtain ⟨addr, r, hread, h⟩ := of_bind_ok h
  cases hread
  obtain ⟨current, r, hread, h⟩ := of_bind_ok h
  cases hread
  obtain ⟨_, r, hrecord, h⟩ := of_bind_ok h
  cases hrecord
  obtain ⟨original, r, hread, h⟩ := of_bind_ok h
  cases hread
  obtain ⟨cold, r, hread, h⟩ := of_bind_ok h
  cases hread
  obtain ⟨_, r, hwarm, h⟩ := of_bind_ok h
  cases hwarm
  obtain ⟨_, r, hcharge, h⟩ := of_bind_ok h
  obtain ⟨ctx, hgas, rfl⟩ := charge_ok hcharge
  cases ExecutionContext.useGas_eq_some hgas
  obtain ⟨_, r, hrefund, h⟩ := of_bind_ok h
  cases hrefund
  cases h
  have horiginal : ((recordOriginal vm.world.originalStorage vm.ctx.call.address key
      (vm.current key)).value ∅ vm.ctx.call.address).value 0 key = vm.original key := by
    rw [StorageMap.value, lookup_recordOriginal, if_pos rfl]
    rfl
  constructor
  · rfl
  · rw [← toNat_addRefund, ← calcSstoreGas_refund]
    rw [← horiginal]
    rfl
  · rfl
  · rfl

namespace Stored

variable {vm vm' : Vm} {key val : Word} (h : Stored vm key val vm')
include h

theorem current : vm'.current = Function.update vm.current key val := by
  funext k
  rw [Vm.current, h.call, h.state, Function.update_apply]
  have hslot := StateDB.slot_setStorage vm.world.state vm.ctx.call.address key val
    (vm.ctx.call.address, k)
  simp only [Prod.ext_iff, true_and] at hslot
  exact hslot

theorem original : vm'.original = vm.original := by
  funext k
  rw [Vm.original, h.call, h.recorded, lookup_recordOriginal, h.current, Function.update_apply]
  split
  · next heq =>
    rw [heq]
    rfl
  · rfl

theorem ncard_cleared : vm'.cleared.ncard +
      (if Unclears (vm.original key) (vm.current key) val then 1 else 0) =
    vm.cleared.ncard + if Clears (vm.original key) (vm.current key) val then 1 else 0 := by
  have hfinite : Finite Word := .of_equiv _ BitVec.equivFin.symm.toEquiv
  have hmem : ∀ k, k ∈ vm'.cleared ↔
      vm.original k ≠ 0 ∧ (if k = key then val else vm.current k) = 0 := by
    intro k
    rw [Vm.cleared, Set.mem_ofPred_eq, h.original, h.current, Function.update_apply]
  by_cases hclears : Clears (vm.original key) (vm.current key) val
  · obtain ⟨horiginal, hcurrent, hval⟩ := hclears
    have hkey : key ∉ vm.cleared := fun hcleared => hcurrent hcleared.2
    have hset : vm'.cleared = insert key vm.cleared := by
      ext k
      rw [hmem, Set.mem_insert_iff]
      by_cases heq : k = key
      · rw [heq, if_pos rfl]
        exact iff_of_true ⟨horiginal, hval⟩ (.inl rfl)
      · simp [heq, Vm.cleared]
    have hunclears : ¬Unclears (vm.original key) (vm.current key) val := fun hu => hu.2.2 hval
    rw [hset, Set.ncard_insert_of_notMem hkey, if_neg hunclears, if_pos ⟨horiginal, hcurrent, hval⟩]
  · rw [if_neg hclears]
    by_cases hunclears : Unclears (vm.original key) (vm.current key) val
    · obtain ⟨horiginal, hcurrent, hval⟩ := hunclears
      have hkey : key ∈ vm.cleared := ⟨horiginal, hcurrent⟩
      have hset : vm'.cleared = vm.cleared \ {key} := by
        ext k
        rw [hmem, Set.mem_sdiff, Set.mem_singleton_iff]
        by_cases heq : k = key
        · rw [heq, if_pos rfl]
          exact iff_of_false (fun hc => hval hc.2) fun hc => hc.2 rfl
        · simp [heq, Vm.cleared]
      rw [hset, if_pos ⟨horiginal, hcurrent, hval⟩]
      exact Set.ncard_sdiff_singleton_add_one hkey
    · have hset : vm'.cleared = vm.cleared := by
        ext k
        rw [hmem]
        by_cases heq : k = key
        · subst heq
          simp only [if_true, Vm.cleared, Set.mem_ofPred_eq]
          unfold Clears at hclears
          unfold Unclears at hunclears
          tauto
        · simp [heq, Vm.cleared]
      rw [hset, if_neg hunclears]

end Stored

/-! ## The stores of a frame -/

/-- Changes that leave the frame's refund and the slots of its contract. -/
def undisturbed : Guarantee Vm where
  rel vm vm' := vm'.ctx.gasRefund = vm.ctx.gasRefund ∧ vm'.original = vm.original ∧
    vm'.current = vm.current
  refl _ := ⟨rfl, rfl, rfl⟩
  trans h h' := ⟨h'.1.trans h.1, h'.2.1.trans h.2.1, h'.2.2.trans h.2.2⟩

/-- The opcodes that do not write leave them, among others. -/
theorem undisturbed_quiet : Quiet undisturbed where
  stack _ _ := ⟨rfl, rfl, rfl⟩
  memory _ _ := ⟨rfl, rfl, rfl⟩
  pc _ _ := ⟨rfl, rfl, rfl⟩
  returnData _ _ := ⟨rfl, rfl, rfl⟩
  access _ _ := ⟨rfl, rfl, rfl⟩
  gas vm amount ctx h := by
    rw [ExecutionContext.useGas_eq_some h]
    exact ⟨rfl, rfl, rfl⟩
  stop _ := ⟨rfl, rfl, rfl⟩
  revert _ := ⟨rfl, rfl, rfl⟩

/-- A frame goes from one state to another with these stores, each a key and a value. -/
inductive Stores : Vm → List (Word × Word) → Vm → Prop
  | here (vm : Vm) : Stores vm [] vm
  | other {vm vm' t : Vm} {ops : List (Word × Word)} : undisturbed.rel vm vm' →
      Stores vm' ops t → Stores vm ops t
  | store {vm vm' t : Vm} {ops : List (Word × Word)} {keyInt valInt : Int} {stack stack' : Stack} :
      vm.ctx.stack.pop = .ok (keyInt, stack) → stack.pop = .ok (valInt, stack') →
      storeSlot vm = .ok () vm' → Stores vm' ops t →
      Stores vm ((safeFillBytes keyInt, safeFillBytes valInt) :: ops) t

/-- What the stores come to, one by one, from slots with these values. -/
def tally (amount : Word → Word → Word → Nat) (original : Word → Word) :
    (Word → Word) → List (Word × Word) → Nat
  | _, [] => 0
  | current, (key, val) :: ops =>
    amount (original key) (current key) val +
      tally amount original (Function.update current key val) ops

def clearings : (Word → Word) → (Word → Word) → List (Word × Word) → Nat :=
  tally fun original current val => if Clears original current val then 1 else 0

def unclearings : (Word → Word) → (Word → Word) → List (Word × Word) → Nat :=
  tally fun original current val => if Unclears original current val then 1 else 0

def resets : (Word → Word) → (Word → Word) → List (Word × Word) → Nat := tally resetRefund

theorem Vm.cleared_congr {vm vm' : Vm} (h : undisturbed.rel vm vm') : vm'.cleared = vm.cleared := by
  rw [cleared, cleared, h.2.1, h.2.2]

section Run

variable {vm t : Vm} {ops : List (Word × Word)} (h : Stores vm ops t)
include h

/-- Every clearing store is paid for, up to the largest refund. -/
theorem Stores.toNat_gasRefund : t.ctx.gasRefund.toNat =
    min (vm.ctx.gasRefund.toNat + 4800 * clearings vm.original vm.current ops) (2 ^ 64 - 1) := by
  induction h with
  | here vm =>
    have hmax := vm.ctx.gasRefund.isLt
    simp only [clearings, tally]
    omega
  | other hother _ ih => rw [ih, hother.1, hother.2.1, hother.2.2]
  | @store vm vm' t ops keyInt valInt stack stack' hkey hval hstore _ ih =>
    have hstored := storeSlot_ok hkey hval hstore
    rw [ih, hstored.refund, hstored.original, hstored.current]
    simp only [clearings, tally]
    split <;> omega

/-- The cleared slots are those cleared and not stored to again. -/
theorem Stores.ncard_cleared : t.cleared.ncard + unclearings vm.original vm.current ops =
    vm.cleared.ncard + clearings vm.original vm.current ops := by
  induction h with
  | here vm => rfl
  | other hother _ ih =>
    rw [hother.2.1, hother.2.2, Vm.cleared_congr hother] at ih
    exact ih
  | @store vm vm' t ops keyInt valInt stack stack' hkey hval hstore _ ih =>
    have hstored := storeSlot_ok hkey hval hstore
    have hone := hstored.ncard_cleared
    rw [hstored.original, hstored.current] at ih
    simp only [clearings, unclearings, tally] at ih ⊢
    omega

end Run

/-- The refund is within the bound exactly if the storing to cleared slots is made up for by
resets and by slots that were cleared before the frame, or the bound is past the largest refund. -/
theorem refund_le_iff (vm t : Vm) (ops : List (Word × Word)) (h : Stores vm ops t)
    (hstart : vm.ctx.gasRefund = 0) :
    t.ctx.gasRefund.toNat ≤ 4800 * t.cleared.ncard + resets vm.original vm.current ops ↔
      4800 * unclearings vm.original vm.current ops ≤
          4800 * vm.cleared.ncard + resets vm.original vm.current ops ∨
        2 ^ 64 - 1 ≤ 4800 * t.cleared.ncard + resets vm.original vm.current ops := by
  have hrefund := h.toNat_gasRefund
  have hcleared := h.ncard_cleared
  have hzero : vm.ctx.gasRefund.toNat = 0 := by
    rw [hstart]
    rfl
  omega

namespace Sample

/-- Slot 0 of the contract holds 1. -/
def slotState : StateDB := StateDB.setStorage .new contract 0 1

/-- A frame with the operands of two stores to slot 0, of 0 and of 2, on its stack. -/
def storing : Vm :=
  (Vm.enter block (some tx) { call [] with isStatic := false } none none slotState).withStack
    ⟨[0, 0, 0, 2], by decide, by decide⟩

def storedOnce : Vm := left (storeSlot storing)

def storedTwice : Vm := left (storeSlot storedOnce)

theorem storing_once : storeSlot storing = .ok () storedOnce := rfl

theorem storing_twice : storeSlot storedOnce = .ok () storedTwice := rfl

theorem stores_once : Stores storing [(0, 0)] storedOnce := by
  have hstores : Stores storing [(safeFillBytes 0, safeFillBytes 0)] storedOnce :=
    .store rfl rfl storing_once (.here _)
  exact hstores

theorem stores_twice : Stores storing [(0, 0), (0, 2)] storedTwice := by
  have hstores : Stores storing
      [(safeFillBytes 0, safeFillBytes 0), (safeFillBytes 0, safeFillBytes 2)] storedTwice :=
    .store rfl rfl storing_once (.store rfl rfl storing_twice (.here _))
  exact hstores

theorem cleared_storing : storing.cleared = ∅ := by
  ext key
  simp only [Vm.cleared, Set.mem_ofPred_eq, Set.mem_empty_iff_false, iff_false]
  rintro ⟨horiginal, hcurrent⟩
  exact horiginal hcurrent

end Sample

theorem refund_le_sample : Sample.storedOnce.ctx.gasRefund.toNat ≤
    4800 * Sample.storedOnce.cleared.ncard +
      resets Sample.storing.original Sample.storing.current [(0, 0)] :=
  (refund_le_iff Sample.storing Sample.storedOnce [(0, 0)] Sample.stores_once rfl).mpr
    (.inl (by decide +kernel))

/-- A slot is cleared and stored to again: no slot is cleared, and the refund is 4800. -/
theorem refund_farmed :
    ¬∀ (vm t : Vm) (ops : List (Word × Word)), Stores vm ops t → vm.ctx.gasRefund = 0 →
      t.ctx.gasRefund.toNat ≤ 4800 * t.cleared.ncard + resets vm.original vm.current ops := by
  intro h
  have hbound := h _ _ _ Sample.stores_twice rfl
  have hcleared := Sample.stores_twice.ncard_cleared
  have hresets : resets Sample.storing.original Sample.storing.current [(0, 0), (0, 2)] = 0 := by
    decide +kernel
  have hun : unclearings Sample.storing.original Sample.storing.current [(0, 0), (0, 2)] = 1 := by
    decide +kernel
  have hclear : clearings Sample.storing.original Sample.storing.current [(0, 0), (0, 2)] = 1 := by
    decide +kernel
  have hrefund : Sample.storedTwice.ctx.gasRefund.toNat = 4800 := by
    have hstart : Sample.storing.ctx.gasRefund.toNat = 0 := rfl
    rw [Sample.stores_twice.toNat_gasRefund, hclear, hstart]
    omega
  rw [Sample.cleared_storing, Set.ncard_empty, hun, hclear] at hcleared
  omega

end Qubitcoin.Evm
