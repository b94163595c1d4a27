import Qubitcoin.Evm.Operands
import Qubitcoin.Evm.StaticContext

/-! What the Yellow Paper asks of the signed and the bit-level opcodes, on 256-bit words
in two's complement, and that the loop pushes it. -/

namespace Qubitcoin.Evm

open Command Exec Interpreter

namespace YellowPaper

def ofBool (val : Bool) : Word := if val then 1 else 0

/-- Rounded towards zero; the only quotient that does not fit wraps around. -/
def sdiv (a b : Word) : Word :=
  if b = 0 then 0
  else if a.toInt = -2 ^ 255 ∧ b.toInt = -1 then BitVec.intMin 256
  else BitVec.ofInt 256 (a.toInt.tdiv b.toInt)

/-- The sign is the dividend's. -/
def smod (a b : Word) : Word :=
  if b = 0 then 0 else BitVec.ofInt 256 (a.toInt.sign * (a.toInt.natAbs % b.toInt.natAbs : Nat))

def addmod (a b n : Word) : Word :=
  if n = 0 then 0 else BitVec.ofNat 256 ((a.toNat + b.toNat) % n.toNat)

def mulmod (a b n : Word) : Word :=
  if n = 0 then 0 else BitVec.ofNat 256 (a.toNat * b.toNat % n.toNat)

def exp (base exp : Word) : Word := BitVec.ofNat 256 (base.toNat ^ exp.toNat)

/-- Byte `b` counts from the least significant one; from 31 on there is nothing to
extend. -/
def signextend (b x : Word) : Word :=
  if b.toNat < 31 then (x.setWidth (8 * (b.toNat + 1))).signExtend 256 else x

def slt (a b : Word) : Word := ofBool (a.toInt < b.toInt)
def sgt (a b : Word) : Word := ofBool (a.toInt > b.toInt)

/-- Byte `i` counts from the most significant one. -/
def byte (i x : Word) : Word :=
  if i.toNat < 32 then BitVec.ofNat 256 (x.toNat / 256 ^ (31 - i.toNat) % 256) else 0

def shl (shift val : Word) : Word := BitVec.ofNat 256 (val.toNat * 2 ^ shift.toNat)
def shr (shift val : Word) : Word := BitVec.ofNat 256 (val.toNat / 2 ^ shift.toNat)

/-- Rounded down. -/
def sar (shift val : Word) : Word := BitVec.ofInt 256 (val.toInt / 2 ^ shift.toNat)

/-- The stack that the opcode leaves of this one, its top first. -/
def eval : Opcode → List Word → Option (List Word)
  | .sdiv, a :: b :: rest => some (sdiv a b :: rest)
  | .smod, a :: b :: rest => some (smod a b :: rest)
  | .addmod, a :: b :: n :: rest => some (addmod a b n :: rest)
  | .mulmod, a :: b :: n :: rest => some (mulmod a b n :: rest)
  | .exp, base :: e :: rest => some (exp base e :: rest)
  | .signext, b :: x :: rest => some (signextend b x :: rest)
  | .slt, a :: b :: rest => some (slt a b :: rest)
  | .sgt, a :: b :: rest => some (sgt a b :: rest)
  | .byte, i :: x :: rest => some (byte i x :: rest)
  | .shl, shift :: val :: rest => some (shl shift val :: rest)
  | .shr, shift :: val :: rest => some (shr shift val :: rest)
  | .sar, shift :: val :: rest => some (sar shift val :: rest)
  | _, _ => none

end YellowPaper

/-! ## Integers as words -/

/-- The integer that the stack holds for a word. -/
def Word.toBig (w : Word) : Int := w.toNat

theorem ofInt_toBig (w : Word) : BitVec.ofInt 256 w.toBig = w := by
  rw [Word.toBig, BitVec.ofInt_natCast, BitVec.ofNat_toNat, BitVec.setWidth_eq]

theorem toBig_eq_zero_iff (w : Word) : w.toBig = 0 ↔ w = 0 := by
  rw [Word.toBig, Nat.cast_eq_zero, ← BitVec.toNat_inj]
  rfl

theorem toSignedBig_toBig (w : Word) : toSignedBig w.toBig = w.toInt := by
  have hmsb : Int.testBit w.toBig 255 = w.msb := by
    rw [BitVec.msb_eq_getLsbD_last]
    rfl
  rw [toSignedBig, hmsb, BitVec.toInt_eq_msb_cond, Word.toBig, uint256Mod]
  split <;> omega

theorem ofInt_eq_iff (v v' : Int) :
    BitVec.ofInt 256 v = BitVec.ofInt 256 v' ↔ v % 2 ^ 256 = v' % 2 ^ 256 := by
  rw [← BitVec.toNat_inj, BitVec.toNat_ofInt, BitVec.toNat_ofInt]
  omega

theorem ofInt_u256 (v : Int) : BitVec.ofInt 256 (u256 v) = BitVec.ofInt 256 v := by
  rw [ofInt_eq_iff, u256, uint256Mod, Int.emod_emod]

theorem ofInt_toUnsignedBig (v : Int) :
    BitVec.ofInt 256 (toUnsignedBig v) = BitVec.ofInt 256 v := by
  unfold toUnsignedBig
  split
  · rw [ofInt_eq_iff, uint256Mod, Int.add_emod_left]
  · exact ofInt_u256 v

theorem uint64_toBig {w : Word} (h : w.toNat < 256) : (uint64 w.toBig).toNat = w.toNat := by
  rw [uint64, Word.toBig, Int.natAbs_natCast, BitVec.toNat_ofNat]
  omega

/-! ## Each opcode's word -/

theorem ofInt_sdiv (a b : Word) :
    BitVec.ofInt 256 (Arithmetic.sdiv a.toBig b.toBig) = YellowPaper.sdiv a b := by
  unfold Arithmetic.sdiv YellowPaper.sdiv
  simp only [toBig_eq_zero_iff]
  split
  · rfl
  rw [toSignedBig_toBig, toSignedBig_toBig, ofInt_toUnsignedBig]
  split
  · rename_i h
    rw [h.1, h.2]
    rfl
  · rfl

theorem tmod_eq_sign_mul (a b : Int) :
    a.tmod b = a.sign * (a.natAbs % b.natAbs : Nat) := by
  rw [← Int.sign_mul_natAbs (a.tmod b), Int.sign_tmod, Int.natAbs_tmod]
  split
  · rename_i h
    rw [Nat.mod_eq_zero_of_dvd (Int.natAbs_dvd_natAbs.mpr h), Nat.cast_zero, mul_zero, mul_zero]
  · rfl

theorem ofInt_smod (a b : Word) :
    BitVec.ofInt 256 (Arithmetic.smod a.toBig b.toBig) = YellowPaper.smod a b := by
  unfold Arithmetic.smod YellowPaper.smod
  simp only [toBig_eq_zero_iff]
  split
  · rfl
  rw [toSignedBig_toBig, toSignedBig_toBig, ofInt_toUnsignedBig, tmod_eq_sign_mul]

theorem ofInt_addmod (a b n : Word) :
    BitVec.ofInt 256 (Arithmetic.addmod a.toBig b.toBig n.toBig) = YellowPaper.addmod a b n := by
  unfold Arithmetic.addmod YellowPaper.addmod
  simp only [toBig_eq_zero_iff]
  split
  · rfl
  · exact BitVec.ofInt_natCast ..

theorem ofInt_mulmod (a b n : Word) :
    BitVec.ofInt 256 (Arithmetic.mulmod a.toBig b.toBig n.toBig) = YellowPaper.mulmod a b n := by
  unfold Arithmetic.mulmod YellowPaper.mulmod
  simp only [toBig_eq_zero_iff]
  split
  · rfl
  · exact BitVec.ofInt_natCast ..

theorem ofInt_exp (base exp : Word) :
    BitVec.ofInt 256 (Arithmetic.exp base.toBig exp.toBig) = YellowPaper.exp base exp := by
  unfold Arithmetic.exp YellowPaper.exp
  simp only [toBig_eq_zero_iff]
  split
  · rename_i h
    rw [h]
    rfl
  · change BitVec.ofInt 256 (u256 _) = _
    rw [ofInt_u256, ← BitVec.ofInt_natCast, Nat.cast_pow]
    rfl

/-- Bit `i` of an extended word. -/
theorem getLsbD_signextend {b x : Word} {i : Nat} (hb : b.toNat < 31) (hi : i < 256) :
    (YellowPaper.signextend b x).getLsbD i = x.getLsbD (min i (b.toNat * 8 + 7)) := by
  unfold YellowPaper.signextend
  rw [if_pos hb, BitVec.getLsbD_signExtend, decide_eq_true hi, Bool.true_and]
  split
  · rename_i h
    rw [BitVec.getLsbD_setWidth, decide_eq_true h, Bool.true_and, Nat.min_eq_left (by omega)]
  · rename_i h
    rw [BitVec.msb_eq_getLsbD_last, BitVec.getLsbD_setWidth, Nat.min_eq_right (by omega)]
    have hlast : 8 * (b.toNat + 1) - 1 = b.toNat * 8 + 7 := by omega
    rw [hlast, decide_eq_true (by omega), Bool.true_and]

theorem ofInt_signext (b x : Word) :
    BitVec.ofInt 256 (Arithmetic.signext b.toBig x.toBig) = YellowPaper.signextend b x := by
  have hlt : b.toBig < 31 ↔ b.toNat < 31 := Int.ofNat_lt
  by_cases hb : b.toNat < 31
  · have hmask : (2 : Int) ^ (b.toNat * 8 + 7) - 1 = ((2 ^ (b.toNat * 8 + 7) - 1 : Nat) : Int) := by
      rw [Nat.cast_sub Nat.one_le_two_pow, Nat.cast_pow]
      rfl
    have hbit : x.toBig.testBit (b.toNat * 8 + 7) = x.getLsbD (b.toNat * 8 + 7) := rfl
    unfold Arithmetic.signext
    rw [if_pos (hlt.mpr hb)]
    simp only [uint64_toBig (show b.toNat < 256 by omega), hmask, hbit]
    apply BitVec.eq_of_getLsbD_eq
    intro i hi
    rw [getLsbD_signextend hb hi]
    split
    · rename_i hset
      have hor : x.toBig.lor (maxUint256.xor ((2 ^ (b.toNat * 8 + 7) - 1 : Nat) : Int)) =
          ((x.toNat ||| (2 ^ 256 - 1 ^^^ 2 ^ (b.toNat * 8 + 7) - 1) : Nat) : Int) := rfl
      rw [ofInt_u256, hor, BitVec.ofInt_natCast, BitVec.getLsbD_ofNat, Nat.testBit_or,
        Nat.testBit_xor, Nat.testBit_two_pow_sub_one, Nat.testBit_two_pow_sub_one]
      by_cases h : i < b.toNat * 8 + 7
      · simp [hi, h, Nat.min_eq_left h.le, BitVec.getLsbD]
      · simp [hi, h, Nat.min_eq_right (Nat.le_of_not_lt h), hset]
    · rename_i hclear
      have hand : x.toBig.land ((2 ^ (b.toNat * 8 + 7) - 1 : Nat) : Int) =
          ((x.toNat &&& (2 ^ (b.toNat * 8 + 7) - 1) : Nat) : Int) := rfl
      rw [hand, BitVec.ofInt_natCast, BitVec.getLsbD_ofNat, Nat.testBit_and,
        Nat.testBit_two_pow_sub_one]
      by_cases h : i < b.toNat * 8 + 7
      · simp [hi, h, Nat.min_eq_left h.le, BitVec.getLsbD]
      · simp [hi, h, Nat.min_eq_right (Nat.le_of_not_lt h), hclear]
  · unfold Arithmetic.signext YellowPaper.signextend
    rw [if_neg (mt hlt.mp hb), if_neg hb, ofInt_toBig]

theorem ofInt_ofBool (val : Bool) :
    BitVec.ofInt 256 (Arithmetic.ofBool val) = YellowPaper.ofBool val := by
  cases val <;> rfl

theorem ofInt_slt (a b : Word) :
    BitVec.ofInt 256 (Arithmetic.slt a.toBig b.toBig) = YellowPaper.slt a b := by
  rw [Arithmetic.slt, toSignedBig_toBig, toSignedBig_toBig, ofInt_ofBool, YellowPaper.slt]

theorem ofInt_sgt (a b : Word) :
    BitVec.ofInt 256 (Arithmetic.sgt a.toBig b.toBig) = YellowPaper.sgt a b := by
  rw [Arithmetic.sgt, toSignedBig_toBig, toSignedBig_toBig, ofInt_ofBool, YellowPaper.sgt]

theorem ofInt_byte (i x : Word) :
    BitVec.ofInt 256 (Arithmetic.byte i.toBig x.toBig) = YellowPaper.byte i x := by
  have hlt : i.toBig < 32 ↔ i.toNat < 32 := Int.ofNat_lt
  unfold Arithmetic.byte YellowPaper.byte
  simp only [hlt]
  split
  · rename_i h
    rw [uint64_toBig (by omega)]
    have hshift : (x.toBig >>> ((31 - i.toNat) * 8)).land 0xFF =
        ((x.toNat >>> ((31 - i.toNat) * 8) &&& (2 ^ 8 - 1) : Nat) : Int) := rfl
    rw [hshift, BitVec.ofInt_natCast, Nat.and_two_pow_sub_one_eq_mod, Nat.shiftRight_eq_div_pow,
      Nat.mul_comm, Nat.pow_mul]
  · rfl

theorem ofInt_shl (shift val : Word) :
    BitVec.ofInt 256 (Arithmetic.shl shift.toBig val.toBig) = YellowPaper.shl shift val := by
  have hge : shift.toBig ≥ big256 ↔ 256 ≤ shift.toNat := Int.ofNat_le
  unfold Arithmetic.shl YellowPaper.shl
  simp only [hge]
  split
  · rename_i h
    have hdvd : 2 ^ 256 ∣ val.toNat * 2 ^ shift.toNat :=
      Dvd.dvd.mul_left (Nat.pow_dvd_pow 2 h) _
    rw [← BitVec.toNat_inj, BitVec.toNat_ofNat, Nat.mod_eq_zero_of_dvd hdvd]
    rfl
  · rename_i h
    rw [ofInt_u256, uint64_toBig (by omega), ← Nat.shiftLeft_eq, ← BitVec.ofInt_natCast]
    rfl

theorem ofInt_shr (shift val : Word) :
    BitVec.ofInt 256 (Arithmetic.shr shift.toBig val.toBig) = YellowPaper.shr shift val := by
  have hge : shift.toBig ≥ big256 ↔ 256 ≤ shift.toNat := Int.ofNat_le
  unfold Arithmetic.shr YellowPaper.shr
  simp only [hge]
  split
  · rename_i h
    have hlt : val.toNat < 2 ^ shift.toNat := val.isLt.trans_le (Nat.pow_le_pow_right (by decide) h)
    rw [Nat.div_eq_of_lt hlt]
    rfl
  · rename_i h
    rw [uint64_toBig (by omega), ← Nat.shiftRight_eq_div_pow, ← BitVec.ofInt_natCast]
    rfl

theorem ofInt_sar (shift val : Word) :
    BitVec.ofInt 256 (Arithmetic.sar shift.toBig val.toBig) = YellowPaper.sar shift val := by
  have hge : shift.toBig ≥ big256 ↔ 256 ≤ shift.toNat := Int.ofNat_le
  unfold Arithmetic.sar YellowPaper.sar
  simp only [hge, toSignedBig_toBig]
  split
  · rename_i h
    have hlt : -2 ^ 255 ≤ val.toInt ∧ val.toInt < 2 ^ 255 := ⟨val.le_toInt, val.toInt_lt⟩
    have hpow : (2 : Int) ^ 256 ≤ 2 ^ shift.toNat := pow_le_pow_right₀ (by decide) h
    by_cases hneg : val.toInt < 0
    · rw [if_pos hneg, Int.ediv_eq_neg_one_of_neg_of_le hneg (by omega)]
      rfl
    · rw [if_neg hneg, Int.ediv_eq_zero_of_lt (by omega) (by omega)]
  · rename_i h
    rw [ofInt_toUnsignedBig, uint64_toBig (by omega), Int.shiftRight_eq_div_pow]
    rfl

/-! ## The loop -/

/-- The words on the stack, its top first. -/
def Stack.toWords (s : Stack) : List Word := s.data.map (BitVec.ofInt 256)

theorem toBig_ofInt {v : Int} (h : 0 ≤ v ∧ v < uint256Mod) : Word.toBig (BitVec.ofInt 256 v) = v := by
  rw [Word.toBig, BitVec.toNat_ofInt]
  unfold uint256Mod at h
  omega

theorem data_of_toWords {s : Stack} {w : Word} {ws : List Word} (h : s.toWords = w :: ws) :
    ∃ rest, s.data = w.toBig :: rest ∧ s.tail.toWords = ws := by
  obtain ⟨data, bounded, words⟩ := s
  cases data with
  | nil => cases h
  | cons v rest =>
    cases h
    rw [toBig_ofInt (words v List.mem_cons_self)]
    exact ⟨rest, rfl, rfl⟩

section Words

variable {α : Type} {vm : Vm} {w : Word} {ws : List Word}

theorem popped_toWords (h : vm.ctx.stack.toWords = w :: ws) :
    vm.popped.ctx.stack.toWords = ws := by
  obtain ⟨rest, hdata, htail⟩ := data_of_toWords h
  exact htail

theorem mustPop1_bind_words {f : Int → Exec α} (h : vm.ctx.stack.toWords = w :: ws) :
    (mustPop1 >>= f) vm = f w.toBig vm.popped := by
  obtain ⟨rest, hdata, htail⟩ := data_of_toWords h
  exact mustPop1_bind hdata

theorem push_words (val : Int) (vm : Vm) (hroom : vm.ctx.stack.data.length < maxStackDepth) :
    ∃ stack, stack.toWords = BitVec.ofInt 256 val :: vm.ctx.stack.toWords ∧
      push val vm = .ok () (vm.withStack stack) := by
  obtain ⟨stack, hdata, hpush⟩ := push_eq val hroom
  refine ⟨stack, ?_, hpush⟩
  rw [Stack.toWords, hdata, List.map_cons, ofInt_u256]
  rfl

/-- The opcode leaves this stack and nothing else has changed. -/
def Leaves (x : Exec Unit) (vm : Vm) (ws : List Word) : Prop :=
  ∃ stack, stack.toWords = ws ∧ x vm = .ok () (vm.withStack stack)

theorem room_popped (h : vm.ctx.stack.toWords = w :: ws) :
    vm.popped.ctx.stack.data.length < maxStackDepth := by
  obtain ⟨rest, hdata, htail⟩ := data_of_toWords h
  have hbounded := vm.ctx.stack.bounded
  rw [hdata, List.length_cons] at hbounded
  rw [Vm.popped_data, hdata]
  exact hbounded

theorem leaves_binary {f : Int → Int → Int} {a b : Word}
    (h : vm.ctx.stack.toWords = a :: b :: ws) :
    Leaves (binary f) vm (BitVec.ofInt 256 (f a.toBig b.toBig) :: ws) := by
  have hb := popped_toWords h
  obtain ⟨stack, hwords, hpush⟩ := push_words (f a.toBig b.toBig) vm.popped.popped (room_popped hb)
  refine ⟨stack, ?_, ?_⟩
  · rw [hwords, popped_toWords hb]
  · unfold binary
    rw [mustPop1_bind_words h, mustPop1_bind_words hb, hpush]
    rfl

theorem leaves_ternary {f : Int → Int → Int → Int} {a b c : Word}
    (h : vm.ctx.stack.toWords = a :: b :: c :: ws) :
    Leaves (ternary f) vm (BitVec.ofInt 256 (f a.toBig b.toBig c.toBig) :: ws) := by
  have hb := popped_toWords h
  have hc := popped_toWords hb
  obtain ⟨stack, hwords, hpush⟩ :=
    push_words (f a.toBig b.toBig c.toBig) vm.popped.popped.popped (room_popped hc)
  refine ⟨stack, ?_, ?_⟩
  · rw [hwords, popped_toWords hc]
  · unfold ternary
    rw [mustPop1_bind_words h, mustPop1_bind_words hb, mustPop1_bind_words hc, hpush]
    rfl

end Words

/-- 50 for each byte of the exponent. -/
def expByteCost (exp : Word) : U64 :=
  gasExpByte * BitVec.ofNat 64 ((Arithmetic.bitLen exp.toBig + 7) / 8)

/-- What the opcode costs on this stack. -/
def wordCost : Opcode → List Word → U64
  | .exp, _ :: exp :: _ => gasHigh + expByteCost exp
  | op, _ => (constGas op).getD 0

theorem bitLen_le (w : Word) : Arithmetic.bitLen w.toBig ≤ 256 := by
  unfold Arithmetic.bitLen Word.toBig
  split
  · exact Nat.zero_le _
  · rename_i h
    rw [Int.natAbs_natCast]
    have hne : w.toNat ≠ 0 := by
      intro h0
      exact h (congrArg Nat.cast h0)
    exact (Nat.log2_lt hne).mpr w.isLt

theorem pays_add {vm : Vm} {a b : U64} (h : a.toNat + b.toNat < 2 ^ 64) :
    vm.Pays (a + b) ↔ vm.Pays a ∧ (vm.pay a).Pays b := by
  have hgas := vm.ctx.call.gas.isLt
  unfold Vm.Pays Vm.pay
  dsimp only
  rw [BitVec.toNat_add, BitVec.toNat_add]
  omega

theorem pay_pay (vm : Vm) (a b : U64) : (vm.pay a).pay b = vm.pay (a + b) := by
  unfold Vm.pay
  dsimp only
  rw [BitVec.add_assoc]

theorem chargeConst_some {vm : Vm} {b : UInt8} {cost : U64} (h : constGas (.ofByte b) = some cost) :
    chargeConst b vm = charge cost
      ("out of gas at PC=" ++ toString vm.ctx.pc.toNat ++ " op=0x" ++ hexByte b) vm := by
  unfold chargeConst
  rw [h]
  rfl

theorem charge_not_pays {amount : U64} {err : String} {vm : Vm} (h : ¬vm.Pays amount) :
    charge amount err vm = .error (.error err) vm := by
  rw [charge, bind_ok (useGas_of_not_pays h)]
  rfl

/-- A turn of the loop that leaves these words, or runs out of gas. -/
structure Performs (host : Host) (b : UInt8) (vm : Vm) (cost : U64) (ws : List Word) : Prop where
  paid : vm.Pays cost → ∃ stack, stack.toWords = ws ∧
    step host b vm = .ok .proceed ((vm.pay cost).withStack stack)
  unpaid : ¬vm.Pays cost → ∃ err vm', step host b vm = .error (.error err) vm'

section Turn

variable {host : Host} {b : UInt8} {vm : Vm} {cost : U64} {ws : List Word}

theorem performs_of_leaves {x : Exec Unit} (hcost : constGas (.ofByte b) = some cost)
    (hx : dispatch host (.ofByte b) = proceeds x)
    (hleaves : ∀ r : Vm, r.ctx.stack = vm.ctx.stack → Leaves x r ws) :
    Performs host b vm cost ws where
  paid h := by
    obtain ⟨stack, hwords, hrun⟩ := hleaves (vm.pay cost) rfl
    refine ⟨stack, hwords, ?_⟩
    have hcharge : chargeConst b vm = .ok () (vm.pay cost) := by
      rw [chargeConst_some hcost]
      exact charge_eq_ok_iff.mpr ⟨h, rfl⟩
    rw [step, bind_ok hcharge, hx]
    exact bind_ok hrun
  unpaid h := by
    have hcharge := (chargeConst_some hcost).trans (charge_not_pays h)
    rw [step, bind_error hcharge]
    exact ⟨_, _, rfl⟩

theorem opExp_words (vm : Vm) {base exp : Word} {rest : List Word}
    (h : vm.ctx.stack.toWords = base :: exp :: rest) :
    opExp vm = (charge (expByteCost exp) "out of gas: EXP dynamic cost" >>= fun _ =>
      push (Arithmetic.exp base.toBig exp.toBig)) vm.popped.popped := by
  unfold opExp
  rw [mustPop1_bind_words h, mustPop1_bind_words (popped_toWords h)]
  rfl

theorem performs_exp {base exp : Word} {rest : List Word} (hb : Opcode.ofByte b = .exp)
    (h : vm.ctx.stack.toWords = base :: exp :: rest) :
    Performs host b vm (gasHigh + expByteCost exp) (YellowPaper.exp base exp :: rest) := by
  have hbits := bitLen_le exp
  have hsum : gasHigh.toNat + (expByteCost exp).toNat < 2 ^ 64 := by
    have hbytes : (expByteCost exp).toNat = 50 * ((Arithmetic.bitLen exp.toBig + 7) / 8) := by
      have hbyte : gasExpByte.toNat = 50 := rfl
      rw [expByteCost, BitVec.toNat_mul, BitVec.toNat_ofNat, hbyte]
      omega
    have hhigh : gasHigh.toNat = 10 := rfl
    omega
  have hconst : constGas (.ofByte b) = some gasHigh := by
    rw [hb]
    rfl
  have hdispatch : dispatch host (.ofByte b) = proceeds opExp := by
    rw [hb]
    rfl
  have hrest := popped_toWords (popped_toWords h)
  obtain ⟨stack, hwords, hpush⟩ := push_words (Arithmetic.exp base.toBig exp.toBig)
    ((vm.popped.popped.pay gasHigh).pay (expByteCost exp)) (room_popped (popped_toWords h))
  constructor
  · rw [pays_add hsum]
    rintro ⟨hhigh, hbyte⟩
    refine ⟨stack, ?_, ?_⟩
    · rw [hwords, ofInt_exp]
      exact congrArg _ hrest
    · have hcharge : chargeConst b vm = .ok () (vm.pay gasHigh) := by
        rw [chargeConst_some hconst]
        exact charge_eq_ok_iff.mpr ⟨hhigh, rfl⟩
      have hrun : opExp (vm.pay gasHigh) =
          .ok () ((vm.pay (gasHigh + expByteCost exp)).withStack stack) := by
        have hpay : charge (expByteCost exp) "out of gas: EXP dynamic cost"
            (vm.pay gasHigh).popped.popped =
              .ok () ((vm.pay gasHigh).popped.popped.pay (expByteCost exp)) :=
          charge_eq_ok_iff.mpr ⟨hbyte, rfl⟩
        rw [← pay_pay]
        exact (opExp_words (vm.pay gasHigh) h).trans ((bind_ok hpay).trans hpush)
      rw [step, bind_ok hcharge, hdispatch]
      exact bind_ok hrun
  · rw [pays_add hsum]
    intro hnot
    by_cases hhigh : vm.Pays gasHigh
    · have hcharge : chargeConst b vm = .ok () (vm.pay gasHigh) := by
        rw [chargeConst_some hconst]
        exact charge_eq_ok_iff.mpr ⟨hhigh, rfl⟩
      have hbyte : ¬(vm.pay gasHigh).popped.popped.Pays (expByteCost exp) :=
        fun hbyte => hnot ⟨hhigh, hbyte⟩
      have hrun := (opExp_words (vm.pay gasHigh) h).trans (bind_error (charge_not_pays hbyte))
      rw [step, bind_ok hcharge, hdispatch, proceeds, bind_error hrun]
      exact ⟨_, _, rfl⟩
    · rw [step, bind_error ((chargeConst_some hconst).trans (charge_not_pays hhigh))]
      exact ⟨_, _, rfl⟩

theorem performs_eval (host : Host) (hws : YellowPaper.eval (.ofByte b) vm.ctx.stack.toWords = some ws) :
    Performs host b vm (wordCost (.ofByte b) vm.ctx.stack.toWords) ws := by
  generalize hop : Opcode.ofByte b = op at hws
  generalize hstack : vm.ctx.stack.toWords = words at hws
  have hconst {c : U64} (h : constGas op = some c) : constGas (.ofByte b) = some c := hop ▸ h
  have hdispatch {x : Exec Unit} (h : dispatch host op = proceeds x) :
      dispatch host (.ofByte b) = proceeds x := hop ▸ h
  have hsame {r : Vm} (h : r.ctx.stack = vm.ctx.stack) : r.ctx.stack.toWords = words := h ▸ hstack
  unfold YellowPaper.eval at hws
  split at hws
  all_goals cases hws
  · rw [← ofInt_sdiv]
    exact performs_of_leaves (hconst rfl) (hdispatch rfl) fun r hr => leaves_binary (hsame hr)
  · rw [← ofInt_smod]
    exact performs_of_leaves (hconst rfl) (hdispatch rfl) fun r hr => leaves_binary (hsame hr)
  · rw [← ofInt_addmod]
    exact performs_of_leaves (hconst rfl) (hdispatch rfl) fun r hr => leaves_ternary (hsame hr)
  · rw [← ofInt_mulmod]
    exact performs_of_leaves (hconst rfl) (hdispatch rfl) fun r hr => leaves_ternary (hsame hr)
  · exact performs_exp hop hstack
  · rw [← ofInt_signext]
    exact performs_of_leaves (hconst rfl) (hdispatch rfl) fun r hr => leaves_binary (hsame hr)
  · rw [← ofInt_slt]
    exact performs_of_leaves (hconst rfl) (hdispatch rfl) fun r hr => leaves_binary (hsame hr)
  · rw [← ofInt_sgt]
    exact performs_of_leaves (hconst rfl) (hdispatch rfl) fun r hr => leaves_binary (hsame hr)
  · rw [← ofInt_byte]
    exact performs_of_leaves (hconst rfl) (hdispatch rfl) fun r hr => leaves_binary (hsame hr)
  · rw [← ofInt_shl]
    exact performs_of_leaves (hconst rfl) (hdispatch rfl) fun r hr => leaves_binary (hsame hr)
  · rw [← ofInt_shr]
    exact performs_of_leaves (hconst rfl) (hdispatch rfl) fun r hr => leaves_binary (hsame hr)
  · rw [← ofInt_sar]
    exact performs_of_leaves (hconst rfl) (hdispatch rfl) fun r hr => leaves_binary (hsame hr)

end Turn

theorem data_eq_toWords (s : Stack) : s.data = s.toWords.map Word.toBig := by
  rw [Stack.toWords, List.map_map]
  calc
    s.data = s.data.map id := s.data.map_id.symm
    _ = s.data.map (Word.toBig ∘ BitVec.ofInt 256) := by
      apply List.map_congr_left
      intro v hv
      exact (toBig_ofInt (s.words v hv)).symm

/-- Where `run` meets one of these opcodes over its operands, it goes on with the word of
the Yellow Paper in their place, or stops for want of gas. -/
theorem opcode_pushes_word (host : Host) (config : InterpreterConfig) (fuel : Nat) {vm : Vm}
    {b : UInt8} {ws : List Word} (hfetch : vm.fetch = some b)
    (hws : YellowPaper.eval (.ofByte b) vm.ctx.stack.toWords = some ws) :
    let cost := wordCost (.ofByte b) vm.ctx.stack.toWords
    (vm.Pays cost → ∃ stack : Stack, stack.data = ws.map Word.toBig ∧
      run host config (fuel + 1) vm =
        run host config fuel ((vm.pay cost).withStack stack).advance) ∧
    (¬vm.Pays cost → ∃ err vm', run host config (fuel + 1) vm = .finished (some err) vm') := by
  obtain ⟨paid, unpaid⟩ := performs_eval host hws
  constructor
  · intro h
    obtain ⟨stack, hwords, hstep⟩ := paid h
    refine ⟨stack, ?_, ?_⟩
    · rw [data_eq_toWords, hwords]
    · simp only [run, hfetch, hstep]
  · intro h
    obtain ⟨err, vm', hstep⟩ := unpaid h
    refine ⟨err, vm', ?_⟩
    simp only [run, hfetch, hstep]
    rfl

namespace Sample

/-- `SDIV` over the least word and minus one. -/
def dividing : Vm :=
  (Vm.enter block (some tx) (call [0x05]) none none .new).withStack
    ⟨[2 ^ 255, 2 ^ 256 - 1], by decide, by decide⟩

end Sample

theorem opcode_pushes_word_sdiv : ∃ stack : Stack, stack.data = [2 ^ 255] ∧
    run Sample.host .default 1 Sample.dividing =
      run Sample.host .default 0 ((Sample.dividing.pay 5).withStack stack).advance := by
  have hws : YellowPaper.eval .sdiv Sample.dividing.ctx.stack.toWords =
      some [BitVec.intMin 256] := by decide
  have hpays : Sample.dividing.Pays 5 := by
    unfold Vm.Pays
    decide
  exact (opcode_pushes_word Sample.host .default 0 (b := 0x05) rfl hws).1 hpays

end Qubitcoin.Evm
