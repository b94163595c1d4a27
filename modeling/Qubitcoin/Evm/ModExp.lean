import Qubitcoin.Evm.Interpreter

/-! The contract at address 5 of `precompiles.go`, and what the exact integers of the
formula it names would have it cost. -/

namespace Qubitcoin.Evm

/-- The slice that `getData` returns. -/
def dataAt (data : Bytes) (offset length : U64) : Bytes :=
  if data.length ≤ offset.toNat then List.replicate length.toNat 0
  else
    let stop := min (offset + length).toNat data.length
    let part := (data.take stop).drop offset.toNat
    part ++ List.replicate (length.toNat - part.length) 0

/-- `getData`; `none` where the slice cannot be allocated. -/
def getData (data : Bytes) (offset length : U64) : Option Bytes :=
  if maxAlloc < length.toNat then none else some (dataAt data offset length)

namespace BigModExp

/-- A length word, as far as `Uint64` keeps it. -/
def lenAt (input : Bytes) (offset : U64) : U64 :=
  BitVec.ofNat 64 (ofBigEndian (dataAt input offset 32))

def bitLen (n : Nat) : Nat := if n = 0 then 0 else Nat.log2 n + 1

def multComplexity (maxLen : U64) : U64 :=
  if maxLen ≤ 64 then maxLen * maxLen
  else if maxLen ≤ 1024 then maxLen * maxLen / 4 + 96 * maxLen - 3072
  else maxLen * maxLen / 16 + 480 * maxLen - 199680

/-- The leading bytes of the exponent. -/
def expHead (input : Bytes) (bLen eLen : U64) : Nat :=
  ofBigEndian (dataAt input (96 + bLen) (if eLen ≤ 32 then eLen else 32))

def adjExpLen (eLen : U64) (head : Nat) : U64 :=
  let bits := if 1 < bitLen head then BitVec.ofNat 64 (bitLen head - 1) else 0
  if eLen ≤ 32 then bits else 8 * (eLen - 32) + bits

def gasFor (maxLen eLen : U64) (head : Nat) : U64 :=
  let adj := adjExpLen eLen head
  let iterCount := if adj < 1 then 1 else adj
  let gas := multComplexity maxLen * iterCount / 3
  if gas < 200 then 200 else gas

def requiredGas (input : Bytes) : U64 :=
  if input.length < 96 then 200
  else
    let bLen := lenAt input 0
    let eLen := lenAt input 32
    let mLen := lenAt input 64
    gasFor (if bLen < mLen then mLen else bLen) eLen (expHead input bLen eLen)

def run (input : Bytes) : Option (Except String Bytes) :=
  if input.length < 96 then some (.ok (List.replicate 32 0))
  else
    let bLen := lenAt input 0
    let eLen := lenAt input 32
    let mLen := lenAt input 64
    if mLen = 0 then some (.ok [])
    else do
      let base ← getData input 96 bLen
      let exp ← getData input (96 + bLen) eLen
      let mod ← getData input (96 + bLen + eLen) mLen
      if ofBigEndian mod = 0 then some (.ok (List.replicate mLen.toNat 0))
      else
        -- the result is below the modulus and so fits its length
        let result := ofBigEndian base ^ ofBigEndian exp % ofBigEndian mod
        some (.ok (bigEndian mLen.toNat result))

end BigModExp

def bigModExp : PrecompiledContract := ⟨BigModExp.requiredGas, BigModExp.run⟩

/-! ## The formula in exact integers -/

namespace Eip198

open BigModExp (bitLen)

/-- So many bytes of the input and the zeros that follow it. -/
def padded (input : Bytes) (offset len : Nat) : Bytes :=
  (List.range len).map fun i => input.getD (offset + i) 0

/-- The three lengths that an input declares. -/
def declared (input : Bytes) (i : Nat) : Nat := ofBigEndian (padded input (32 * i) 32)

def multComplexity (x : Nat) : Nat :=
  if x ≤ 64 then x * x
  else if x ≤ 1024 then x * x / 4 + 96 * x - 3072
  else x * x / 16 + 480 * x - 199680

def head (input : Bytes) (offset eLen : Nat) : Nat :=
  ofBigEndian (padded input offset (min eLen 32))

def adjExpLen (eLen head : Nat) : Nat := 8 * (eLen - 32) + (bitLen head - 1)

/-- Multiplications times what each takes. -/
def work (bLen eLen mLen head : Nat) : Nat :=
  multComplexity (max bLen mLen) * max (adjExpLen eLen head) 1

def gas (work : Nat) : Nat := max 200 (work / 3)

end Eip198

namespace BigModExp

open Eip198 (declared head work gas)

/-- What the declared lengths and the head of the exponent stand for. -/
def declaredWork (input : Bytes) : Nat :=
  work (declared input 0) (declared input 1) (declared input 2)
    (head input (96 + declared input 0) (declared input 1))

/-- The price of what `Run` allocates and exponentiates. -/
def runPrice (input : Bytes) : Nat :=
  let bLen := lenAt input 0
  let eLen := lenAt input 32
  let mLen := lenAt input 64
  if input.length < 96 ∨ mLen = 0 then 0
  else gas (work bLen.toNat eLen.toNat mLen.toNat (head input (96 + bLen).toNat eLen.toNat))

/-- The lengths and the product of the formula fit the code's words; an input too short
to hold its lengths pays the flat price. -/
def Fits (input : Bytes) : Prop :=
  if input.length < 96 then declaredWork input / 3 ≤ 200
  else max (declared input 0) (declared input 2) < 2 ^ 32 ∧ declaredWork input < 2 ^ 64

/-- The gas check covers the formula and what `Run` does behind it. -/
def Priced (input : Bytes) : Prop :=
  gas (declaredWork input) ≤ (requiredGas input).toNat ∧
    ∀ supplied, ¬supplied < requiredGas input → runPrice input ≤ supplied.toNat

theorem dataAt_eq_padded {data : Bytes} {offset length : U64}
    (h : offset.toNat + length.toNat < 2 ^ 64) :
    dataAt data offset length = Eip198.padded data offset.toNat length.toNat := by
  have hsum : (offset + length).toNat = offset.toNat + length.toNat := by
    rw [BitVec.toNat_add]
    exact Nat.mod_eq_of_lt h
  unfold dataAt Eip198.padded
  rw [hsum]
  apply List.ext_getElem
  · split
    · simp
    · simp only [List.length_append, List.length_drop, List.length_take, List.length_replicate,
        List.length_map, List.length_range]
      omega
  · intro i hi hi'
    rw [List.getElem_map, List.getElem_range]
    split
    · rename_i hle
      rw [List.getElem_replicate, List.getD_eq_default _ _ (by omega)]
    · rename_i hlt
      simp only [List.getElem_append, List.getElem_drop, List.getElem_take,
        List.getElem_replicate, List.length_drop, List.length_take]
      simp only [List.length_map, List.length_range] at hi'
      split
      · rw [List.getD_eq_getElem]
      · rw [List.getD_eq_default _ _ (by omega)]

theorem lenAt_toNat (input : Bytes) (i : Nat) (h : i ≤ 2) :
    (lenAt input (BitVec.ofNat 64 (32 * i))).toNat = declared input i % 2 ^ 64 := by
  have hoffset : (BitVec.ofNat 64 (32 * i)).toNat = 32 * i := by
    rw [BitVec.toNat_ofNat]
    omega
  have hlength : (32 : U64).toNat = 32 := rfl
  rw [lenAt, BitVec.toNat_ofNat, dataAt_eq_padded (by omega), hoffset, hlength]
  rfl

theorem expHead_eq (input : Bytes) {bLen : U64} (eLen : U64) (h : bLen.toNat < 2 ^ 35) :
    expHead input bLen eLen = head input (96 + bLen.toNat) eLen.toNat := by
  have hoffset : (96 + bLen).toNat = 96 + bLen.toNat := by
    rw [BitVec.toNat_add]
    exact Nat.mod_eq_of_lt (by change 96 + _ < _; omega)
  have hlength : (if eLen ≤ 32 then eLen else 32 : U64).toNat = min eLen.toNat 32 := by
    have hle : eLen ≤ 32 ↔ eLen.toNat ≤ 32 := Iff.rfl
    by_cases heLen : eLen.toNat ≤ 32
    · rw [if_pos (hle.mpr heLen), Nat.min_eq_left heLen]
    · rw [if_neg (mt hle.mp heLen), Nat.min_eq_right (by omega)]
      rfl
  rw [expHead, dataAt_eq_padded (by omega), hoffset, hlength]
  rfl

theorem toNat_adjExpLen (eLen : U64) (head : Nat) :
    (adjExpLen eLen head).toNat = Eip198.adjExpLen eLen.toNat head % 2 ^ 64 := by
  have hbits : (if 1 < bitLen head then BitVec.ofNat 64 (bitLen head - 1) else 0 : U64).toNat =
      (bitLen head - 1) % 2 ^ 64 := by
    split
    · rw [BitVec.toNat_ofNat]
    · rename_i h
      rw [Nat.sub_eq_zero_of_le (by omega)]
      rfl
  have hle : eLen ≤ 32 ↔ eLen.toNat ≤ 32 := Iff.rfl
  unfold adjExpLen Eip198.adjExpLen
  by_cases heLen : eLen.toNat ≤ 32
  · rw [if_pos (hle.mpr heLen), hbits, Nat.sub_eq_zero_of_le heLen]
    simp
  · rw [if_neg (mt hle.mp heLen), BitVec.toNat_add, hbits, BitVec.toNat_mul, BitVec.toNat_sub]
    have hlt := eLen.isLt
    change (8 * ((2 ^ 64 - 32 + eLen.toNat) % 2 ^ 64) % 2 ^ 64 + _) % 2 ^ 64 = _
    omega

theorem toNat_atLeast (floor gas : U64) :
    (if gas < floor then floor else gas).toNat = max floor.toNat gas.toNat := by
  by_cases h : gas < floor
  · have hle : gas.toNat < floor.toNat := h
    rw [if_pos h, Nat.max_eq_left hle.le]
  · have hle : ¬gas.toNat < floor.toNat := h
    rw [if_neg h, Nat.max_eq_right (by omega)]

theorem gasFor_toNat (maxLen eLen : U64) (head : Nat) :
    (gasFor maxLen eLen head).toNat = max 200 ((multComplexity maxLen).toNat *
      max (Eip198.adjExpLen eLen.toNat head % 2 ^ 64) 1 % 2 ^ 64 / 3) := by
  unfold gasFor
  rw [toNat_atLeast, BitVec.toNat_udiv, BitVec.toNat_mul, toNat_atLeast, toNat_adjExpLen]
  rw [Nat.max_comm (1 : U64).toNat]
  rfl

/-- Up to here only the square can leave the word. -/
theorem toNat_multComplexity {x : U64} (h : x.toNat < 2 ^ 35) :
    (multComplexity x).toNat =
      if x.toNat ≤ 1024 then Eip198.multComplexity x.toNat
      else x.toNat * x.toNat % 2 ^ 64 / 16 + 480 * x.toNat - 199680 := by
  have hle (n : U64) : x ≤ n ↔ x.toNat ≤ n.toNat := Iff.rfl
  have hsquare : (x * x).toNat = x.toNat * x.toNat % 2 ^ 64 := BitVec.toNat_mul ..
  have hscale (n : U64) : (n * x).toNat = n.toNat * x.toNat % 2 ^ 64 := BitVec.toNat_mul ..
  unfold multComplexity Eip198.multComplexity
  by_cases h64 : x.toNat ≤ 64
  · have hsmall : x.toNat * x.toNat ≤ 64 * 64 := Nat.mul_le_mul h64 h64
    rw [if_pos ((hle 64).mpr h64), if_pos (by omega), if_pos h64, hsquare]
    omega
  by_cases h1024 : x.toNat ≤ 1024
  · have hsmall : x.toNat * x.toNat ≤ 1024 * 1024 := Nat.mul_le_mul h1024 h1024
    rw [if_neg (mt (hle 64).mp h64), if_pos ((hle 1024).mpr h1024), if_pos h1024, if_neg h64,
      if_pos h1024, BitVec.toNat_sub, BitVec.toNat_add, BitVec.toNat_udiv, hsquare, hscale]
    change (2 ^ 64 - 3072 + ((x.toNat * x.toNat % 2 ^ 64 / 4 + 96 * x.toNat % 2 ^ 64) % 2 ^ 64)) %
      2 ^ 64 = _
    omega
  · rw [if_neg (mt (hle 64).mp h64), if_neg (mt (hle 1024).mp h1024), if_neg h1024,
      BitVec.toNat_sub, BitVec.toNat_add, BitVec.toNat_udiv, hsquare, hscale]
    change (2 ^ 64 - 199680 + ((x.toNat * x.toNat % 2 ^ 64 / 16 + 480 * x.toNat % 2 ^ 64) %
      2 ^ 64)) % 2 ^ 64 = _
    omega

theorem toNat_multComplexity_of_lt {x : U64} (h : x.toNat < 2 ^ 32) :
    (multComplexity x).toNat = Eip198.multComplexity x.toNat := by
  have hsquare : x.toNat * x.toNat ≤ (2 ^ 32 - 1) * (2 ^ 32 - 1) :=
    Nat.mul_le_mul (by omega) (by omega)
  rw [toNat_multComplexity (by omega)]
  split
  · rfl
  · rename_i hlarge
    rw [Eip198.multComplexity, if_neg (by omega), if_neg hlarge]
    omega

theorem two_pow_le_mul_self {x : Nat} (n : Nat) (h : 2 ^ n ≤ x) : 2 ^ (n + n) ≤ x * x := by
  rw [Nat.pow_add]
  exact Nat.mul_le_mul h h

/-- The square loses at least a word. -/
theorem toNat_multComplexity_add_le {x : U64} (h : 2 ^ 32 ≤ x.toNat) (h' : x.toNat < 2 ^ 35) :
    (multComplexity x).toNat + 2 ^ 60 ≤ Eip198.multComplexity x.toNat := by
  have hsquare : 2 ^ 64 ≤ x.toNat * x.toNat := two_pow_le_mul_self 32 h
  have hcode := (toNat_multComplexity h').trans (if_neg (by omega))
  have hexact : Eip198.multComplexity x.toNat =
      x.toNat * x.toNat / 16 + 480 * x.toNat - 199680 := by
    rw [Eip198.multComplexity, if_neg (by omega), if_neg (by omega)]
  omega

theorem multComplexity_pos {x : Nat} (h : 0 < x) : 0 < Eip198.multComplexity x := by
  have hsquare : 0 < x * x := Nat.mul_pos h h
  unfold Eip198.multComplexity
  split
  · exact hsquare
  split
  · omega
  · omega

theorem le_multComplexity {x : Nat} (h : 2 ^ 35 ≤ x) : 2 ^ 66 ≤ Eip198.multComplexity x := by
  have hsquare : 2 ^ 70 ≤ x * x := two_pow_le_mul_self 35 h
  rw [Eip198.multComplexity, if_neg (by omega), if_neg (by omega)]
  omega

/-! ## The check against the formula -/

theorem requiredGas_of_short {input : Bytes} (h : input.length < 96) :
    (requiredGas input).toNat = 200 := by
  rw [requiredGas, if_pos h]
  rfl

section Lengths

variable {input : Bytes}

theorem lenAt_base (h : declared input 0 < 2 ^ 64) :
    (lenAt input 0).toNat = declared input 0 :=
  (lenAt_toNat input 0 (by omega)).trans (Nat.mod_eq_of_lt h)

theorem lenAt_exponent (h : declared input 1 < 2 ^ 64) :
    (lenAt input 32).toNat = declared input 1 :=
  (lenAt_toNat input 1 (by omega)).trans (Nat.mod_eq_of_lt h)

theorem lenAt_modulus (h : declared input 2 < 2 ^ 64) :
    (lenAt input 64).toNat = declared input 2 :=
  (lenAt_toNat input 2 (by omega)).trans (Nat.mod_eq_of_lt h)

end Lengths

/-- The gas where no length is cut. -/
theorem requiredGas_toNat {input : Bytes} (hlength : ¬input.length < 96)
    (hb : declared input 0 < 2 ^ 35) (hm : declared input 2 < 2 ^ 35)
    (he : declared input 1 < 2 ^ 62) :
    ∃ maxLen : U64, maxLen.toNat = max (declared input 0) (declared input 2) ∧
      (requiredGas input).toNat = max 200 ((multComplexity maxLen).toNat *
        max (Eip198.adjExpLen (declared input 1)
          (head input (96 + declared input 0) (declared input 1)) % 2 ^ 64) 1 % 2 ^ 64 / 3) := by
  have hbLen := lenAt_base (by omega : declared input 0 < 2 ^ 64)
  have heLen := lenAt_exponent (by omega : declared input 1 < 2 ^ 64)
  have hmLen := lenAt_modulus (by omega : declared input 2 < 2 ^ 64)
  refine ⟨if lenAt input 0 < lenAt input 64 then lenAt input 64 else lenAt input 0, ?_, ?_⟩
  · have hlt : lenAt input 0 < lenAt input 64 ↔ declared input 0 < declared input 2 := by
      rw [← hbLen, ← hmLen]
      rfl
    by_cases h : declared input 0 < declared input 2
    · rw [if_pos (hlt.mpr h), hmLen, Nat.max_eq_right h.le]
    · rw [if_neg (mt hlt.mp h), hbLen, Nat.max_eq_left (by omega)]
  · rw [requiredGas, if_neg hlength, gasFor_toNat, expHead_eq input _ (by omega), hbLen, heLen]

theorem two_hundred_le_requiredGas (input : Bytes) : 200 ≤ (requiredGas input).toNat := by
  unfold requiredGas
  split
  · exact le_rfl
  · dsimp only
    rw [gasFor_toNat]
    exact Nat.le_max_left _ _

/-- The three terms of the declared work, none of which is larger. -/
theorem declaredWork_bounds (input : Bytes)
    (h : 0 < max (declared input 0) (declared input 2)) :
    Eip198.adjExpLen (declared input 1) (head input (96 + declared input 0) (declared input 1)) ≤
        declaredWork input ∧
      Eip198.multComplexity (max (declared input 0) (declared input 2)) ≤ declaredWork input := by
  have hpos := multComplexity_pos h
  unfold declaredWork work
  constructor
  · exact (Nat.le_max_left _ _).trans (Nat.le_mul_of_pos_left _ hpos)
  · exact Nat.le_mul_of_pos_right _ (by omega)

theorem declaredWork_eq_zero {input : Bytes}
    (h : ¬0 < max (declared input 0) (declared input 2)) : declaredWork input = 0 := by
  rw [declaredWork, work, Nat.eq_zero_of_not_pos h]
  exact Nat.zero_mul _

/-- A product that fits leaves room for the exponent's length. -/
theorem declared_lt_of_work {input : Bytes}
    (hpos : 0 < max (declared input 0) (declared input 2))
    (hwork : declaredWork input < 2 ^ 64 + 2) : declared input 1 < 2 ^ 62 := by
  have hadj := (declaredWork_bounds input hpos).1
  unfold Eip198.adjExpLen at hadj
  omega

/-! The wrapped product of a complexity `c` and an exponent length `a`. -/

theorem wrapped_of_lt {c a : Nat} (hc : 0 < c) (h : c * max a 1 < 2 ^ 64) :
    c * max (a % 2 ^ 64) 1 % 2 ^ 64 = c * max a 1 := by
  have ha : max a 1 ≤ c * max a 1 := Nat.le_mul_of_pos_left _ hc
  rw [Nat.mod_eq_of_lt (by omega : a < 2 ^ 64), Nat.mod_eq_of_lt h]

theorem wrapped_le_one {c a : Nat} (h : 2 ^ 64 ≤ c * max a 1) (h' : c * max a 1 < 2 ^ 64 + 2) :
    c * max (a % 2 ^ 64) 1 % 2 ^ 64 ≤ 1 := by
  by_cases ha : a < 2 ^ 64
  · rw [Nat.mod_eq_of_lt ha]
    omega
  · have hmax : max a 1 = a := Nat.max_eq_left (by omega)
    rw [hmax] at h h'
    have hc : c = 1 := by
      by_contra hne
      have hpos : 0 < c := by
        by_contra hzero
        rw [Nat.eq_zero_of_not_pos hzero, Nat.zero_mul] at h
        omega
      have htwo : 2 * 2 ^ 64 ≤ c * a := Nat.mul_le_mul (by omega) (by omega)
      omega
    rw [hc, Nat.one_mul] at h' ⊢
    omega

theorem wrapped_lt {c c' a : Nat} (hc : c' + 2 ^ 60 ≤ c) :
    c' * max (a % 2 ^ 64) 1 % 2 ^ 64 + 2 ^ 60 ≤ c * max a 1 := by
  calc
    c' * max (a % 2 ^ 64) 1 % 2 ^ 64 + 2 ^ 60 ≤ c' * max a 1 + 2 ^ 60 * max a 1 := by
      apply Nat.add_le_add
      · apply (Nat.mod_le _ _).trans
        apply Nat.mul_le_mul_left
        exact max_le_max_right _ (Nat.mod_le _ _)
      · exact Nat.le_mul_of_pos_right _ (by omega)
    _ = (c' + 2 ^ 60) * max a 1 := (Nat.add_mul ..).symm
    _ ≤ c * max a 1 := Nat.mul_le_mul_right _ hc

theorem gas_le_of_fits {input : Bytes} (hlength : ¬input.length < 96)
    (hlens : max (declared input 0) (declared input 2) < 2 ^ 32)
    (hwork : declaredWork input < 2 ^ 64) :
    gas (declaredWork input) ≤ (requiredGas input).toNat := by
  by_cases hpos : 0 < max (declared input 0) (declared input 2)
  · have he := declared_lt_of_work hpos (by omega)
    obtain ⟨maxLen, hmax, hgas⟩ := requiredGas_toNat hlength (by omega) (by omega) he
    rw [hgas, toNat_multComplexity_of_lt (by omega), hmax,
      wrapped_of_lt (multComplexity_pos hpos) hwork]
    rfl
  · rw [declaredWork_eq_zero hpos]
    exact two_hundred_le_requiredGas input

theorem fits_of_gas_le {input : Bytes} (hlength : ¬input.length < 96)
    (h : gas (declaredWork input) ≤ (requiredGas input).toNat) :
    max (declared input 0) (declared input 2) < 2 ^ 32 ∧ declaredWork input < 2 ^ 64 := by
  have hthird : (requiredGas input).toNat ≤ 2 ^ 64 / 3 := by
    rw [requiredGas, if_neg hlength]
    dsimp only
    rw [gasFor_toNat]
    omega
  have hwork : declaredWork input < 2 ^ 64 + 2 := by
    unfold gas at h
    omega
  by_cases hpos : 0 < max (declared input 0) (declared input 2)
  · have he := declared_lt_of_work hpos hwork
    have hmul := (declaredWork_bounds input hpos).2
    have hlens : max (declared input 0) (declared input 2) < 2 ^ 35 := by
      by_contra hlarge
      have hle := le_multComplexity (Nat.le_of_not_lt hlarge)
      omega
    obtain ⟨maxLen, hmax, hgas⟩ := requiredGas_toNat hlength (by omega) (by omega) he
    unfold gas at h
    have hfits : max (declared input 0) (declared input 2) < 2 ^ 32 := by
      by_contra hlarge
      have hlost := toNat_multComplexity_add_le (by omega) (by omega : maxLen.toNat < 2 ^ 35)
      rw [hmax] at hlost
      have hlt := wrapped_lt (a := Eip198.adjExpLen (declared input 1)
        (head input (96 + declared input 0) (declared input 1))) hlost
      change _ ≤ declaredWork input at hlt
      omega
    refine ⟨hfits, ?_⟩
    by_contra hlarge
    rw [toNat_multComplexity_of_lt (by omega), hmax] at hgas
    have hle := wrapped_le_one (Nat.le_of_not_lt hlarge) hwork
    omega
  · have hzero := declaredWork_eq_zero hpos
    omega

/-- Where no length is cut, `Run` works on what the input declares. -/
theorem runPrice_le {input : Bytes}
    (hlens : max (declared input 0) (declared input 2) < 2 ^ 32)
    (hwork : declaredWork input < 2 ^ 64) : runPrice input ≤ gas (declaredWork input) := by
  have hbLen := lenAt_base (by omega : declared input 0 < 2 ^ 64)
  have hmLen := lenAt_modulus (by omega : declared input 2 < 2 ^ 64)
  unfold runPrice
  dsimp only
  split
  · exact Nat.zero_le _
  · rename_i hruns
    have hmod : declared input 2 ≠ 0 := by
      intro hzero
      apply hruns
      right
      apply BitVec.eq_of_toNat_eq
      rw [hmLen, hzero]
      rfl
    have he : declared input 1 < 2 ^ 62 := declared_lt_of_work (by omega) (by omega)
    have heLen := lenAt_exponent (by omega : declared input 1 < 2 ^ 64)
    have hoffset : (96 + lenAt input 0).toNat = 96 + declared input 0 := by
      rw [BitVec.toNat_add, hbLen]
      exact Nat.mod_eq_of_lt (by change 96 + _ < _; omega)
    rw [hbLen, heLen, hmLen, hoffset]
    exact le_rfl

end BigModExp

open BigModExp

/-- The precompile charges what its formula asks for exactly where nothing wraps. -/
theorem modexp_priced_iff (input : Bytes) : Priced input ↔ Fits input := by
  unfold Fits Priced
  split
  · rename_i hlength
    rw [requiredGas_of_short hlength]
    constructor
    · rintro ⟨hgas, -⟩
      unfold Eip198.gas at hgas
      omega
    · intro hwork
      constructor
      · unfold Eip198.gas
        omega
      · intro supplied hsupplied
        rw [runPrice, if_pos (.inl hlength)]
        exact Nat.zero_le _
  · rename_i hlength
    constructor
    · rintro ⟨hgas, -⟩
      exact fits_of_gas_le hlength hgas
    · rintro ⟨hlens, hwork⟩
      have hgas := gas_le_of_fits hlength hlens hwork
      refine ⟨hgas, ?_⟩
      intro supplied hsupplied
      have hpaid : (requiredGas input).toNat ≤ supplied.toNat := Nat.le_of_not_lt hsupplied
      exact (runPrice_le hlens hwork).trans (hgas.trans hpaid)

namespace Sample

/-- No base, an exponent of 2^49 + 32 bytes, a modulus of 64, and nothing behind the
lengths. -/
def hugeExponent : Bytes := bigEndian 32 0 ++ bigEndian 32 (2 ^ 49 + 32) ++ bigEndian 32 64

end Sample

/-- The product is 2^64, and the flat price is all that is asked. -/
theorem modexp_underpriced : ¬∀ input, Priced input := by
  intro h
  have hgas : Eip198.gas (declaredWork Sample.hugeExponent) ≤
      (requiredGas Sample.hugeExponent).toNat := (h Sample.hugeExponent).1
  revert hgas
  decide +kernel

end Qubitcoin.Evm
