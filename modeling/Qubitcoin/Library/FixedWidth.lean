import Mathlib

/-! Saturating and checked arithmetic on fixed-width unsigned integers, each
read back through `toNat`. -/

namespace BitVec

variable {w : Nat}

instance instMax : Max (BitVec w) := maxOfLe
instance instMin : Min (BitVec w) := minOfLe

@[simp] theorem toNat_min (a b : BitVec w) : (min a b).toNat = min a.toNat b.toNat := by
  change (if a ≤ b then a else b).toNat = _
  rw [Nat.min_def, apply_ite BitVec.toNat]
  rfl

@[simp] theorem toNat_max (a b : BitVec w) : (max a b).toNat = max a.toNat b.toNat := by
  change (if a ≤ b then b else a).toNat = _
  rw [Nat.max_def, apply_ite BitVec.toNat]
  rfl

def saturatingAdd (a b : BitVec w) : BitVec w :=
  BitVec.ofNat w (min (a.toNat + b.toNat) (2 ^ w - 1))

def saturatingSub (a b : BitVec w) : BitVec w := BitVec.ofNat w (a.toNat - b.toNat)

def saturatingMul (a b : BitVec w) : BitVec w :=
  BitVec.ofNat w (min (a.toNat * b.toNat) (2 ^ w - 1))

def checkedAdd (a b : BitVec w) : Option (BitVec w) :=
  if a.toNat + b.toNat < 2 ^ w then some (a + b) else none

theorem toNat_saturatingAdd (a b : BitVec w) :
    (a.saturatingAdd b).toNat = min (a.toNat + b.toNat) (2 ^ w - 1) := by
  have := Nat.two_pow_pos w
  rw [saturatingAdd, BitVec.toNat_ofNat, Nat.mod_eq_of_lt (by omega)]

theorem toNat_saturatingAdd_of_lt {a b : BitVec w} (h : a.toNat + b.toNat < 2 ^ w) :
    (a.saturatingAdd b).toNat = a.toNat + b.toNat := by
  rw [toNat_saturatingAdd]
  omega

theorem toNat_saturatingAdd_le (a b : BitVec w) :
    (a.saturatingAdd b).toNat ≤ a.toNat + b.toNat := by
  rw [toNat_saturatingAdd]
  exact Nat.min_le_left _ _

@[simp] theorem toNat_saturatingSub (a b : BitVec w) :
    (a.saturatingSub b).toNat = a.toNat - b.toNat := by
  have := a.isLt
  rw [saturatingSub, BitVec.toNat_ofNat, Nat.mod_eq_of_lt (by omega)]

theorem toNat_of_checkedAdd {a b c : BitVec w} (h : a.checkedAdd b = some c) :
    c.toNat = a.toNat + b.toNat := by
  unfold checkedAdd at h
  split at h
  · next hlt =>
    cases h
    rw [BitVec.toNat_add, Nat.mod_eq_of_lt hlt]
  · cases h

end BitVec
