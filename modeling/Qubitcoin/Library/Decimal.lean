import Mathlib

/-! Decimal floating point: rationals rounded to a number of significant digits, ties to
even, with infinities and a NaN.  Numbers that compare as equal are one number here, so the
sign of zero and trailing zeros are gone; the exponents have no bounds. -/

inductive Decimal
  | finite (value : ℚ)
  | infinity (negative : Bool)
  | nan
  deriving DecidableEq

namespace Decimal

/-- What an operation raises instead of answering with a NaN. -/
inductive Signal
  | invalidOperation
  deriving DecidableEq

instance : Zero Decimal := ⟨finite 0⟩

def roundHalfEven (x : ℚ) : ℤ :=
  if Int.fract x < 1 / 2 then ⌊x⌋
  else if 1 / 2 < Int.fract x then ⌊x⌋ + 1
  else if ⌊x⌋ % 2 = 0 then ⌊x⌋
  else ⌊x⌋ + 1

/-- The value of the last of `digits` significant digits of `x`. -/
def unit (digits : ℕ) (x : ℚ) : ℚ := 10 ^ (Int.log 10 |x| + 1 - digits)

def roundTo (digits : ℕ) (x : ℚ) : ℚ := roundHalfEven (x / unit digits x) * unit digits x

/-- The number needs no more than `digits` significant digits. -/
def Fits (digits : ℕ) (x : ℚ) : Prop := roundTo digits x = x

instance (digits : ℕ) (x : ℚ) : Decidable (Fits digits x) :=
  inferInstanceAs (Decidable (roundTo digits x = x))

/-- The comparison that answers false on a NaN, as floats compare. -/
def lt : Decimal → Decimal → Bool
  | finite a, finite b => a < b
  | finite _, infinity negative => !negative
  | infinity negative, finite _ => negative
  | infinity negative, infinity negative' => negative && !negative'
  | nan, _ | _, nan => false

def le (a b : Decimal) : Bool := lt a b || (a == b && a != nan)

instance : LT Decimal := ⟨fun a b => lt a b = true⟩
instance : LE Decimal := ⟨fun a b => le a b = true⟩
instance (a b : Decimal) : Decidable (a < b) := inferInstanceAs (Decidable (lt a b = true))
instance (a b : Decimal) : Decidable (a ≤ b) := inferInstanceAs (Decidable (le a b = true))

/-- The ordering comparisons of decimals signal on a NaN. -/
def lt? (a b : Decimal) : Except Signal Bool :=
  if a = nan ∨ b = nan then .error .invalidOperation else .ok (decide (a < b))

def le? (a b : Decimal) : Except Signal Bool :=
  if a = nan ∨ b = nan then .error .invalidOperation else .ok (decide (a ≤ b))

/-- The number, or zero for what is not one. -/
def value : Decimal → ℚ
  | finite a => a
  | infinity _ | nan => 0

/-- The opposite number, not rounded. -/
def opposite : Decimal → Decimal
  | finite a => finite (-a)
  | infinity negative => infinity (!negative)
  | nan => nan

section Arithmetic

variable (digits : ℕ)

def add : Decimal → Decimal → Except Signal Decimal
  | nan, _ | _, nan => .ok nan
  | finite a, finite b => .ok (finite (roundTo digits (a + b)))
  | finite _, infinity negative | infinity negative, finite _ => .ok (infinity negative)
  | infinity negative, infinity negative' =>
    if negative = negative' then .ok (infinity negative) else .error .invalidOperation

def sub (a b : Decimal) : Except Signal Decimal := add digits a b.opposite

def mul : Decimal → Decimal → Except Signal Decimal
  | nan, _ | _, nan => .ok nan
  | finite a, finite b => .ok (finite (roundTo digits (a * b)))
  | finite a, infinity negative | infinity negative, finite a =>
    if a = 0 then .error .invalidOperation else .ok (infinity (negative ^^ decide (a < 0)))
  | infinity negative, infinity negative' => .ok (infinity (negative ^^ negative'))

/-- The nearest multiple of `10 ^ -places`, as long as its digits fit. -/
def quantize (places : ℕ) : Decimal → Except Signal Decimal
  | nan => .ok nan
  | infinity _ => .error .invalidOperation
  | finite a =>
    let scaled := roundHalfEven (a * 10 ^ places)
    if |scaled| < 10 ^ digits then .ok (finite (scaled / 10 ^ places)) else .error .invalidOperation

def neg : Decimal → Decimal
  | finite a => finite (roundTo digits (-a))
  | infinity negative => infinity (!negative)
  | nan => nan

end Arithmetic

/-- The smaller one; the first of equals.  `min` compares the second with the first. -/
def min? (a b : Decimal) : Except Signal Decimal := do
  if ← lt? b a then return b
  return a

theorem unit_pos (digits : ℕ) (x : ℚ) : 0 < unit digits x := by
  unfold unit
  positivity

theorem roundHalfEven_nonneg {x : ℚ} (h : 0 ≤ x) : 0 ≤ roundHalfEven x := by
  have hfloor : 0 ≤ ⌊x⌋ := Int.floor_nonneg.mpr h
  unfold roundHalfEven
  split_ifs <;> omega

theorem roundTo_nonneg (digits : ℕ) {x : ℚ} (h : 0 ≤ x) : 0 ≤ roundTo digits x := by
  have hunit := unit_pos digits x
  apply mul_nonneg _ hunit.le
  exact_mod_cast roundHalfEven_nonneg (div_nonneg h hunit.le)

theorem le_roundHalfEven {x : ℚ} {n : ℤ} (h : (n : ℚ) ≤ x) : n ≤ roundHalfEven x := by
  have hfloor : n ≤ ⌊x⌋ := Int.le_floor.mpr h
  unfold roundHalfEven
  split_ifs <;> omega

theorem roundHalfEven_le {x : ℚ} {n : ℤ} (h : x ≤ n) : roundHalfEven x ≤ n := by
  rcases h.lt_or_eq with hlt | rfl
  · have hfloor : ⌊x⌋ < n := Int.floor_lt.mpr hlt
    unfold roundHalfEven
    split_ifs <;> omega
  · rw [roundHalfEven, if_pos (by rw [Int.fract_intCast]; norm_num), Int.floor_intCast]

@[simp] theorem roundHalfEven_intCast (n : ℤ) : roundHalfEven n = n :=
  le_antisymm (roundHalfEven_le le_rfl) (le_roundHalfEven le_rfl)

theorem abs_roundHalfEven_sub_le (x : ℚ) : |(roundHalfEven x : ℚ) - x| ≤ 1 / 2 := by
  have hfloor := Int.floor_add_fract x
  have hfract := Int.fract_lt_one x
  have hnonneg := Int.fract_nonneg x
  rw [abs_le]
  unfold roundHalfEven
  split_ifs <;> push_cast <;> constructor <;> linarith

theorem roundTo_nonpos (digits : ℕ) {x : ℚ} (h : x ≤ 0) : roundTo digits x ≤ 0 := by
  have hunit := unit_pos digits x
  apply mul_nonpos_of_nonpos_of_nonneg _ hunit.le
  have hdiv : x / unit digits x ≤ (0 : ℤ) := by
    rw [Int.cast_zero]
    exact div_nonpos_of_nonpos_of_nonneg h hunit.le
  exact_mod_cast roundHalfEven_le hdiv

/-- Rounding moves a number by at most half of its last place. -/
theorem abs_roundTo_sub_le (digits : ℕ) {x : ℚ} (h : 0 < x) :
    |roundTo digits x - x| ≤ x * 10 ^ (1 - digits : ℤ) / 2 := by
  have hunit := unit_pos digits x
  have hle : unit digits x ≤ x * 10 ^ (1 - digits : ℤ) := by
    rw [unit, abs_of_pos h, add_sub_assoc, zpow_add₀ (by norm_num)]
    exact mul_le_mul_of_nonneg_right (Int.zpow_log_le_self (by norm_num) h) (by positivity)
  have hround := abs_roundHalfEven_sub_le (x / unit digits x)
  calc |roundTo digits x - x|
      = |(roundHalfEven (x / unit digits x) : ℚ) - x / unit digits x| * unit digits x := by
        rw [← abs_of_pos hunit, ← abs_mul, abs_of_pos hunit, sub_mul, div_mul_cancel₀ x hunit.ne',
          roundTo]
    _ ≤ 1 / 2 * unit digits x := mul_le_mul_of_nonneg_right hround hunit.le
    _ ≤ x * 10 ^ (1 - digits : ℤ) / 2 := by linarith

/-- So many decimal places, within the digits there are. -/
theorem fits_of_places {digits : ℕ} (places : ℕ) {n : ℤ} (h : |n| < 10 ^ digits) :
    Fits digits (n / 10 ^ places) := by
  rcases eq_or_ne n 0 with rfl | hne
  · rw [Fits, roundTo, Int.cast_zero, zero_div, zero_div, ← Int.cast_zero, roundHalfEven_intCast,
      Int.cast_zero, zero_mul]
  have hten : (1 : ℚ) < 10 := by norm_num
  have hpow : (0 : ℚ) < 10 ^ places := by positivity
  have hpos : 0 < |(n / 10 ^ places : ℚ)| :=
    abs_pos.mpr (div_ne_zero (Int.cast_ne_zero.mpr hne) hpow.ne')
  have hlog : Int.log 10 |(n / 10 ^ places : ℚ)| < digits - places := by
    have hlt : |(n / 10 ^ places : ℚ)| < 10 ^ (digits - places : ℤ) := by
      rw [abs_div, abs_of_pos hpow, zpow_sub₀ (by norm_num), zpow_natCast, zpow_natCast]
      exact div_lt_div_of_pos_right (by exact_mod_cast h) hpow
    have hle := Int.zpow_log_le_self (b := 10) (by norm_num) hpos
    exact (zpow_lt_zpow_iff_right₀ hten).mp (hle.trans_lt hlt)
  obtain ⟨shift, hshift⟩ : ∃ shift : ℕ,
      -(Int.log 10 |(n / 10 ^ places : ℚ)| + 1 - digits) = places + shift :=
    ⟨(-(Int.log 10 |(n / 10 ^ places : ℚ)| + 1 - digits) - places).toNat, by omega⟩
  have hunit : n / 10 ^ places / unit digits (n / 10 ^ places) = ((n * 10 ^ shift : ℤ) : ℚ) := by
    rw [unit, div_eq_mul_inv _ (_ ^ (_ : ℤ)), ← zpow_neg, hshift, zpow_add₀ (by norm_num),
      zpow_natCast, zpow_natCast, ← mul_assoc, div_mul_cancel₀ _ hpow.ne']
    push_cast
    ring
  rw [Fits, roundTo, hunit, roundHalfEven_intCast, ← hunit,
    div_mul_cancel₀ _ (unit_pos digits _).ne']

@[simp] theorem finite_le_finite {a b : ℚ} : finite a ≤ finite b ↔ a ≤ b := by
  change le (finite a) (finite b) = true ↔ a ≤ b
  simp [le, lt, le_iff_lt_or_eq]

theorem le?_finite (a b : ℚ) : le? (finite a) (finite b) = .ok (decide (a ≤ b)) := by
  rw [le?, if_neg (by rintro (h | h) <;> cases h)]
  exact congrArg Except.ok (decide_eq_decide.mpr finite_le_finite)

theorem min?_finite (a b : ℚ) : min? (finite a) (finite b) = .ok (finite (min a b)) := by
  have hlt : lt? (finite b) (finite a) = .ok (decide (b < a)) := by
    rw [lt?, if_neg (by rintro (h | h) <;> cases h)]
    exact congrArg Except.ok (decide_eq_decide.mpr decide_eq_true_iff)
  rw [min?, hlt]
  change (if decide (b < a) = true then _ else _) = _
  split
  · next h => rw [min_eq_right (of_decide_eq_true h).le]; rfl
  · next h => rw [min_eq_left (not_lt.mp fun hba => h (decide_eq_true hba))]; rfl

theorem nonneg_finite {a : ℚ} : 0 ≤ finite a ↔ 0 ≤ a := finite_le_finite

theorem opposite_opposite (a : Decimal) : a.opposite.opposite = a := by
  cases a with
  | finite x => exact congrArg finite (neg_neg x)
  | infinity negative => exact congrArg infinity (Bool.not_not negative)
  | nan => rfl

theorem add_eq_sub (digits : ℕ) (a b : Decimal) : add digits a b = sub digits a b.opposite := by
  rw [sub, opposite_opposite]

/-- What holds at least the amount taken from it stays at zero or more. -/
theorem nonneg_of_sub {digits : ℕ} {a b c : Decimal} (h : b ≤ a) (hsub : sub digits a b = .ok c) :
    0 ≤ c := by
  unfold sub at hsub
  cases a with
  | finite x =>
    cases b with
    | finite y =>
      cases hsub
      rw [nonneg_finite]
      apply roundTo_nonneg
      have hle := finite_le_finite.mp h
      linarith
    | infinity negative =>
      cases negative with
      | true => cases hsub; rfl
      | false => cases h
    | nan => cases h
  | infinity negative =>
    cases negative with
    | true =>
      cases b with
      | finite y => cases h
      | infinity negative' =>
        cases negative' with
        | true => cases hsub
        | false => cases h
      | nan => cases h
    | false =>
      cases b with
      | finite y => cases hsub; rfl
      | infinity negative' =>
        cases negative' with
        | true => cases hsub; rfl
        | false => cases hsub
      | nan => cases h
  | nan => cases b <;> cases h

/-- Taking away a number above zero, or adding one. -/
theorem opposite_le {a b : Decimal} (ha : 0 ≤ a) (hb : 0 ≤ b) : a.opposite ≤ b := by
  cases a with
  | finite x =>
    have hx := nonneg_finite.mp ha
    cases b with
    | finite y =>
      have hy := nonneg_finite.mp hb
      exact finite_le_finite.mpr (by linarith)
    | infinity negative => cases negative <;> first | rfl | cases hb
    | nan => cases hb
  | infinity negative =>
    cases negative with
    | true => cases ha
    | false =>
      cases b with
      | finite y => rfl
      | infinity negative => cases negative <;> rfl
      | nan => cases hb
  | nan => cases ha

theorem le_of_not_lt {a b : Decimal} (ha : a ≠ nan) (hb : b ≠ nan) (h : ¬ a < b) : b ≤ a := by
  cases a with
  | finite x =>
    cases b with
    | finite y =>
      apply finite_le_finite.mpr
      exact not_lt.mp fun hlt => h (decide_eq_true hlt)
    | infinity negative => cases negative <;> first | rfl | exact absurd rfl h
    | nan => exact absurd rfl hb
  | infinity negative =>
    cases b with
    | finite y => cases negative <;> first | rfl | exact absurd rfl h
    | infinity negative' =>
      cases negative <;> cases negative' <;> first | rfl | exact absurd rfl h
    | nan => exact absurd rfl hb
  | nan => exact absurd rfl ha

theorem le_of_not_le {a b : Decimal} (ha : a ≠ nan) (hb : b ≠ nan) (h : ¬ b ≤ a) : a ≤ b := by
  apply le_of_not_lt hb ha
  intro hlt
  apply h
  change le b a = true
  rw [le, Bool.or_eq_true]
  exact .inl hlt

theorem of_lt?_false {a b : Decimal} (h : lt? a b = .ok false) : b ≤ a := by
  unfold lt? at h
  split at h
  · cases h
  · next hnan =>
    push Not at hnan
    exact le_of_not_lt hnan.1 hnan.2 (of_decide_eq_false (Except.ok.inj h))

end Decimal
