import Qubitcoin.Node.BlockValidation
import Qubitcoin.Substrate.Economics

/-! The reward schedule of `calculate_reward` against exact division by powers of phi, and against
the reward of `consensus/engine.py`. -/

namespace Qubitcoin.Substrate.Economics

/-- One era of the halving loop, over the integers. -/
def halve (reward : ℕ) : ℕ := reward * phiDenom.toNat / phiScaled.toNat

/-- `floor (INITIAL_REWARD * (PHI_DENOM / PHI_SCALED) ^ era)` -/
def exactReward (era : ℕ) : ℕ :=
  initialReward.toNat * phiDenom.toNat ^ era / phiScaled.toNat ^ era

/-- The scaled reward after so many eras. -/
def scaledReward (era : ℕ) : ℕ := halve^[era] (initialReward.toNat * phiDenom.toNat)

theorem scaledReward_zero : scaledReward 0 = initialReward.toNat * phiDenom.toNat := rfl

theorem scaledReward_succ (era : ℕ) : scaledReward (era + 1) = halve (scaledReward era) :=
  Function.iterate_succ_apply' halve era _

theorem halve_le (reward : ℕ) : halve reward ≤ reward := by
  have hdenom : phiDenom.toNat ≤ phiScaled.toNat := by decide
  apply Nat.div_le_of_le_mul
  rw [Nat.mul_comm phiScaled.toNat]
  exact Nat.mul_le_mul_left reward hdenom

theorem iterate_halve_le (eras reward : ℕ) : halve^[eras] reward ≤ reward := by
  induction eras generalizing reward with
  | zero => rw [Function.iterate_zero, id_eq]
  | succ eras ih =>
    rw [Function.iterate_succ_apply]
    exact (ih (halve reward)).trans (halve_le reward)

theorem halve_mono : Monotone halve := fun _ _ h =>
  Nat.div_le_div_right (Nat.mul_le_mul_right _ h)

theorem scaledReward_antitone : Antitone scaledReward := by
  apply antitone_nat_of_succ_le
  intro era
  rw [scaledReward_succ]
  exact halve_le _

section Exactness

/-- None of the operations of one round leaves 128 bits. -/
structure NoOverflow (reward : QbcBalance) : Prop where
  quotient : reward.toNat / phiScaled.toNat * phiDenom.toNat < 2 ^ 128
  remainder : reward.toNat % phiScaled.toNat * phiDenom.toNat < 2 ^ 128
  sum : reward.toNat / phiScaled.toNat * phiDenom.toNat +
    reward.toNat % phiScaled.toNat * phiDenom.toNat / phiScaled.toNat < 2 ^ 128

theorem toNat_phiScaled : phiScaled.toNat = 1618033988749895000 := rfl

theorem toNat_phiDenom : phiDenom.toNat = 1000000000000000000 := rfl

theorem noOverflow (reward : QbcBalance) : NoOverflow reward := by
  have hlt := reward.isLt
  have hmod := Nat.mod_lt reward.toNat (by decide : 0 < phiScaled.toNat)
  rw [toNat_phiScaled] at hmod
  constructor
  · rw [toNat_phiScaled, toNat_phiDenom]
    omega
  · rw [toNat_phiScaled, toNat_phiDenom]
    omega
  · rw [toNat_phiScaled, toNat_phiDenom]
    omega

theorem toNat_saturatingMul_of_lt {a b : U128} (h : a.toNat * b.toNat < 2 ^ 128) :
    (a.saturatingMul b).toNat = a.toNat * b.toNat := by
  rw [BitVec.saturatingMul, BitVec.toNat_ofNat]
  omega

theorem toNat_quotient_mul (reward : QbcBalance) :
    ((reward / phiScaled).saturatingMul phiDenom).toNat =
      reward.toNat / phiScaled.toNat * phiDenom.toNat := by
  rw [toNat_saturatingMul_of_lt, BitVec.toNat_udiv]
  rw [BitVec.toNat_udiv]
  exact (noOverflow reward).quotient

theorem toNat_remainder_mul (reward : QbcBalance) :
    ((reward % phiScaled).saturatingMul phiDenom).toNat =
      reward.toNat % phiScaled.toNat * phiDenom.toNat := by
  rw [toNat_saturatingMul_of_lt, BitVec.toNat_umod]
  rw [BitVec.toNat_umod]
  exact (noOverflow reward).remainder

theorem halve_apart (reward : ℕ) :
    reward / phiScaled.toNat * phiDenom.toNat +
      reward % phiScaled.toNat * phiDenom.toNat / phiScaled.toNat = halve reward := by
  have hpos : 0 < phiScaled.toNat := by decide
  rw [halve]
  generalize phiScaled.toNat = divisor at *
  conv_rhs => rw [← Nat.div_add_mod reward divisor]
  rw [Nat.add_mul, Nat.mul_assoc, Nat.mul_add_div hpos]

theorem toNat_divPhi_apart (reward : QbcBalance) :
    (divPhi reward).toNat =
      reward.toNat / phiScaled.toNat * phiDenom.toNat +
        reward.toNat % phiScaled.toNat * phiDenom.toNat / phiScaled.toNat := by
  rw [divPhi, BitVec.toNat_saturatingAdd_of_lt]
  · rw [BitVec.toNat_udiv, toNat_quotient_mul, toNat_remainder_mul]
  · rw [BitVec.toNat_udiv, toNat_quotient_mul, toNat_remainder_mul]
    exact (noOverflow reward).sum

/-- Quotient and remainder are divided apart, and come to the one division. -/
theorem toNat_divPhi (reward : QbcBalance) : (divPhi reward).toNat = halve reward.toNat := by
  rw [toNat_divPhi_apart, halve_apart]

end Exactness

theorem phiHalving_succ (eras : ℕ) (reward : QbcBalance) :
    phiHalving (eras + 1) reward =
      if divPhi reward < phiDenom then phiDenom else phiHalving eras (divPhi reward) :=
  phiHalving.eq_2 reward eras

/-- The loop stops early at the smallest unit, below which it would not come back. -/
theorem toNat_phiHalving (eras : ℕ) {reward : QbcBalance}
    (h : phiDenom.toNat ≤ reward.toNat) :
    (phiHalving eras reward).toNat = max (halve^[eras] reward.toNat) phiDenom.toNat := by
  induction eras generalizing reward with
  | zero =>
    rw [Function.iterate_zero, id_eq, Nat.max_eq_left h]
    rfl
  | succ eras ih =>
    rw [Function.iterate_succ_apply, ← toNat_divPhi, phiHalving_succ]
    split
    · next hlt =>
      rw [BitVec.lt_def] at hlt
      exact (Nat.max_eq_right ((iterate_halve_le eras _).trans hlt.le)).symm
    · next hge =>
      rw [BitVec.lt_def] at hge
      exact ih (not_lt.mp hge)

theorem toNat_phiReward (blockHeight : BlockHeight) :
    (phiReward blockHeight).toNat =
      max (scaledReward (min (eraOf blockHeight).toNat 100) / phiDenom.toNat) 1 := by
  have hstart : (initialReward * phiDenom).toNat = initialReward.toNat * phiDenom.toNat := by decide
  simp only [phiReward]
  split
  · next hzero =>
    rw [hzero]
    decide
  · have hlarge : phiDenom.toNat ≤ (initialReward * phiDenom).toNat := by decide
    have hhalving := toNat_phiHalving (min (eraOf blockHeight) maxEra).toNat hlarge
    rw [BitVec.toNat_max, BitVec.toNat_udiv, hhalving, hstart, BitVec.toNat_min]
    change max (max (scaledReward _) _ / _) 1 = _
    have hunit : phiDenom.toNat / phiDenom.toNat = 1 := by decide
    rcases le_total (scaledReward (min (eraOf blockHeight).toNat 100)) phiDenom.toNat with hle | hle
    · have hquotient := Nat.div_le_div_right (c := phiDenom.toNat) hle
      change max (max (scaledReward (min (eraOf blockHeight).toNat 100)) _ / _) 1 = _
      rw [Nat.max_eq_right hle]
      omega
    · change max (max (scaledReward (min (eraOf blockHeight).toNat 100)) _ / _) 1 = _
      rw [Nat.max_eq_left hle]

section Accuracy

/-- What the roundings of the eras so far have taken off, less than three units of the last place. -/
theorem scaledReward_bounds (era : ℕ) :
    scaledReward era * phiScaled.toNat ^ era ≤
        initialReward.toNat * phiDenom.toNat * phiDenom.toNat ^ era ∧
      initialReward.toNat * phiDenom.toNat * phiDenom.toNat ^ era <
        (scaledReward era + 3) * phiScaled.toNat ^ era := by
  induction era with
  | zero =>
    rw [scaledReward_zero]
    decide
  | succ era ih =>
    obtain ⟨hlow, hhigh⟩ := ih
    have hpos : 0 < phiScaled.toNat := by decide
    have hdenom : 0 < phiDenom.toNat := by decide
    have hgap : 3 * phiDenom.toNat ≤ 2 * phiScaled.toNat := by decide
    have hdiv := Nat.div_mul_le_self (scaledReward era * phiDenom.toNat) phiScaled.toNat
    have hlt := Nat.lt_div_mul_add (a := scaledReward era * phiDenom.toNat) hpos
    rw [scaledReward_succ, halve]
    generalize scaledReward era * phiDenom.toNat / phiScaled.toNat = next at hdiv hlt
    generalize phiScaled.toNat = S at *
    generalize phiDenom.toNat = D at *
    generalize scaledReward era = x at *
    constructor
    · calc next * S ^ (era + 1) = next * S * S ^ era := by ring
        _ ≤ x * D * S ^ era := Nat.mul_le_mul_right _ hdiv
        _ = x * S ^ era * D := by ring
        _ ≤ initialReward.toNat * D * D ^ era * D := Nat.mul_le_mul_right _ hlow
        _ = initialReward.toNat * D * D ^ (era + 1) := by ring
    · have hstep : (x + 3) * D ≤ (next + 3) * S := by nlinarith
      calc initialReward.toNat * D * D ^ (era + 1)
          = initialReward.toNat * D * D ^ era * D := by ring
        _ < (x + 3) * S ^ era * D := Nat.mul_lt_mul_of_pos_right hhigh hdenom
        _ = (x + 3) * D * S ^ era := by ring
        _ ≤ (next + 3) * S * S ^ era := Nat.mul_le_mul_right _ hstep
        _ = (next + 3) * S ^ (era + 1) := by ring

/-- Whole units are off by one at most. -/
theorem scaledReward_div (era : ℕ) :
    scaledReward era / phiDenom.toNat ≤ exactReward era ∧
      exactReward era ≤ scaledReward era / phiDenom.toNat + 1 := by
  obtain ⟨hlow, hhigh⟩ := scaledReward_bounds era
  have hscaled : 0 < phiScaled.toNat ^ era := Nat.pow_pos (by decide)
  have hdenom : 2 < phiDenom.toNat := by decide
  have hdiv := Nat.div_mul_le_self (scaledReward era) phiDenom.toNat
  have hlt := Nat.lt_div_mul_add (a := scaledReward era) (Nat.zero_lt_of_lt hdenom)
  have hexact := Nat.div_mul_le_self (initialReward.toNat * phiDenom.toNat ^ era)
    (phiScaled.toNat ^ era)
  change exactReward era * phiScaled.toNat ^ era ≤ _ at hexact
  constructor
  · apply (Nat.le_div_iff_mul_le hscaled).mpr
    apply Nat.le_of_mul_le_mul_right _ (Nat.zero_lt_of_lt hdenom)
    calc scaledReward era / phiDenom.toNat * phiScaled.toNat ^ era * phiDenom.toNat
        = scaledReward era / phiDenom.toNat * phiDenom.toNat * phiScaled.toNat ^ era := by ring
      _ ≤ scaledReward era * phiScaled.toNat ^ era := Nat.mul_le_mul_right _ hdiv
      _ ≤ initialReward.toNat * phiDenom.toNat * phiDenom.toNat ^ era := hlow
      _ = initialReward.toNat * phiDenom.toNat ^ era * phiDenom.toNat := by ring
  · have hbound : exactReward era * phiDenom.toNat < scaledReward era + 3 := by
      apply Nat.lt_of_mul_lt_mul_right (a := phiScaled.toNat ^ era)
      calc exactReward era * phiDenom.toNat * phiScaled.toNat ^ era
          = exactReward era * phiScaled.toNat ^ era * phiDenom.toNat := by ring
        _ ≤ initialReward.toNat * phiDenom.toNat ^ era * phiDenom.toNat :=
            Nat.mul_le_mul_right _ hexact
        _ = initialReward.toNat * phiDenom.toNat * phiDenom.toNat ^ era := by ring
        _ < (scaledReward era + 3) * phiScaled.toNat ^ era := hhigh
    apply Nat.le_of_lt_succ
    apply Nat.lt_of_mul_lt_mul_right (a := phiDenom.toNat)
    rw [Nat.succ_eq_add_one, Nat.add_mul, Nat.add_mul]
    omega

end Accuracy

theorem toNat_eraOf {blockHeight : BlockHeight} (h : blockHeight / halvingInterval < 2 ^ 32) :
    (eraOf blockHeight).toNat = blockHeight / halvingInterval := by
  rw [eraOf, BitVec.toNat_ofNat, Nat.mod_eq_of_lt h]

/-- A unit for each era, before the tail emission and the cap. -/
theorem phiReward_near {blockHeight : BlockHeight} (h : blockHeight / halvingInterval < 2 ^ 32) :
    (phiReward blockHeight).toNat ≤
        exactReward (blockHeight / halvingInterval) + blockHeight / halvingInterval ∧
      exactReward (blockHeight / halvingInterval) ≤
        (phiReward blockHeight).toNat + blockHeight / halvingInterval := by
  rw [toNat_phiReward, toNat_eraOf h]
  generalize blockHeight / halvingInterval = era
  rcases Nat.eq_zero_or_pos era with rfl | hpos
  · decide
  obtain ⟨hlow, hhigh⟩ := scaledReward_div era
  rcases le_total era 100 with hle | hge
  · rw [Nat.min_eq_left hle]
    omega
  · rw [Nat.min_eq_right hge]
    have hlast : scaledReward 100 / phiDenom.toNat = 0 := by
      have hexact : exactReward 100 = 0 := by decide +kernel
      exact Nat.le_zero.mp (hexact ▸ (scaledReward_div 100).1)
    have hquotient := Nat.div_le_div_right (c := phiDenom.toNat) (scaledReward_antitone hge)
    omega

theorem phiReward_antitone {h h' : BlockHeight} (hle : h ≤ h')
    (hera : h' / halvingInterval < 2 ^ 32) : (phiReward h').toNat ≤ (phiReward h).toNat := by
  have hdiv : h / halvingInterval ≤ h' / halvingInterval := Nat.div_le_div_right hle
  rw [toNat_phiReward, toNat_phiReward, toNat_eraOf hera, toNat_eraOf (hdiv.trans_lt hera)]
  apply max_le_max _ le_rfl
  apply Nat.div_le_div_right
  exact scaledReward_antitone (min_le_min hdiv le_rfl)

theorem toNat_calculateReward (s : Storage) (blockHeight : BlockHeight) :
    (calculateReward s blockHeight).toNat =
      min (max (phiReward blockHeight).toNat tailEmissionReward.toNat)
        (maxSupply.toNat - s.totalEmitted.toNat) := by
  have hbase : (baseReward blockHeight).toNat =
      max (phiReward blockHeight).toNat tailEmissionReward.toNat := by
    unfold baseReward
    split
    · next hlt => exact (Nat.max_eq_right (BitVec.lt_def.mp hlt).le).symm
    · next hge =>
      rw [BitVec.lt_def] at hge
      exact (Nat.max_eq_left (not_lt.mp hge)).symm
  rw [← hbase, ← BitVec.toNat_saturatingSub]
  simp only [calculateReward]
  split
  · next hzero =>
    rw [hzero]
    exact (Nat.min_zero _).symm
  · exact BitVec.toNat_min _ _

/-- The schedule: the phi reward, the tail emission below it and the cap above. -/
structure Schedule (s : Storage) (blockHeight : BlockHeight) : Prop where
  exact : initialReward.toNat * phiDenom.toNat < 2 ^ 128 ∧ ∀ reward, NoOverflow reward
  reward : (calculateReward s blockHeight).toNat =
    min (max (phiReward blockHeight).toNat tailEmissionReward.toNat)
      (maxSupply.toNat - s.totalEmitted.toNat)
  near : blockHeight / halvingInterval < 2 ^ 32 →
    (phiReward blockHeight).toNat ≤
        exactReward (blockHeight / halvingInterval) + blockHeight / halvingInterval ∧
      exactReward (blockHeight / halvingInterval) ≤
        (phiReward blockHeight).toNat + blockHeight / halvingInterval
  tail : min tailEmissionReward.toNat (maxSupply.toNat - s.totalEmitted.toNat) ≤
    (calculateReward s blockHeight).toNat
  cap : (calculateReward s blockHeight).toNat ≤ maxSupply.toNat - s.totalEmitted.toNat
  antitone : ∀ later, blockHeight ≤ later → later / halvingInterval < 2 ^ 32 →
    (calculateReward s later).toNat ≤ (calculateReward s blockHeight).toNat

theorem calculateReward_schedule (s : Storage) (blockHeight : BlockHeight) :
    Schedule s blockHeight where
  exact := ⟨by decide, noOverflow⟩
  reward := toNat_calculateReward s blockHeight
  near := phiReward_near
  tail := by
    rw [toNat_calculateReward]
    exact min_le_min (le_max_right _ _) le_rfl
  cap := calculateReward_le s blockHeight
  antitone later hle hera := by
    rw [toNat_calculateReward, toNat_calculateReward]
    exact min_le_min (max_le_max (phiReward_antitone hle hera) le_rfl) le_rfl

/-- In era 11 the tail emission pays more than the schedule; of the last unit of supply less than
the tail emission is paid; and the count of eras, of 32 bits, starts again. -/
theorem schedule_departures :
    exactReward 11 + 11 < (calculateReward (genesisBuild 0) (11 * halvingInterval)).toNat ∧
      (calculateReward (genesisBuild (maxSupply - 1)) 0).toNat < tailEmissionReward.toNat ∧
      (calculateReward (genesisBuild 0) ((2 ^ 32 - 1) * halvingInterval)).toNat <
        (calculateReward (genesisBuild 0) (2 ^ 32 * halvingInterval)).toNat := by
  decide +kernel

end Qubitcoin.Substrate.Economics

namespace Qubitcoin.Node

open Substrate.Economics (exactReward scaledReward scaledReward_antitone toNat_calculateReward
  toNat_phiReward toNat_eraOf)

section EngineReward

variable (rules : Rules)

/-- `Config.PHI`, read from its decimal text. -/
def phi : ℚ := 1618033988749895 / 1000000000000000

/-- `phi ** era` -/
def phiPower (era : ℕ) : ℚ := Decimal.roundTo prec (phi ^ era)

/-- The leading digit of a power stands no further than the largest exponent of the context, which
traps what overflows. -/
def PowerInRange (era : ℕ) : Prop := Int.log 10 (phiPower era) ≤ 999999

instance (era : ℕ) : Decidable (PowerInRange era) :=
  inferInstanceAs (Decidable (Int.log 10 (phiPower era) ≤ 999999))

/-- `Config.INITIAL_REWARD / (phi ** era)` -/
def enginePhiReward (era : ℕ) : ℚ := Decimal.roundTo prec (1527 / 100 / phiPower era)

/-- The settings of the reward as `config.py` has them. -/
def defaultRules : Rules :=
  { rules with
    phiReward := fun era => enginePhiReward era.toNat
    tailEmission := 1 / 10 }

/-- The reward of the engine; there is none where the power raises. -/
def engineReward (height : ℕ) (totalSupply : Decimal) : Option Decimal :=
  if PowerInRange (height / halvingInterval.toNat) then
    (calculateReward (defaultRules rules) height totalSupply).toOption
  else none

/-- The reward in eight decimal places, as a number of base units over their scale. -/
def engineUnits (height : ℕ) (totalEmitted : ℕ) : Option Decimal := do
  let reward ← engineReward rules height (.finite (totalEmitted / 10 ^ 8))
  (Decimal.quantize prec 8 reward).toOption

/-- Settings that the reward does not read. -/
def sampleSettings : Rules where
  phiReward _ := 0
  tailEmission := 0
  feeBurn := 1 / 2
  premine := 33000000
  latest := .finite 1700000100
  calculateHash _ := "b20"
  difficultyExpected _ := true
  proofValid _ := true
  stateRootsValid _ := true
  thoughtValid _ := true

/-- What the engine rounds up and the pallet rounds down. -/
def roundsUp (era : ℕ) : ℕ := if era ∈ [1, 3, 4, 7, 8, 9, 10] then 1 else 0

/-- The reward before the cap. -/
def engineBase (era : ℕ) : ℚ := max (enginePhiReward era) (1 / 10)

/-- The eras before the tail emission. -/
theorem early_era : ∀ era < 11, PowerInRange era ∧ 10000000 ≤ exactReward era ∧
    max (scaledReward era / 10 ^ 18) 1 = exactReward era ∧
    Decimal.roundHalfEven (engineBase era * 10 ^ 8) = exactReward era + roundsUp era := by
  decide +kernel

theorem remaining_of_le {totalEmitted : ℕ} (h : totalEmitted ≤ 330000000000000000) :
    Decimal.sub prec (.finite maxSupply) (.finite (totalEmitted / 10 ^ 8)) =
      .ok (.finite ((330000000000000000 - totalEmitted : ℕ) / 10 ^ 8)) := by
  have hvalue : maxSupply + -(totalEmitted / 10 ^ 8) =
      ((330000000000000000 - totalEmitted : ℕ) : ℤ) / 10 ^ 8 := by
    rw [Int.cast_natCast, Nat.cast_sub h, maxSupply]
    push_cast
    ring
  have hdigits : |((330000000000000000 - totalEmitted : ℕ) : ℤ)| < 10 ^ prec := by
    rw [abs_of_nonneg (Int.natCast_nonneg _), prec]
    omega
  change Except.ok (Decimal.finite (Decimal.roundTo prec (maxSupply + -(totalEmitted / 10 ^ 8)))) = _
  rw [hvalue, Decimal.fits_of_places 8 hdigits, Int.cast_natCast]

theorem remaining_nonpos {totalEmitted : ℕ} (h : 330000000000000000 < totalEmitted) :
    ∃ remaining ≤ 0, Decimal.sub prec (.finite maxSupply) (.finite (totalEmitted / 10 ^ 8)) =
      .ok (.finite remaining) := by
  refine ⟨_, Decimal.roundTo_nonpos prec ?_, rfl⟩
  have hcast : (330000000000000000 : ℚ) < totalEmitted := by exact_mod_cast h
  rw [maxSupply]
  linarith

/-- The reward once it is known what is left of the supply. -/
theorem calculateReward_of_remaining {era : ℕ} {height : ℕ} {totalSupply : Decimal} {remaining : ℚ}
    (hera : height / halvingInterval.toNat = era)
    (h : Decimal.sub prec (.finite maxSupply) totalSupply = .ok (.finite remaining)) :
    calculateReward (defaultRules rules) height totalSupply =
      .ok (.finite (max (min (engineBase era) remaining) 0)) := by
  have hbase : 0 < engineBase era := lt_of_lt_of_le (by norm_num) (le_max_right _ _)
  have hheight : (height : ℤ) / halvingInterval = era := by
    rw [← hera]
    rfl
  have hif : (if (defaultRules rules).tailEmission ≤ (defaultRules rules).phiReward era then
      (defaultRules rules).phiReward era else (defaultRules rules).tailEmission) =
      engineBase era := by
    rw [engineBase, max_comm, max_def]
    rfl
  simp only [calculateReward]
  rw [hheight, hif, h]
  change (Decimal.min? _ _ >>= _) = _
  rw [Decimal.min?_finite]
  change (do
    if ← Decimal.le? (.finite (min (engineBase era) remaining)) (.finite 0) then return 0
    return Decimal.finite (min (engineBase era) remaining)) = _
  rw [Decimal.le?_finite]
  rcases le_total (min (engineBase era) remaining) 0 with hle | hge
  · rw [max_eq_right hle, decide_eq_true hle]
    rfl
  · rcases hge.lt_or_eq with hlt | heq
    · rw [max_eq_left hge, decide_eq_false (not_le.mpr hlt)]
      rfl
    · rw [← heq]
      rfl

/-- Nothing is rounded of what is left of the supply. -/
theorem engineUnits_eq {era units : ℕ} {height totalEmitted : ℕ}
    (hera : height / halvingInterval.toNat = era) (hrange : PowerInRange era)
    (hunits : Decimal.roundHalfEven (engineBase era * 10 ^ 8) = units)
    (hlt : units < 10 ^ prec) :
    engineUnits rules height totalEmitted =
      some (.finite ((min units (330000000000000000 - totalEmitted) : ℕ) / 10 ^ 8)) := by
  have hquantize : ∀ reward : ℚ, Decimal.roundHalfEven (reward * 10 ^ 8) =
      (min units (330000000000000000 - totalEmitted) : ℕ) →
      (Decimal.quantize prec 8 (.finite reward)).toOption =
        some (.finite ((min units (330000000000000000 - totalEmitted) : ℕ) / 10 ^ 8)) := by
    intro reward hround
    have hsmall : |((min units (330000000000000000 - totalEmitted) : ℕ) : ℤ)| < 10 ^ prec := by
      rw [abs_of_nonneg (Int.natCast_nonneg _)]
      exact_mod_cast (min_le_left _ _).trans_lt hlt
    rw [Decimal.quantize, hround]
    change (if _ then _ else _ : Except _ _).toOption = _
    rw [if_pos hsmall]
    rfl
  have hbase : 0 < engineBase era := lt_of_lt_of_le (by norm_num) (le_max_right _ _)
  rw [engineUnits, engineReward, hera, if_pos hrange]
  rcases Nat.lt_or_ge 330000000000000000 totalEmitted with hover | hwithin
  · obtain ⟨remaining, hle, hremaining⟩ := remaining_nonpos hover
    rw [calculateReward_of_remaining rules hera hremaining,
      max_eq_right ((min_le_right _ _).trans hle)]
    apply hquantize
    rw [Nat.sub_eq_zero_of_le hover.le, Nat.min_zero, zero_mul]
    exact Decimal.roundHalfEven_intCast 0
  · rw [calculateReward_of_remaining rules hera (remaining_of_le hwithin)]
    apply hquantize
    generalize hleft : 330000000000000000 - totalEmitted = left
    have hscale : (left / 10 ^ 8 : ℚ) * 10 ^ 8 = (left : ℤ) := by
      rw [Int.cast_natCast]
      exact div_mul_cancel₀ _ (by norm_num)
    rw [max_eq_left (le_min hbase.le (by positivity))]
    rcases le_total (engineBase era) (left / 10 ^ 8) with hle | hge
    · have hround : Decimal.roundHalfEven (engineBase era * 10 ^ 8) ≤ left := by
        apply Decimal.roundHalfEven_le
        rw [← hscale]
        exact mul_le_mul_of_nonneg_right hle (by norm_num)
      rw [hunits] at hround
      rw [min_eq_left hle, hunits, Nat.min_eq_left (by omega)]
    · have hround : left ≤ Decimal.roundHalfEven (engineBase era * 10 ^ 8) := by
        apply Decimal.le_roundHalfEven
        rw [← hscale]
        exact mul_le_mul_of_nonneg_right hge (by norm_num)
      rw [hunits] at hround
      rw [min_eq_right hge, hscale, Decimal.roundHalfEven_intCast, Nat.min_eq_right (by omega)]

/-- Half a power of phi survives the rounding, and most of it. -/
theorem le_phiPower (era : ℕ) : phi ^ era * (9 / 10) ≤ phiPower era := by
  have hpos : 0 < phi ^ era := pow_pos (by norm_num [phi]) era
  have hnear := abs_le.mp (Decimal.abs_roundTo_sub_le prec hpos)
  have hsmall : (10 : ℚ) ^ (1 - prec : ℤ) ≤ 1 / 10 := by norm_num [prec]
  rw [phiPower]
  nlinarith

/-- From the eleventh era on the tail emission is paid. -/
theorem engineBase_of_le {era : ℕ} (h : 11 ≤ era) : engineBase era = 1 / 10 := by
  apply max_eq_right
  have hmono : phi ^ 11 ≤ phi ^ era := pow_le_pow_right₀ (by norm_num [phi]) h
  have heleven : 199 ≤ phi ^ 11 := by norm_num [phi]
  have hpower : 179 ≤ phiPower era := by linarith [le_phiPower era]
  have hquotient : 1527 / 100 / phiPower era ≤ 9 / 100 := by
    rw [div_le_iff₀ (by linarith)]
    linarith
  have hpos : 0 < 1527 / 100 / phiPower era := by positivity
  have hnear := abs_le.mp (Decimal.abs_roundTo_sub_le prec hpos)
  have hsmall : (10 : ℚ) ^ (1 - prec : ℤ) ≤ 1 / 10 := by norm_num [prec]
  change Decimal.roundTo prec (1527 / 100 / phiPower era) ≤ 1 / 10
  nlinarith

/-- The power has overflown long before the count of eras of the pallet starts again. -/
theorem lt_of_powerInRange {era : ℕ} (h : PowerInRange era) : era < 2 ^ 32 := by
  by_contra hge
  have hera : 5 * 1000001 ≤ era := by omega
  have hten : (10 : ℚ) ^ 1000001 ≤ phi ^ era := calc
    (10 : ℚ) ^ 1000001 ≤ (phi ^ 5) ^ 1000001 := pow_le_pow_left₀ (by norm_num) (by norm_num [phi]) _
    _ = phi ^ (5 * 1000001) := (pow_mul phi 5 1000001).symm
    _ ≤ phi ^ era := pow_le_pow_right₀ (by norm_num [phi]) hera
  have hpower : (10 : ℚ) ^ (1000000 : ℤ) ≤ phiPower era := by
    have hsucc : (10 : ℚ) ^ 1000001 = 10 ^ 1000000 * 10 := pow_succ _ _
    have hcast : (10 : ℚ) ^ (1000000 : ℤ) = 10 ^ 1000000 := zpow_natCast _ _
    have hpos : (0 : ℚ) < 10 ^ 1000000 := pow_pos (by norm_num) _
    have hle := le_phiPower era
    rw [hcast]
    rw [hsucc] at hten
    clear hsucc hcast
    generalize (10 : ℚ) ^ 1000000 = power at *
    linarith
  have hpos : 0 < phiPower era := lt_of_lt_of_le (zpow_pos (by norm_num) _) hpower
  have hlog : 1000000 ≤ Int.log 10 (phiPower era) :=
    (Int.zpow_le_iff_le_log (by norm_num) hpos).mp (by exact_mod_cast hpower)
  rw [PowerInRange] at h
  omega

section Pallet

variable {era height : ℕ}

theorem toNat_phiReward_of_early (h : era < 11) (hera : height / halvingInterval.toNat = era) :
    (Substrate.Economics.phiReward height).toNat = exactReward era := by
  have hinterval : height / Substrate.halvingInterval = era := hera
  have hlt : height / Substrate.halvingInterval < 2 ^ 32 := by omega
  have hcount : (Substrate.Economics.eraOf height).toNat = era := by
    rw [toNat_eraOf hlt, hinterval]
  rw [toNat_phiReward, hcount, Nat.min_eq_left (by omega)]
  exact (early_era era h).2.2.1

theorem toNat_phiReward_of_late (h : 11 ≤ era) (hlt : era < 2 ^ 32)
    (hera : height / halvingInterval.toNat = era) :
    (Substrate.Economics.phiReward height).toNat ≤ 10000000 := by
  have hinterval : height / Substrate.halvingInterval = era := hera
  have hcount : (Substrate.Economics.eraOf height).toNat = era := by
    rw [toNat_eraOf (by rw [hinterval]; omega), hinterval]
  have hlast : scaledReward 11 / 10 ^ 18 ≤ 10000000 := by decide +kernel
  have hanti : scaledReward (min era 100) ≤ scaledReward 11 := scaledReward_antitone (by omega)
  rw [toNat_phiReward, hcount]
  exact max_le ((Nat.div_le_div_right hanti).trans hlast) (by norm_num)

/-- What both pay before the cap, but for the rounding. -/
def palletUnits (era : ℕ) : ℕ := if era < 11 then exactReward era else 10000000

theorem toNat_calculateReward_eq (s : Substrate.Economics.Storage) (hlt : era < 2 ^ 32)
    (hera : height / halvingInterval.toNat = era) :
    (Substrate.Economics.calculateReward s height).toNat =
      min (palletUnits era) (330000000000000000 - s.totalEmitted.toNat) := by
  rw [toNat_calculateReward, Substrate.toNat_maxSupply, palletUnits]
  change min (max _ 10000000) _ = _
  split
  · next hearly =>
    rw [toNat_phiReward_of_early hearly hera, Nat.max_eq_left (early_era era hearly).2.1]
  · next hlate => rw [Nat.max_eq_right (toNat_phiReward_of_late (not_lt.mp hlate) hlt hera)]

end Pallet

theorem roundHalfEven_engineBase (era : ℕ) :
    Decimal.roundHalfEven (engineBase era * 10 ^ 8) = (palletUnits era + roundsUp era : ℕ) := by
  rw [palletUnits]
  split
  · next h => exact_mod_cast (early_era era h).2.2.2
  · next h =>
    have hnot : roundsUp era = 0 := by
      rw [roundsUp, if_neg]
      intro hmem
      simp only [List.mem_cons, List.not_mem_nil, or_false] at hmem
      omega
    rw [engineBase_of_le (not_lt.mp h), hnot]
    have hvalue : (1 / 10 * 10 ^ 8 : ℚ) = (10000000 : ℤ) := by norm_num
    rw [hvalue, Decimal.roundHalfEven_intCast]
    rfl

theorem palletUnits_lt (era : ℕ) : palletUnits era + roundsUp era < 10 ^ prec := by
  have hearly : ∀ era < 11, exactReward era + roundsUp era < 10 ^ prec := by decide +kernel
  rw [palletUnits]
  split
  · next h => exact hearly era h
  · have hle : roundsUp era ≤ 1 := by
      rw [roundsUp]
      split <;> omega
    rw [prec]
    omega

theorem roundsUp_eq_zero_iff (era : ℕ) : roundsUp era = 0 ↔ era ∈ [0, 2, 5, 6] ∨ 11 ≤ era := by
  rw [roundsUp, ite_eq_right_iff]
  simp only [List.mem_cons, List.not_mem_nil, or_false]
  omega

theorem units_inj {a b : ℕ} :
    some (Decimal.finite (a / 10 ^ 8)) = some (Decimal.finite (b / 10 ^ 8)) ↔ a = b := by
  constructor
  · intro h
    injection h with h
    injection h with h
    rw [div_left_inj' (by norm_num)] at h
    exact_mod_cast h
  · rintro rfl
    rfl

/-- Where the engine rounds down as the pallet does, in the tail, and where less is left of the
supply than the reward of the era. -/
theorem rewards_agree_iff (s : Substrate.Economics.Storage) (height : ℕ) :
    engineUnits rules height s.totalEmitted.toNat =
        some (.finite ((Substrate.Economics.calculateReward s height).toNat / 10 ^ 8)) ↔
      PowerInRange (height / halvingInterval.toNat) ∧
        (height / halvingInterval.toNat ∈ [0, 2, 5, 6] ∨ 11 ≤ height / halvingInterval.toNat ∨
          330000000000000000 - s.totalEmitted.toNat ≤
            exactReward (height / halvingInterval.toNat)) := by
  generalize hera : height / halvingInterval.toNat = era
  by_cases hrange : PowerInRange era
  · rw [engineUnits_eq rules hera hrange (roundHalfEven_engineBase era) (palletUnits_lt era),
      toNat_calculateReward_eq s (lt_of_powerInRange hrange) hera, units_inj, ← or_assoc,
      ← roundsUp_eq_zero_iff]
    have hunits : ¬ 11 ≤ era → palletUnits era = exactReward era := fun h => if_pos (not_le.mp h)
    have hup := roundsUp_eq_zero_iff era
    constructor
    · intro h
      refine ⟨hrange, ?_⟩
      by_cases hlate : 11 ≤ era
      · exact .inl (hup.mpr (.inr hlate))
      · rw [← hunits hlate]
        omega
    · rintro ⟨-, hzero | hleft⟩
      · rw [hzero, Nat.add_zero]
      · by_cases hlate : 11 ≤ era
        · rw [hup.mpr (.inr hlate), Nat.add_zero]
        · rw [← hunits hlate] at hleft
          omega
  · constructor
    · rw [engineUnits, engineReward, hera, if_neg hrange]
      intro h
      cases h
    · rintro ⟨h, -⟩
      exact absurd h hrange

/-- In the first block of era 1 the engine pays a unit more than the pallet. -/
theorem rewards_apart :
    ¬ ∀ (rules : Rules) (s : Substrate.Economics.Storage) (height : ℕ),
      engineUnits rules height s.totalEmitted.toNat =
        some (.finite ((Substrate.Economics.calculateReward s height).toNat / 10 ^ 8)) := by
  intro h
  have hengine : engineUnits sampleSettings 15474020 0 = some (.finite (943737901 / 10 ^ 8)) := by
    decide +kernel
  have hpallet : (Substrate.Economics.calculateReward (Substrate.Economics.genesisBuild 0)
      15474020).toNat = 943737900 := by
    decide +kernel
  have heq := h sampleSettings (Substrate.Economics.genesisBuild 0) 15474020
  rw [hpallet] at heq
  exact absurd (hengine.symm.trans heq) (by decide +kernel)

end EngineReward
end Qubitcoin.Node
