import Qubitcoin.Substrate.Consensus

/-! What `adjust_difficulty` makes of the stored timestamps. -/

namespace Qubitcoin.Substrate.Consensus

/-- The window of a list of timestamps, in blocks. -/
def windowSize (timestamps : List U64) : ℕ := min timestamps.length difficultyWindow

def measuredTime (timestamps : List U64) : U64 :=
  (timestamps.getD (timestamps.length - 1) 0).saturatingSub
    (timestamps.getD (timestamps.length - windowSize timestamps) 0)

def expectedTime (timestamps : List U64) : ℕ :=
  (windowSize timestamps - 1) * targetBlockTimeMs.toNat

/-- The ratio in percent, after the guard against a runaway and the clamp; `hundredfold` is the
measured time a hundred times. -/
def clampedRatio (old : Difficulty) (hundredfold expected : ℕ) : ℕ :=
  let ratio := hundredfold / expected
  let ratio := if 100 < ratio ∧ difficultyMeaningfulMax.toNat < old.toNat then 100 else ratio
  min (max ratio 90) 110

theorem toNat_difficultyFloor : difficultyFloor.toNat = 500000 := rfl

theorem toNat_difficultyCeiling : difficultyCeiling.toNat = 1000000000 := rfl

theorem le_clampedRatio (old : Difficulty) (hundredfold expected : ℕ) :
    90 ≤ clampedRatio old hundredfold expected := by
  simp only [clampedRatio]
  omega

theorem clampedRatio_le (old : Difficulty) (hundredfold expected : ℕ) :
    clampedRatio old hundredfold expected ≤ 110 := by
  simp only [clampedRatio]
  omega

theorem clampedRatio_mono (old : Difficulty) (expected : ℕ) {hundredfold longer : ℕ}
    (h : hundredfold ≤ longer) :
    clampedRatio old hundredfold expected ≤ clampedRatio old longer expected := by
  have hratio : hundredfold / expected ≤ longer / expected := Nat.div_le_div_right h
  simp only [clampedRatio]
  split
  · split
    · omega
    · omega
  · split
    · omega
    · omega

theorem clampedRatio_of_expected (old : Difficulty) {expected : ℕ} (h : 0 < expected) :
    clampedRatio old (expected * 100) expected = 100 := by
  have hratio : expected * 100 / expected = 100 := Nat.mul_div_cancel_left 100 h
  simp only [clampedRatio, hratio]
  split
  · rfl
  · rfl

/-- The expected time of a window is computed without overflow. -/
theorem toNat_expected {timestamps : List U64} (h : 2 ≤ timestamps.length) :
    ((BitVec.ofNat 64 (windowSize timestamps) - 1) * targetBlockTimeMs).toNat =
      expectedTime timestamps ∧ 0 < expectedTime timestamps := by
  have hwindow : 2 ≤ windowSize timestamps ∧ windowSize timestamps ≤ 144 := by
    simp only [windowSize, difficultyWindow]
    omega
  unfold expectedTime
  generalize windowSize timestamps = size at hwindow
  have hsize : (BitVec.ofNat 64 size).toNat = size := by
    rw [BitVec.toNat_ofNat]
    omega
  have hless : (BitVec.ofNat 64 size - 1).toNat = size - 1 := by
    rw [BitVec.toNat_sub_of_le]
    · rw [hsize]
      rfl
    · rw [BitVec.le_def, hsize]
      exact Nat.le_of_succ_le hwindow.1
  rw [BitVec.toNat_mul, hless]
  change (size - 1) * 3300 % 2 ^ 64 = (size - 1) * 3300 ∧ 0 < (size - 1) * 3300
  omega

/-- The measured time is multiplied by a hundred modulo `2^64`; nothing else wraps round. -/
theorem toNat_windowDifficulty {old : Difficulty} (hold : old ≤ difficultyCeiling)
    {timestamps : List U64} (h : 2 ≤ timestamps.length) :
    (windowDifficulty old timestamps).toNat =
      min (max (old.toNat *
          clampedRatio old ((measuredTime timestamps).toNat * 100 % 2 ^ 64)
            (expectedTime timestamps) / 100) difficultyFloor.toNat) difficultyCeiling.toNat := by
  obtain ⟨hexpected, hpos⟩ := toNat_expected h
  rw [BitVec.le_def, toNat_difficultyCeiling] at hold
  have hratio : ((measuredTime timestamps) * 100 /
      ((BitVec.ofNat 64 (windowSize timestamps) - 1) * targetBlockTimeMs)).toNat =
      (measuredTime timestamps).toNat * 100 % 2 ^ 64 / expectedTime timestamps := by
    rw [BitVec.toNat_udiv, hexpected, BitVec.toNat_mul]
    rfl
  have hne : (BitVec.ofNat 64 (windowSize timestamps) - 1) * targetBlockTimeMs ≠ 0 := by
    intro hzero
    rw [hzero] at hexpected
    exact hpos.ne hexpected
  have hclamped : (min (max
      (if 100 < measuredTime timestamps * 100 /
          ((BitVec.ofNat 64 (windowSize timestamps) - 1) * targetBlockTimeMs) ∧
          difficultyMeaningfulMax < old then 100
        else measuredTime timestamps * 100 /
          ((BitVec.ofNat 64 (windowSize timestamps) - 1) * targetBlockTimeMs))
      minAdjustmentFactor) maxAdjustmentFactor : U64).toNat =
      clampedRatio old ((measuredTime timestamps).toNat * 100 % 2 ^ 64)
        (expectedTime timestamps) := by
    rw [BitVec.toNat_min, BitVec.toNat_max, apply_ite BitVec.toNat, hratio]
    simp only [BitVec.lt_def, hratio]
    rfl
  have hle := clampedRatio_le old ((measuredTime timestamps).toNat * 100 % 2 ^ 64)
    (expectedTime timestamps)
  have hfits : old.toNat * clampedRatio old ((measuredTime timestamps).toNat * 100 % 2 ^ 64)
      (expectedTime timestamps) / 100 < 2 ^ 64 := by
    have hproduct := Nat.mul_le_mul hold hle
    omega
  unfold windowDifficulty
  rw [if_neg (not_lt.mpr h)]
  change (if (BitVec.ofNat 64 (windowSize timestamps) - 1) * targetBlockTimeMs = 0 then old
    else _).toNat = _
  rw [if_neg hne, BitVec.toNat_min, BitVec.toNat_max, BitVec.toNat_ofNat, Nat.mod_eq_of_lt]
  · change min (max (old.toNat * (min (max (ite _ _ _) _) _ : U64).toNat / 100) _) _ = _
    exact congrArg (fun n => min (max (old.toNat * n / 100) _) _) hclamped
  · exact (congrArg (fun n => old.toNat * n / 100) hclamped).trans_lt hfits

theorem windowDifficulty_of_short {old : Difficulty} {timestamps : List U64}
    (h : timestamps.length < 2) : windowDifficulty old timestamps = old := by
  rw [windowDifficulty, if_pos h]

section Bounds

variable {old : Difficulty} (hfloor : difficultyFloor ≤ old) (hceiling : old ≤ difficultyCeiling)

include hfloor hceiling

/-- Both limits hold the new difficulty, which is a tenth away from the old at most, rounded to a
whole unit downwards. -/
theorem windowDifficulty_bounds (timestamps : List U64) :
    difficultyFloor.toNat ≤ (windowDifficulty old timestamps).toNat ∧
      (windowDifficulty old timestamps).toNat ≤ difficultyCeiling.toNat ∧
      old.toNat * 90 / 100 ≤ (windowDifficulty old timestamps).toNat ∧
      (windowDifficulty old timestamps).toNat ≤ old.toNat * 110 / 100 := by
  have hfloor' : 500000 ≤ old.toNat := hfloor
  have hceiling' : old.toNat ≤ 1000000000 := hceiling
  rw [toNat_difficultyFloor, toNat_difficultyCeiling]
  rcases Nat.lt_or_ge timestamps.length 2 with hshort | hlong
  · rw [windowDifficulty_of_short hshort]
    omega
  · rw [toNat_windowDifficulty hceiling hlong, toNat_difficultyFloor, toNat_difficultyCeiling]
    have hlow := le_clampedRatio old ((measuredTime timestamps).toNat * 100 % 2 ^ 64)
      (expectedTime timestamps)
    have hhigh := clampedRatio_le old ((measuredTime timestamps).toNat * 100 % 2 ^ 64)
      (expectedTime timestamps)
    have hlow' := Nat.div_le_div_right (c := 100) (Nat.mul_le_mul_left old.toNat hlow)
    have hhigh' := Nat.div_le_div_right (c := 100) (Nat.mul_le_mul_left old.toNat hhigh)
    omega

theorem windowDifficulty_steady {timestamps : List U64}
    (h : (measuredTime timestamps).toNat = expectedTime timestamps) :
    windowDifficulty old timestamps = old := by
  rcases Nat.lt_or_ge timestamps.length 2 with hshort | hlong
  · exact windowDifficulty_of_short hshort
  · obtain ⟨-, hpos⟩ := toNat_expected hlong
    have hbound : expectedTime timestamps ≤ 143 * 3300 := by
      apply Nat.mul_le_mul_right
      simp only [windowSize, difficultyWindow]
      omega
    apply BitVec.eq_of_toNat_eq
    rw [toNat_windowDifficulty hceiling hlong, h, Nat.mod_eq_of_lt (by omega),
      clampedRatio_of_expected old hpos, Nat.mul_div_cancel _ (by norm_num),
      Nat.max_eq_left hfloor, Nat.min_eq_left hceiling]

omit hfloor in
/-- Of two windows of one length, the one that took longer is not answered by the harder block,
as long as a hundred times the measured time is a number of 64 bits. -/
theorem windowDifficulty_mono {timestamps longer : List U64}
    (hlength : timestamps.length = longer.length)
    (htime : (measuredTime timestamps).toNat ≤ (measuredTime longer).toNat)
    (hfits : (measuredTime longer).toNat * 100 < 2 ^ 64) :
    (windowDifficulty old timestamps).toNat ≤ (windowDifficulty old longer).toNat := by
  rcases Nat.lt_or_ge timestamps.length 2 with hshort | hlong
  · rw [windowDifficulty_of_short hshort, windowDifficulty_of_short (hlength ▸ hshort)]
  · have hexpected : expectedTime timestamps = expectedTime longer := by
      rw [expectedTime, expectedTime, windowSize, windowSize, hlength]
    have hratio := clampedRatio_mono old (expectedTime longer)
      (Nat.mul_le_mul_right 100 htime)
    rw [toNat_windowDifficulty hceiling hlong,
      toNat_windowDifficulty hceiling (hlength ▸ hlong), Nat.mod_eq_of_lt hfits,
      Nat.mod_eq_of_lt ((Nat.mul_le_mul_right 100 htime).trans_lt hfits), hexpected]
    apply min_le_min _ le_rfl
    apply max_le_max _ le_rfl
    exact Nat.div_le_div_right (Nat.mul_le_mul_left _ hratio)

end Bounds

/-- The window that `adjust_difficulty` looks at. -/
def windowOf (s : Storage) (timestampMs : U64) : List U64 :=
  (pushTimestamp s.blockTimestamps timestampMs).val

theorem adjustDifficulty_of_not_reset (s : Storage) (timestampMs : U64) {blockHeight : BlockHeight}
    (h : blockHeight ∉ difficultyResetHeights) :
    (adjustDifficulty s timestampMs blockHeight).currentDifficulty =
      windowDifficulty s.currentDifficulty (windowOf s timestampMs) := by
  simp only [adjustDifficulty, if_neg h]
  rfl

theorem adjustDifficulty_of_reset (s : Storage) (timestampMs : U64) {blockHeight : BlockHeight}
    (h : blockHeight ∈ difficultyResetHeights) :
    (adjustDifficulty s timestampMs blockHeight).currentDifficulty = initialDifficulty := by
  simp only [adjustDifficulty, if_pos h]

/-- What the adjustment does with a stored difficulty between the limits. -/
structure Retargets (s : Storage) (timestampMs : U64) (blockHeight : BlockHeight) : Prop where
  bounds : difficultyFloor ≤ (adjustDifficulty s timestampMs blockHeight).currentDifficulty ∧
    (adjustDifficulty s timestampMs blockHeight).currentDifficulty ≤ difficultyCeiling
  near : blockHeight ∉ difficultyResetHeights →
    s.currentDifficulty.toNat * 90 / 100 ≤
        (adjustDifficulty s timestampMs blockHeight).currentDifficulty.toNat ∧
      (adjustDifficulty s timestampMs blockHeight).currentDifficulty.toNat ≤
        s.currentDifficulty.toNat * 110 / 100
  steady : blockHeight ∉ difficultyResetHeights →
    (measuredTime (windowOf s timestampMs)).toNat = expectedTime (windowOf s timestampMs) →
      (adjustDifficulty s timestampMs blockHeight).currentDifficulty = s.currentDifficulty
  /-- The value is the one of unbounded integers. -/
  exact : blockHeight ∉ difficultyResetHeights → 2 ≤ (windowOf s timestampMs).length →
    (measuredTime (windowOf s timestampMs)).toNat * 100 < 2 ^ 64 →
      (adjustDifficulty s timestampMs blockHeight).currentDifficulty.toNat =
        min (max (s.currentDifficulty.toNat *
            clampedRatio s.currentDifficulty ((measuredTime (windowOf s timestampMs)).toNat * 100)
              (expectedTime (windowOf s timestampMs)) / 100) difficultyFloor.toNat)
          difficultyCeiling.toNat
  mono : blockHeight ∉ difficultyResetHeights → ∀ (s' : Storage) (timestampMs' : U64),
    s'.currentDifficulty = s.currentDifficulty →
    (windowOf s' timestampMs').length = (windowOf s timestampMs).length →
    (measuredTime (windowOf s' timestampMs')).toNat ≤
      (measuredTime (windowOf s timestampMs)).toNat →
    (measuredTime (windowOf s timestampMs)).toNat * 100 < 2 ^ 64 →
      (adjustDifficulty s' timestampMs' blockHeight).currentDifficulty.toNat ≤
        (adjustDifficulty s timestampMs blockHeight).currentDifficulty.toNat

theorem adjustDifficulty_retargets (s : Storage) (timestampMs : U64) (blockHeight : BlockHeight)
    (hfloor : difficultyFloor ≤ s.currentDifficulty)
    (hceiling : s.currentDifficulty ≤ difficultyCeiling) :
    Retargets s timestampMs blockHeight := by
  have hbounds := windowDifficulty_bounds hfloor hceiling (windowOf s timestampMs)
  constructor
  · by_cases hreset : blockHeight ∈ difficultyResetHeights
    · rw [adjustDifficulty_of_reset s timestampMs hreset]
      decide
    · rw [adjustDifficulty_of_not_reset s timestampMs hreset]
      exact ⟨hbounds.1, hbounds.2.1⟩
  · intro hreset
    rw [adjustDifficulty_of_not_reset s timestampMs hreset]
    exact hbounds.2.2
  · intro hreset htime
    rw [adjustDifficulty_of_not_reset s timestampMs hreset]
    exact windowDifficulty_steady hfloor hceiling htime
  · intro hreset hlong hfits
    rw [adjustDifficulty_of_not_reset s timestampMs hreset,
      toNat_windowDifficulty hceiling hlong, Nat.mod_eq_of_lt hfits]
  · intro hreset s' timestampMs' hsame hlength htime hfits
    rw [adjustDifficulty_of_not_reset s timestampMs hreset,
      adjustDifficulty_of_not_reset s' timestampMs' hreset, hsame]
    exact windowDifficulty_mono hceiling hlength htime hfits

namespace Sample

/-- A chain of one block, mined at time zero. -/
def afterFirst (difficulty : Difficulty) : Storage :=
  { genesisBuild difficulty with blockTimestamps := ⟨[0], by decide⟩ }

end Sample

theorem adjustDifficulty_retargets_sample : Retargets (Sample.afterFirst 1000000) 3300 2 :=
  adjustDifficulty_retargets _ _ _ (by decide) (by decide)

/-- A block in no time takes more than a tenth off an uneven difficulty.  And `2^62` milliseconds,
a hundred times which are zero modulo `2^64`, make the next block harder than 3.3 seconds do. -/
theorem retargeting_departures :
    let new := (adjustDifficulty (Sample.afterFirst 1000001) 0 2).currentDifficulty
    difficultyFloor < new ∧ new.toNat * 10 < 1000001 * 9 ∧
    (adjustDifficulty (Sample.afterFirst 1000000) (2 ^ 62) 2).currentDifficulty <
      (adjustDifficulty (Sample.afterFirst 1000000) 3300 2).currentDifficulty := by
  decide +kernel

end Qubitcoin.Substrate.Consensus
