import Qubitcoin.Substrate.Economics
import Qubitcoin.Substrate.UtxoLaws

/-! The two fee burns, of `pallet-qbc-utxo` and of `pallet-qbc-economics`. -/

namespace Qubitcoin.Substrate

namespace Utxo

/-- What `finalize_fees_with_burn` adds to the counter, read off a counter that starts at zero. -/
def recordedBurn (s : Storage) : QbcBalance :=
  (finalizeFeesWithBurn { s with totalFeesBurned := 0 }).2.totalFeesBurned

theorem saturatingAdd_zero_left (x : QbcBalance) : BitVec.saturatingAdd 0 x = x := by
  apply BitVec.eq_of_toNat_eq
  rw [BitVec.toNat_saturatingAdd]
  simp
  omega

theorem recordedBurn_eq (s : Storage) : recordedBurn s = (s.accumulatedFees + 1) / 2 := by
  simp only [recordedBurn, finalizeFeesWithBurn]
  split
  · next hzero =>
    rw [hzero]
    rfl
  · exact saturatingAdd_zero_left _

theorem finalizeFeesWithBurn_recorded (s : Storage) :
    (finalizeFeesWithBurn s).2.totalFeesBurned =
      s.totalFeesBurned.saturatingAdd (recordedBurn s) := by
  rw [recordedBurn_eq, finalizeFeesWithBurn]
  split
  · next hzero =>
    apply BitVec.eq_of_toNat_eq
    rw [BitVec.toNat_saturatingAdd, hzero]
    have hlt := s.totalFeesBurned.isLt
    simp
    omega
  · rfl

theorem finalizeFeesWithBurn_share (s : Storage) :
    (finalizeFeesWithBurn s).1 = s.accumulatedFees.saturatingSub (recordedBurn s) := by
  rw [recordedBurn_eq, finalizeFeesWithBurn]
  split
  · next hzero =>
    rw [hzero]
    rfl
  · rfl

/-- The sum of fees is rounded up before it is halved; the largest sum of all wraps round. -/
theorem toNat_recordedBurn (s : Storage) :
    (recordedBurn s).toNat =
      if s.accumulatedFees.toNat = 2 ^ 128 - 1 then 0 else (s.accumulatedFees.toNat + 1) / 2 := by
  have hlt := s.accumulatedFees.isLt
  rw [recordedBurn_eq, BitVec.toNat_udiv, BitVec.toNat_add]
  change (s.accumulatedFees.toNat + 1) % 2 ^ 128 / 2 = _
  split
  · next hmax => rw [hmax, Nat.sub_add_cancel Nat.one_le_two_pow, Nat.mod_self]
  · rw [Nat.mod_eq_of_lt (by omega)]

theorem recordedBurn_add_share (s : Storage) :
    (recordedBurn s).toNat + (finalizeFeesWithBurn s).1.toNat = s.accumulatedFees.toNat := by
  rw [finalizeFeesWithBurn_share, BitVec.toNat_saturatingSub, toNat_recordedBurn]
  split
  · omega
  · omega

end Utxo

namespace Economics

/-- The product is taken before the division, and wraps round past `2^128`. -/
theorem toNat_burned (s : Storage) (totalFees : QbcBalance) :
    (burnFees s totalFees).2.1.toNat = totalFees.toNat * 50 % 2 ^ 128 / 100 := by
  unfold burnFees
  split
  · next hzero =>
    rw [hzero]
    rfl
  · rw [BitVec.toNat_udiv, BitVec.toNat_mul]
    rfl

theorem burned_add_portion (s : Storage) (totalFees : QbcBalance) :
    (burnFees s totalFees).2.1.toNat + (burnFees s totalFees).1.toNat = totalFees.toNat := by
  have hlt := totalFees.isLt
  have hburned := toNat_burned s totalFees
  have hle : (burnFees s totalFees).2.1.toNat ≤ totalFees.toNat := by
    have hmod := Nat.mod_le (totalFees.toNat * 50) (2 ^ 128)
    rw [hburned]
    omega
  have hportion : (burnFees s totalFees).1 = totalFees - (burnFees s totalFees).2.1 := by
    unfold burnFees
    split
    · next hzero =>
      rw [hzero]
      exact (BitVec.sub_zero 0).symm
    · rfl
  rw [hportion, BitVec.toNat_sub_of_le hle]
  omega

end Economics

/-- The two pallets burn the same part of the fees, and each keeps the rest for the miner. -/
structure BurnsAgree (utxo : Utxo.Storage) (economics : Economics.Storage) : Prop where
  burned : Utxo.recordedBurn utxo = (Economics.burnFees economics utxo.accumulatedFees).2.1
  utxoSum : (Utxo.recordedBurn utxo).toNat + (Utxo.finalizeFeesWithBurn utxo).1.toNat =
    utxo.accumulatedFees.toNat
  economicsSum : (Economics.burnFees economics utxo.accumulatedFees).2.1.toNat +
    (Economics.burnFees economics utxo.accumulatedFees).1.toNat = utxo.accumulatedFees.toNat

/-- They agree for the even sums whose fiftyfold fits 128 bits: one rounds half a unit up, the other
down. -/
theorem burnsAgree_iff (utxo : Utxo.Storage) (economics : Economics.Storage) :
    BurnsAgree utxo economics ↔
      2 ∣ utxo.accumulatedFees.toNat ∧ utxo.accumulatedFees.toNat * 50 < 2 ^ 128 := by
  have hlt := utxo.accumulatedFees.isLt
  have hutxo := Utxo.toNat_recordedBurn utxo
  have heconomics := Economics.toNat_burned economics utxo.accumulatedFees
  constructor
  · intro h
    have hburned := congrArg BitVec.toNat h.burned
    rw [hutxo, heconomics] at hburned
    split at hburned
    · omega
    · omega
  · intro h
    refine ⟨?_, Utxo.recordedBurn_add_share utxo, Economics.burned_add_portion economics _⟩
    apply BitVec.eq_of_toNat_eq
    rw [hutxo, heconomics, if_neg (by omega), Nat.mod_eq_of_lt h.2]
    omega

/-- One base unit of fees: the first pallet burns it, the second pays it to the miner. -/
theorem burns_disagree_on_one :
    let utxo := { Utxo.genesisBuild [] with accumulatedFees := 1 }
    let economics := Economics.genesisBuild 0
    (Utxo.recordedBurn utxo).toNat = 1 ∧
      (Economics.burnFees economics utxo.accumulatedFees).2.1.toNat = 0 ∧
      ¬ BurnsAgree utxo economics := by
  refine ⟨by decide, by decide, ?_⟩
  intro h
  exact absurd h.burned (by decide)

end Qubitcoin.Substrate
