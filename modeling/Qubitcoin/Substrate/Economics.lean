import Qubitcoin.Substrate.Primitives

/-! `pallet-qbc-economics`: phi-halving rewards, the supply counter and the fee burn. -/

namespace Qubitcoin.Substrate.Economics

structure Storage where
  totalEmitted : QbcBalance
  currentEra : U32
  eraStartBlock : BlockHeight
  supplyMigrationDone : Bool
  totalFeesBurned : QbcBalance := 0

def genesisBuild (initialEmitted : QbcBalance) : Storage where
  totalEmitted := initialEmitted
  currentEra := 0
  eraStartBlock := 0
  supplyMigrationDone := false

def additionalEmitted : U128 := 122160000000000

@[simp] theorem toNat_additionalEmitted : additionalEmitted.toNat = 122160000000000 := rfl

/-- The one-shot migration. -/
def onRuntimeUpgrade (s : Storage) : Storage :=
  if s.supplyMigrationDone then s
  else
    { s with
      totalEmitted := s.totalEmitted.saturatingAdd additionalEmitted
      supplyMigrationDone := true }

def maxEra : U32 := 100

/-- `reward * PHI_DENOM / PHI_SCALED`, divided first so as not to overflow. -/
def divPhi (reward : U128) : U128 :=
  ((reward / phiScaled).saturatingMul phiDenom).saturatingAdd
    ((reward % phiScaled).saturatingMul phiDenom / phiScaled)

/-- The halving loop; it stops early at the smallest unit. -/
def phiHalving : Nat → U128 → U128
  | 0, reward => reward
  | eras + 1, reward =>
    let reward := divPhi reward
    if reward < phiDenom then phiDenom else phiHalving eras reward

def eraOf (blockHeight : BlockHeight) : U32 := BitVec.ofNat 32 (blockHeight / halvingInterval)

def phiReward (blockHeight : BlockHeight) : QbcBalance :=
  if eraOf blockHeight = 0 then initialReward
  else
    let cappedEra := min (eraOf blockHeight) maxEra
    max (phiHalving cappedEra.toNat (initialReward * phiDenom) / phiDenom) 1

/-- The reward before the cap: phi-halving with the tail emission as its floor. -/
def baseReward (blockHeight : BlockHeight) : QbcBalance :=
  if phiReward blockHeight < tailEmissionReward then tailEmissionReward else phiReward blockHeight

def calculateReward (s : Storage) (blockHeight : BlockHeight) : QbcBalance :=
  let remaining := maxSupply.saturatingSub s.totalEmitted
  if remaining = 0 then 0 else min (baseReward blockHeight) remaining

def onBlockAuthored (s : Storage) (blockHeight : BlockHeight) : Storage :=
  let reward := calculateReward s blockHeight
  let s := { s with totalEmitted := min (s.totalEmitted.saturatingAdd reward) maxSupply }
  if s.currentEra < eraOf blockHeight then
    { s with currentEra := eraOf blockHeight, eraStartBlock := blockHeight }
  else s

/-- The miner's portion, the burned amount and the storage that has counted it. -/
def burnFees (s : Storage) (totalFees : QbcBalance) : QbcBalance × QbcBalance × Storage :=
  if totalFees = 0 then (0, 0, s)
  else
    let burned := totalFees * feeBurnPercentage.setWidth 128 / 100
    let minerPortion := totalFees - burned
    (minerPortion, burned, { s with totalFeesBurned := s.totalFeesBurned.saturatingAdd burned })

theorem calculateReward_le (s : Storage) (h : BlockHeight) :
    (calculateReward s h).toNat ≤ maxSupply.toNat - s.totalEmitted.toNat := by
  rw [← BitVec.toNat_saturatingSub]
  simp only [calculateReward]
  split
  · simp
  · rw [BitVec.toNat_min]
    exact Nat.min_le_right _ _

theorem onBlockAuthored_totalEmitted (s : Storage) (h : BlockHeight) :
    (onBlockAuthored s h).totalEmitted.toNat =
      min (s.totalEmitted.toNat + (calculateReward s h).toNat) maxSupply.toNat := by
  have hemitted : (onBlockAuthored s h).totalEmitted =
      min (s.totalEmitted.saturatingAdd (calculateReward s h)) maxSupply := by
    simp only [onBlockAuthored]
    split <;> rfl
  have hmax : maxSupply.toNat ≤ 2 ^ 128 - 1 := by rw [toNat_maxSupply]; norm_num
  rw [hemitted, BitVec.toNat_min, BitVec.toNat_saturatingAdd, Nat.min_assoc,
    Nat.min_eq_right hmax]

/-- Below the cap the counter moves by exactly the reward. -/
theorem onBlockAuthored_of_le {s : Storage} (hcap : s.totalEmitted.toNat ≤ maxSupply.toNat)
    (h : BlockHeight) :
    (onBlockAuthored s h).totalEmitted.toNat =
      s.totalEmitted.toNat + (calculateReward s h).toNat := by
  have hreward := calculateReward_le s h
  rw [onBlockAuthored_totalEmitted]
  omega

theorem onBlockAuthored_le (s : Storage) (h : BlockHeight) :
    (onBlockAuthored s h).totalEmitted.toNat ≤ maxSupply.toNat := by
  rw [onBlockAuthored_totalEmitted]
  exact Nat.min_le_right _ _

end Qubitcoin.Substrate.Economics
