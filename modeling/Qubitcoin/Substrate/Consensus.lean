import Mathlib.Data.Nat.Digits.Defs
import Qubitcoin.Substrate.Economics
import Qubitcoin.Substrate.Utxo

/-! `pallet-qbc-consensus`: validation of mining proofs, the coinbase they earn
and the difficulty adjustment. -/

namespace Qubitcoin.Substrate.Consensus

inductive Error
  | energyAboveDifficulty | invalidHamiltonianSeed | invalidVqeParams | invalidMinerAddress
  | duplicateProof | minerRateLimited | energyVerificationFailed | invalidMinerSignature
  deriving DecidableEq

def susyRetentionWindow : Nat := 100000
def difficultyFloor : Difficulty := 500000
def difficultyCeiling : Difficulty := 1000000000
def difficultyMeaningfulMax : Difficulty := 10000000
def difficultyResetHeights : List BlockHeight := [167, 724, 2750, 215469]
def energyValidationTolerance : Int := 1000
def maxRecentProofHashes : U32 := 1000

abbrev Timestamps := BoundedVec U64 (difficultyWindow + 1)

structure Storage where
  currentDifficulty : Difficulty
  blockTimestamps : Timestamps
  lastMiner : Option Address
  blocksMined : U64
  susySolutions : StorageMap BlockHeight VqeProof
  recentProofHashes : StorageMap BlockHeight (Finset H256)
  recentProofHashCount : U32
  proofHashOldestBlock : BlockHeight
  lastMinerBlock : StorageMap Address BlockHeight
  networkTheta : Int
  networkAlpha : Int

def genesisBuild (initialDifficulty : Difficulty) : Storage where
  currentDifficulty := initialDifficulty
  blockTimestamps := .empty
  lastMiner := none
  blocksMined := 0
  susySolutions := ∅
  recentProofHashes := ∅
  recentProofHashCount := 0
  proofHashOldestBlock := 0
  lastMinerBlock := ∅
  networkTheta := 0
  networkAlpha := 0

/-- What the block being built tells the pallet. -/
structure BlockContext where
  parentHash : H256
  now : U64

def hexChar (n : Nat) : UInt8 := UInt8.ofNat (if n < 10 then 48 + n else 87 + n)

def bytesToHex (bytes : Bytes) : Bytes :=
  bytes.flatMap fun b => [hexChar (b.toNat / 16), hexChar (b.toNat % 16)]

def u64ToDecimalBytes (n : Nat) : Bytes :=
  if n = 0 then [48] else ((Nat.digits 10 n).map fun d => UInt8.ofNat (48 + d)).reverse

def miningProofSigningMessage (proof : VqeProof) : Bytes :=
  ascii "qbc-mining-v1:" ++ h256Code.encode proof.hamiltonianSeed
    ++ Bytes.le 16 proof.energy.toNat
    ++ proof.params.val.flatMap (fun p => Bytes.le 8 p.toNat) ++ [proof.nQubits]

def coinbasePreimage (blockHeight : BlockHeight) (parentHash : H256) : Bytes :=
  ascii "coinbase-" ++ u64ToDecimalBytes blockHeight ++ ascii "-"
    ++ bytesToHex (h256Code.encode parentHash)

def seedPreimage (parentHash : H256) (blockHeight : BlockHeight) : Bytes :=
  bytesToHex (h256Code.encode parentHash) ++ ascii ":" ++ u64ToDecimalBytes blockHeight

def proofPreimage (proof : VqeProof) (miner : Address) (blockHeight : BlockHeight) : Bytes :=
  ascii "mining-proof-v1:" ++ h256Code.encode proof.hamiltonianSeed
    ++ Bytes.le 16 proof.energy.toNat ++ [proof.nQubits]
    ++ proof.params.val.flatMap (fun p => Bytes.le 8 p.toNat)
    ++ h256Code.encode miner.bytes ++ Bytes.le 8 blockHeight

section Host

variable (host : Host)

def pubkeyToAddress (pubkey : H256) : Address := ⟨host.sha2_256 (h256Code.encode pubkey)⟩

def deriveHamiltonianSeed (parentHash : H256) (blockHeight : BlockHeight) : H256 :=
  host.sha2_256 (seedPreimage parentHash blockHeight)

def computeProofHash (proof : VqeProof) (miner : Address) (blockHeight : BlockHeight) : H256 :=
  host.sha2_256 (proofPreimage proof miner blockHeight)

def coinbaseTxid (blockHeight : BlockHeight) (parentHash : H256) : TxId :=
  host.sha2_256 (coinbasePreimage blockHeight parentHash)

end Host

/-- A full window drops its oldest timestamp. -/
def pushTimestamp (timestamps : Timestamps) (timestampMs : U64) : Timestamps :=
  match timestamps.tryPush timestampMs with
  | some pushed => pushed
  | none => ((timestamps.remove 0).tryPush timestampMs).getD (timestamps.remove 0)

/-- The difficulty the window of timestamps calls for, or the old one. -/
def windowDifficulty (old : Difficulty) (timestamps : List U64) : Difficulty :=
  let len := timestamps.length
  if len < 2 then old
  else
    let windowSize := min len difficultyWindow
    let oldest := timestamps.getD (len - windowSize) 0
    let newest := timestamps.getD (len - 1) 0
    let actualTimeMs := newest.saturatingSub oldest
    let expectedTimeMs := (BitVec.ofNat 64 windowSize - 1) * targetBlockTimeMs
    if expectedTimeMs = 0 then old
    else
      let ratio := actualTimeMs * 100 / expectedTimeMs
      let ratio := if 100 < ratio ∧ difficultyMeaningfulMax < old then 100 else ratio
      let clamped := min (max ratio minAdjustmentFactor) maxAdjustmentFactor
      let new : Difficulty := BitVec.ofNat 64 (old.toNat * clamped.toNat / 100)
      min (max new difficultyFloor) difficultyCeiling

def adjustDifficulty (s : Storage) (timestampMs : U64) (blockHeight : BlockHeight) : Storage :=
  let timestamps := pushTimestamp s.blockTimestamps timestampMs
  if blockHeight ∈ difficultyResetHeights then
    { s with currentDifficulty := initialDifficulty, blockTimestamps := timestamps }
  else
    { s with
      currentDifficulty := windowDifficulty s.currentDifficulty timestamps.val
      blockTimestamps := timestamps }

def storeSolution (s : Storage) (blockHeight : BlockHeight) (proof : VqeProof) : Storage :=
  let solutions := s.susySolutions.insert blockHeight proof
  { s with
    susySolutions :=
      if susyRetentionWindow < blockHeight then
        solutions.erase (blockHeight - susyRetentionWindow)
      else solutions }

/-- The pruning loop.  A round that removes nothing ends it and any other lowers
the count, so the count itself is fuel enough. -/
def pruneProofHashes (host : Host) : Nat → Storage → Storage
  | 0, s => s
  | fuel + 1, s =>
    if s.recentProofHashCount ≤ maxRecentProofHashes then s
    else
      let oldest := s.proofHashOldestBlock
      let (unique, loops) := host.clearPrefix (s.recentProofHashes.value ∅ oldest).card
      let removed := (BitVec.ofNat 32 unique).saturatingAdd (BitVec.ofNat 32 loops)
      let s := { s with
        recentProofHashes := s.recentProofHashes.erase oldest
        recentProofHashCount := s.recentProofHashCount.saturatingSub removed
        proofHashOldestBlock := oldest + 1 }
      if removed = 0 then s else pruneProofHashes host fuel s

def storeProofHash (host : Host) (s : Storage) (blockHeight : BlockHeight) (proofHash : H256) :
    Storage :=
  let count := s.recentProofHashCount.saturatingAdd 1
  pruneProofHashes host count.toNat { s with
    recentProofHashes := s.recentProofHashes.insert blockHeight
      (insert proofHash (s.recentProofHashes.value ∅ blockHeight))
    recentProofHashCount := count }

/-- The three pallets a mining proof writes to. -/
structure Pallets where
  economics : Economics.Storage
  utxo : Utxo.Storage
  consensus : Storage

section Mining

variable (host : Host) (block : BlockContext)

def difficultyThreshold (s : Storage) : Int := (s.currentDifficulty.toNat : Int) * 1000000

/-- The checks that come before the rate limit. -/
def checkProof (p : Pallets) (proof : VqeProof) (pubkey : H256) (signature : Bytes) :
    Except Error Unit := do
  ensure (host.ed25519Verify signature (miningProofSigningMessage proof)
    (h256Code.encode pubkey) = true) .invalidMinerSignature
  let blockHeight := p.utxo.currentHeight + 1
  ensure (0 < proof.nQubits) .invalidVqeParams
  ensure (proof.params.val ≠ []) .invalidVqeParams
  ensure (proof.hamiltonianSeed = deriveHamiltonianSeed host block.parentHash blockHeight)
    .invalidHamiltonianSeed
  ensure (computeProofHash host proof (pubkeyToAddress host pubkey) blockHeight ∉
    p.consensus.recentProofHashes.value ∅ blockHeight) .duplicateProof

/-- The checks that come after the rate limit; they yield the recomputed energy. -/
def checkEnergy (p : Pallets) (proof : VqeProof) : Except Error Int := do
  let threshold := difficultyThreshold p.consensus
  ensure (proof.energy.toInt < threshold + energyValidationTolerance * 1000000)
    .energyAboveDifficulty
  let seed := deriveHamiltonianSeed host block.parentHash (p.utxo.currentHeight + 1)
  let computedEnergy ← (host.computeEnergyVersioned seed proof.params.val
    p.consensus.networkTheta hamiltonianV2).okOr .invalidVqeParams
  ensure (computedEnergy < threshold) .energyAboveDifficulty
  return computedEnergy

def advancePhase (s : Storage) (params : List U64) : Storage :=
  { s with
    networkTheta := (s.networkTheta + thetaAdvancePerBlock).tmod twoPiScaled
    networkAlpha := (s.networkAlpha * 9 + host.geometricWeightScaled params).tdiv 10 }

/-- The reward and the fee share are paid out and the height moves on. -/
def payMiner (p : Pallets) (minerAddress : Address) : Economics.Storage × Utxo.Storage :=
  let blockHeight := p.utxo.currentHeight + 1
  let reward := Economics.calculateReward p.economics blockHeight
  let (minerFeeShare, utxo) := Utxo.finalizeFeesWithBurn p.utxo
  let utxo := Utxo.createCoinbase utxo (coinbaseTxid host blockHeight block.parentHash)
    minerAddress (reward.saturatingAdd minerFeeShare) blockHeight
  (Economics.onBlockAuthored p.economics blockHeight, Utxo.setBlockHeight utxo blockHeight)

/-- What an accepted proof leaves in the pallet's own storage. -/
def recordProof (s : Storage) (proof : VqeProof) (computedEnergy : Int) (minerAddress : Address)
    (blockHeight : BlockHeight) : Storage :=
  let proofHash := computeProofHash host proof minerAddress blockHeight
  let s := adjustDifficulty (advancePhase host s proof.params.val) block.now blockHeight
  let s := storeSolution s blockHeight { proof with energy := BitVec.ofInt 128 computedEnergy }
  let s := storeProofHash host s blockHeight proofHash
  { s with
    lastMinerBlock := s.lastMinerBlock.insert minerAddress blockHeight
    lastMiner := some minerAddress
    blocksMined := s.blocksMined.saturatingAdd 1 }

def submitMiningProof (p : Pallets) (proof : VqeProof) (pubkey : H256) (signature : Bytes) :
    Except Error Pallets := do
  checkProof host block p proof pubkey signature
  let minerAddress := pubkeyToAddress host pubkey
  let blockHeight := p.utxo.currentHeight + 1
  ensure (p.consensus.lastMinerBlock.value 0 minerAddress < blockHeight) .minerRateLimited
  let computedEnergy ← checkEnergy host block p proof
  let (economics, utxo) := payMiner host block p minerAddress
  return {
    economics := economics
    utxo := utxo
    consensus := recordProof host block p.consensus proof computedEnergy minerAddress blockHeight }

end Mining

end Qubitcoin.Substrate.Consensus
