import Qubitcoin.Substrate.Consensus
import Qubitcoin.Substrate.UtxoLaws

/-! What an accepted mining proof passed, and what it pays. -/

namespace Qubitcoin.Substrate.Consensus

open Utxo (Movement)

variable {host : Host} {block : BlockContext} {p p' : Pallets} {proof : VqeProof}
  {pubkey : H256} {signature : Bytes}

/-- A proof is accepted if it passes the checks before the rate limit, the rate
limit and the checks of its energy. -/
theorem submitMiningProof_eq_ok :
    submitMiningProof host block p proof pubkey signature = .ok p' ↔
      checkProof host block p proof pubkey signature = .ok ⟨⟩ ∧
      p.consensus.lastMinerBlock.value 0 (pubkeyToAddress host pubkey)
        < p.utxo.currentHeight + 1 ∧
      ∃ energy, checkEnergy host block p proof = .ok energy ∧
        p' = {
          economics := (payMiner host block p (pubkeyToAddress host pubkey)).1
          utxo := (payMiner host block p (pubkeyToAddress host pubkey)).2
          consensus := recordProof host block p.consensus proof energy
            (pubkeyToAddress host pubkey) (p.utxo.currentHeight + 1) } := by
  simp only [submitMiningProof]
  rw [Checked.bind_eq_ok]
  constructor
  · rintro ⟨⟨⟩, hproof, h⟩
    obtain ⟨hrate, h⟩ := Checked.ensure_bind_eq_ok.mp h
    obtain ⟨energy, henergy, h⟩ := Checked.bind_eq_ok.mp h
    cases h
    exact ⟨hproof, hrate, energy, henergy, rfl⟩
  · rintro ⟨hproof, hrate, energy, henergy, rfl⟩
    refine ⟨⟨⟩, hproof, Checked.ensure_bind_eq_ok.mpr ⟨hrate, ?_⟩⟩
    rw [henergy]
    rfl

theorem pruneProofHashes_lastMinerBlock (fuel : Nat) (s : Storage) :
    (pruneProofHashes host fuel s).lastMinerBlock = s.lastMinerBlock := by
  induction fuel generalizing s with
  | zero => rfl
  | succ fuel ih =>
    simp only [pruneProofHashes]
    split
    · rfl
    · split
      · rfl
      · rw [ih]

theorem adjustDifficulty_lastMinerBlock (s : Storage) (timestampMs : U64) (h : BlockHeight) :
    (adjustDifficulty s timestampMs h).lastMinerBlock = s.lastMinerBlock := by
  simp only [adjustDifficulty]
  split
  · rfl
  · rfl

/-- The rate limit's map moves for the miner of the proof only. -/
theorem recordProof_lastMinerBlock (s : Storage) (energy : Int) (miner : Address)
    (h : BlockHeight) :
    (recordProof host block s proof energy miner h).lastMinerBlock =
      s.lastMinerBlock.insert miner h := by
  simp only [recordProof, storeProofHash, storeSolution, pruneProofHashes_lastMinerBlock,
    adjustDifficulty_lastMinerBlock]
  rfl

def blockReward (p : Pallets) : QbcBalance :=
  Economics.calculateReward p.economics (p.utxo.currentHeight + 1)

def coinbaseUtxo (host : Host) (block : BlockContext) (p : Pallets) (miner : Address) :
    Utxo where
  txid := coinbaseTxid host (p.utxo.currentHeight + 1) block.parentHash
  vout := 0
  address := miner
  amount := (blockReward p).saturatingAdd (Utxo.finalizeFeesWithBurn p.utxo).1
  blockHeight := p.utxo.currentHeight + 1
  isCoinbase := true

theorem payMiner_ledger (miner : Address) :
    (payMiner host block p miner).2.toLedger =
      p.utxo.toLedger.transfer [] [coinbaseUtxo host block p miner] := by
  change (Utxo.finalizeFeesWithBurn p.utxo).2.toLedger.put _ = _
  rw [Utxo.finalizeFeesWithBurn_ledger]
  rfl

theorem payMiner_height (miner : Address) :
    (payMiner host block p miner).2.currentHeight = p.utxo.currentHeight + 1 := rfl

theorem payMiner_economics (miner : Address) :
    (payMiner host block p miner).1 =
      Economics.onBlockAuthored p.economics (p.utxo.currentHeight + 1) := rfl

/-- The coinbase carries the reward and the fees that were not burned. -/
theorem payMiner_movement (miner : Address) :
    Movement p.utxo (payMiner host block p miner).2 [] [coinbaseUtxo host block p miner]
      (blockReward p).toNat := by
  obtain ⟨burn, hburn, hshare, hfees, hburned⟩ := Utxo.finalizeFeesWithBurn_value p.utxo
  have hamount : Ledger.worth [coinbaseUtxo host block p miner] =
      min ((blockReward p).toNat + (Utxo.finalizeFeesWithBurn p.utxo).1.toNat)
        (2 ^ 128 - 1) :=
    BitVec.toNat_saturatingAdd _ _
  have hfees' : (payMiner host block p miner).2.accumulatedFees.toNat = 0 := hfees
  have hburned' : (payMiner host block p miner).2.totalFeesBurned.toNat =
      min (p.utxo.totalFeesBurned.toNat + burn) (2 ^ 128 - 1) := hburned
  constructor
  · exact ⟨List.nodup_nil, fun _ h => absurd h List.not_mem_nil⟩
  · exact List.nodup_singleton _
  · exact payMiner_ledger miner
  · rw [hamount, hfees', hburned', hshare, List.map_nil, Ledger.worth_nil]
    omega
  · intro hfits
    rw [Utxo.Storage.supply] at hfits
    rw [hamount, hfees', hburned', hshare, List.map_nil, Ledger.worth_nil]
    omega

end Qubitcoin.Substrate.Consensus
