import Qubitcoin.Substrate.Conservation

/-! The rate limit of the mining pallet.  It compares the next height with that of
the miner's last proof, and every accepted proof moves the next height on. -/

namespace Qubitcoin.Substrate

open Utxo (Movement)
open WriteLog (Write)

abbrev Extrinsic := Origin × Call

variable (host : Host)

def applyExtrinsic (s : State) (e : Extrinsic) : State := step host s (.extrinsic e.1 e.2)

/-- The extrinsics of one block, one after the other. -/
def applyBlock (s : State) (es : List Extrinsic) : State :=
  Machine.run (applyExtrinsic host) s es

def paysCoinbase (miner : Address) (u : Utxo) : Bool := u.isCoinbase && decide (u.address = miner)

def writesCoinbase (miner : Address) : Write OutPoint Utxo → Bool
  | .insert _ u => paysCoinbase miner u
  | .remove _ _ => false

/-- The coinbases a miner has received so far. -/
def coinbases (s : State) (miner : Address) : Nat := s.utxo.writes.countP (writesCoinbase miner)

def submitter : Call → List Address
  | .submitMiningProof _ pubkey _ => [Consensus.pubkeyToAddress host pubkey]
  | _ => []

/-- How far a miner's own submissions raise the height in a block. -/
def heightRise (miner : Address) (s : State) : List Extrinsic → Nat
  | [] => 0
  | e :: es =>
    (if miner ∈ submitter host e.2 then
      (applyExtrinsic host s e).utxo.currentHeight - s.utxo.currentHeight else 0) +
      heightRise miner (applyExtrinsic host s e) es

def lastMinerBlock (s : State) (miner : Address) : BlockHeight :=
  s.consensus.lastMinerBlock.value 0 miner

/-- A submission that passes every check but the rate limit. -/
def Qualifies (s : State) (miner : Address) (e : Extrinsic) : Prop :=
  ∃ proof pubkey signature energy, e = (.none, .submitMiningProof proof pubkey signature) ∧
    Consensus.pubkeyToAddress host pubkey = miner ∧
    Consensus.checkProof host s.block s.pallets proof pubkey signature = .ok ⟨⟩ ∧
    Consensus.checkEnergy host s.block s.pallets proof = .ok energy

/-- The miner an extrinsic rewards, if it does. -/
def rewarded (s : State) (e : Extrinsic) : List Address :=
  match dispatch host s e.1 e.2 with
  | .ok _ => submitter host e.2
  | .error _ => []

/-- No miner's last proof lies above the height. -/
def MinersBehind (s : State) : Prop := ∀ miner, lastMinerBlock s miner ≤ s.utxo.currentHeight

/-- What an extrinsic does to the heights and the coinbases of the miners, with the
miner it rewards. -/
inductive Rewards (s s' : State) : List Address → Prop
  | none (height : s'.utxo.currentHeight = s.utxo.currentHeight)
      (last : ∀ miner, lastMinerBlock s' miner = lastMinerBlock s miner)
      (paid : ∀ miner, coinbases s' miner = coinbases s miner) : Rewards s s' []
  | one {miner : Address} (height : s'.utxo.currentHeight = s.utxo.currentHeight + 1)
      (last : ∀ other, lastMinerBlock s' other =
        if other = miner then s.utxo.currentHeight + 1 else lastMinerBlock s other)
      (paid : ∀ other, coinbases s' other =
        coinbases s other + if other = miner then 1 else 0) : Rewards s s' [miner]

variable {host : Host} {s s' : State} {miner : Address}

theorem coinbases_of_movement {spent : List (OutPoint × Utxo)} {made : List Utxo}
    {reward : Nat} (m : Movement s.utxo s'.utxo spent made reward) (miner : Address) :
    coinbases s' miner = coinbases s miner + made.countP (paysCoinbase miner) := by
  have hremoved : (spent.map fun p => (Write.remove p.1 p.2 : Write OutPoint Utxo)).countP
      (writesCoinbase miner) = 0 := by
    simp [List.countP_eq_zero, writesCoinbase]
  rw [coinbases, m.ledger, Ledger.writes_transfer, List.countP_append,
    List.countP_append, hremoved, List.countP_map]
  rfl

/-- Only a coinbase mint pays coinbases. -/
theorem coinbases_of_effect {ms : List Mint} (h : Effect host s s' ms)
    (hms : ∀ m ∈ ms, m.kind ≠ .coinbase) (miner : Address) :
    coinbases s' miner = coinbases s miner := by
  cases h with
  | still moved => exact coinbases_of_movement moved miner
  | transaction accepted moved =>
    rw [coinbases_of_movement moved, Nat.add_eq_left, List.countP_eq_zero]
    intro u hu
    obtain ⟨i, hi, rfl⟩ := List.mem_mapIdx.mp hu
    exact Bool.false_ne_true
  | coinbase moved height => exact absurd rfl (hms _ (List.mem_singleton_self _))
  | reversal lookup pending targets moved executed =>
    rw [coinbases_of_movement moved, Nat.add_eq_left, List.countP_eq_zero]
    intro u hu
    rw [Reversibility.eq_of_mem_madeReversal hu]
    exact Bool.false_ne_true

theorem kind_of_approveReversal (host : Host) (s : State) (origin : Origin) (requestId : H256) :
    ∀ m ∈ Call.mints host s origin (.approveReversal requestId), m.kind ≠ .coinbase := by
  simp only [Call.mints]
  split
  · simp [Mint.kind]
  · simp

theorem Rewards.of_dispatch {origin : Origin} {call : Call}
    (heq : dispatch host s origin call = .ok s') : Rewards s s' (submitter host call) := by
  have heffect := step_effect host s (.extrinsic origin call)
  simp only [step, minted, heq] at heffect
  cases dispatch_ok heq with
  | @submitMiningProof proof pubkey signature p h =>
    obtain ⟨_, _, energy, _, rfl⟩ := Consensus.submitMiningProof_eq_ok.mp h
    apply Rewards.one
    · rfl
    · intro other
      change StorageMap.value 0 (Consensus.recordProof host s.block s.consensus proof energy
        (Consensus.pubkeyToAddress host pubkey) (s.utxo.currentHeight + 1)).lastMinerBlock
        other = _
      rw [Consensus.recordProof_lastMinerBlock]
      split
      · next heq => rw [heq, StorageMap.value_insert]
      · next hne => exact StorageMap.value_insert_ne _ _ _ hne
    · intro other
      rw [coinbases_of_movement (Consensus.payMiner_movement (p := s.pallets) _)]
      congr 1
      rw [List.countP_singleton, paysCoinbase]
      simp [Consensus.coinbaseUtxo, eq_comm]
  | submitTransaction h =>
    obtain ⟨_, _, _, _, _, rfl⟩ := Utxo.submitTransaction_ok h
    refine Rewards.none rfl (fun _ => rfl) ?_
    apply coinbases_of_effect heffect
    simp [Call.mints, Mint.kind]
  | approveReversal h =>
    refine Rewards.none (approveReversal_height h) (fun _ => rfl) ?_
    exact coinbases_of_effect heffect (kind_of_approveReversal host s _ _)
  | _ => exact .none rfl (fun _ => rfl) fun _ => rfl

theorem applyExtrinsic_rewards (host : Host) (s : State) (e : Extrinsic) :
    Rewards s (applyExtrinsic host s e) (rewarded host s e) := by
  obtain ⟨origin, call⟩ := e
  cases h : dispatch host s origin call with
  | ok s' =>
    simp only [applyExtrinsic, step, rewarded, h]
    exact .of_dispatch h
  | error e =>
    simp only [applyExtrinsic, step, rewarded, h]
    exact .none rfl (fun _ => rfl) fun _ => rfl

/-! ## The limit never refuses -/

theorem MinersBehind.of_rewards {ms : List Address} (hs : MinersBehind s)
    (h : Rewards s s' ms) : MinersBehind s' := by
  intro miner
  have hle := hs miner
  cases h with
  | none height last paid => rwa [last, height]
  | one height last paid =>
    rw [last, height]
    split
    · exact le_rfl
    · exact Nat.le_succ_of_le hle

theorem minersBehind_step (host : Host) (s : State) (i : Step) (hs : MinersBehind s) :
    MinersBehind (step host s i) := by
  cases i with
  | extrinsic origin call => exact hs.of_rewards (applyExtrinsic_rewards host s (origin, call))
  | newBlock parentHash now =>
    intro miner
    exact (hs miner).trans (step_height_le host s (.newBlock parentHash now))
  | runtimeUpgrade => exact hs

theorem minersBehind_run (host : Host) (g : GenesisConfig) (steps : List Step) :
    MinersBehind (run host g steps) :=
  Machine.run_induction (minersBehind_step host) (fun _ => Nat.zero_le _) steps

/-- The next height is above every miner's last proof, so whatever passes the other
checks is rewarded. -/
theorem mem_rewarded_iff (hs : MinersBehind s) {e : Extrinsic} :
    miner ∈ rewarded host s e ↔ Qualifies host s miner e := by
  constructor
  · intro hmem
    obtain ⟨origin, call⟩ := e
    simp only [rewarded] at hmem
    split at hmem
    · next s' heq =>
      cases dispatch_ok heq with
      | submitMiningProof h =>
        obtain ⟨hproof, _, energy, henergy, _⟩ := Consensus.submitMiningProof_eq_ok.mp h
        exact ⟨_, _, _, energy, rfl, (List.mem_singleton.mp hmem).symm, hproof, henergy⟩
      | _ => cases hmem
    · cases hmem
  · rintro ⟨proof, pubkey, signature, energy, rfl, rfl, hproof, henergy⟩
    have hrate := Nat.lt_succ_of_le (hs (Consensus.pubkeyToAddress host pubkey))
    have hok := Consensus.submitMiningProof_eq_ok.mpr ⟨hproof, hrate, energy, henergy, rfl⟩
    simp only [rewarded, dispatch, ensureNone, Checked.ok_bind, hok, Checked.mapError_ok]
    exact List.mem_singleton_self _

/-! ## A block -/

/-- The miners rewarded in a block, in order. -/
def rewardedIn (host : Host) (s : State) (es : List Extrinsic) : List Address :=
  Machine.history (applyExtrinsic host) (rewarded host) s es

theorem rewardedIn_cons (host : Host) (s : State) (e : Extrinsic) (es : List Extrinsic) :
    rewardedIn host s (e :: es) =
      rewarded host s e ++ rewardedIn host (applyExtrinsic host s e) es := rfl

theorem count_singleton_eq (a b : Address) : List.count a [b] = if a = b then 1 else 0 := by
  rw [List.count_singleton, beq_eq_decide]
  simp [@eq_comm _ b a]

theorem coinbases_applyBlock (host : Host) (s : State) (miner : Address)
    (es : List Extrinsic) :
    coinbases (applyBlock host s es) miner =
      coinbases s miner + (rewardedIn host s es).count miner := by
  induction es generalizing s with
  | nil => rfl
  | cons e es ih =>
    have hrewards := applyExtrinsic_rewards host s e
    change coinbases (applyBlock host (applyExtrinsic host s e) es) miner = _
    rw [ih, rewardedIn_cons, List.count_append, ← Nat.add_assoc]
    congr 1
    generalize rewarded host s e = ms at hrewards
    cases hrewards with
    | none height last paid => exact paid miner
    | one height last paid =>
      rw [paid, count_singleton_eq]

theorem mem_submitter {origin : Origin} {call : Call} {m : Address} (h : m ∈ rewarded host s (origin, call)) :
    submitter host call = [m] := by
  unfold rewarded at h
  split at h
  · cases call with
    | submitMiningProof proof pubkey signature => rw [submitter, List.mem_singleton.mp h]
    | _ => cases h
  · cases h

theorem heightRise_eq (host : Host) (s : State) (miner : Address) (es : List Extrinsic) :
    heightRise host miner s es = (rewardedIn host s es).count miner := by
  induction es generalizing s with
  | nil => rfl
  | cons e es ih =>
    have hsubmitter : ∀ m ∈ rewarded host s e, submitter host e.2 = [m] :=
      fun m hm => mem_submitter hm
    have hrewards := applyExtrinsic_rewards host s e
    rw [heightRise, ih, rewardedIn_cons, List.count_append]
    congr 1
    generalize rewarded host s e = ms at hrewards hsubmitter
    cases hrewards with
    | none height last paid => simp [height]
    | @one other height last paid =>
      rw [hsubmitter other (List.mem_singleton_self _), height, count_singleton_eq]
      simp

theorem height_le_applyBlock (host : Host) (s : State) (es : List Extrinsic) :
    s.utxo.currentHeight ≤ (applyBlock host s es).utxo.currentHeight := by
  induction es generalizing s with
  | nil => exact le_rfl
  | cons e es ih => exact (step_height_le host s _).trans (ih _)

/-- A miner has been rewarded in the block once its last proof lies above the height
the block began at. -/
theorem mem_rewardedIn_iff (hs : MinersBehind s) (es : List Extrinsic) :
    miner ∈ rewardedIn host s es ↔
      s.utxo.currentHeight < lastMinerBlock (applyBlock host s es) miner := by
  induction es using List.reverseRecOn with
  | nil => simpa [rewardedIn, Machine.history, applyBlock] using hs miner
  | append_singleton es e ih =>
    have hrewards := applyExtrinsic_rewards host (applyBlock host s es) e
    have hheight := height_le_applyBlock host s es
    rw [rewardedIn, Machine.history_snoc, applyBlock, Machine.run_append, List.mem_append]
    change miner ∈ rewardedIn host s es ∨ miner ∈ rewarded host (applyBlock host s es) e ↔
      _ < lastMinerBlock (applyExtrinsic host (applyBlock host s es) e) miner
    rw [ih]
    generalize rewarded host (applyBlock host s es) e = ms at hrewards
    cases hrewards with
    | none height last paid => simp [last]
    | one height last paid =>
      rw [last, List.mem_singleton]
      split
      · next heq => simp [heq, Nat.lt_succ_of_le hheight]
      · next hne => simp [hne]

theorem minersBehind_applyBlock (host : Host) (hs : MinersBehind s) (es : List Extrinsic) :
    MinersBehind (applyBlock host s es) :=
  Machine.run_induction (fun s e h => h.of_rewards (applyExtrinsic_rewards host s e)) hs es

theorem nodup_rewarded (host : Host) (s : State) (e : Extrinsic) : (rewarded host s e).Nodup := by
  have hrewards := applyExtrinsic_rewards host s e
  generalize rewarded host s e = ms at hrewards
  cases hrewards with
  | none height last paid => exact List.nodup_nil
  | one height last paid => exact List.nodup_singleton _

/-- Whatever the order of a block's extrinsics, it rewards each miner at most once if
and only if no submission that passes the other checks comes from a miner whose last
proof lies above the height the block began at. -/
theorem rewarded_once_iff (host : Host) (g : GenesisConfig) (steps : List Step)
    (block : List Extrinsic) :
    (∀ miner,
      coinbases (applyBlock host (run host g steps) block) miner ≤
        coinbases (run host g steps) miner + 1 ∧
      heightRise host miner (run host g steps) block ≤ 1) ↔
    ∀ before e, before ++ [e] <+: block → ∀ miner,
      Qualifies host (applyBlock host (run host g steps) before) miner e →
        lastMinerBlock (applyBlock host (run host g steps) before) miner ≤
          (run host g steps).utxo.currentHeight := by
  have hbehind := minersBehind_run host g steps
  generalize run host g steps = s at hbehind
  have honce : (∀ miner, coinbases (applyBlock host s block) miner ≤ coinbases s miner + 1 ∧
      heightRise host miner s block ≤ 1) ↔ (rewardedIn host s block).Nodup := by
    simp only [coinbases_applyBlock, heightRise_eq, Nat.add_le_add_iff_left, and_self,
      List.nodup_iff_count_le_one]
  rw [honce, rewardedIn, Machine.history_nodup_iff]
  apply forall₂_congr
  intro before e
  apply forall_congr'
  intro hle
  have hbefore := minersBehind_applyBlock host hbehind before
  constructor
  · rintro ⟨-, hapart⟩ miner hqualifies
    by_contra habove
    apply hapart ((mem_rewardedIn_iff hbehind before).mpr (Nat.lt_of_not_le habove))
    exact (mem_rewarded_iff hbefore).mpr hqualifies
  · intro h
    refine ⟨nodup_rewarded host _ e, ?_⟩
    intro miner hold hnew
    have hlast := (mem_rewardedIn_iff hbehind before).mp hold
    exact absurd (h miner ((mem_rewarded_iff hbefore).mp hnew)) (Nat.not_le_of_lt hlast)

theorem sample_rewarded_twice :
    coinbases (applyBlock Sample.host (run Sample.host Sample.genesis [.newBlock Sample.parentHash 0])
      [Sample.mineFirst, Sample.mineSecond]) Sample.minerAddress =
      coinbases (run Sample.host Sample.genesis [.newBlock Sample.parentHash 0])
        Sample.minerAddress + 2 ∧
    heightRise Sample.host Sample.minerAddress
      (run Sample.host Sample.genesis [.newBlock Sample.parentHash 0])
      [Sample.mineFirst, Sample.mineSecond] = 2 := by
  decide +kernel

end Qubitcoin.Substrate
