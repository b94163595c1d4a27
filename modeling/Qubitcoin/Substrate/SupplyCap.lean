import Qubitcoin.Substrate.Conservation

/-! The supply cap.  Rewards stop at the cap; the one-shot migration does not look
at it. -/

namespace Qubitcoin.Substrate

open Utxo (Movement)

variable {host : Host} {g : GenesisConfig} {s s' : State}

/-- The funds are covered by the emission, and the emission by the cap. -/
structure Capped (s : State) : Prop where
  covered : s.utxo.total + s.utxo.accumulatedFees.toNat + s.utxo.totalFeesBurned.toNat ≤
    s.economics.totalEmitted.toNat
  emitted : s.economics.totalEmitted.toNat ≤ maxSupply.toNat

/-- A migration that is still to run has room below the cap. -/
def MigrationFits (s : State) : Prop :=
  s.economics.supplyMigrationDone = false →
    s.economics.totalEmitted.toNat + Economics.additionalEmitted.toNat ≤ maxSupply.toNat

theorem onRuntimeUpgrade_totalEmitted (e : Economics.Storage) :
    (Economics.onRuntimeUpgrade e).totalEmitted.toNat =
      if e.supplyMigrationDone then e.totalEmitted.toNat
      else min (e.totalEmitted.toNat + Economics.additionalEmitted.toNat) (2 ^ 128 - 1) := by
  unfold Economics.onRuntimeUpgrade
  split
  · rfl
  · exact BitVec.toNat_saturatingAdd _ _

theorem Effect.moved {ms : List Mint} (h : Effect host s s' ms) :
    ∃ spent made, Movement s.utxo s'.utxo spent made (rewards ms) := by
  cases h with
  | still moved => exact ⟨_, _, moved⟩
  | transaction accepted moved => exact ⟨_, _, moved⟩
  | coinbase moved height => exact ⟨_, _, moved⟩
  | reversal lookup pending targets moved executed => exact ⟨_, _, moved⟩

theorem step_supply_le (host : Host) (s : State) (i : Step) :
    (step host s i).utxo.supply ≤ s.utxo.supply + rewards (minted host s i) := by
  obtain ⟨_, _, hmoved⟩ := (step_effect host s i).moved
  exact hmoved.supply_le

/-- What a step does to the emission, with the reward it pays. -/
inductive Emission (s s' : State) : Step → Nat → Prop
  | still {i : Step} (economics : s'.economics = s.economics) : Emission s s' i 0
  | rewarded {i : Step}
      (economics : s'.economics =
        Economics.onBlockAuthored s.economics (s.utxo.currentHeight + 1)) :
      Emission s s' i (Consensus.blockReward s.pallets).toNat
  | migrated (economics : s'.economics = Economics.onRuntimeUpgrade s.economics) :
      Emission s s' .runtimeUpgrade 0

theorem rewards_submitMiningProof (host : Host) (s : State) (origin : Origin) (proof : VqeProof)
    (pubkey : H256) (signature : Bytes) :
    rewards (Call.mints host s origin (.submitMiningProof proof pubkey signature)) =
      (Consensus.blockReward s.pallets).toNat := by
  simp [rewards, Call.mints, Mint.reward]

theorem rewards_approveReversal (host : Host) (s : State) (origin : Origin) (requestId : H256) :
    rewards (Call.mints host s origin (.approveReversal requestId)) = 0 := by
  simp only [Call.mints]
  split
  · rfl
  · rfl

theorem step_emission (host : Host) (s : State) (i : Step) :
    Emission s (step host s i) i (rewards (minted host s i)) := by
  apply step_cases (P := fun i s' => Emission s s' i (rewards (minted host s i)))
  · intro origin call s' heq h
    simp only [minted, heq]
    cases h with
    | submitMiningProof h =>
      obtain ⟨_, _, energy, _, rfl⟩ := Consensus.submitMiningProof_eq_ok.mp h
      rw [rewards_submitMiningProof]
      exact .rewarded rfl
    | approveReversal h =>
      rw [rewards_approveReversal]
      exact .still rfl
    | _ => exact .still rfl
  · intro origin call e heq
    simp only [minted, heq]
    exact .still rfl
  · intro parentHash now
    exact .still rfl
  · exact .migrated rfl

/-- A reward is emitted in full below the cap, and only a migration can pass it. -/
theorem Capped.step (h : Capped s) (i : Step)
    (hfits : i = .runtimeUpgrade → MigrationFits s) : Capped (step host s i) := by
  have hsupply := step_supply_le host s i
  have hemission := step_emission host s i
  have hcovered := h.covered
  have hemitted := h.emitted
  simp only [Utxo.Storage.supply] at hsupply
  generalize hreward : rewards (minted host s i) = reward at hsupply hemission
  cases hemission with
  | still economics =>
    constructor
    · rw [economics]
      omega
    · rw [economics]
      exact hemitted
  | rewarded economics =>
    have hnext : (Economics.onBlockAuthored s.economics
        (s.utxo.currentHeight + 1)).totalEmitted.toNat =
        s.economics.totalEmitted.toNat + (Consensus.blockReward s.pallets).toNat :=
      Economics.onBlockAuthored_of_le hemitted _
    constructor
    · rw [economics, hnext]
      omega
    · rw [economics]
      exact Economics.onBlockAuthored_le _ _
  | migrated economics =>
    have hroom := hfits rfl
    rw [MigrationFits, Economics.toNat_additionalEmitted] at hroom
    rw [toNat_maxSupply] at hroom hemitted
    constructor
    · rw [economics, onRuntimeUpgrade_totalEmitted, Economics.toNat_additionalEmitted]
      split
      · omega
      · omega
    · rw [economics, onRuntimeUpgrade_totalEmitted, Economics.toNat_additionalEmitted,
        toNat_maxSupply]
      split
      · exact hemitted
      · next hdone =>
        have hle := hroom (by simpa using hdone)
        omega

theorem capped_genesis (hworth : Ledger.worth g.genesisUtxos ≤ g.initialEmitted.toNat)
    (hcap : g.initialEmitted.toNat ≤ maxSupply.toNat) : Capped g.build where
  covered := by
    have htotal := Ledger.total_putAll_le .empty g.genesisUtxos
    rw [← genesis_ledger] at htotal
    have hfees : g.build.utxo.accumulatedFees = 0 ∧ g.build.utxo.totalFeesBurned = 0 := by
      simp [GenesisConfig.build, Utxo.genesisBuild, Utxo.foldl_putUtxo]
    rw [hfees.1, hfees.2]
    exact htotal.trans ((Nat.zero_add _).trans_le hworth)
  emitted := hcap

/-- A migration without room breaks the cap at once. -/
theorem MigrationFits.of_capped (h : Capped (step host s .runtimeUpgrade)) :
    MigrationFits s := by
  intro hdone
  have hemitted := h.emitted
  change (Economics.onRuntimeUpgrade s.economics).totalEmitted.toNat ≤ _ at hemitted
  rw [onRuntimeUpgrade_totalEmitted, hdone, Economics.toNat_additionalEmitted,
    toNat_maxSupply] at hemitted
  rw [Economics.toNat_additionalEmitted, toNat_maxSupply]
  simp at hemitted
  omega

/-- The cap holds throughout a run if and only if the migration finds room for its
emission whenever it runs. -/
theorem capped_iff_migrationFits (host : Host) (g : GenesisConfig) (steps : List Step)
    (hworth : Ledger.worth g.genesisUtxos ≤ g.initialEmitted.toNat)
    (hcap : g.initialEmitted.toNat ≤ maxSupply.toNat) :
    (∀ before, before <+: steps → Capped (run host g before)) ↔
      ∀ before, before ++ [.runtimeUpgrade] <+: steps → MigrationFits (run host g before) := by
  constructor
  · intro h before hle
    have hcapped := h _ hle
    rw [run_snoc] at hcapped
    exact .of_capped hcapped
  · intro h before hle
    apply Machine.run_guarded (P := Capped)
      (G := fun s i => i = .runtimeUpgrade → MigrationFits s)
    · intro s i hs hfits
      exact hs.step i hfits
    · exact capped_genesis hworth hcap
    · intro before i hle hi
      exact h before (hi ▸ hle)
    · exact hle

theorem capped_iff_migrationFits_sample :
    (∀ before, before <+: [.runtimeUpgrade] → Capped (run Sample.host Sample.genesis before)) ↔
      ∀ before, before ++ [.runtimeUpgrade] <+: [.runtimeUpgrade] →
        MigrationFits (run Sample.host Sample.genesis before) :=
  capped_iff_migrationFits Sample.host Sample.genesis [.runtimeUpgrade] (by decide +kernel)
    (by decide +kernel)

/-- A genesis that has emitted all there will ever be. -/
def exhaustedGenesis : GenesisConfig := { Sample.genesis with initialEmitted := maxSupply }

theorem exhausted_migration_exceeds_cap :
    Ledger.worth exhaustedGenesis.genesisUtxos ≤ exhaustedGenesis.initialEmitted.toNat ∧
      exhaustedGenesis.initialEmitted.toNat ≤ maxSupply.toNat ∧
      ¬ Capped (run Sample.host exhaustedGenesis [.runtimeUpgrade]) := by
  refine ⟨by decide +kernel, by decide +kernel, ?_⟩
  intro h
  exact absurd h.emitted (by decide +kernel)

end Qubitcoin.Substrate
