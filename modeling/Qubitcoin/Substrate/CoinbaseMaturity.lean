import Qubitcoin.Substrate.RateLimit

/-! Coinbase maturity.  A height at `u64::MAX` could not move on either: the next one
wraps to 0, and no miner passes the rate limit there. -/

namespace Qubitcoin.Substrate

/-- The height a coinbase is created at: that of the genesis entry, or the one its mining
proof leaves behind. -/
inductive CreatedAt (host : Host) (g : GenesisConfig) (steps : List Step) :
    Utxo → BlockHeight → Prop
  | genesis {u : Utxo} (mem : u ∈ g.genesisUtxos) : CreatedAt host g steps u u.blockHeight
  | mined {before : List Step} {origin : Origin} {proof : VqeProof} {pubkey : H256}
      {signature : Bytes} {s' : State}
      (ran : before ++ [.extrinsic origin (.submitMiningProof proof pubkey signature)] <+: steps)
      (accepted : dispatch host (run host g before) origin
        (.submitMiningProof proof pubkey signature) = .ok s') :
      CreatedAt host g steps
        (Consensus.coinbaseUtxo host (run host g before).block (run host g before).pallets
          (Consensus.pubkeyToAddress host pubkey)) s'.utxo.currentHeight

/-- Every input names an entry of the ledger; a coinbase among them has been created in
the run, and `coinbaseMaturity` heights ago. -/
def ListsMature (host : Host) (g : GenesisConfig) (steps : List Step)
    (inputs : List TransactionInput) : Prop :=
  ∀ input ∈ inputs, ∃ u, (run host g steps).utxo.utxoSet.lookup input.key = some u ∧
    (u.isCoinbase = true → (∃ h, CreatedAt host g steps u h) ∧
      ∀ h, CreatedAt host g steps u h →
        h + coinbaseMaturity ≤ (run host g steps).utxo.currentHeight)

/-- A transaction the pallet accepts after `steps` lists no coinbase before its time. -/
def SpendsMature (host : Host) (g : GenesisConfig) (steps : List Step) : Prop :=
  ∀ (origin : Origin) (inputs : BoundedVec TransactionInput maxInputs)
    (outputs : BoundedVec TransactionOutput maxOutputs)
    (signatures : BoundedVec Dilithium.Signature maxInputs) (s' : State),
    dispatch host (run host g steps) origin (.submitTransaction inputs outputs signatures) =
      .ok s' → ListsMature host g steps inputs.val

variable {host : Host} {g : GenesisConfig} {steps : List Step} {s s' : State} {u : Utxo}

theorem CreatedAt.blockHeight_eq {h : BlockHeight} (hc : CreatedAt host g steps u h) :
    u.blockHeight = h := by
  cases hc with
  | genesis mem => rfl
  | mined ran accepted =>
    cases dispatch_ok accepted with
    | submitMiningProof h =>
      obtain ⟨_, _, energy, _, rfl⟩ := Consensus.submitMiningProof_eq_ok.mp h
      rfl

theorem CreatedAt.mono {h : BlockHeight} (hc : CreatedAt host g steps u h)
    {steps' : List Step} (hle : steps <+: steps') : CreatedAt host g steps' u h := by
  cases hc with
  | genesis mem => exact .genesis mem
  | mined ran accepted => exact .mined (ran.trans hle) accepted

/-- The age is a saturating difference, and a coinbase has to reach a positive one. -/
theorem aged_of_le_sub {now h : Nat} (hage : coinbaseMaturity ≤ now - h) :
    h + coinbaseMaturity ≤ now := by
  unfold coinbaseMaturity at hage ⊢
  omega

/-- Entries of a map are the old ones or new ones. -/
theorem entry_of_transfer {spent : List (OutPoint × Utxo)} {made : List Utxo} {k : OutPoint}
    (hledger : s'.utxo.toLedger = s.utxo.toLedger.transfer spent made)
    (hu : s'.utxo.utxoSet.lookup k = some u) :
    u ∈ made ∨ s.utxo.utxoSet.lookup k = some u := by
  rw [hledger] at hu
  cases Ledger.lookup_putAll hu with
  | inl hnew => exact .inl hnew.1
  | inr hold => exact .inr (Ledger.lookup_dropAll hold.1)

/-- Only a coinbase mint makes a coinbase. -/
theorem Effect.entry {ms : List Mint} (h : Effect host s s' ms)
    (hms : ∀ m ∈ ms, m.kind ≠ .coinbase) {k : OutPoint}
    (hu : s'.utxo.utxoSet.lookup k = some u) (hcoinbase : u.isCoinbase = true) :
    s.utxo.utxoSet.lookup k = some u := by
  cases h with
  | still moved =>
    cases entry_of_transfer moved.ledger hu with
    | inl hnew => exact absurd hnew List.not_mem_nil
    | inr hold => exact hold
  | transaction accepted moved =>
    cases entry_of_transfer moved.ledger hu with
    | inl hnew =>
      obtain ⟨i, hi, rfl⟩ := List.mem_mapIdx.mp hnew
      cases hcoinbase
    | inr hold => exact hold
  | coinbase moved height => exact absurd rfl (hms _ (List.mem_singleton_self _))
  | reversal lookup pending targets moved executed =>
    cases entry_of_transfer moved.ledger hu with
    | inl hnew =>
      rw [Reversibility.eq_of_mem_madeReversal hnew] at hcoinbase
      cases hcoinbase
    | inr hold => exact hold

/-- Every coinbase of a reachable ledger has been created in the run. -/
def CoinbasesCreated (host : Host) (g : GenesisConfig) (steps : List Step) : Prop :=
  ∀ k u, (run host g steps).utxo.utxoSet.lookup k = some u → u.isCoinbase = true →
    ∃ h, CreatedAt host g steps u h

theorem minted_coinbase (host : Host) (s : State) (i : Step) :
    (∀ m ∈ minted host s i, m.kind ≠ .coinbase) ∨
      ∃ origin proof pubkey signature s',
        i = .extrinsic origin (.submitMiningProof proof pubkey signature) ∧
        dispatch host s origin (.submitMiningProof proof pubkey signature) = .ok s' := by
  cases i with
  | newBlock parentHash now => exact .inl fun _ h => absurd h List.not_mem_nil
  | runtimeUpgrade => exact .inl fun _ h => absurd h List.not_mem_nil
  | extrinsic origin call =>
    simp only [minted]
    cases hdispatch : dispatch host s origin call with
    | error e => exact .inl fun _ h => absurd h List.not_mem_nil
    | ok s' =>
      cases call with
      | submitMiningProof proof pubkey signature =>
        exact .inr ⟨_, _, _, _, _, rfl, hdispatch⟩
      | approveReversal requestId => exact .inl (kind_of_approveReversal host s origin requestId)
      | _ => exact .inl (by simp [Call.mints, Mint.kind])

/-- A mining proof adds one coinbase to the ledger. -/
theorem mined_entry {origin : Origin} {proof : VqeProof} {pubkey : H256} {signature : Bytes}
    (haccepted : dispatch host s origin (.submitMiningProof proof pubkey signature) = .ok s')
    {k : OutPoint} (hu : s'.utxo.utxoSet.lookup k = some u) :
    u = Consensus.coinbaseUtxo host s.block s.pallets (Consensus.pubkeyToAddress host pubkey) ∨
      s.utxo.utxoSet.lookup k = some u := by
  cases dispatch_ok haccepted with
  | submitMiningProof h =>
    obtain ⟨_, _, energy, _, rfl⟩ := Consensus.submitMiningProof_eq_ok.mp h
    cases entry_of_transfer (Consensus.payMiner_movement (p := s.pallets) _).ledger hu with
    | inl hnew => exact .inl (List.mem_singleton.mp hnew)
    | inr hold => exact .inr hold

theorem coinbasesCreated (host : Host) (g : GenesisConfig) (steps : List Step) :
    CoinbasesCreated host g steps := by
  induction steps using List.reverseRecOn with
  | nil =>
    intro k u hu _
    exact ⟨_, .genesis (genesis_entry hu).1⟩
  | append_singleton steps i ih =>
    intro k u hu hcoinbase
    have hkeep : (run host g steps).utxo.utxoSet.lookup k = some u →
        ∃ h, CreatedAt host g (steps ++ [i]) u h := by
      intro hold
      obtain ⟨h, hcreated⟩ := ih k u hold hcoinbase
      exact ⟨h, hcreated.mono (List.prefix_append _ _)⟩
    rw [run_snoc] at hu
    cases minted_coinbase host (run host g steps) i with
    | inl hms => exact hkeep ((step_effect host _ i).entry hms hu hcoinbase)
    | inr hmining =>
      obtain ⟨origin, proof, pubkey, signature, s', rfl, haccepted⟩ := hmining
      simp only [step, haccepted] at hu
      cases mined_entry haccepted hu with
      | inl hnew =>
        subst hnew
        exact ⟨_, .mined (List.prefix_refl _) haccepted⟩
      | inr hold => exact hkeep hold

theorem spendsMature (host : Host) (g : GenesisConfig) (steps : List Step) :
    SpendsMature host g steps := by
  intro origin inputs outputs signatures s' haccepted input hinput
  cases dispatch_ok haccepted with
  | submitTransaction h =>
    obtain ⟨spent, marks, fee, haccept, hfee, rfl⟩ := Utxo.submitTransaction_ok h
    obtain ⟨n, hn, rfl⟩ := List.mem_iff_get.mp hinput
    obtain ⟨sig, hvalid⟩ := haccept.valid.get n.isLt (haccept.valid.length_eq ▸ n.isLt)
    obtain ⟨hlookup, hmature, -⟩ := Utxo.validateInput_eq_ok.mp hvalid
    refine ⟨_, hlookup, ?_⟩
    intro hcoinbase
    refine ⟨coinbasesCreated host g steps _ _ hlookup hcoinbase, ?_⟩
    intro height hcreated
    have hage : coinbaseMaturity ≤ _ := hmature hcoinbase
    rw [hcreated.blockHeight_eq] at hage
    exact aged_of_le_sub hage

/-- In every run the height never goes back, and a coinbase is spent no earlier than
`coinbaseMaturity` heights after its creation. -/
theorem coinbase_maturity (host : Host) (g : GenesisConfig) (steps : List Step) :
    (∀ more, (run host g steps).utxo.currentHeight ≤
      (run host g (steps ++ more)).utxo.currentHeight) ∧ SpendsMature host g steps := by
  refine ⟨?_, spendsMature host g steps⟩
  intro more
  rw [run_append]
  exact Machine.run_induction
    (P := fun s => (run host g steps).utxo.currentHeight ≤ s.utxo.currentHeight)
    (fun s i h => h.trans (step_height_le host s i)) le_rfl more

end Qubitcoin.Substrate
