import Qubitcoin.Substrate.ConsensusLaws
import Qubitcoin.Substrate.Encoding
import Qubitcoin.Substrate.ReversibilityLaws
import Qubitcoin.Substrate.RuntimeLaws

/-! The mints of a run: the transactions, coinbases and reversals that went
through, each the digest input of the txid it made outputs under. -/

namespace Qubitcoin.Substrate

open Utxo (Movement)

inductive Mint
  | transaction (inputs : List TransactionInput) (outputs : List TransactionOutput)
  | coinbase (blockHeight : BlockHeight) (parentHash : H256) (reward : QbcBalance)
  | reversal (requestId : H256) (blockHeight : BlockHeight)
  deriving DecidableEq

inductive MintKind
  | transaction | coinbase | reversal
  deriving DecidableEq

namespace Mint

def kind : Mint → MintKind
  | .transaction _ _ => .transaction
  | .coinbase _ _ _ => .coinbase
  | .reversal _ _ => .reversal

def preimage : Mint → Bytes
  | .transaction inputs outputs => Utxo.txidPreimage inputs outputs
  | .coinbase blockHeight parentHash _ => Consensus.coinbasePreimage blockHeight parentHash
  | .reversal requestId blockHeight => Reversibility.reversalPreimage requestId blockHeight

def txid (host : Host) (m : Mint) : TxId := host.sha2_256 m.preimage

/-- The block reward a mint brings into being. -/
def reward : Mint → Nat
  | .coinbase _ _ reward => reward.toNat
  | _ => 0

def inputKeys : Mint → List OutPoint
  | .transaction inputs _ => inputs.map TransactionInput.key
  | _ => []

end Mint

variable (host : Host)

/-- What the pallet makes of an approval, if the origin is an account. -/
def voteOf (s : State) (origin : Origin) (requestId : H256) : Option Reversibility.Vote :=
  match origin with
  | .signed caller =>
    (Reversibility.castVote s.utxo.currentHeight s.reversibility
      (Reversibility.accountToAddress host caller) requestId).toOption
  | _ => none

def Call.mints (s : State) (origin : Origin) : Call → List Mint
  | .submitTransaction inputs outputs _ => [.transaction inputs.val outputs.val]
  | .submitMiningProof _ _ _ =>
    [.coinbase (s.utxo.currentHeight + 1) s.block.parentHash (Consensus.blockReward s.pallets)]
  | .approveReversal requestId =>
    match voteOf host s origin requestId with
    | some (.approved _ _) => [.reversal requestId s.utxo.currentHeight]
    | _ => []
  | _ => []

/-- The mint of a step, if it has one. -/
def minted (s : State) : Step → List Mint
  | .extrinsic origin call =>
    match dispatch host s origin call with
    | .ok _ => call.mints host s origin
    | .error _ => []
  | _ => []

def mints (g : GenesisConfig) (steps : List Step) : List Mint :=
  Machine.history (step host) (minted host) g.build steps

theorem mints_snoc (g : GenesisConfig) (steps : List Step) (i : Step) :
    mints host g (steps ++ [i]) = mints host g steps ++ minted host (run host g steps) i :=
  Machine.history_snoc _ steps i

/-- Digests tell the mints of a run apart, from each other and from the genesis
outputs: different preimages have different txids, and the three kinds of txid
never coincide. -/
structure FreshTxids (genesisUtxos : List Utxo) (ms : List Mint) : Prop where
  collisionFree : ∀ m ∈ ms, ∀ m' ∈ ms, m.txid host = m'.txid host → m.preimage = m'.preimage
  kindsApart : ∀ m ∈ ms, ∀ m' ∈ ms, m.txid host = m'.txid host → m.kind = m'.kind
  genesisApart : ∀ m ∈ ms, ∀ u ∈ genesisUtxos, m.txid host ≠ u.txid

instance (genesisUtxos : List Utxo) (ms : List Mint) :
    Decidable (FreshTxids host genesisUtxos ms) :=
  decidable_of_iff
    ((∀ m ∈ ms, ∀ m' ∈ ms, m.txid host = m'.txid host → m.preimage = m'.preimage) ∧
      (∀ m ∈ ms, ∀ m' ∈ ms, m.txid host = m'.txid host → m.kind = m'.kind) ∧
      ∀ m ∈ ms, ∀ u ∈ genesisUtxos, m.txid host ≠ u.txid)
    ⟨fun h => ⟨h.1, h.2.1, h.2.2⟩, fun h => ⟨h.collisionFree, h.kindsApart, h.genesisApart⟩⟩

theorem FreshTxids.of_append {host : Host} {us : List Utxo} {ms ms' : List Mint}
    (h : FreshTxids host us (ms ++ ms')) : FreshTxids host us ms where
  collisionFree m hm m' hm' :=
    h.collisionFree m (List.mem_append_left _ hm) m' (List.mem_append_left _ hm')
  kindsApart m hm m' hm' :=
    h.kindsApart m (List.mem_append_left _ hm) m' (List.mem_append_left _ hm')
  genesisApart m hm := h.genesisApart m (List.mem_append_left _ hm)

/-- What a step does to the funds, with the mint it leaves behind. -/
inductive Effect (s s' : State) : List Mint → Prop
  | still (moved : Movement s.utxo s'.utxo [] [] 0) : Effect s s' []
  | transaction {inputs : List TransactionInput} {outputs : List TransactionOutput}
      {spent : List Utxo}
      (accepted : Utxo.Accepted (s.utxoConfig host) s.utxo inputs outputs spent)
      (moved : Movement s.utxo s'.utxo ((inputs.map TransactionInput.key).zip spent)
        (Utxo.madeOutputs (s.utxoConfig host) inputs outputs s.utxo.currentHeight) 0) :
      Effect s s' [.transaction inputs outputs]
  | coinbase {miner : Address}
      (moved : Movement s.utxo s'.utxo []
        [Consensus.coinbaseUtxo host s.block s.pallets miner]
        (Consensus.blockReward s.pallets).toNat)
      (height : s'.utxo.currentHeight = s.utxo.currentHeight + 1) :
      Effect s s' [.coinbase (s.utxo.currentHeight + 1) s.block.parentHash
        (Consensus.blockReward s.pallets)]
  | reversal {requestId : H256} {request : Reversibility.ReversalRequest}
      {spent : List (OutPoint × Utxo)} {amount : QbcBalance}
      (lookup : s.reversibility.reversalRequests.lookup requestId = some request)
      (pending : request.status = .pending)
      (targets : ∀ p ∈ spent, (∃ vout ∈ Reversibility.targetVouts,
        p.1 = (request.targetTxid, BitVec.ofNat 32 vout)) ∧ p.2.isCoinbase = false)
      (moved : Movement s.utxo s'.utxo spent
        (Reversibility.madeReversal host requestId request amount s.utxo.currentHeight) 0)
      (executed : ∃ request', s'.reversibility.reversalRequests.lookup requestId =
        some request' ∧ request'.status = .executed) :
      Effect s s' [.reversal requestId s.utxo.currentHeight]

variable {host : Host} {s s' : State}

/-- A step that leaves the UTXO pallet's storage alone moves nothing. -/
theorem Effect.of_utxo_eq (h : s'.utxo = s.utxo) : Effect host s s' [] :=
  .still (.of_frame (by rw [h]) (by rw [h]) (by rw [h]))

theorem voteOf_signed {a : AccountId} {requestId : H256} {vote : Reversibility.Vote}
    (h : Reversibility.castVote s.utxo.currentHeight s.reversibility
      (Reversibility.accountToAddress host a) requestId = .ok vote) :
    voteOf host s (.signed a) requestId = some vote := by
  simp only [voteOf, h]
  rfl

theorem Effect.of_approval {a : AccountId} {requestId : H256} {u : Utxo.Storage}
    {r : Reversibility.Storage}
    (h : Reversibility.approveReversal host s.utxo s.reversibility a requestId = .ok (u, r)) :
    Effect host s { s with utxo := u, reversibility := r }
      (Call.mints host s (.signed a) (.approveReversal requestId)) := by
  obtain ⟨vote, hvote, h⟩ := Checked.bind_eq_ok.mp h
  have hsettled := Except.ok.inj h
  simp only [Call.mints, voteOf_signed hvote]
  obtain ⟨request, _, _, _, rfl⟩ | ⟨request, votes, _, _, rfl⟩ | ⟨request, votes, hvoting, _, rfl⟩ :=
    Reversibility.castVote_ok hvote
  · cases hsettled
    exact .of_utxo_eq rfl
  · cases hsettled
    exact .of_utxo_eq rfl
  · simp only [Reversibility.settle] at hsettled
    have hrequests := Reversibility.executeReversal_requests host s.utxo
      (Reversibility.storeVote s.reversibility requestId votes
        (Reversibility.approve (Reversibility.countVote request))) requestId requestId
      (Reversibility.approve (Reversibility.countVote request))
    obtain ⟨spent, amount, htargets, hmoved, hheight⟩ :=
      Reversibility.executeReversal_movement host s.utxo
        (Reversibility.storeVote s.reversibility requestId votes
          (Reversibility.approve (Reversibility.countVote request))) requestId
        (Reversibility.approve (Reversibility.countVote request))
    rw [hsettled] at hrequests hmoved
    refine .reversal hvoting.lookup hvoting.pending htargets hmoved ?_
    rw [if_pos rfl] at hrequests
    refine ⟨Reversibility.executed (Reversibility.approve (Reversibility.countVote request)),
      hrequests.trans ?_, rfl⟩
    simp only [Reversibility.storeVote]
    rw [Finmap.lookup_insert]
    rfl

theorem step_effect (host : Host) (s : State) (i : Step) :
    Effect host s (step host s i) (minted host s i) := by
  apply step_cases (P := fun i s' => Effect host s s' (minted host s i))
  · intro origin call s' heq h
    simp only [minted, heq]
    cases h with
    | submitTransaction h =>
      obtain ⟨spent, marks, fee, haccepted, hfee, rfl⟩ := Utxo.submitTransaction_ok h
      exact .transaction haccepted
        (haccepted.movement (BoundedVec.bounded _) hfee rfl rfl rfl)
    | submitMiningProof h =>
      obtain ⟨_, _, energy, _, rfl⟩ := Consensus.submitMiningProof_eq_ok.mp h
      exact .coinbase (Consensus.payMiner_movement (p := s.pallets) _) rfl
    | approveReversal h => exact .of_approval h
    | _ => exact .of_utxo_eq rfl
  · intro origin call e heq
    simp only [minted, heq]
    exact .of_utxo_eq rfl
  · intro parentHash now
    apply Effect.still
    unfold Utxo.onInitialize
    split
    · exact .of_frame rfl rfl rfl
    · exact .of_frame rfl rfl rfl
  · exact .of_utxo_eq rfl

theorem approveReversal_height {u u' : Utxo.Storage} {r r' : Reversibility.Storage}
    {a : AccountId} {requestId : H256}
    (h : Reversibility.approveReversal host u r a requestId = .ok (u', r')) :
    u'.currentHeight = u.currentHeight := by
  obtain ⟨vote, _, h⟩ := Checked.bind_eq_ok.mp h
  have hsettled := congrArg (fun p => p.1.currentHeight) (Except.ok.inj h)
  rw [← hsettled]
  cases vote with
  | expired r => rfl
  | counted r => rfl
  | approved r request =>
    obtain ⟨_, _, _, _, hheight⟩ :=
      Reversibility.executeReversal_movement host u r requestId request
    exact hheight

theorem step_height_le (host : Host) (s : State) (i : Step) :
    s.utxo.currentHeight ≤ (step host s i).utxo.currentHeight := by
  apply step_cases (P := fun _ s' => s.utxo.currentHeight ≤ s'.utxo.currentHeight)
  · intro origin call s' _ h
    cases h with
    | submitTransaction h =>
      obtain ⟨_, _, _, _, _, rfl⟩ := Utxo.submitTransaction_ok h
      exact le_rfl
    | submitMiningProof h =>
      obtain ⟨_, _, _, _, rfl⟩ := Consensus.submitMiningProof_eq_ok.mp h
      exact Nat.le_succ _
    | approveReversal h => exact (approveReversal_height h).ge
    | _ => exact le_rfl
  · intro origin call e _
    exact le_rfl
  · intro parentHash now
    simp only [Utxo.onInitialize]
    split
    · exact le_rfl
    · exact Nat.le_add_right _ _
  · exact le_rfl

end Qubitcoin.Substrate
