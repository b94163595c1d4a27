import Qubitcoin.Library.Machine
import Qubitcoin.Substrate.Consensus
import Qubitcoin.Substrate.Reversibility

/-! The runtime: its state, the extrinsics it dispatches and what happens between
them.  A failed dispatch leaves the state as it was. -/

namespace Qubitcoin.Substrate

inductive Origin
  | root
  | signed (account : AccountId)
  | none

inductive DispatchError
  | badOrigin
  | dilithium (e : Dilithium.Error)
  | utxo (e : Utxo.Error)
  | consensus (e : Consensus.Error)
  | reversibility (e : Reversibility.Error)
  deriving DecidableEq

def ensureRoot : Origin → Except DispatchError Unit
  | .root => .ok ⟨⟩
  | _ => .error .badOrigin

def ensureSigned : Origin → Except DispatchError AccountId
  | .signed account => .ok account
  | _ => .error .badOrigin

def ensureNone : Origin → Except DispatchError Unit
  | .none => .ok ⟨⟩
  | _ => .error .badOrigin

structure State where
  block : Consensus.BlockContext
  dilithium : Dilithium.Storage
  utxo : Utxo.Storage
  economics : Economics.Storage
  consensus : Consensus.Storage
  reversibility : Reversibility.Storage

structure GenesisConfig where
  genesisUtxos : List Utxo
  initialEmitted : QbcBalance
  initialDifficulty : Difficulty
  governors : Reversibility.Addresses
  reversalWindow : U64
  approvalThreshold : U32

def GenesisConfig.build (g : GenesisConfig) : State where
  block := ⟨0, 0⟩
  dilithium := .genesis
  utxo := Utxo.genesisBuild g.genesisUtxos
  economics := Economics.genesisBuild g.initialEmitted
  consensus := Consensus.genesisBuild g.initialDifficulty
  reversibility :=
    Reversibility.genesisBuild g.governors g.reversalWindow g.approvalThreshold

inductive Call
  | registerKey (publicKey : Dilithium.PublicKey)
  | sudoRegisterKeyForAddress (address : Address) (publicKey : Dilithium.PublicKey)
  | revokeKey (address : Address) (revocationSig : Dilithium.Signature)
  | submitTransaction (inputs : BoundedVec TransactionInput maxInputs)
      (outputs : BoundedVec TransactionOutput maxOutputs)
      (signatures : BoundedVec Dilithium.Signature maxInputs)
  | submitMiningProof (proof : VqeProof) (minerPublicKey : H256) (minerSignature : Bytes)
  | submitReversalRequest (targetTxid : TxId) (originalSender : Address)
      (reason : BoundedVec UInt8 Reversibility.maxReasonLength)
  | approveReversal (requestId : H256)
  | addGovernor (address : Address)
  | removeGovernor (address : Address)
  | setReversalWindow (newWindow : U64)
  | setApprovalThreshold (newThreshold : U32)
  | expireRequest (requestId : H256)
  | pruneExpiredReversals (maxAgeBlocks : U64) (maxEntries : U32)

variable (host : Host)

/-- `ReversibilityFreezeChecker` reads `FrozenUtxos`. -/
def State.utxoConfig (s : State) : Utxo.Config where
  isFrozen txid vout := s.reversibility.frozenUtxos.value false (txid, vout)
  getPublicKey address := (Dilithium.getPublicKey s.dilithium address).map BoundedVec.val
  verifySignature := Dilithium.verifySignature host
  sha2_256 := host.sha2_256

def State.pallets (s : State) : Consensus.Pallets := ⟨s.economics, s.utxo, s.consensus⟩

def State.withPallets (s : State) (p : Consensus.Pallets) : State :=
  { s with economics := p.economics, utxo := p.utxo, consensus := p.consensus }

def dispatch (s : State) (origin : Origin) : Call → Except DispatchError State
  | .registerKey publicKey => do
    let _ ← ensureSigned origin
    let dilithium ← (Dilithium.registerKey host s.dilithium publicKey).mapError .dilithium
    return { s with dilithium := dilithium }
  | .sudoRegisterKeyForAddress address publicKey => do
    ensureRoot origin
    let dilithium ← (Dilithium.sudoRegisterKeyForAddress s.dilithium address
      publicKey).mapError .dilithium
    return { s with dilithium := dilithium }
  | .revokeKey address revocationSig => do
    let _ ← ensureSigned origin
    let dilithium ← (Dilithium.revokeKey host s.dilithium address
      revocationSig).mapError .dilithium
    return { s with dilithium := dilithium }
  | .submitTransaction inputs outputs signatures => do
    let _ ← ensureSigned origin
    let utxo ← (Utxo.submitTransaction (s.utxoConfig host) s.utxo inputs outputs
      signatures).mapError .utxo
    return { s with utxo := utxo }
  | .submitMiningProof proof minerPublicKey minerSignature => do
    ensureNone origin
    let pallets ← (Consensus.submitMiningProof host s.block s.pallets proof minerPublicKey
      minerSignature).mapError .consensus
    return s.withPallets pallets
  | .submitReversalRequest targetTxid originalSender reason => do
    let caller ← ensureSigned origin
    let reversibility ← (Reversibility.submitReversalRequest host s.utxo s.reversibility caller
      targetTxid originalSender reason).mapError .reversibility
    return { s with reversibility := reversibility }
  | .approveReversal requestId => do
    let caller ← ensureSigned origin
    let (utxo, reversibility) ← (Reversibility.approveReversal host s.utxo s.reversibility
      caller requestId).mapError .reversibility
    return { s with utxo := utxo, reversibility := reversibility }
  | .addGovernor address => do
    ensureRoot origin
    let reversibility ← (Reversibility.addGovernor s.reversibility address).mapError
      .reversibility
    return { s with reversibility := reversibility }
  | .removeGovernor address => do
    ensureRoot origin
    let reversibility ← (Reversibility.removeGovernor s.reversibility address).mapError
      .reversibility
    return { s with reversibility := reversibility }
  | .setReversalWindow newWindow => do
    ensureRoot origin
    return { s with
      reversibility := Reversibility.setReversalWindow s.reversibility newWindow }
  | .setApprovalThreshold newThreshold => do
    ensureRoot origin
    let reversibility ← (Reversibility.setApprovalThreshold s.reversibility
      newThreshold).mapError .reversibility
    return { s with reversibility := reversibility }
  | .expireRequest requestId => do
    let _ ← ensureSigned origin
    let reversibility ← (Reversibility.expireRequest s.utxo.currentHeight s.reversibility
      requestId).mapError .reversibility
    return { s with reversibility := reversibility }
  | .pruneExpiredReversals maxAgeBlocks maxEntries => do
    ensureRoot origin
    return { s with
      reversibility := Reversibility.pruneExpiredReversals s.utxo.currentHeight
        s.reversibility maxAgeBlocks maxEntries }

/-- A block begins with a new parent and the pallets' `on_initialize`; a runtime
upgrade runs `on_runtime_upgrade`. -/
inductive Step
  | extrinsic (origin : Origin) (call : Call)
  | newBlock (parentHash : H256) (now : U64)
  | runtimeUpgrade

def step (s : State) : Step → State
  | .extrinsic origin call =>
    match dispatch host s origin call with
    | .ok s' => s'
    | .error _ => s
  | .newBlock parentHash now =>
    { s with block := ⟨parentHash, now⟩, utxo := Utxo.onInitialize s.utxo }
  | .runtimeUpgrade => { s with economics := Economics.onRuntimeUpgrade s.economics }

def run (g : GenesisConfig) (steps : List Step) : State :=
  Machine.run (step host) g.build steps

theorem run_append (g : GenesisConfig) (steps more : List Step) :
    run host g (steps ++ more) = Machine.run (step host) (run host g steps) more :=
  Machine.run_append g.build steps more

theorem run_snoc (g : GenesisConfig) (steps : List Step) (i : Step) :
    run host g (steps ++ [i]) = step host (run host g steps) i :=
  Machine.run_append _ steps [i]

end Qubitcoin.Substrate
