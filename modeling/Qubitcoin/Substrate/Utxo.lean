import Qubitcoin.Substrate.Dilithium
import Qubitcoin.Substrate.Ledger

/-! `pallet-qbc-utxo`: transactions, coinbases and fees over the ledger. -/

namespace Qubitcoin.Substrate.Utxo

open Dilithium (Signature)

inductive Error
  | utxoNotFound | invalidSignature | insufficientFunds | noInputs | noOutputs
  | duplicateInput | zeroAmountOutput | coinbaseNotMature | amountOverflow
  | utxoAlreadySpent | utxoFrozen
  deriving DecidableEq

/-- The pallet's `Config`: what it asks of the other pallets and of the host. -/
structure Config where
  isFrozen : TxId → U32 → Bool
  getPublicKey : Address → Option Bytes
  verifySignature : Bytes → Bytes → Bytes → Bool
  sha2_256 : Bytes → H256

structure Storage extends Ledger where
  txCount : U64
  currentHeight : BlockHeight
  accumulatedFees : QbcBalance
  totalFeesBurned : QbcBalance
  spentUtxos : StorageMap OutPoint Bool
  heightMigrationDone : Bool

/-- `UtxoSet::insert` with the cache updates that follow it everywhere. -/
def putUtxo (s : Storage) (utxo : Utxo) : Storage := { s with toLedger := s.toLedger.put utxo }

/-- `UtxoSet::remove` with the cache updates that follow it everywhere. -/
def dropUtxo (s : Storage) (key : OutPoint) (utxo : Utxo) : Storage :=
  { s with toLedger := s.toLedger.drop key utxo }

def heightOffset : Nat := 80000

def onInitialize (s : Storage) : Storage :=
  if s.heightMigrationDone then s
  else { s with currentHeight := s.currentHeight + heightOffset, heightMigrationDone := true }

/-- `GenesisConfig::build`: the height is the largest one among the UTXOs. -/
def genesisBuild (genesisUtxos : List Utxo) : Storage :=
  let maxHeight := (genesisUtxos.map Utxo.blockHeight).foldl max 0
  genesisUtxos.foldl putUtxo
    { Ledger.empty with
      txCount := 0
      currentHeight := maxHeight
      accumulatedFees := 0
      totalFeesBurned := 0
      spentUtxos := ∅
      heightMigrationDone := false }

def encodeInput (i : TransactionInput) : Bytes :=
  h256Code.encode i.prevTxid ++ u32Code.encode i.prevVout

def encodeOutput (o : TransactionOutput) : Bytes :=
  h256Code.encode o.address.bytes ++ u128Code.encode o.amount

def signingMessage (inputs : List TransactionInput) (outputs : List TransactionOutput) : Bytes :=
  inputs.flatMap encodeInput ++ outputs.flatMap encodeOutput

/-- The digest input of `compute_txid`. -/
def txidPreimage (inputs : List TransactionInput) (outputs : List TransactionOutput) : Bytes :=
  inputs.flatMap encodeInput ++ outputs.flatMap encodeOutput

section Calls

variable (cfg : Config)

def computeTxid (inputs : List TransactionInput) (outputs : List TransactionOutput) : TxId :=
  cfg.sha2_256 (txidPreimage inputs outputs)

/-- One round of the loop over the inputs, up to the running total. -/
def validateInput (s : Storage) (msg : Bytes) (signature : Option Signature)
    (input : TransactionInput) : Except Error Utxo := do
  let utxo ← (s.utxoSet.lookup (input.prevTxid, input.prevVout)).okOr .utxoNotFound
  ensure (utxo.isCoinbase → coinbaseMaturity ≤ s.currentHeight - utxo.blockHeight)
    .coinbaseNotMature
  let sig ← signature.okOr .invalidSignature
  let pk ← (cfg.getPublicKey utxo.address).okOr .invalidSignature
  ensure (cfg.verifySignature pk msg sig.val = true) .invalidSignature
  return utxo

def validateInputs (s : Storage) (msg : Bytes) (signatures : List Signature) (i : Nat)
    (totalInput : QbcBalance) :
    List TransactionInput → Except Error (QbcBalance × List Utxo)
  | [] => .ok (totalInput, [])
  | input :: inputs => do
    let utxo ← validateInput cfg s msg signatures[i]? input
    let totalInput ← (totalInput.checkedAdd utxo.amount).okOr .amountOverflow
    let (totalInput, inputUtxos) ← validateInputs s msg signatures (i + 1) totalInput inputs
    return (totalInput, utxo :: inputUtxos)

def validateOutputs (totalOutput : QbcBalance) :
    List TransactionOutput → Except Error QbcBalance
  | [] => .ok totalOutput
  | output :: outputs => do
    ensure (0 < output.amount) .zeroAmountOutput
    let totalOutput ← (totalOutput.checkedAdd output.amount).okOr .amountOverflow
    validateOutputs totalOutput outputs

def accumulateFee (s : Storage) (fee : QbcBalance) : Storage :=
  if 0 < fee then { s with accumulatedFees := s.accumulatedFees.saturatingAdd fee } else s

def spendInput (s : Storage) (input : TransactionInput) (utxo : Utxo) : Storage :=
  { dropUtxo s (input.prevTxid, input.prevVout) utxo with
    spentUtxos := s.spentUtxos.insert (input.prevTxid, input.prevVout) true }

def spendInputs (s : Storage) (spent : List (TransactionInput × Utxo)) : Storage :=
  spent.foldl (fun s p => spendInput s p.1 p.2) s

def outputUtxo (txid : TxId) (height : BlockHeight) (vout : Nat) (output : TransactionOutput) :
    Utxo where
  txid := txid
  vout := BitVec.ofNat 32 vout
  address := output.address
  amount := output.amount
  blockHeight := height
  isCoinbase := false

def createOutputs (s : Storage) (txid : TxId) (height : BlockHeight)
    (outputs : List TransactionOutput) : Storage :=
  (outputs.mapIdx (outputUtxo txid height)).foldl putUtxo s

def submitTransaction (s : Storage) (inputs : BoundedVec TransactionInput maxInputs)
    (outputs : BoundedVec TransactionOutput maxOutputs)
    (signatures : BoundedVec Signature maxInputs) : Except Error Storage := do
  ensure (inputs.val ≠ []) .noInputs
  ensure (outputs.val ≠ []) .noOutputs
  ensure (inputs.val.Pairwise fun a b => ¬(a.prevTxid = b.prevTxid ∧ a.prevVout = b.prevVout))
    .duplicateInput
  ensure (∀ i ∈ inputs.val, (i.prevTxid, i.prevVout) ∉ s.spentUtxos) .utxoAlreadySpent
  ensure (∀ i ∈ inputs.val, cfg.isFrozen i.prevTxid i.prevVout = false) .utxoFrozen
  -- The source rebuilds the message for every input; it does not depend on the input.
  let msg := signingMessage inputs.val outputs.val
  let (totalInput, inputUtxos) ← validateInputs cfg s msg signatures.val 0 0 inputs.val
  let totalOutput ← validateOutputs 0 outputs.val
  ensure (totalOutput ≤ totalInput) .insufficientFunds
  let charged := accumulateFee s (totalInput.saturatingSub totalOutput)
  let txid := computeTxid cfg inputs.val outputs.val
  let spent := spendInputs charged (inputs.val.zip inputUtxos)
  let created := createOutputs spent txid s.currentHeight outputs.val
  return { created with txCount := created.txCount.saturatingAdd 1 }

end Calls

def createCoinbase (s : Storage) (txid : TxId) (address : Address) (reward : QbcBalance)
    (blockHeight : BlockHeight) : Storage :=
  putUtxo s
    { txid := txid, vout := 0, address := address, amount := reward
      blockHeight := blockHeight, isCoinbase := true }

/-- Half of the fees, rounded up, is burned; the rest is the miner's share. -/
def finalizeFeesWithBurn (s : Storage) : QbcBalance × Storage :=
  if s.accumulatedFees = 0 then (0, s)
  else
    let burnAmount := (s.accumulatedFees + 1) / 2
    (s.accumulatedFees.saturatingSub burnAmount,
      { s with
        totalFeesBurned := s.totalFeesBurned.saturatingAdd burnAmount
        accumulatedFees := 0 })

def setBlockHeight (s : Storage) (height : BlockHeight) : Storage :=
  { s with spentUtxos := ∅, currentHeight := height }

end Qubitcoin.Substrate.Utxo
