import Qubitcoin.Substrate.Utxo

/-! `pallet-qbc-reversibility`: reversal requests, the governors' votes on them
and the reversals these votes bring about. -/

namespace Qubitcoin.Substrate.Reversibility

inductive Error
  | transactionNotFound | coinbaseNotReversible | utxoAlreadySpent | reversalWindowExpired
  | notGovernor | alreadyVoted | requestNotFound | requestNotPending | alreadyExecuted
  | governorListFull | governorNotFound | thresholdExceedsGovernors | thresholdTooLow
  | duplicateRequest | utxoAlreadyFrozen | amountOverflow | reasonTooLong | noGovernors
  deriving DecidableEq

def maxGovernors : Nat := 10
def maxReasonLength : Nat := 512
def defaultReversalWindow : U64 := 26182
def defaultApprovalThreshold : U32 := 3

/-- The vouts a reversal looks at: `0..256`. -/
def targetVouts : List Nat := List.range 256

inductive ReversalStatus
  | pending | approved | executed | expired | rejected
  deriving DecidableEq

structure ReversalRequest where
  requestId : H256
  targetTxid : TxId
  originalSender : Address
  amount : QbcBalance
  targetBlockHeight : BlockHeight
  requestBlockHeight : BlockHeight
  expiryBlockHeight : BlockHeight
  approvalCount : U32
  status : ReversalStatus
  reason : BoundedVec UInt8 maxReasonLength
  requester : Address
  deriving DecidableEq

structure ReversalExecution where
  requestId : H256
  reversalTxid : TxId
  executionBlockHeight : BlockHeight
  amount : QbcBalance
  originalTxid : TxId
  recipient : Address
  deriving DecidableEq

abbrev Addresses := BoundedVec Address maxGovernors
abbrev RequestIds := BoundedVec H256 maxGovernors

structure Storage where
  reversalWindow : U64
  approvalThreshold : U32
  governors : Addresses
  reversalRequests : StorageMap H256 ReversalRequest
  reversalVotes : StorageMap H256 Addresses
  executedReversals : StorageMap H256 ReversalExecution
  expiredReversals : StorageMap H256 ReversalRequest
  totalRequests : U64
  totalExecuted : U64
  totalExpired : U64
  frozenUtxos : StorageMap OutPoint Bool
  expiryIndex : StorageMap BlockHeight RequestIds

/-- Zero stands for the default window and the default threshold. -/
def genesisBuild (governors : Addresses) (reversalWindow : U64) (approvalThreshold : U32) :
    Storage where
  reversalWindow := if 0 < reversalWindow then reversalWindow else defaultReversalWindow
  approvalThreshold :=
    if 0 < approvalThreshold then approvalThreshold else defaultApprovalThreshold
  governors := governors
  reversalRequests := ∅
  reversalVotes := ∅
  executedReversals := ∅
  expiredReversals := ∅
  totalRequests := 0
  totalExecuted := 0
  totalExpired := 0
  frozenUtxos := ∅
  expiryIndex := ∅

def requestPreimage (targetTxid : TxId) (blockHeight : BlockHeight) : Bytes :=
  ascii "reversal-request-v1:" ++ h256Code.encode targetTxid ++ Bytes.le 8 blockHeight

def reversalPreimage (requestId : H256) (blockHeight : BlockHeight) : Bytes :=
  ascii "reversal-tx-v1:" ++ h256Code.encode requestId ++ Bytes.le 8 blockHeight

variable (host : Host)

def accountToAddress (account : AccountId) : Address :=
  ⟨host.sha2_256 (h256Code.encode account.bytes)⟩

def computeRequestId (targetTxid : TxId) (blockHeight : BlockHeight) : H256 :=
  host.sha2_256 (requestPreimage targetTxid blockHeight)

def computeReversalTxid (requestId : H256) (blockHeight : BlockHeight) : TxId :=
  host.sha2_256 (reversalPreimage requestId blockHeight)

/-- The accumulators of the loop over the target's outputs. -/
structure Target where
  totalAmount : QbcBalance
  blockHeight : BlockHeight
  foundAny : Bool

def scanOutput (utxos : Utxo.Storage) (s : Storage) (targetTxid : TxId) (target : Target)
    (vout : Nat) : Except Error Target :=
  let key : OutPoint := (targetTxid, BitVec.ofNat 32 vout)
  match utxos.utxoSet.lookup key with
  | none => .ok target
  | some utxo => do
    ensure (utxo.isCoinbase = false) .coinbaseNotReversible
    ensure (s.frozenUtxos.value false key = false) .utxoAlreadyFrozen
    let totalAmount ← (target.totalAmount.checkedAdd utxo.amount).okOr .amountOverflow
    return { totalAmount := totalAmount, blockHeight := utxo.blockHeight, foundAny := true }

def scanTarget (utxos : Utxo.Storage) (s : Storage) (targetTxid : TxId) : Except Error Target :=
  targetVouts.foldlM (scanOutput utxos s targetTxid) ⟨0, 0, false⟩

/-- `saturating_add` on heights. -/
def expiryHeight (currentHeight : BlockHeight) (window : U64) : BlockHeight :=
  min (currentHeight + window.toNat) u64Max

/-- An index entry that is full drops the id silently. -/
def indexExpiry (s : Storage) (expiry : BlockHeight) (requestId : H256) : Storage :=
  let ids := s.expiryIndex.value .empty expiry
  { s with expiryIndex := s.expiryIndex.insert expiry ((ids.tryPush requestId).getD ids) }

def newRequest (currentHeight : BlockHeight) (window : U64) (caller : AccountId)
    (targetTxid : TxId) (originalSender : Address) (reason : BoundedVec UInt8 maxReasonLength)
    (target : Target) : ReversalRequest where
  requestId := computeRequestId host targetTxid currentHeight
  targetTxid := targetTxid
  originalSender := originalSender
  amount := target.totalAmount
  targetBlockHeight := target.blockHeight
  requestBlockHeight := currentHeight
  expiryBlockHeight := expiryHeight currentHeight window
  approvalCount := 0
  status := .pending
  reason := reason
  requester := accountToAddress host caller

def fileRequest (s : Storage) (request : ReversalRequest) : Storage :=
  { s with
    reversalRequests := s.reversalRequests.insert request.requestId request
    totalRequests := s.totalRequests.saturatingAdd 1 }

def submitReversalRequest (utxos : Utxo.Storage) (s : Storage) (caller : AccountId)
    (targetTxid : TxId) (originalSender : Address) (reason : BoundedVec UInt8 maxReasonLength) :
    Except Error Storage := do
  ensure (s.governors.val ≠ []) .noGovernors
  let target ← scanTarget utxos s targetTxid
  ensure (target.foundAny = true) .transactionNotFound
  ensure (utxos.currentHeight - target.blockHeight ≤ s.reversalWindow.toNat)
    .reversalWindowExpired
  ensure (computeRequestId host targetTxid utxos.currentHeight ∉ s.reversalRequests)
    .duplicateRequest
  let request := newRequest host utxos.currentHeight s.reversalWindow caller targetTxid
    originalSender reason target
  return indexExpiry (fileRequest s request) request.expiryBlockHeight request.requestId

/-- What a governor's approval can come to, short of executing the reversal. -/
inductive Vote
  | expired (s : Storage)
  | counted (s : Storage)
  | approved (s : Storage) (request : ReversalRequest)

/-- Auto-expiry archives the request and leaves its votes where they are. -/
def autoExpire (s : Storage) (requestId : H256) (request : ReversalRequest) : Storage :=
  { s with
    expiredReversals := s.expiredReversals.insert requestId { request with status := .expired }
    reversalRequests := s.reversalRequests.erase requestId
    totalExpired := s.totalExpired.saturatingAdd 1 }

def storeVote (s : Storage) (requestId : H256) (votes : Addresses)
    (request : ReversalRequest) : Storage :=
  { s with
    reversalVotes := s.reversalVotes.insert requestId votes
    reversalRequests := s.reversalRequests.insert requestId request }

def countVote (request : ReversalRequest) : ReversalRequest :=
  { request with approvalCount := request.approvalCount + 1 }

def approve (request : ReversalRequest) : ReversalRequest := { request with status := .approved }

/-- `approve_reversal` up to the call of `execute_reversal`. -/
def castVote (currentHeight : BlockHeight) (s : Storage) (governor : Address)
    (requestId : H256) : Except Error Vote := do
  ensure (governor ∈ s.governors.val) .notGovernor
  let request ← (s.reversalRequests.lookup requestId).okOr .requestNotFound
  ensure (request.status = .pending) .requestNotPending
  if request.expiryBlockHeight < currentHeight then
    return .expired (autoExpire s requestId request)
  else
    let votes := s.reversalVotes.value .empty requestId
    ensure (governor ∉ votes.val) .alreadyVoted
    let votes ← (votes.tryPush governor).okOr .governorListFull
    if s.approvalThreshold ≤ (countVote request).approvalCount then
      return .approved (storeVote s requestId votes (approve (countVote request)))
        (approve (countVote request))
    else
      return .counted (storeVote s requestId votes (countVote request))

/-- The accumulators of the freezing loop. -/
structure Sweep where
  utxos : Utxo.Storage
  frozenUtxos : StorageMap OutPoint Bool
  totalReversed : QbcBalance

def sweepOutput (targetTxid : TxId) (sweep : Sweep) (vout : Nat) : Sweep :=
  let key : OutPoint := (targetTxid, BitVec.ofNat 32 vout)
  match sweep.utxos.utxoSet.lookup key with
  | none => sweep
  | some utxo =>
    if sweep.frozenUtxos.value false key then sweep
    else if utxo.isCoinbase then sweep
    else {
      utxos := Utxo.dropUtxo sweep.utxos key utxo
      frozenUtxos := sweep.frozenUtxos.insert key true
      totalReversed := sweep.totalReversed.saturatingAdd utxo.amount }

def sweepTarget (utxos : Utxo.Storage) (s : Storage) (targetTxid : TxId) : Sweep :=
  targetVouts.foldl (sweepOutput targetTxid) ⟨utxos, s.frozenUtxos, 0⟩

def reversalUtxo (request : ReversalRequest) (reversalTxid : TxId) (amount : QbcBalance)
    (height : BlockHeight) : Utxo where
  txid := reversalTxid
  vout := 0
  address := request.originalSender
  amount := amount
  blockHeight := height
  isCoinbase := false

/-- Nothing is returned to the sender when nothing was frozen. -/
def returnFunds (utxos : Utxo.Storage) (request : ReversalRequest) (reversalTxid : TxId)
    (amount : QbcBalance) : Utxo.Storage :=
  if 0 < amount then
    let utxos := Utxo.putUtxo utxos
      (reversalUtxo request reversalTxid amount utxos.currentHeight)
    { utxos with txCount := utxos.txCount.saturatingAdd 1 }
  else utxos

def markExecuted (s : Storage) (requestId : H256) : Storage :=
  match s.reversalRequests.lookup requestId with
  | none => s
  | some r => { s with
      reversalRequests := s.reversalRequests.insert requestId { r with status := .executed } }

def executeReversal (utxos : Utxo.Storage) (s : Storage) (requestId : H256)
    (request : ReversalRequest) : Utxo.Storage × Storage :=
  let currentHeight := utxos.currentHeight
  let sweep := sweepTarget utxos s request.targetTxid
  let reversalTxid := computeReversalTxid host requestId currentHeight
  let execution : ReversalExecution := {
    requestId := requestId
    reversalTxid := reversalTxid
    executionBlockHeight := currentHeight
    amount := sweep.totalReversed
    originalTxid := request.targetTxid
    recipient := request.originalSender }
  let s := markExecuted { s with
    frozenUtxos := sweep.frozenUtxos
    executedReversals := s.executedReversals.insert requestId execution } requestId
  (returnFunds sweep.utxos request reversalTxid sweep.totalReversed,
    { s with
      reversalVotes := s.reversalVotes.erase requestId
      totalExecuted := s.totalExecuted.saturatingAdd 1 })

/-- What follows a vote: an approved request is executed at once. -/
def settle (utxos : Utxo.Storage) (requestId : H256) : Vote → Utxo.Storage × Storage
  | .expired s => (utxos, s)
  | .counted s => (utxos, s)
  | .approved s request => executeReversal host utxos s requestId request

def approveReversal (utxos : Utxo.Storage) (s : Storage) (caller : AccountId)
    (requestId : H256) : Except Error (Utxo.Storage × Storage) := do
  let vote ← castVote utxos.currentHeight s (accountToAddress host caller) requestId
  return settle host utxos requestId vote

/-- A governor listed already is refused with the error of a full list. -/
def addGovernor (s : Storage) (address : Address) : Except Error Storage := do
  ensure (address ∉ s.governors.val) .governorListFull
  let governors ← (s.governors.tryPush address).okOr .governorListFull
  return { s with governors := governors }

def removeGovernor (s : Storage) (address : Address) : Except Error Storage := do
  ensure (address ∈ s.governors.val) .governorNotFound
  let governors := s.governors.remove (s.governors.val.idxOf address)
  let remaining := BitVec.ofNat 32 governors.val.length
  return { s with
    governors := governors
    approvalThreshold :=
      if governors.val ≠ [] ∧ remaining < s.approvalThreshold then remaining
      else s.approvalThreshold }

def setReversalWindow (s : Storage) (newWindow : U64) : Storage :=
  { s with reversalWindow := newWindow }

def setApprovalThreshold (s : Storage) (newThreshold : U32) : Except Error Storage := do
  ensure (1 ≤ newThreshold) .thresholdTooLow
  ensure (newThreshold.toNat ≤ s.governors.val.length) .thresholdExceedsGovernors
  return { s with approvalThreshold := newThreshold }

def expireRequest (currentHeight : BlockHeight) (s : Storage) (requestId : H256) :
    Except Error Storage := do
  let request ← (s.reversalRequests.lookup requestId).okOr .requestNotFound
  ensure (request.status = .pending) .requestNotPending
  ensure (request.expiryBlockHeight < currentHeight) .requestNotPending
  let s := autoExpire s requestId request
  return { s with reversalVotes := s.reversalVotes.erase requestId }

/-- The accumulators of the pruning loops. -/
structure Prune where
  pruned : Nat
  expiredReversals : StorageMap H256 ReversalRequest
  blocksToClean : List BlockHeight

def pruneRequest (maxEntries : U32) (acc : Prune) (requestId : H256) : Prune :=
  if maxEntries.toNat ≤ acc.pruned then acc
  else { acc with
    pruned := acc.pruned + 1
    expiredReversals := acc.expiredReversals.erase requestId }

def pruneHeight (index : StorageMap BlockHeight RequestIds) (maxEntries : U32) (acc : Prune)
    (height : BlockHeight) : Prune :=
  if maxEntries.toNat ≤ acc.pruned then acc
  else
    let requestIds := index.value .empty height
    if requestIds.val = [] then acc
    else
      let acc := requestIds.val.foldl (pruneRequest maxEntries) acc
      { acc with blocksToClean := acc.blocksToClean ++ [height] }

def pruneExpiredReversals (currentHeight : BlockHeight) (s : Storage) (maxAgeBlocks : U64)
    (maxEntries : U32) : Storage :=
  let cutoff := currentHeight - maxAgeBlocks.toNat
  let scanStart := cutoff - max (maxEntries.toNat * 4) 1000
  let heights := List.range' scanStart (cutoff + 1 - scanStart)
  let acc := heights.foldl (pruneHeight s.expiryIndex maxEntries) ⟨0, s.expiredReversals, []⟩
  { s with
    expiredReversals := acc.expiredReversals
    expiryIndex := acc.blocksToClean.foldl (fun index height => index.erase height) s.expiryIndex }

end Qubitcoin.Substrate.Reversibility
