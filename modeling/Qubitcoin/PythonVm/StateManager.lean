import Qubitcoin.Library.OrderedMap
import Qubitcoin.PythonVm.CallEffects

/-! `qvm/state.py` over the tables of `database/manager.py`: the transactions of a block, one after
the other, reach the machine, and what a successful one has changed is written to the database. -/

namespace Qubitcoin.PythonVm

open Command Interpreter
open Evm (ofBigEndian)

inductive TxType
  | transfer
  | contractDeploy
  | contractCall
  | l2Deposit
  | l2Withdraw
  | other
  deriving DecidableEq

/-- A transaction, less what the manager does not read; an amount is times `10 ** 8`, less its
fraction. -/
structure Transaction where
  txid : String
  outputs : List ℤ
  publicKey : String
  txType : TxType
  toAddress : Option String
  data : Option String
  gasLimit : ℕ

/-- A block, less what the manager does not read; its time has no fraction. -/
structure Block where
  height : ℤ
  timestamp : ℤ
  minerAddress : Option String
  hash : String
  transactions : List Transaction

structure TransactionReceipt where
  txid : String
  blockHeight : ℤ
  blockHash : String
  txIndex : ℕ
  fromAddress : String
  toAddress : Option String
  contractAddress : Option String
  gasUsed : ℕ
  gasLimit : ℕ
  status : ℕ
  logs : List Log
  returnData : String
  revertReason : String
  deriving DecidableEq

/-- A row of `accounts`; the balance is times `10 ** 8`. -/
structure AccountRow where
  nonce : ℕ
  balance : ℤ
  codeHash : String
  storageRoot : String
  bytecode : Option String
  deriving DecidableEq

namespace AccountRow

def new : AccountRow where
  nonce := 0
  balance := 0
  codeHash := ""
  storageRoot := ""
  bytecode := none

end AccountRow

/-- The tables by their keys, and the logs by the transaction and the place in it. -/
structure Tables where
  accounts : StorageMap String AccountRow
  contractStorage : StorageMap (String × String) String
  receipts : StorageMap String TransactionReceipt
  eventLogs : List (String × ℕ × Log)

namespace Tables

/-- `get_contract_bytecode`. -/
def getContractBytecode (t : Tables) (address : String) : Option String :=
  (t.accounts.lookup address).bind fun row => if row.codeHash = "" then none else row.bytecode

/-- What the machine asks of the database. -/
def database (t : Tables) (getBlock : ℕ → ℕ → Except String (Option StoredBlock)) : Database where
  getContractBytecode _ address := .ok (t.getContractBytecode address)
  getStorage _ address key :=
    .ok (orElse (t.contractStorage.value "" (address, key)) zeroHex)
  getAccountBalance _ address := .ok ((t.accounts.lookup address).elim 0 AccountRow.balance)
  getAccount _ address :=
    .ok ((t.accounts.lookup address).map fun row => ⟨row.nonce, row.codeHash⟩)
  getBlock := getBlock

/-- The account that `get_or_create_account` returns. -/
def account (t : Tables) (address : String) : AccountRow :=
  (t.accounts.lookup address).getD .new

def createAccount (t : Tables) (address : String) : Tables :=
  { t with accounts := t.accounts.insert address (t.account address) }

/-- `update_account`; the code of an account stays. -/
def updateAccount (t : Tables) (address : String) (row : AccountRow) : Tables :=
  let bytecode := (t.accounts.lookup address).bind AccountRow.bytecode
  { t with accounts := t.accounts.insert address { row with bytecode } }

/-- The account of a new contract. -/
def deployCode (t : Tables) (address codeHash bytecode : String) : Tables :=
  let row := { t.account address with codeHash, bytecode := some bytecode }
  { t with accounts := t.accounts.insert address row }

/-- `_flush_storage`: each changed slot is inserted or updated. -/
def flushStorage (t : Tables) (changes : Storage) : Tables :=
  { t with contractStorage := StorageMap.flatten changes ∪ t.contractStorage }

/-- `store_receipt`: a transaction keeps its first receipt, and its logs are added each time. -/
def storeReceipt (t : Tables) (receipt : TransactionReceipt) : Tables :=
  { t with
    receipts :=
      if receipt.txid ∈ t.receipts then t.receipts else t.receipts.insert receipt.txid receipt
    eventLogs := t.eventLogs ++ receipt.logs.zipIdx.map fun e => (receipt.txid, e.2, e.1) }

end Tables

/-- The screening of senders. -/
structure Sanctions where
  isAddressBlocked : ℕ → String → Except String Bool
  /-- The sources that list an address, if it is sanctioned. -/
  screenSanctions : ℕ → String → Except String (Option (List String))

/-- The machine, less the database and the block, and what else the manager is given. -/
structure Services where
  host : Host
  getBlock : ℕ → ℕ → Except String (Option StoredBlock)
  sanctions : Option Sanctions

/-- What the manager changes: the database, and what its machine holds from one execution to the
next. -/
structure StateManager where
  db : Tables
  qvm : Shared

abbrev Manage (α : Type) := Command Fault StateManager α

/-! ## Executions -/

theorem execute_isSome (host : Host) (message : Message) (shared : Shared) :
    (execute host (run host (message.gas + 2)) message shared).isSome :=
  Option.isSome_iff_ne_none.mpr
    (execute_finishes (run_finishes host _ _ (show message.gas + 1 - 0 < _ by omega)))

/-- `execute`, with fuel enough. -/
def executeFully (host : Host) (message : Message) (shared : Shared) : ExecutionResult × Shared :=
  (execute host (run host (message.gas + 2)) message shared).get
    (execute_isSome host message shared)

/-- What the frames of an execution do. -/
def effects (host : Host) (message : Message) (shared : Shared) : CallTree Effect :=
  executionTree host (message.gas + 2) message shared

namespace Manager

def reads {α : Type} (f : StateManager → α) : Manage α := fun m => .ok (f m) m

def modifiesDb (f : Tables → Tables) : Manage Unit := fun m => .ok () { m with db := f m.db }

/-- The moment it is, before some time passes. -/
def moment (asks : ℕ) : Manage ℕ := fun m =>
  .ok m.qvm.clock { m with qvm.clock := m.qvm.clock + asks }

/-- `bytes.fromhex`. -/
def parse (s : String) : Manage Bytes := fun m =>
  match fromHex s with
  | some data => .ok data m
  | none => .error (.notBytes s) m

section

variable (services : Services)

/-- The machine over the tables. -/
def machine (t : Tables) : Host := { services.host with db := some (t.database services.getBlock) }

def callMachine (message : Message) : Manage ExecutionResult := fun m =>
  let (result, shared) := executeFully (machine services m.db) message m.qvm
  .ok result { m with qvm := shared }

/-- The limit of a transaction, or that of a block. -/
def gasLimit (tx : Transaction) : ℕ :=
  if tx.gasLimit = 0 then services.host.config.BLOCK_GAS_LIMIT.toNat else tx.gasLimit

/-- `_get_sender_address`; `none` is a `ValueError`. -/
def sender (tx : Transaction) : Option String :=
  if tx.publicKey = "" then some (String.ofList (List.replicate 40 '0'))
  else (fromHex tx.publicKey).map fun key =>
    String.ofList ((hex (services.host.crypto.sha256 key)).toList.take 40)

def getSenderAddress (tx : Transaction) : Manage String := fun m =>
  match sender services tx with
  | some fromAddr => .ok fromAddr m
  | none => .error (.notBytes tx.publicKey) m

/-- Why a sender is refused, if it is; an exception lets it pass. -/
def blockedReason (sanctions : Sanctions) (now : ℕ) (fromAddr : String) : Option String :=
  match sanctions.isAddressBlocked now fromAddr with
  | .error _ | .ok false => none
  | .ok true =>
    match sanctions.screenSanctions (now + 1) fromAddr with
    | .error _ => none
    | .ok none =>
      some ("Compliance: address " ++ String.ofList (fromAddr.toList.take 12) ++ "... is blocked")
    | .ok (some sources) =>
      some ("Compliance: address sanctioned (" ++ ", ".intercalate sources ++ ")")

/-- What a transaction has a receipt for before it is executed. -/
def failedReceipt (block : Block) (txIndex : ℕ) (tx : Transaction) (fromAddr : String)
    (toAddr : Option String) (gasLimit : ℕ) (reason : String) : TransactionReceipt where
  txid := tx.txid
  blockHeight := block.height
  blockHash := block.hash
  txIndex := txIndex
  fromAddress := fromAddr
  toAddress := toAddr
  contractAddress := none
  gasUsed := 21000
  gasLimit := gasLimit
  status := 0
  logs := []
  returnData := ""
  revertReason := reason

def storeReceipt (receipt : TransactionReceipt) : Manage TransactionReceipt := do
  modifiesDb fun t => t.storeReceipt receipt
  pure receipt

/-- `_check_compliance`. -/
def checkCompliance (block : Block) (txIndex : ℕ) (tx : Transaction) (fromAddr : String) :
    Manage (Option TransactionReceipt) :=
  match services.sanctions with
  | none => pure none
  | some sanctions => do
    let now ← moment 2
    match blockedReason sanctions now fromAddr with
    | none => pure none
    | some reason => do
      let receipt ← storeReceipt (failedReceipt block txIndex tx fromAddr
        (tx.toAddress.filter (· ≠ "")) (gasLimit services tx) reason)
      pure (some receipt)

/-- The data of a transaction; what is no hexadecimal text counts as empty. -/
def payload (tx : Transaction) : Bytes :=
  let text := tx.data.getD ""
  let digits := if text.startsWith "0x" then String.ofList (text.toList.drop 2) else text
  (fromHex digits).getD []

/-- The address of a contract, from what `rlp_encode_create_address` hashes. -/
def createPreimage (fromAddr : String) (nonce : ℕ) : Option Bytes :=
  (fromHex (String.ofList ((ljustZeros fromAddr 40).toList.take 40))).map fun senderBytes =>
    let encoded := rlpEncodeBytes senderBytes ++ rlpEncodeInteger nonce
    rlpEncodeLength encoded 0xc0 ++ encoded

def contractAddress (fromAddr : String) (nonce : ℕ) : Manage String := fun m =>
  match createPreimage fromAddr nonce with
  | some preimage => .ok (hex ((services.host.crypto.keccak256 preimage).take 20)) m
  | none => .error (.notBytes fromAddr) m

def topMessage (fromAddr address : String) (code data : Bytes) (value : ℤ) (gas : ℕ) : Message where
  caller := fromAddr
  address := address
  code := code
  data := data
  value := value
  gas := gas
  origin := fromAddr
  isStatic := false
  depth := 0

/-- The receipt of an execution. -/
def executedReceipt (block : Block) (txIndex : ℕ) (tx : Transaction) (fromAddr : String)
    (toAddr contractAddr : Option String) (result : ExecutionResult) : TransactionReceipt where
  txid := tx.txid
  blockHeight := block.height
  blockHash := block.hash
  txIndex := txIndex
  fromAddress := fromAddr
  toAddress := toAddr
  contractAddress := contractAddr
  gasUsed := result.gasUsed
  gasLimit := gasLimit services tx
  status := if result.success then 1 else 0
  logs := result.logs
  returnData := hex result.returnData
  revertReason := result.revertReason

/-- A deployment leaves a contract. -/
def Deploys (result : ExecutionResult) : Prop := result.success = true ∧ result.returnData ≠ []

instance (result : ExecutionResult) : Decidable (Deploys result) :=
  inferInstanceAs (Decidable (_ ∧ _))

/-- What is written for a deployment that leaves a contract. -/
def storeContract (address : String) (result : ExecutionResult) (t : Tables) : Tables :=
  if Deploys result then
    (t.deployCode address (hex (services.host.crypto.sha256 result.returnData))
      (hex result.returnData)).flushStorage result.storageChanges
  else t

/-- How a transaction goes on: it is settled, or the machine executes a message for it. -/
inductive Plan
  | settled (receipt : Option TransactionReceipt)
  | deploy (fromAddr : String) (account : AccountRow) (message : Message)
  | call (fromAddr : String) (message : Message)

/-- What the machine executes. -/
def Plan.message : Plan → Option Message
  | .settled _ => none
  | .deploy _ _ message | .call _ message => some message

/-- `_deploy_contract` up to the execution. -/
def prepareDeploy (block : Block) (txIndex : ℕ) (tx : Transaction) : Manage Plan := do
  let fromAddr ← getSenderAddress services tx
  let blocked ← checkCompliance services block txIndex tx fromAddr
  match blocked with
  | some receipt => pure (.settled (some receipt))
  | none => do
    modifiesDb fun t => t.createAccount fromAddr
    let account ← reads fun m => m.db.account fromAddr
    let address ← contractAddress services fromAddr account.nonce
    pure (.deploy fromAddr account
      (topMessage fromAddr address (payload tx) [] 0 (gasLimit services tx)))

/-- The rest of `_deploy_contract`.  The nonce is counted on from the account as it was read. -/
def finishDeploy (block : Block) (txIndex : ℕ) (tx : Transaction) (fromAddr : String)
    (account : AccountRow) (address : String) (result : ExecutionResult) :
    Manage TransactionReceipt := do
  modifiesDb fun t => storeContract services address result t
  modifiesDb fun t => t.updateAccount fromAddr { account with nonce := account.nonce + 1 }
  storeReceipt (executedReceipt services block txIndex tx fromAddr none
    (if result.success then some address else none) result)

/-- The code of a contract, empty where there is none. -/
def codeAt (address : String) : Manage Bytes := do
  let bytecode ← reads fun m => m.db.getContractBytecode address
  match bytecode with
  | none => pure []
  | some text => parse text

/-- `_call_contract` up to the execution. -/
def prepareCall (block : Block) (txIndex : ℕ) (tx : Transaction) : Manage Plan := do
  let fromAddr ← getSenderAddress services tx
  let blocked ← checkCompliance services block txIndex tx fromAddr
  match blocked with
  | some receipt => pure (.settled (some receipt))
  | none => do
    let toAddr := tx.toAddress.getD ""
    let code ← codeAt toAddr
    if code = [] then do
      let receipt ← storeReceipt (failedReceipt block txIndex tx fromAddr (some toAddr)
        (if tx.gasLimit = 0 then 21000 else tx.gasLimit) "Contract not found")
      pure (.settled (some receipt))
    else
      pure (.call fromAddr (topMessage fromAddr toAddr code (payload tx) (tx.outputs.headD 0)
        (gasLimit services tx)))

/-- What is written for a call. -/
def storeCall (result : ExecutionResult) (t : Tables) : Tables :=
  if result.success then t.flushStorage result.storageChanges else t

/-- The rest of `_call_contract`. -/
def finishCall (block : Block) (txIndex : ℕ) (tx : Transaction) (fromAddr toAddr : String)
    (result : ExecutionResult) : Manage TransactionReceipt := do
  modifiesDb (storeCall result)
  modifiesDb fun t => t.createAccount fromAddr
  modifiesDb fun t => t.updateAccount fromAddr
    { t.account fromAddr with nonce := (t.account fromAddr).nonce + 1 }
  storeReceipt (executedReceipt services block txIndex tx fromAddr (some toAddr) none result)

def prepare (block : Block) (txIndex : ℕ) (tx : Transaction) : Manage Plan :=
  match tx.txType with
  | .contractDeploy => prepareDeploy services block txIndex tx
  | .contractCall => prepareCall services block txIndex tx
  | .transfer | .l2Deposit | .l2Withdraw | .other => pure (.settled none)

def finish (block : Block) (txIndex : ℕ) (tx : Transaction) :
    Plan → Manage (Option TransactionReceipt)
  | .settled receipt => pure receipt
  | .deploy fromAddr account message => do
    let result ← callMachine services message
    some <$> finishDeploy services block txIndex tx fromAddr account message.address result
  | .call fromAddr message => do
    let result ← callMachine services message
    some <$> finishCall services block txIndex tx fromAddr message.address result

/-- `process_transaction`. -/
def processTransaction (block : Block) (txIndex : ℕ) (tx : Transaction) :
    Manage (Option TransactionReceipt) := do
  let plan ← prepare services block txIndex tx
  finish services block txIndex tx plan

/-- The loop of `execute_block_transactions`. -/
def processTransactions (block : Block) : ℕ → List Transaction → Manage (List TransactionReceipt)
  | _, [] => pure []
  | txIndex, tx :: txs => do
    let receipt ← processTransaction services block txIndex tx
    let receipts ← processTransactions block (txIndex + 1) txs
    pure (receipt.toList ++ receipts)

end

/-- The block as the opcodes see it, which `set_block_context` sets. -/
def blockContext (crypto : Crypto) (baseFee : ℤ) (block : Block) : BlockContext where
  number := some block.height
  coinbase := some (block.minerAddress.getD (String.ofList (List.replicate 40 '0')))
  timestamp := some block.timestamp
  prevrandao := some (ofBigEndian ((crypto.sha256 (encode (toString block.height))).take 8) : ℤ)
  basefee := some baseFee

/-- The transactions of a block. -/
def executeBlockTransactions (services : Services) (baseFee : ℤ) (block : Block) :
    Manage (List TransactionReceipt) :=
  let context := blockContext services.host.crypto baseFee block
  processTransactions { services with host := { services.host with block := context } } block 0
    block.transactions

end Manager

/-- The settings of the base fee. -/
structure FeeConfig where
  EIP1559_ELASTICITY_MULTIPLIER : ℕ
  EIP1559_BASE_FEE_CHANGE_DENOMINATOR : ℕ

/-- `calculate_base_fee`. -/
def calculateBaseFee (config : FeeConfig) (parentGasUsed parentGasLimit parentBaseFee : ℕ) : ℕ :=
  let denominator := config.EIP1559_BASE_FEE_CHANGE_DENOMINATOR
  let gasTarget := parentGasLimit / config.EIP1559_ELASTICITY_MULTIPLIER
  if gasTarget = 0 then parentBaseFee
  else if parentGasUsed = gasTarget then parentBaseFee
  else if gasTarget < parentGasUsed then
    let gasUsedDelta := parentGasUsed - gasTarget
    parentBaseFee + max (parentBaseFee * gasUsedDelta / gasTarget / denominator) 1
  else
    let gasUsedDelta := gasTarget - parentGasUsed
    max (parentBaseFee - parentBaseFee * gasUsedDelta / gasTarget / denominator) 1

/-- `update_base_fee` for one block after the other, by the gas used and the limit of each. -/
def updateBaseFees (config : FeeConfig) (baseFee : ℕ) (blocks : List (ℕ × ℕ)) : ℕ :=
  blocks.foldl (fun fee block => calculateBaseFee config block.1 block.2 fee) baseFee

end Qubitcoin.PythonVm
