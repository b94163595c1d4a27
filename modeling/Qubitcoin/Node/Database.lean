import Qubitcoin.Library.Tables
import Qubitcoin.Node.BlockConservation

/-! The tables of `database/manager.py` that a stored block changes, the execution of contract
transactions by `qvm/state.py`, and the two rollbacks.  A `DECIMAL` column holds a number, and
its sums are exact. -/

namespace Qubitcoin.Node

structure BlockRow where
  height : ℤ
  prevHash : String
  blockHash : String
  difficulty : Decimal
  createdAt : Decimal
  proofData : String
  stateRoot : String
  receiptsRoot : String
  thoughtProof : Option String
  cumulativeWeight : ℚ
  deriving DecidableEq

/-- A pending transaction may lack its inputs and has no height. -/
structure TxRow where
  txid : String
  inputs : Option (List TxInput)
  outputs : List (String × Amount)
  fee : String
  signature : String
  publicKey : String
  timestamp : String
  txType : String
  blockHeight : Option ℤ
  confirmed : Bool
  deriving DecidableEq

structure AccountRow where
  address : String
  nonce : ℤ
  balance : ℚ
  codeHash : String
  storageRoot : String
  bytecode : Option String
  deriving DecidableEq

structure StorageRow where
  contractAddress : String
  storageKey : String
  storageValue : String
  blockHeight : ℤ
  deriving DecidableEq

/-- `supply` has one row, so that its `total_minted` is a field here. -/
structure Database where
  blocks : List BlockRow
  transactions : List TxRow
  utxos : List Utxo
  totalMinted : ℚ
  accounts : List AccountRow
  contractStorage : List StorageRow
  deriving DecidableEq

inductive StoreError
  | notNextBlock
  | alreadySpent (txid : String) (vout : ℤ)
  | keyError
  | notANumber
  | uniqueViolation
  | executionFailed
  deriving DecidableEq

/-- What running a contract changes. -/
structure ExecutionResult where
  success : Bool
  returnData : String
  storageChanges : List (String × List (String × String))

/-- The virtual machine and what is asked before it: the address of the sender, the compliance
check, the called contract, the address of a new one and its hash, and the run, which may raise. -/
structure Vm where
  sender : Transaction → Option String
  blocked : ℤ → Transaction → Bool
  recipient : Transaction → String
  createAddress : String → ℤ → String
  codeHash : String → String
  execute : Database → ℤ → Transaction → String → String → Option ExecutionResult

/-- `ConsensusEngine.get_block_weight`, for a difficulty that is a number. -/
def blockWeight (difficulty : Decimal) : ℚ :=
  if difficulty.value ≤ 0 then 10 ^ 18 else 1 / difficulty.value

namespace Database

def empty : Database where
  blocks := []
  transactions := []
  utxos := []
  totalMinted := 0
  accounts := []
  contractStorage := []

/-- `COALESCE(MAX(height), -1)`. -/
def currentHeight (db : Database) : ℤ := (db.blocks.map BlockRow.height).foldl max (-1)

section Execution

variable (vm : Vm)

def getAccount (db : Database) (address : String) : Option AccountRow :=
  Table.find AccountRow.address db.accounts address

def newAccount (address : String) : AccountRow where
  address := address
  nonce := 0
  balance := 0
  codeHash := ""
  storageRoot := ""
  bytecode := none

/-- Inserts an empty account where there is none. -/
def createAccount (db : Database) (address : String) : Database :=
  { db with accounts := Table.upsert AccountRow.address db.accounts (newAccount address) id }

/-- `update_account`; the code of an account stays. -/
def updateAccount (db : Database) (account : AccountRow) : Database :=
  { db with
    accounts := Table.upsert AccountRow.address db.accounts { account with bytecode := none }
      fun row => { account with address := row.address, bytecode := row.bytecode } }

def deployCode (db : Database) (address codeHash bytecode : String) : Database :=
  { db with
    accounts := Table.upsert AccountRow.address db.accounts
      { newAccount address with codeHash, bytecode := some bytecode }
      fun row => { row with codeHash, bytecode := some bytecode } }

def setStorage (height : ℤ) (db : Database) (address key value : String) : Database :=
  { db with
    contractStorage := Table.upsert
      (fun row : StorageRow => (row.contractAddress, row.storageKey)) db.contractStorage
      { contractAddress := address, storageKey := key, storageValue := value, blockHeight := height }
      fun row => { row with storageValue := value, blockHeight := height } }

/-- `_flush_storage`. -/
def flushStorage (db : Database) (result : ExecutionResult) (height : ℤ) : Database :=
  result.storageChanges.foldl (fun db changes =>
    changes.2.foldl (fun db change => setStorage height db changes.1 change.1 change.2) db) db

/-- The account that `get_or_create_account` returns. -/
def accountOf (db : Database) (address : String) : AccountRow :=
  (db.getAccount address).getD (newAccount address)

/-- The nonce of the sender, one more than it was when the account was read. -/
def incrementNonce (db : Database) (account : AccountRow) : Database :=
  db.updateAccount { account with nonce := account.nonce + 1 }

/-- A blocked sender gets a receipt only. -/
def deployContract (db : Database) (height : ℤ) (tx : Transaction) : Option Database := do
  let sender ← vm.sender tx
  if vm.blocked height tx then return db
  let db := db.createAccount sender
  let account := db.accountOf sender
  let address := vm.createAddress sender account.nonce
  let result ← vm.execute db height tx address ""
  if result.success ∧ result.returnData ≠ "" then
    let db := db.deployCode address (vm.codeHash result.returnData) result.returnData
    return (db.flushStorage result height).incrementNonce account
  else return db.incrementNonce account

/-- `get_contract_bytecode`, where an empty code counts as none. -/
def contractCode (db : Database) (address : String) : Option String := do
  let account ← db.getAccount address
  guard (account.codeHash ≠ "")
  let bytecode ← account.bytecode
  guard (bytecode ≠ "")
  return bytecode

/-- Without a contract there is a receipt only. -/
def callContract (db : Database) (height : ℤ) (tx : Transaction) : Option Database := do
  let sender ← vm.sender tx
  if vm.blocked height tx then return db
  match db.contractCode (vm.recipient tx) with
  | none => return db
  | some code =>
    let result ← vm.execute db height tx (vm.recipient tx) code
    let db := if result.success then db.flushStorage result height else db
    let db := db.createAccount sender
    return db.incrementNonce (db.accountOf sender)

/-- `process_transaction`. -/
def processTransaction (height : ℤ) (db : Database) (tx : Transaction) : Option Database :=
  if tx.txType = "contract_deploy" then db.deployContract vm height tx
  else if tx.txType = "contract_call" then db.callContract vm height tx
  else some db

def executeBlockTransactions (db : Database) (block : Block) : Option Database :=
  block.transactions.foldlM (processTransaction vm block.height) db

end Execution

section Store

def Available (txid : String) (vout : ℤ) (utxo : Utxo) : Bool :=
  utxo.txid = txid && utxo.vout = vout && !utxo.spent

def markUtxoSpent (spentBy : String) (db : Database) (inp : TxInput) :
    Except StoreError Database := do
  let txid ← inp.txid.okOr .keyError
  let vout ← inp.vout.okOr .keyError
  ensure (db.utxos.any (Available txid vout) = true) (.alreadySpent txid vout)
  return { db with
    utxos := db.utxos.map fun utxo =>
      if Available txid vout utxo then { utxo with spent := true, spentBy := some spentBy }
      else utxo }

def createUtxo (txid : String) (height : ℤ) (db : Database) (entry : TxOutput × ℕ) :
    Except StoreError Database := do
  let amount ← (← entry.1.amount.okOr .keyError).decimal.okOr .notANumber
  let address ← entry.1.address.okOr .keyError
  ensure (amount = .finite amount.value) .notANumber
  ensure (db.utxos.all (fun utxo => utxo.txid ≠ txid || utxo.vout ≠ entry.2) = true)
    .uniqueViolation
  let utxo : Utxo :=
    { txid, vout := entry.2, amount, address, blockHeight := some height, spent := false,
      spentBy := none }
  return { db with utxos := db.utxos ++ [utxo] }

/-- The row of a transaction, as far as its outputs have both keys. -/
def txRow (height : ℤ) (tx : Transaction) : Option TxRow := do
  let outputs ← tx.outputs.mapM fun out => do return (← out.address, ← out.amount)
  return { txid := tx.txid, inputs := some tx.inputs, outputs, fee := tx.feeText,
           signature := tx.signature, publicKey := tx.publicKey, timestamp := tx.timestamp,
           txType := tx.txType, blockHeight := some height, confirmed := true }

/-- A transaction that is there already only gets its height. -/
def confirmTransaction (db : Database) (row : TxRow) : Database :=
  { db with
    transactions := Table.upsert TxRow.txid db.transactions row
      fun old => { old with blockHeight := row.blockHeight, confirmed := true } }

def storeTransaction (height : ℤ) (db : Database) (tx : Transaction) :
    Except StoreError Database := do
  let db ← tx.inputs.foldlM (markUtxoSpent tx.txid) db
  let db ← tx.outputs.zipIdx.foldlM (createUtxo tx.txid height) db
  let row ← (txRow height tx).okOr .keyError
  return db.confirmTransaction row

variable (calculateHash : Block → String)

def blockRow (db : Database) (block : Block) : BlockRow where
  height := block.height
  prevHash := block.prevHash
  blockHash := (block.blockHash.filter (· ≠ "")).getD (calculateHash block)
  difficulty := block.difficulty
  createdAt := block.timestamp
  proofData := block.proofData
  stateRoot := block.stateRoot
  receiptsRoot := block.receiptsRoot
  thoughtProof := block.thoughtProof
  cumulativeWeight :=
    ((Table.find BlockRow.height db.blocks (block.height - 1)).elim 0 BlockRow.cumulativeWeight) +
      blockWeight block.difficulty

/-- `store_block`; a block at a height that is taken is passed over. -/
def storeBlock (db : Database) (block : Block) : Except StoreError Database :=
  if (Table.find BlockRow.height db.blocks block.height).isSome then .ok db
  else
    block.transactions.foldlM (storeTransaction block.height)
      { db with blocks := db.blocks ++ [db.blockRow calculateHash block] }

/-- The outputs of the first transaction without inputs. -/
def coinbaseTotal (block : Block) : ℚ :=
  (block.transactions.find? fun tx => tx.inputs.isEmpty).elim 0 Transaction.created

def updateSupply (db : Database) (amount : ℚ) : Database :=
  { db with totalMinted := db.totalMinted + amount }

end Store

section Rollback

def RemovedTx (height : ℤ) (row : TxRow) : Bool := row.blockHeight.any (height < ·)

def removedTxids (db : Database) (height : ℤ) : List String :=
  (db.transactions.filter (RemovedTx height)).map TxRow.txid

/-- Input-less transactions up to a height. -/
def MintedBy (height : ℤ) (row : TxRow) : Bool :=
  row.blockHeight.any (· ≤ height) && row.inputs.all List.isEmpty

/-- The supply as `rollback_to_height` counts it: the outputs of input-less transactions. -/
def mintedOutputs (db : Database) (height : ℤ) : ℚ :=
  (db.utxos.flatMap fun utxo =>
    ((db.transactions.filter fun row => row.txid = utxo.txid && MintedBy height row).map
      fun _ => utxo.amount.value)).sum

/-- The supply as `resolve_fork` counts it, from the rows of the transactions. -/
def mintedRows (db : Database) (height : ℤ) : ℚ :=
  ((db.transactions.filter (MintedBy height)).flatMap fun row =>
    row.outputs.map fun out => (out.2.decimal.map Decimal.value).getD 0).sum

def deleteUtxosAbove (db : Database) (height : ℤ) : Database :=
  { db with utxos := db.utxos.filter fun utxo => !utxo.blockHeight.any (height < ·) }

/-- Restores the outputs that removed transactions have spent. -/
def unspend (db : Database) (onlySpent : Bool) (height : ℤ) : Database :=
  { db with
    utxos := db.utxos.map fun utxo =>
      if (utxo.spent || !onlySpent) && utxo.spentBy.any (· ∈ db.removedTxids height) then
        { utxo with spent := false, spentBy := none }
      else utxo }

def deleteAbove (db : Database) (height : ℤ) : Database :=
  { db with
    transactions := db.transactions.filter fun row => !RemovedTx height row
    blocks := db.blocks.filter fun row => !decide (height < row.height) }

/-- `rollback_to_height`. -/
def rollbackToHeight (db : Database) (height : ℤ) : Database :=
  if db.blocks.all (fun row => !decide (height < row.height)) then db
  else
    let db := ((db.deleteUtxosAbove height).unspend true height).deleteAbove height
    { db with totalMinted := db.mintedOutputs height }

/-- The rollback in `resolve_fork`. -/
def resolveForkRollback (db : Database) (fork : ℤ) : Database :=
  let db := (db.deleteUtxosAbove fork).unspend false fork
  let db := { db with
    contractStorage := db.contractStorage.filter fun row => !decide (fork < row.blockHeight) }
  let db := db.deleteAbove fork
  { db with totalMinted := db.mintedRows fork }

end Rollback

end Database

end Qubitcoin.Node
