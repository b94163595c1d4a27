import Qubitcoin.Node.Database

/-! Whether the two rollbacks undo what the blocks above a height have changed. -/

namespace Qubitcoin.Node

namespace Database

section

variable (vm : Vm) (calculateHash : Block → String)

/-- One block of a chain: executed, stored, and its coinbase added to the supply. -/
def extend (db : Database) (block : Block) : Except StoreError Database := do
  ensure (block.height = db.currentHeight + 1) .notNextBlock
  let db ← (db.executeBlockTransactions vm block).okOr .executionFailed
  let db ← db.storeBlock calculateHash block
  return db.updateSupply (coinbaseTotal block)

def build (chain : List Block) : Except StoreError Database :=
  chain.foldlM (extend vm calculateHash) empty

/-- The addresses with their nonces and balances. -/
def balances (db : Database) : List (String × ℤ × ℚ) :=
  db.accounts.map fun account => (account.address, account.nonce, account.balance)

structure Restores (db old : Database) : Prop where
  blocks : db.blocks = old.blocks
  transactions : db.transactions.filter TxRow.confirmed = old.transactions.filter TxRow.confirmed
  utxos : db.utxos = old.utxos
  totalMinted : db.totalMinted = old.totalMinted
  balances : db.balances = old.balances
  contractStorage : db.contractStorage = old.contractStorage

/-- The transaction gets as far as running a contract. -/
def Runs (db : Database) (height : ℤ) (tx : Transaction) : Prop :=
  vm.blocked height tx = false ∧
    (tx.txType = "contract_deploy" ∨
      tx.txType = "contract_call" ∧ (db.contractCode (vm.recipient tx)).isSome = true)

/-- What the rollbacks leave to the blocks above a height. -/
structure Undoable (old : Database) (after : List Block) : Prop where
  fresh : ∀ block ∈ after, ∀ tx ∈ block.transactions,
    tx.txid ∉ old.transactions.map TxRow.txid
  idle : ∀ block ∈ after, ∀ tx ∈ block.transactions, ¬ old.Runs vm block.height tx

end

/-- Everything in the tables is of a height up to `n`. -/
structure UpTo (n : ℤ) (db : Database) : Prop where
  blocks : ∀ row ∈ db.blocks, row.height ≤ n
  transactions : ∀ row ∈ db.transactions, row.confirmed = true ∧ ∃ k ≤ n, row.blockHeight = some k
  utxos : ∀ utxo ∈ db.utxos, ∃ k ≤ n, utxo.blockHeight = some k
  unspent : ∀ utxo ∈ db.utxos, utxo.spent = false → utxo.spentBy = none
  spent : ∀ utxo ∈ db.utxos, utxo.spent = true →
    ∃ txid ∈ db.transactions.map TxRow.txid, utxo.spentBy = some txid
  contractStorage : ∀ row ∈ db.contractStorage, row.blockHeight ≤ n

/-- A row of an output, and what has become of it. -/
def SpentSince (later : List String) (utxo utxo' : Utxo) : Prop :=
  utxo' = utxo ∨
    utxo.spent = false ∧ ∃ txid ∈ later, utxo' = { utxo with spent := true, spentBy := some txid }

/-- A row of a transaction, and what has become of it. -/
def MovedSince (h : ℤ) (later : List String) (row row' : TxRow) : Prop :=
  row'.txid = row.txid ∧ (row' = row ∨ row.txid ∈ later ∧ RemovedTx h row' = true)

/-- The tables after transactions `later` above height `h`. -/
structure Since (h : ℤ) (old : Database) (later : List String) (db : Database) : Prop where
  utxos : ∃ kept rest, db.utxos = kept ++ rest ∧
    List.Forall₂ (SpentSince later) old.utxos kept ∧
      ∀ utxo ∈ rest, ∃ k, h < k ∧ utxo.blockHeight = some k
  transactions : ∃ kept rest, db.transactions = kept ++ rest ∧
    List.Forall₂ (MovedSince h later) old.transactions kept ∧
      ∀ row ∈ rest, row.txid ∈ later ∧ RemovedTx h row = true
  found : ∀ txid ∈ later, txid ∈ db.transactions.map TxRow.txid
  removed : ∀ row ∈ db.transactions, row.txid ∈ later → RemovedTx h row = true

section Steps

variable {h : ℤ} {old db db' : Database} {later : List String}

theorem since_refl (h : ℤ) (old : Database) : Since h old [] old where
  utxos := ⟨old.utxos, [], by simp, List.forall₂_same.mpr fun _ _ => .inl rfl, by simp⟩
  transactions := ⟨old.transactions, [], by simp,
    List.forall₂_same.mpr fun _ _ => ⟨rfl, .inl rfl⟩, by simp⟩
  found := by simp
  removed := by simp

/-- An update that marks outputs as spent by a later transaction. -/
theorem spentSince_mark {utxo utxo' : Utxo} {txid txid' : String} {vout : ℤ}
    (hlater : txid ∈ later) (hs : SpentSince later utxo utxo') :
    SpentSince later utxo (if Available txid' vout utxo' then
      { utxo' with spent := true, spentBy := some txid } else utxo') := by
  split
  · next havailable =>
    unfold Available at havailable
    simp only [Bool.and_eq_true, Bool.not_eq_true'] at havailable
    obtain rfl | ⟨hunspent, txid'', -, rfl⟩ := hs
    · exact .inr ⟨havailable.2, txid, hlater, rfl⟩
    · exact absurd havailable.2 (by simp)
  · exact hs

theorem markUtxoSpent_ok {txid : String} {inp : TxInput}
    (hok : markUtxoSpent txid db inp = .ok db') :
    ∃ txid' vout, db' = { db with
      utxos := db.utxos.map fun utxo =>
        if Available txid' vout utxo then { utxo with spent := true, spentBy := some txid }
        else utxo } := by
  unfold markUtxoSpent at hok
  obtain ⟨txid', -, hok⟩ := Checked.okOr_bind_eq_ok.mp hok
  obtain ⟨vout, -, hok⟩ := Checked.okOr_bind_eq_ok.mp hok
  obtain ⟨-, hok⟩ := Checked.ensure_bind_eq_ok.mp hok
  exact ⟨txid', vout, (Except.ok.inj hok).symm⟩

theorem createUtxo_ok {txid : String} {k : ℤ} {entry : TxOutput × ℕ}
    (hok : createUtxo txid k db entry = .ok db') :
    ∃ utxo : Utxo, utxo.blockHeight = some k ∧ utxo.spent = false ∧ utxo.spentBy = none ∧
      db' = { db with utxos := db.utxos ++ [utxo] } := by
  unfold createUtxo at hok
  obtain ⟨entryAmount, -, hok⟩ := Checked.okOr_bind_eq_ok.mp hok
  obtain ⟨amount, -, hok⟩ := Checked.okOr_bind_eq_ok.mp hok
  obtain ⟨address, -, hok⟩ := Checked.okOr_bind_eq_ok.mp hok
  obtain ⟨-, hok⟩ := Checked.ensure_bind_eq_ok.mp hok
  obtain ⟨-, hok⟩ := Checked.ensure_bind_eq_ok.mp hok
  exact ⟨_, rfl, rfl, rfl, (Except.ok.inj hok).symm⟩

end Steps

end Database

end Qubitcoin.Node
