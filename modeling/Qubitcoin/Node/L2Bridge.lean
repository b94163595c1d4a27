import Qubitcoin.Library.Machine
import Qubitcoin.Node.Database

/-! `l2_bridge.py`: deposits of unspent outputs into accounts and withdrawals from accounts into
outputs.  Each call is one database session, which a refused call rolls back; amounts are exact,
and the columns have no widths. -/

namespace Qubitcoin.Node.L2Bridge

/-- `decimal.DecimalTuple`: the digits stand for a natural number. -/
structure DecimalTuple where
  sign : Bool
  digits : ℕ
  exponent : ℤ
  deriving DecidableEq

namespace DecimalTuple

def value (d : DecimalTuple) : ℚ := (if d.sign then -1 else 1) * d.digits * 10 ^ d.exponent

def digitChars (n : ℕ) : List Char :=
  if n = 0 then ['0'] else (Nat.digits 10 n).reverse.map hexDigit

/-- `%+d`. -/
def signedChars (n : ℤ) : List Char := (if n < 0 then '-' else '+') :: digitChars n.natAbs

/-- `Decimal.__str__`: a point within or not far before the digits, or an exponent. -/
def chars (d : DecimalTuple) : List Char :=
  let int := digitChars d.digits
  let leftdigits : ℤ := d.exponent + int.length
  let dotplace : ℤ := if d.exponent ≤ 0 ∧ -6 < leftdigits then leftdigits else 1
  let plain :=
    if dotplace ≤ 0 then '0' :: '.' :: (List.replicate (-dotplace).toNat '0' ++ int)
    else if int.length ≤ dotplace then int ++ List.replicate (dotplace - int.length).toNat '0'
    else int.take dotplace.toNat ++ '.' :: int.drop dotplace.toNat
  (if d.sign then ['-'] else []) ++ plain ++
    if leftdigits = dotplace then [] else 'E' :: signedChars (leftdigits - dotplace)

def str (d : DecimalTuple) : String := String.ofList d.chars

end DecimalTuple

def utf8 (text : String) : Bytes := text.toList.flatMap String.utf8EncodeChar

def hex4 (n : ℕ) : List Char :=
  [hexDigit (n / 4096 % 16), hexDigit (n / 256 % 16), hexDigit (n / 16 % 16), hexDigit (n % 16)]

/-- One character as `json.dumps` writes it: ASCII only, surrogates beyond the basic plane. -/
def jsonChar (c : Char) : List Char :=
  if c = '"' then ['\\', '"']
  else if c = '\\' then ['\\', '\\']
  else if c = '\n' then ['\\', 'n']
  else if c = '\r' then ['\\', 'r']
  else if c = '\t' then ['\\', 't']
  else if c.toNat = 8 then ['\\', 'b']
  else if c.toNat = 12 then ['\\', 'f']
  else if 32 ≤ c.toNat ∧ c.toNat < 127 then [c]
  else if c.toNat < 0x10000 then '\\' :: 'u' :: hex4 c.toNat
  else
    '\\' :: 'u' :: hex4 (0xd800 + (c.toNat - 0x10000) / 0x400) ++
      '\\' :: 'u' :: hex4 (0xdc00 + (c.toNat - 0x10000) % 0x400)

def jsonString (text : String) : String :=
  String.ofList ('"' :: text.toList.flatMap jsonChar ++ ['"'])

/-- The message that a depositor signs, its keys sorted. -/
def depositMessage (fromAddress toAddress : String) (amount : DecimalTuple) : Bytes :=
  utf8 ("\x7b\"action\": \"l2_deposit\", \"amount\": " ++ jsonString amount.str ++ ", \"from\": " ++
    jsonString fromAddress ++ ", \"to\": " ++ jsonString toAddress ++ "\x7d")

/-- `address.replace('0x', '')`. -/
def dropMarks : List Char → List Char
  | '0' :: 'x' :: cs => dropMarks cs
  | c :: cs => c :: dropMarks cs
  | [] => []

structure Utxo where
  txid : String
  vout : ℤ
  amount : ℚ
  address : String
  blockHeight : Option ℤ
  spent : Bool
  spentBy : Option String
  deriving DecidableEq

def Utxo.key (u : Utxo) : String × ℤ := (u.txid, u.vout)

/-- A transaction that the bridge records; the amounts are kept as numbers. -/
structure TransactionRow where
  txid : String
  inputs : List (String × ℤ)
  outputs : List (String × ℚ × String)
  signature : String
  publicKey : String
  timestamp : String
  txType : String
  toAddress : String
  deriving DecidableEq

structure LogRow where
  txid : String
  direction : String
  l1Address : String
  l2Address : String
  amount : ℚ
  blockHeight : ℤ
  deriving DecidableEq

/-- The tables with their primary keys. -/
structure Store where
  utxos : List Utxo
  accounts : List AccountRow
  transactions : List TransactionRow
  bridgeLog : List LogRow
  utxos_nodup : (utxos.map Utxo.key).Nodup
  accounts_nodup : (accounts.map AccountRow.address).Nodup

inductive Error
  | amountNotPositive | notHex | keyMismatch | invalidSignature | noUtxos
  | insufficientL1 (available amount : ℚ)
  | alreadySpent (key : String × ℤ)
  | insufficientL2 (balance amount : ℚ)
  | duplicateKey
  deriving DecidableEq

/-- Signatures and hashes, `str.lower`, and the order in which the database answers: by amount,
rows of one amount in any order. -/
structure Host where
  crypto : Crypto
  lower : String → String
  orderByAmount : Bool → List Utxo → List Utxo
  perm : ∀ descending rows, (orderByAmount descending rows).Perm rows
  sorted : ∀ descending rows, (orderByAmount descending rows).Pairwise fun r r' =>
    if descending then r'.amount ≤ r.amount else r.amount ≤ r'.amount

structure Deposit where
  fromAddress : String
  toAddress : String
  amount : DecimalTuple
  publicKeyHex : String
  signatureHex : String
  utxoStrategy : String

structure Withdrawal where
  fromAddress : String
  toAddress : String
  amount : DecimalTuple

structure Receipt where
  txHash : String
  amount : String
  l1Address : String
  l2Address : String
  change : ℚ

/-- The text of `time.time()` and the height of the chain when the call is served. -/
structure Moment where
  time : String
  height : ℤ

variable (host : Host)

def Host.l2Address (address : String) : String :=
  host.lower (String.ofList (dropMarks address.toList))

def Host.hash (text : String) : String := toHex (host.crypto.sha256 (utf8 text))

/-! ## The statements of a session -/

/-- The rows a deposit selects, and their sum: the loop stops at the first sum that is enough. -/
def selectRows (amount : ℚ) : List Utxo → ℚ → List Utxo × ℚ
  | [], total => ([], total)
  | r :: rows, total =>
    if amount ≤ total + r.amount then ([r], total + r.amount)
    else
      let (selected, total) := selectRows amount rows (total + r.amount)
      (r :: selected, total)

def markSpent (txHash : String) (u : Utxo) : Utxo :=
  if u.spent then u else { u with spent := true, spentBy := some txHash }

@[simp] theorem key_markSpent (txHash : String) (u : Utxo) : (markSpent txHash u).key = u.key := by
  unfold markSpent
  split <;> rfl

/-- An update that meets no unspent row of the key is an error. -/
def spendRow (txHash : String) (db : Store) (r : Utxo) : Except Error Store :=
  if ∃ u ∈ db.utxos, u.key = r.key ∧ u.spent = false then
    .ok { db with
      utxos := Table.update Utxo.key db.utxos r.key (markSpent txHash)
      utxos_nodup := by
        rw [Table.map_key_update (key_markSpent txHash)]
        exact db.utxos_nodup }
  else .error (.alreadySpent r.key)

def addBalance (amount : ℚ) (account : AccountRow) : AccountRow :=
  { account with balance := account.balance + amount }

def creditAccount (db : Store) (address : String) (amount : ℚ) : Store :=
  { db with
    accounts := Table.upsert AccountRow.address db.accounts
      { Database.newAccount address with balance := amount } (addBalance amount)
    accounts_nodup := Table.nodup_upsert db.accounts_nodup _ fun _ => rfl }

def debitAccount (db : Store) (address : String) (amount : ℚ) : Store :=
  { db with
    accounts := Table.update AccountRow.address db.accounts address (addBalance (-amount))
    accounts_nodup := by
      rw [Table.map_key_update (f := addBalance (-amount)) fun _ => rfl]
      exact db.accounts_nodup }

-- of the keys of the table of outputs
local instance lawfulBEqKey : LawfulBEq (String × ℤ) := inferInstance

def insertUtxo (db : Store) (u : Utxo) : Except Error Store :=
  if h : u.key ∈ db.utxos.map Utxo.key then .error .duplicateKey
  else .ok { db with
    utxos := db.utxos ++ [u]
    utxos_nodup := Table.nodup_append db.utxos_nodup h }

def insertTransaction (db : Store) (row : TransactionRow) : Except Error Store :=
  if row.txid ∈ db.transactions.map TransactionRow.txid then .error .duplicateKey
  else .ok { db with transactions := db.transactions ++ [row] }

/-- `ON CONFLICT (txid) DO NOTHING`. -/
def logOperation (db : Store) (row : LogRow) : Store :=
  if row.txid ∈ db.bridgeLog.map LogRow.txid then db
  else { db with bridgeLog := db.bridgeLog ++ [row] }

def newUtxo (txid : String) (vout : ℤ) (amount : ℚ) (address : String) (height : ℤ) : Utxo where
  txid := txid
  vout := vout
  amount := amount
  address := address
  blockHeight := some height
  spent := false
  spentBy := none

/-- The first 128 characters. -/
def clip (text : String) : String := String.ofList (text.toList.take 128)

/-! ## The calls -/

/-- Public key, message and signature. -/
abbrev Authorisation := Bytes × Bytes × Bytes

/-- What the depositor proves before the session opens. -/
def authorise (d : Deposit) : Except Error Authorisation := do
  ensure (0 < d.amount.value) .amountNotPositive
  let pk ← (fromHex d.publicKeyHex).okOr .notHex
  ensure (host.crypto.deriveAddress pk = d.fromAddress) .keyMismatch
  let message := depositMessage d.fromAddress d.toAddress d.amount
  let sig ← (fromHex d.signatureHex).okOr .notHex
  ensure (host.crypto.verify pk message sig = true) .invalidSignature
  return (pk, message, sig)

def unspentRows (db : Store) (address : String) : List Utxo :=
  db.utxos.filter fun u => u.address = address ∧ u.spent = false

/-- The unspent rows of an address in the order of the deposit's strategy. -/
def depositRows (db : Store) (d : Deposit) : List Utxo :=
  host.orderByAmount (d.utxoStrategy ≠ "smallest_first") (unspentRows db d.fromAddress)

def depositSelection (db : Store) (d : Deposit) : List Utxo × ℚ :=
  selectRows d.amount.value (depositRows host db d) 0

def outpointText (u : Utxo) : String := u.txid ++ ":" ++ toString u.vout

def depositHash (now : Moment) (db : Store) (d : Deposit) : String :=
  host.hash ("l2_deposit:" ++ d.fromAddress ++ ":" ++ host.l2Address d.toAddress ++ ":" ++
    d.amount.str ++ ":" ++ ":".intercalate ((depositSelection host db d).1.map outpointText) ++ ":" ++
    now.time)

/-- The output that returns what the selected rows hold beyond the amount. -/
def insertChange (now : Moment) (db : Store) (d : Deposit) (txHash : String) (change : ℚ) :
    Except Error Store :=
  if 0 < change then insertUtxo db (newUtxo txHash 0 change d.fromAddress now.height) else .ok db

def depositTransaction (now : Moment) (d : Deposit) (txHash : String) (selected : List Utxo)
    (change : ℚ) : TransactionRow where
  txid := txHash
  inputs := selected.map Utxo.key
  outputs := (host.l2Address d.toAddress, d.amount.value, "l2_credit") ::
    if 0 < change then [(d.fromAddress, change, "change")] else []
  signature := clip d.signatureHex
  publicKey := clip d.publicKeyHex
  timestamp := now.time
  txType := "l2_deposit"
  toAddress := host.l2Address d.toAddress

def depositEntry (now : Moment) (d : Deposit) (txHash : String) : LogRow where
  txid := txHash
  direction := "deposit"
  l1Address := d.fromAddress
  l2Address := host.l2Address d.toAddress
  amount := d.amount.value
  blockHeight := now.height

/-- The statements of a deposit that follow the choice of its rows. -/
def payDeposit (now : Moment) (db : Store) (d : Deposit) (txHash : String) (selected : List Utxo)
    (change : ℚ) : Except Error Store := do
  let db ← selected.foldlM (spendRow txHash) db
  let db := creditAccount db (host.l2Address d.toAddress) d.amount.value
  let db ← insertChange now db d txHash change
  let db ← insertTransaction db (depositTransaction host now d txHash selected change)
  return logOperation db (depositEntry host now d txHash)

def depositReceipt (d : Deposit) (txHash : String) (change : ℚ) : Receipt where
  txHash := txHash
  amount := d.amount.str
  l1Address := d.fromAddress
  l2Address := "0x" ++ host.l2Address d.toAddress
  change := if 0 < change then change else 0

/-- What a deposit does once its caller is authorised. -/
def depositSession (now : Moment) (db : Store) (d : Deposit) : Except Error (Store × Receipt) := do
  let rows := depositRows host db d
  ensure (rows ≠ []) .noUtxos
  let available := (rows.map Utxo.amount).sum
  ensure (¬available < d.amount.value) (.insufficientL1 available d.amount.value)
  let (selected, total) := depositSelection host db d
  let change := total - d.amount.value
  let txHash := depositHash host now db d
  let db ← payDeposit host now db d txHash selected change
  return (db, depositReceipt host d txHash change)

def deposit (now : Moment) (db : Store) (d : Deposit) : Except Error (Store × Receipt) := do
  let _ ← authorise host d
  depositSession host now db d

def balanceOf (db : Store) (address : String) : ℚ :=
  (Table.find AccountRow.address db.accounts address).elim 0 AccountRow.balance

def withdrawHash (now : Moment) (w : Withdrawal) : String :=
  host.hash ("l2_withdraw:" ++ host.l2Address w.fromAddress ++ ":" ++ w.toAddress ++ ":" ++
    w.amount.str ++ ":" ++ now.time)

def withdrawTransaction (now : Moment) (w : Withdrawal) (txHash : String) : TransactionRow where
  txid := txHash
  inputs := []
  outputs := [(w.toAddress, w.amount.value, "l1_utxo")]
  signature := ""
  publicKey := ""
  timestamp := now.time
  txType := "l2_withdraw"
  toAddress := w.toAddress

def withdrawEntry (now : Moment) (w : Withdrawal) (txHash : String) : LogRow where
  txid := txHash
  direction := "withdraw"
  l1Address := w.toAddress
  l2Address := host.l2Address w.fromAddress
  amount := w.amount.value
  blockHeight := now.height

def withdraw (now : Moment) (db : Store) (w : Withdrawal) : Except Error (Store × Receipt) := do
  let amount := w.amount.value
  ensure (0 < amount) .amountNotPositive
  let address := host.l2Address w.fromAddress
  let balance := balanceOf db address
  ensure (¬balance < amount) (.insufficientL2 balance amount)
  let txHash := withdrawHash host now w
  let db := debitAccount db address amount
  let db ← insertUtxo db (newUtxo txHash 0 amount w.toAddress now.height)
  let db ← insertTransaction db (withdrawTransaction now w txHash)
  return (logOperation db (withdrawEntry host now w txHash), {
    txHash := txHash
    amount := w.amount.str
    l1Address := w.toAddress
    l2Address := "0x" ++ address
    change := 0 })

inductive Call
  | deposit (now : Moment) (d : Deposit)
  | withdraw (now : Moment) (w : Withdrawal)

def serve (db : Store) : Call → Except Error (Store × Receipt)
  | .deposit now d => deposit host now db d
  | .withdraw now w => withdraw host now db w

/-- A call that fails leaves the tables as they were. -/
def step (db : Store) (call : Call) : Store :=
  match serve host db call with
  | .ok (db', _) => db'
  | .error _ => db

def run (db : Store) (calls : List Call) : Store := Machine.run (step host) db calls

end Qubitcoin.Node.L2Bridge
