import Qubitcoin.Library.Checked
import Qubitcoin.Node.Transaction

/-! The validation of transactions in `consensus/engine.py`.  The code answers with a boolean;
here each refusal keeps its reason, and an exception is one of them. -/

namespace Qubitcoin.Node

open Privacy (Curve RangeProof)

/-- `Config.COINBASE_MATURITY`. -/
def coinbaseMaturity : ℤ := 100

inductive DbError
  | missingTable
  | other
  deriving DecidableEq

/-- The answers of the database to the queries of the validators.  `storedInputs` is the
`inputs` column of a stored transaction, `none` inside where that is not a list. -/
structure ChainView where
  getUtxo : String → ℤ → Except DbError (Option Utxo)
  storedInputs : String → Except DbError (Option (Option (List TxInput)))
  keyImage : String → Except DbError Bool
  currentHeight : Except DbError ℤ

inductive Rejection
  | invalidSignature
  | doubleSpend
  | notFoundOrSpent
  | immatureCoinbase
  | insufficientInputs
  | noInputs
  | missingKeyImage
  | duplicateKeyImage
  | keyImageSpent
  | rangeProofFailed
  | negativeFee
  | exception
  deriving DecidableEq

/-- `_is_coinbase_utxo`: what is not found, or not readable, counts as coinbase. -/
def ChainView.isCoinbaseUtxo (db : ChainView) (utxo : Utxo) : Bool :=
  match db.storedInputs utxo.txid with
  | .ok (some (some inputs)) => inputs.isEmpty
  | .ok (some none) => false
  | .ok none | .error _ => true

/-- `_is_key_image_spent`: without the table nothing is spent. -/
def ChainView.isKeyImageSpent (db : ChainView) (image : String) : Bool :=
  match db.keyImage image with
  | .ok found => found
  | .error .missingTable => false
  | .error .other => true

/-- The row of an unspent output. -/
def ChainView.unspent (db : ChainView) (txid : String) (vout : ℤ) : Option Utxo :=
  match db.getUtxo txid vout with
  | .ok (some utxo) => if utxo.spent then none else some utxo
  | _ => none

def ChainView.Mature (db : ChainView) (currentHeight : ℤ) (utxo : Utxo) : Prop :=
  db.isCoinbaseUtxo utxo = true → ∀ h ∈ utxo.blockHeight, coinbaseMaturity ≤ currentHeight - h

instance (db : ChainView) (currentHeight : ℤ) (utxo : Utxo) :
    Decidable (db.Mature currentHeight utxo) :=
  inferInstanceAs (Decidable (_ → _))

/-- A sum of decimals from zero, rounded after each term. -/
def sumDecimals (amounts : List Decimal) : Except Decimal.Signal Decimal :=
  amounts.foldlM (Decimal.add prec) 0

def ofSignal {α : Type} (x : Except Decimal.Signal α) : Except Rejection α :=
  x.mapError fun _ => .exception

section Public

variable (crypto : Crypto) (db : ChainView)

/-- The outputs as they are signed; both keys have to be there. -/
def Transaction.signedContent (tx : Transaction) : Option SignedContent := do
  let outputs ← tx.outputs.mapM fun o => do return (← o.address, (← o.amount).text)
  return { inputs := tx.inputs, outputs, fee := tx.feeText, timestamp := tx.timestamp }

/-- What the loop over the inputs carries. -/
structure Spending where
  spentUtxos : List (String × ℤ)
  inputTotal : Decimal

def spendInput (currentHeight : ℤ) (s : Spending) (inp : TxInput) : Except Rejection Spending := do
  let txid ← inp.txid.okOr .exception
  let vout ← inp.vout.okOr .exception
  ensure ((txid, vout) ∉ s.spentUtxos) .doubleSpend
  let utxo ← (db.unspent txid vout).okOr .notFoundOrSpent
  ensure (db.Mature currentHeight utxo) .immatureCoinbase
  let inputTotal ← ofSignal (Decimal.add prec s.inputTotal utxo.amount)
  return { spentUtxos := (txid, vout) :: s.spentUtxos, inputTotal }

/-- `validate_transaction` of a public transaction. -/
def checkPublicTransaction (tx : Transaction) (currentHeight : Option ℤ) :
    Except Rejection Unit := do
  let content ← tx.signedContent.okOr .exception
  let valid ← (tx.checkSignature crypto content).okOr .exception
  ensure (valid = true) .invalidSignature
  let height ← (currentHeight.elim db.currentHeight .ok).mapError fun _ => .exception
  let s ← tx.inputs.foldlM (spendInput db height) { spentUtxos := [], inputTotal := 0 }
  let amounts ← (tx.outputs.mapM TxOutput.decimal).okOr .exception
  let outputTotal ← ofSignal (sumDecimals amounts)
  let needed ← ofSignal (Decimal.add prec outputTotal tx.fee)
  let short ← ofSignal (Decimal.lt? s.inputTotal needed)
  ensure (short = false) .insufficientInputs

end Public

section Private

variable (E : Type) [Curve E] [DecidableEq E] (crypto : Crypto) (db : ChainView)

/-- The outputs as a private transaction signs them, with the defaults of missing keys. -/
def Transaction.signedPrivateContent (tx : Transaction) : SignedContent where
  inputs := tx.inputs
  outputs := tx.outputs.map fun o =>
    (o.address.getD (o.oneTimeAddress.getD ""), (o.amount.map Amount.text).getD "0")
  fee := tx.feeText
  timestamp := tx.timestamp

def checkKeyImage (keyImages : List String) (inp : TxInput) : Except Rejection (List String) := do
  let image ← inp.image.okOr .missingKeyImage
  ensure (image ∉ keyImages) .duplicateKeyImage
  ensure (db.isKeyImageSpent image = false) .keyImageSpent
  return keyImages ++ [image]

/-- The range proof is optional; nothing compares its commitment with the output's. -/
def checkRangeProof (out : TxOutput) : Except Rejection Unit :=
  match out.rangeProof with
  | none => .ok ()
  | some (.dict proof) => ensure (proof.verify E = true) .rangeProofFailed
  | some .other => .error .rangeProofFailed

/-- `_validate_private_transaction`. -/
def checkPrivateTransaction (tx : Transaction) : Except Rejection Unit := do
  ensure (tx.inputs ≠ []) .noInputs
  let valid ← (tx.checkSignature crypto tx.signedPrivateContent).okOr .exception
  ensure (valid = true) .invalidSignature
  let _ ← tx.inputs.foldlM (checkKeyImage db) []
  tx.outputs.forM (checkRangeProof E)
  let negative ← ofSignal (Decimal.lt? tx.fee 0)
  ensure (negative = false) .negativeFee

/-- `validate_transaction`. -/
def validateTransaction (tx : Transaction) (currentHeight : Option ℤ) : Bool :=
  if tx.isPrivate then (checkPrivateTransaction E crypto db tx).isOk
  else (checkPublicTransaction crypto db tx currentHeight).isOk

end Private

end Qubitcoin.Node
