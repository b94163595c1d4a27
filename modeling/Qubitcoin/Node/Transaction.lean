import Qubitcoin.Library.Decimal
import Qubitcoin.Privacy.RangeProof

/-! The transactions and outputs of `database/models.py`, with the keys that their dictionaries
may lack, and the addresses of `quantum/crypto.py`. -/

namespace Qubitcoin.Node

open Privacy (RangeProof)

/-- The precision of the default context of decimals. -/
def prec : ℕ := 28

structure TxInput where
  txid : Option String
  vout : Option ℤ
  keyImage : Option String
  deriving DecidableEq

/-- An empty key image counts as none. -/
def TxInput.image (inp : TxInput) : Option String := inp.keyImage.filter (· ≠ "")

/-- The text of a value, and the number that `Decimal` reads in it. -/
structure Amount where
  text : String
  decimal : Option Decimal
  deriving DecidableEq

inductive CommitmentData
  | hex (text : String)
  | raw (bytes : Bytes)
  deriving DecidableEq

inductive RangeProofData
  | dict (proof : RangeProof)
  | other
  deriving DecidableEq

/-- An empty commitment or range proof counts as none. -/
structure TxOutput where
  address : Option String
  oneTimeAddress : Option String
  amount : Option Amount
  commitment : Option CommitmentData
  rangeProof : Option RangeProofData
  deriving DecidableEq

/-- `Decimal(str(o['amount']))`. -/
def TxOutput.decimal (out : TxOutput) : Option Decimal := out.amount.bind Amount.decimal

structure Transaction where
  txid : String
  inputs : List TxInput
  outputs : List TxOutput
  fee : Decimal
  feeText : String
  signature : String
  publicKey : String
  timestamp : String
  txType : String
  isPrivate : Bool
  deriving DecidableEq

structure Utxo where
  txid : String
  vout : ℤ
  amount : Decimal
  address : String
  blockHeight : Option ℤ
  spent : Bool
  spentBy : Option String
  deriving DecidableEq

def hexValue (c : Char) : Option ℕ :=
  if '0' ≤ c ∧ c ≤ '9' then some (c.toNat - '0'.toNat)
  else if 'a' ≤ c ∧ c ≤ 'f' then some (c.toNat - 'a'.toNat + 10)
  else if 'A' ≤ c ∧ c ≤ 'F' then some (c.toNat - 'A'.toNat + 10)
  else none

def isSpace (c : Char) : Bool := c = ' ' || (9 ≤ c.toNat && c.toNat ≤ 13)

/-- `bytes.fromhex`: white space may stand between two bytes. -/
def fromHexChars : List Char → Option Bytes
  | [] => some []
  | [c] => if isSpace c then some [] else none
  | c :: d :: cs =>
    if isSpace c then fromHexChars (d :: cs)
    else do
      let high ← hexValue c
      let low ← hexValue d
      return UInt8.ofNat (16 * high + low) :: (← fromHexChars cs)

def fromHex (text : String) : Option Bytes := fromHexChars text.toList

def hexDigit (n : ℕ) : Char := Char.ofNat (if n < 10 then 48 + n else 87 + n)

def toHex (bytes : Bytes) : String :=
  String.ofList (bytes.flatMap fun b => [hexDigit (b.toNat / 16), hexDigit (b.toNat % 16)])

/-- What a signature covers, before it is written as JSON. -/
structure SignedContent where
  inputs : List TxInput
  outputs : List (String × String)
  fee : String
  timestamp : String
  deriving DecidableEq

/-- The canonical JSON of the signed content, `DilithiumSigner.verify` and SHA-256. -/
structure Crypto where
  encode : SignedContent → Bytes
  verify : Bytes → Bytes → Bytes → Bool
  sha256 : Bytes → Bytes

/-- `DilithiumSigner.derive_address`. -/
def Crypto.deriveAddress (crypto : Crypto) (publicKey : Bytes) : String :=
  String.ofList ((toHex (crypto.sha256 publicKey)).toList.take 40)

/-- The address of the key that signed. -/
def Transaction.signer (crypto : Crypto) (tx : Transaction) : Option String :=
  (fromHex tx.publicKey).map crypto.deriveAddress

/-- The signature over a content, both as hexadecimal texts. -/
def Transaction.checkSignature (crypto : Crypto) (tx : Transaction) (content : SignedContent) :
    Option Bool := do
  let pk ← fromHex tx.publicKey
  let sig ← fromHex tx.signature
  return crypto.verify pk (crypto.encode content) sig

end Qubitcoin.Node
