import Qubitcoin.Node.Validation

/-! The validation of blocks in `consensus/engine.py`. -/

namespace Qubitcoin.Node

open Privacy (Curve RangeProof)

/-- The proofs are kept as their JSON. -/
structure Block where
  height : ℤ
  prevHash : String
  blockHash : Option String
  timestamp : Decimal
  difficulty : Decimal
  proofData : String
  transactions : List Transaction
  stateRoot : String
  receiptsRoot : String
  thoughtProof : Option String
  deriving DecidableEq

inductive BlockRejection
  | invalidHeight
  | invalidPrevHash
  | hashMismatch
  | timestampInFuture
  | timestampNotIncreasing
  | invalidDifficulty
  | invalidProof
  | multipleCoinbase
  | invalidTransaction (txid : String)
  | noCoinbase
  | excessiveCoinbase (amount expected : Decimal)
  | duplicateKeyImage (image txid : String)
  | invalidCommitment (txid : String) (output : ℕ)
  | rangeProofFailed (txid : String)
  | invalidStateRoot
  | invalidThoughtProof
  | exception
  deriving DecidableEq

/-- `Config.INITIAL_REWARD` over the powers of `PHI`, the settings, and the checks of a block
whose code is not embedded.  `latest` is the time from which a block lies in the future. -/
structure Rules where
  phiReward : ℤ → ℚ
  tailEmission : ℚ
  feeBurn : ℚ
  premine : ℚ
  latest : Decimal
  calculateHash : Block → String
  difficultyExpected : Block → Bool
  proofValid : Block → Bool
  stateRootsValid : Block → Bool
  thoughtValid : Block → Bool

/-- `Config.MAX_SUPPLY`. -/
def maxSupply : ℚ := 3300000000

/-- `Config.HALVING_INTERVAL`. -/
def halvingInterval : ℤ := 15474020

/-- What the validator of blocks asks the database, besides the queries of its transactions. -/
structure BlockView extends ChainView where
  totalSupply : Except DbError Decimal

def ofDecimal {α : Type} (x : Except Decimal.Signal α) : Except BlockRejection α :=
  x.mapError fun _ => .exception

section Amounts

variable (rules : Rules)

def calculateReward (height : ℤ) (totalSupply : Decimal) : Except Decimal.Signal Decimal := do
  let phiReward := rules.phiReward (height / halvingInterval)
  let baseReward := if rules.tailEmission ≤ phiReward then phiReward else rules.tailEmission
  let remaining ← Decimal.sub prec (.finite maxSupply) totalSupply
  let reward ← Decimal.min? (.finite baseReward) remaining
  if ← Decimal.le? reward 0 then return 0
  return reward

def burnedFees (totalFees : Decimal) : Except Decimal.Signal Decimal := do
  Decimal.quantize prec 8 (← Decimal.mul prec totalFees (.finite rules.feeBurn))

/-- The genesis block also pays out the premine. -/
def expectedCoinbase (height : ℤ) (reward minerFees : Decimal) : Except Decimal.Signal Decimal := do
  let expected ← Decimal.add prec reward minerFees
  if height = 0 ∧ 0 < rules.premine then Decimal.add prec expected (.finite rules.premine)
  else return expected

end Amounts

/-- The transactions that the block validator leaves to the virtual machine. -/
def Transaction.isContract (tx : Transaction) : Bool :=
  tx.txType ∈ ["contract_deploy", "contract_call", "l2_deposit", "l2_withdraw"]

def Transaction.isCoinbase (tx : Transaction) : Bool := tx.inputs.isEmpty && !tx.isContract

/-- What the loop over the transactions carries. -/
structure BlockScan where
  totalFees : Decimal
  coinbase : Option Transaction

section Susy

variable (E : Type) [Curve E] [DecidableEq E]

def Transaction.hasConfidentialData (tx : Transaction) : Bool :=
  tx.outputs.any fun out => out.rangeProof.isSome || out.commitment.isSome

/-- The key images of the block so far; inputs without one are passed over. -/
def claimKeyImages (txid : String) (images : List String) (inputs : List TxInput) :
    Except BlockRejection (List String) :=
  inputs.foldlM (fun images inp =>
    match inp.image with
    | none => .ok images
    | some image => do
      ensure (image ∉ images) (.duplicateKeyImage image txid)
      return images ++ [image]) images

/-- A hexadecimal commitment has to look like a compressed point; bytes are not looked at. -/
def CommitmentData.wellFormed : CommitmentData → Bool
  | .raw _ => true
  | .hex text =>
    match fromHex text with
    | some (first :: rest) => rest.length = 32 && (first = 2 || first = 3)
    | _ => false

def checkCommitments (txid : String) (outputs : List TxOutput) : Except BlockRejection Unit :=
  outputs.zipIdx.forM fun (out, i) =>
    ensure (∀ c ∈ out.commitment, c.wellFormed = true) (.invalidCommitment txid i)

/-- Range proofs that are not dictionaries are passed over. -/
def checkBlockRangeProofs (txid : String) (outputs : List TxOutput) : Except BlockRejection Unit :=
  outputs.forM fun out =>
    match out.rangeProof with
    | some (.dict proof) => ensure (proof.verify E = true) (.rangeProofFailed txid)
    | _ => .ok ()

def checkSusySwap (images : List String) (tx : Transaction) :
    Except BlockRejection (List String) :=
  if tx.inputs = [] ∨ (tx.isPrivate = false ∧ tx.hasConfidentialData = false) then .ok images
  else do
    let images ← claimKeyImages tx.txid images tx.inputs
    checkCommitments tx.txid tx.outputs
    checkBlockRangeProofs E tx.txid tx.outputs
    return images

/-- `_validate_block_susy_swaps`. -/
def validateBlockSusySwaps (block : Block) : Except BlockRejection Unit := do
  let _ ← block.transactions.foldlM (checkSusySwap E) []
  return ()

end Susy

section Blocks

variable (E : Type) [Curve E] [DecidableEq E] (crypto : Crypto) (rules : Rules) (db : BlockView)

def scanTransaction (height : ℤ) (s : BlockScan) (tx : Transaction) :
    Except BlockRejection BlockScan :=
  if tx.isCoinbase then do
    ensure (s.coinbase = none) .multipleCoinbase
    return { s with coinbase := some tx }
  else if tx.isContract then .ok s
  else do
    ensure (validateTransaction E crypto db.toChainView tx (some height) = true)
      (.invalidTransaction tx.txid)
    let totalFees ← ofDecimal (Decimal.add prec s.totalFees tx.fee)
    return { s with totalFees }

def checkHeader (block : Block) (prev : Option Block) : Except BlockRejection Unit := do
  ensure (block.height = prev.elim 0 (·.height + 1)) .invalidHeight
  let prevHash ← (prev.elim (some (String.ofList (List.replicate 64 '0'))) (·.blockHash)).okOr
    .invalidPrevHash
  ensure (block.prevHash = prevHash) .invalidPrevHash
  ensure (∀ h ∈ block.blockHash, h ≠ "" → h = rules.calculateHash block) .hashMismatch
  ensure (¬ rules.latest < block.timestamp) .timestampInFuture
  ensure (∀ p ∈ prev, ¬ block.timestamp ≤ p.timestamp) .timestampNotIncreasing
  ensure (rules.difficultyExpected block = true) .invalidDifficulty
  ensure (rules.proofValid block = true) .invalidProof

/-- The coinbase may pay the reward and the fees that are not burned. -/
def checkCoinbase (height : ℤ) (totalFees : Decimal) (coinbase : Transaction) :
    Except BlockRejection Unit := do
  let totalSupply ← db.totalSupply.mapError fun _ => .exception
  let reward ← ofDecimal (calculateReward rules height totalSupply)
  let burned ← ofDecimal (burnedFees rules totalFees)
  let minerFees ← ofDecimal (Decimal.sub prec totalFees burned)
  let amounts ← (coinbase.outputs.mapM TxOutput.decimal).okOr .exception
  let amount ← ofDecimal (sumDecimals amounts)
  let expected ← ofDecimal (expectedCoinbase rules height reward minerFees)
  let excessive ← ofDecimal (Decimal.lt? expected amount)
  ensure (excessive = false) (.excessiveCoinbase amount expected)

/-- `validate_block`, with its switches for the state roots and the thought proof. -/
def validateBlock (block : Block) (prev : Option Block) (skipQvm skipPot : Bool) :
    Except BlockRejection Unit := do
  checkHeader rules block prev
  let s ← block.transactions.foldlM (scanTransaction E crypto db block.height)
    { totalFees := 0, coinbase := none }
  let coinbase ← s.coinbase.okOr .noCoinbase
  checkCoinbase rules db block.height s.totalFees coinbase
  validateBlockSusySwaps E block
  ensure (skipQvm = true ∨ rules.stateRootsValid block = true) .invalidStateRoot
  ensure (skipPot = true ∨ rules.thoughtValid block = true) .invalidThoughtProof

end Blocks

end Qubitcoin.Node
