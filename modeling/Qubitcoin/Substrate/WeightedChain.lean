import Qubitcoin.Library.Commands
import Qubitcoin.Library.Machine
import Qubitcoin.Library.ParentTree
import Qubitcoin.Substrate.Primitives

/-! `node/src/weighted_chain.rs`: the leaf of the greatest cumulative weight.  Weights are
kept in the auxiliary store, which a call finds as earlier calls have left it. -/

namespace Qubitcoin.Substrate.WeightedChain

structure Header where
  number : U32
  parentHash : H256

/-- The blocks that the backend knows. -/
structure BlockTree where
  header : H256 → Option Header
  /-- `difficulty_at`. -/
  difficulty : H256 → Difficulty
  genesis : H256
  root : ∀ {hash head}, header hash = some head → head.number = 0 → hash = genesis
  linked : ∀ {hash head}, header hash = some head → head.number ≠ 0 →
    ∃ parent, header head.parentHash = some parent ∧
      head.number.toNat = parent.number.toNat + 1

inductive Error
  | unknownBlock (hash : H256)
  | missingHeader (hash : H256)
  /-- "Requested finality target with max {} below base {}" -/
  | maxBelowBase (maxNumber baseNumber : U32)
  /-- "Finality target base {:?} not in best chain {:?}" -/
  | baseNotInBestChain (baseHash bestHash : H256)
  /-- The loop is still running. -/
  | unfinished

/-- The cumulative weights in the auxiliary store. -/
abbrev Weights := StorageMap H256 U128

/-- The keys at which the auxiliary store answers a call; its errors are passed over. -/
structure Aux where
  readable : H256 → Bool
  writable : H256 → Bool

def Aux.readWeight (aux : Aux) (weights : Weights) (hash : H256) : Option U128 :=
  if aux.readable hash then weights.lookup hash else none

def Aux.writeWeight (aux : Aux) (weights : Weights) (hash : H256) (weight : U128) : Weights :=
  if aux.writable hash then weights.insert hash weight else weights

def difficultyScale : U128 := 1000000000000

/-- No loop of this module takes more turns than there are block numbers. -/
def turns : Nat := 2 ^ 32

variable (t : BlockTree)

/-- The walk back to a block with a known weight before it, and that weight; the blocks
come in the order of the walk. -/
def walkBack (readWeight : H256 → Option U128) :
    Nat → H256 → Except Error (List (H256 × Difficulty) × U128)
  | 0, _ => .error .unfinished
  | fuel + 1, curHash =>
    match t.header curHash with
    | none => .error (.unknownBlock curHash)
    | some header =>
      let entry := (curHash, t.difficulty curHash)
      if header.number = 0 then .ok ([entry], 0)
      else
        match readWeight header.parentHash with
        | some w => .ok ([entry], w)
        | none => (walkBack readWeight fuel header.parentHash).map fun (chain, baseWeight) =>
            (entry :: chain, baseWeight)

/-- One block of the walk forward. -/
def addBlock (aux : Aux) (s : U128 × Weights) (block : H256 × Difficulty) : U128 × Weights :=
  let diff : U128 := if block.2 = 0 then 1 else block.2.setWidth 128
  let weight := s.1.saturatingAdd (difficultyScale / diff)
  (weight, aux.writeWeight s.2 block.1 weight)

def cumulativeWeight (aux : Aux) (hash : H256) : Command Error Weights U128 := do
  let weights ← get
  match aux.readWeight weights hash with
  | some w => return w
  | none =>
    match walkBack t (aux.readWeight weights) turns hash with
    | .error e => throw e
    | .ok (chain, baseWeight) =>
      let (weight, weights) := chain.reverse.foldl (addBlock aux) (baseWeight, weights)
      set weights
      return weight

/-- The loop over the leaves behind the first. -/
def bestLeaf (aux : Aux) : List H256 → H256 → U128 → Command Error Weights H256
  | [], bestHash, _ => return bestHash
  | leaf :: leaves, bestHash, bestWeight => do
    let w ← cumulativeWeight t aux leaf
    if bestWeight < w ∨ (w = bestWeight ∧ leaf < bestHash) then bestLeaf aux leaves leaf w
    else bestLeaf aux leaves bestHash bestWeight

def headerOf (hash : H256) : Command Error Weights (H256 × Header) :=
  match t.header hash with
  | none => throw (.unknownBlock hash)
  | some header => return (hash, header)

/-- The best tip with its header; `infoBest` is the best block by the backend's own account. -/
def bestHeaderWeighted (aux : Aux) (leaves : List H256) (infoBest : H256) :
    Command Error Weights (H256 × Header) :=
  match leaves with
  | [] => headerOf t infoBest
  | first :: leaves => do
    let bestWeight ← cumulativeWeight t aux first
    let bestHash ← bestLeaf t aux leaves first bestWeight
    headerOf t bestHash

/-- The loop down to the greatest number that is asked for. -/
def boundHead (maxNumber : U32) : Nat → H256 → Header → Except Error (H256 × Header)
  | 0, _, _ => .error .unfinished
  | fuel + 1, bestHash, currentHead =>
    if maxNumber < currentHead.number then
      match t.header currentHead.parentHash with
      | none => .error (.missingHeader currentHead.parentHash)
      | some header => boundHead maxNumber fuel currentHead.parentHash header
    else .ok (bestHash, currentHead)

/-- The loop that looks for the base behind the target. -/
def findBase (baseHash : H256) (baseNumber : U32) (bestHash : H256) :
    Nat → H256 → Header → Except Error Unit
  | 0, _, _ => .error .unfinished
  | fuel + 1, currentHash, currentHead =>
    if currentHash = baseHash then .ok ()
    else if currentHead.number < baseNumber then .error (.baseNotInBestChain baseHash bestHash)
    else
      match t.header currentHead.parentHash with
      | none => .error (.missingHeader bestHash)
      | some header => findBase baseHash baseNumber bestHash fuel currentHead.parentHash header

/-- The head that the number bounds, if there is a bound. -/
def targetHead (baseNumber : U32) (maybeMaxNumber : Option U32) (tip : H256 × Header) :
    Except Error (H256 × Header) :=
  match maybeMaxNumber with
  | none => .ok tip
  | some maxNumber =>
    if maxNumber < baseNumber then .error (.maxBelowBase maxNumber baseNumber)
    else boundHead t maxNumber turns tip.1 tip.2

def ofExcept {α : Type} : Except Error α → Command Error Weights α
  | .ok a => return a
  | .error e => throw e

/-- `finality_target_weighted`. -/
def finalityTarget (aux : Aux) (leaves : List H256) (infoBest baseHash : H256)
    (maybeMaxNumber : Option U32) : Command Error Weights H256 := do
  let tip ← bestHeaderWeighted t aux leaves infoBest
  match t.header baseHash with
  | none => throw (.missingHeader baseHash)
  | some baseHeader =>
    let (bestHash, currentHead) ←
      ofExcept (targetHead t baseHeader.number maybeMaxNumber tip)
    ofExcept (findBase t baseHash baseHeader.number bestHash turns bestHash currentHead)
    return bestHash

end Qubitcoin.Substrate.WeightedChain
