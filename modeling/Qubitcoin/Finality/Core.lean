import Qubitcoin.Library.Machine
import Qubitcoin.Library.Ledger

/-! The vote counter behind the finality gadget, and the gadget's checkpoints.  Stakes
are rationals; the locks of the core are taken one call at a time. -/

namespace Qubitcoin.Finality

structure Vote where
  voter : String
  blockHeight : Nat
  blockHash : String
  deriving DecidableEq

structure FinalityCore where
  validators : StorageMap String ℚ≥0
  votes : StorageMap Nat (List Vote)
  lastFinalized : Nat
  threshold : ℚ≥0
  voteExpiryBlocks : Nat

namespace FinalityCore

def new (threshold : ℚ≥0) (voteExpiryBlocks : Nat) : FinalityCore where
  validators := ∅
  votes := ∅
  lastFinalized := 0
  threshold := threshold
  voteExpiryBlocks := voteExpiryBlocks

def addValidator (c : FinalityCore) (address : String) (stake : ℚ≥0) : FinalityCore :=
  { c with validators := c.validators.insert address stake }

def removeValidator (c : FinalityCore) (address : String) : FinalityCore :=
  { c with validators := c.validators.erase address }

def heightVotes (c : FinalityCore) (blockHeight : Nat) : List Vote :=
  c.votes.value [] blockHeight

def recordVote (c : FinalityCore) (voter : String) (blockHeight : Nat) (blockHash : String) :
    Bool × FinalityCore :=
  if voter ∉ c.validators then (false, c)
  else if (c.heightVotes blockHeight).any fun v => v.voter == voter then (false, c)
  else
    (true, { c with
      votes := c.votes.insert blockHeight
        (c.heightVotes blockHeight ++ [⟨voter, blockHeight, blockHash⟩]) })

def totalStake (c : FinalityCore) : ℚ≥0 := Weights.total c.validators

/-- Every vote at the height counts, whichever hash it names. -/
def calculateVoteWeight (c : FinalityCore) (blockHeight : Nat) : ℚ≥0 × ℚ≥0 :=
  (((c.heightVotes blockHeight).filterMap fun v => c.validators.lookup v.voter).sum,
    c.totalStake)

def checkFinality (c : FinalityCore) (blockHeight : Nat) : Bool × FinalityCore :=
  if blockHeight ≤ c.lastFinalized then (true, c)
  else
    let (votedStake, totalStake) := c.calculateVoteWeight blockHeight
    if totalStake ≤ 0 then (false, c)
    else if c.threshold ≤ votedStake / totalStake then
      (true, { c with lastFinalized := blockHeight })
    else (false, c)

def pruneVotes (c : FinalityCore) (currentHeight : Nat) : FinalityCore :=
  if currentHeight ≤ c.voteExpiryBlocks then c
  else
    { c with votes := c.votes.retain fun h => currentHeight - c.voteExpiryBlocks ≤ h }

/-- The fallback counts a voter who is no validator with stake zero. -/
def pythonVoteWeight (c : FinalityCore) (blockHeight : Nat) : ℚ≥0 × ℚ≥0 :=
  (((c.heightVotes blockHeight).map fun v => c.validators.value 0 v.voter).sum, c.totalStake)

end FinalityCore

structure Checkpoint where
  blockHash : String
  votedStake : ℚ≥0
  totalStake : ℚ≥0

/-- `FinalityGadget`, with its table of checkpoints. -/
structure FinalityGadget where
  core : FinalityCore
  checkpoints : StorageMap Nat Checkpoint

namespace FinalityGadget

def new (threshold : ℚ≥0) (voteExpiryBlocks : Nat) : FinalityGadget where
  core := .new threshold voteExpiryBlocks
  checkpoints := ∅

/-- `ON CONFLICT (block_height) DO NOTHING`. -/
def persistCheckpoint (g : FinalityGadget) (blockHeight : Nat) (row : Checkpoint) :
    FinalityGadget :=
  if blockHeight ∈ g.checkpoints then g
  else { g with checkpoints := g.checkpoints.insert blockHeight row }

/-- A vote that brings finality leaves a checkpoint with its own hash. -/
def submitVote (g : FinalityGadget) (voter : String) (blockHeight : Nat) (blockHash : String) :
    FinalityGadget :=
  let (accepted, recorded) := g.core.recordVote voter blockHeight blockHash
  if accepted then
    let (finalized, core) := recorded.checkFinality blockHeight
    if finalized then
      let (voted, total) := core.calculateVoteWeight blockHeight
      { g with core := core }.persistCheckpoint blockHeight ⟨blockHash, voted, total⟩
    else { g with core := core }
  else g

end FinalityGadget

inductive Op
  | addValidator (address : String) (stake : ℚ≥0)
  | removeValidator (address : String)
  | recordVote (voter : String) (blockHeight : Nat) (blockHash : String)
  | checkFinality (blockHeight : Nat)
  | pruneVotes (currentHeight : Nat)
  | submitVote (voter : String) (blockHeight : Nat) (blockHash : String)

def step (g : FinalityGadget) : Op → FinalityGadget
  | .addValidator address stake => { g with core := g.core.addValidator address stake }
  | .removeValidator address => { g with core := g.core.removeValidator address }
  | .recordVote voter blockHeight blockHash =>
    { g with core := (g.core.recordVote voter blockHeight blockHash).2 }
  | .checkFinality blockHeight => { g with core := (g.core.checkFinality blockHeight).2 }
  | .pruneVotes currentHeight => { g with core := g.core.pruneVotes currentHeight }
  | .submitVote voter blockHeight blockHash => g.submitVote voter blockHeight blockHash

def run (threshold : ℚ≥0) (voteExpiryBlocks : Nat) (ops : List Op) : FinalityGadget :=
  Machine.run step (.new threshold voteExpiryBlocks) ops

/-- The votes offered to the core, accepted or not. -/
def Op.vote : Op → List Vote
  | .recordVote voter blockHeight blockHash => [⟨voter, blockHeight, blockHash⟩]
  | .submitVote voter blockHeight blockHash => [⟨voter, blockHeight, blockHash⟩]
  | _ => []

def offered (ops : List Op) : List Vote := ops.flatMap Op.vote

end Qubitcoin.Finality
