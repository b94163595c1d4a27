import Qubitcoin.Aether.ThoughtProof
import Qubitcoin.Library.Machine

/-! The reasoning task marketplace and its validators, from `task_protocol.rs`.  Amounts are
rationals. -/

namespace Qubitcoin.Aether.TaskProtocol

abbrev HashMap (V : Type) := AList fun _ : String => V

def MIN_TASK_BOUNTY : ℚ := 1
def MIN_VALIDATOR_STAKE : ℚ := 100
def SLASH_PENALTY : ℚ := 1 / 2
def VALIDATION_THRESHOLD : ℚ := 67 / 100
def UNSTAKING_DELAY_BLOCKS : UInt64 := 183272
def MAX_TASKS : ℕ := 10000
def DEFAULT_MAX_VOTE_WEIGHT : ℚ := 33 / 100

inductive TaskStatus
  | isOpen
  | claimed
  | proposed
  | validating
  | completed
  | rejected
  | expired
  deriving DecidableEq

structure ReasoningTask where
  taskId : String
  submitter : String
  description : String
  queryType : String
  bountyQbc : ℚ
  status : TaskStatus
  createdBlock : UInt64
  timeoutBlocks : UInt64
  claimedBy : String
  solutionHash : String
  solutionData : HashMap String
  validationVotes : HashMap Bool
  rewardDistributed : Bool
  timestamp : ℚ

structure Validator where
  address : String
  stakeQbc : ℚ
  stakedBlock : UInt64
  unstakingBlock : UInt64
  isActive : Bool
  tasksValidated : UInt64
  correctValidations : UInt64
  totalSlashed : ℚ
  totalRewards : ℚ

abbrev TaskMarket := HashMap ReasoningTask

abbrev ValidatorRegistry := HashMap Validator

/-- SHA-256, the printing of a float and the order in which a hash map is gone through. -/
structure Host where
  sha256 : Bytes → Vector UInt8 32
  display : ℚ → String
  iterate : List (Σ _ : String, ReasoningTask) → List (Σ _ : String, ReasoningTask)

namespace ReasoningTask

/-- `ReasoningTask::new`, at a reading of the clock. -/
def new (host : Host) (now : ℚ) (submitter description queryType : String) (bountyQbc : ℚ)
    (createdBlock timeoutBlocks : UInt64) : ReasoningTask :=
  let hash := Node.toHex
    (host.sha256 (asBytes (submitter ++ ":" ++ description ++ ":" ++ host.display now))).toList
  { taskId := String.ofList (hash.toList.take 16)
    submitter := submitter
    description := description
    queryType := queryType
    bountyQbc := bountyQbc
    status := .isOpen
    createdBlock := createdBlock
    timeoutBlocks := timeoutBlocks
    claimedBy := ""
    solutionHash := ""
    solutionData := ∅
    validationVotes := ∅
    rewardDistributed := false
    timestamp := now }

end ReasoningTask

namespace Validator

def new (address : String) (stakeQbc : ℚ) (stakedBlock : UInt64) : Validator where
  address := address
  stakeQbc := stakeQbc
  stakedBlock := stakedBlock
  unstakingBlock := 0
  isActive := true
  tasksValidated := 0
  correctValidations := 0
  totalSlashed := 0
  totalRewards := 0

def isUnstaking (v : Validator) : Bool := 0 < v.unstakingBlock

end Validator

namespace TaskMarket

/-- Half of the finished tasks go, the oldest first. -/
def evictOldTasks (host : Host) (tasks : TaskMarket) : TaskMarket :=
  let removable := (host.iterate tasks.entries).filter fun entry =>
    entry.2.status = .completed ∨ entry.2.status = .rejected ∨ entry.2.status = .expired
  let removable := removable.mergeSort fun a b => a.2.timestamp ≤ b.2.timestamp
  (removable.take (removable.length / 2)).foldl (fun tasks entry => tasks.erase entry.1) tasks

def submitTask (host : Host) (now : ℚ) (tasks : TaskMarket) (submitter description : String)
    (bountyQbc : ℚ) (queryType : String) (blockHeight timeoutBlocks : UInt64) :
    Option ReasoningTask × TaskMarket :=
  if bountyQbc < MIN_TASK_BOUNTY then (none, tasks)
  else
    let task := ReasoningTask.new host now submitter description queryType bountyQbc blockHeight
      timeoutBlocks
    let tasks := tasks.insert task.taskId task
    (some task, if MAX_TASKS < tasks.entries.length then evictOldTasks host tasks else tasks)

def claimTask (tasks : TaskMarket) (taskId solverAddress : String) : Bool × TaskMarket :=
  match tasks.lookup taskId with
  | some t =>
    if t.status = .isOpen then
      (true, tasks.insert taskId { t with status := .claimed, claimedBy := solverAddress })
    else (false, tasks)
  | none => (false, tasks)

def submitSolution (host : Host) (tasks : TaskMarket) (taskId solverAddress : String)
    (solutionData : HashMap String) : Bool × TaskMarket :=
  match tasks.lookup taskId with
  | some t =>
    if t.status = .claimed ∧ t.claimedBy = solverAddress then
      let sortedItems := solutionData.entries.mergeSort fun a b => a.1 ≤ b.1
      let preimage := sortedItems.flatMap fun item => asBytes item.1 ++ asBytes item.2
      (true, tasks.insert taskId
        { t with
          solutionHash := Node.toHex (host.sha256 preimage).toList
          solutionData := solutionData
          status := .proposed })
    else (false, tasks)
  | none => (false, tasks)

/-- How many tasks have expired, with the market after. -/
def expireTasks (tasks : TaskMarket) (currentBlock : UInt64) : ℕ × TaskMarket :=
  tasks.entries.foldl
    (fun (expired, tasks) entry =>
      let t := entry.2
      if (t.status = .isOpen ∨ t.status = .claimed) ∧
          t.timeoutBlocks.toNat < currentBlock.toNat - t.createdBlock.toNat then
        (expired + 1, tasks.insert entry.1 { t with status := .expired })
      else (expired, tasks))
    (0, tasks)

def openCount (tasks : TaskMarket) : ℕ :=
  tasks.entries.countP fun entry => entry.2.status = .isOpen

end TaskMarket

namespace ValidatorRegistry

def stake (validators : ValidatorRegistry) (address : String) (amount : ℚ)
    (blockHeight : UInt64) : Bool × ValidatorRegistry :=
  if amount < MIN_VALIDATOR_STAKE then (false, validators)
  else
    match validators.lookup address with
    | some v =>
      (true, validators.insert address
        { v with stakeQbc := v.stakeQbc + amount, isActive := true, unstakingBlock := 0 })
    | none => (true, validators.insert address (.new address amount blockHeight))

def requestUnstake (validators : ValidatorRegistry) (address : String) (blockHeight : UInt64) :
    Bool × ValidatorRegistry :=
  match validators.lookup address with
  | some v =>
    if v.isActive then
      -- the sum wraps at 64 bits
      (true, validators.insert address
        { v with unstakingBlock := blockHeight + UNSTAKING_DELAY_BLOCKS, isActive := false })
    else (false, validators)
  | none => (false, validators)

/-- The stake to return, with the registry after. -/
def completeUnstake (validators : ValidatorRegistry) (address : String) (blockHeight : UInt64) :
    ℚ × ValidatorRegistry :=
  match validators.lookup address with
  | some v =>
    if 0 < v.unstakingBlock ∧ v.unstakingBlock ≤ blockHeight then
      (v.stakeQbc, if 0 < v.stakeQbc then validators.erase address else validators)
    else (0, validators)
  | none => (0, validators)

/-- The amount slashed, with the registry after. -/
def slash (validators : ValidatorRegistry) (address : String) : ℚ × ValidatorRegistry :=
  match validators.lookup address with
  | some v =>
    let slashAmount := v.stakeQbc * SLASH_PENALTY
    let stakeQbc := v.stakeQbc - slashAmount
    (slashAmount, validators.insert address
      { v with
        stakeQbc := stakeQbc
        totalSlashed := v.totalSlashed + slashAmount
        isActive := MIN_VALIDATOR_STAKE ≤ stakeQbc })
  | none => (0, validators)

def reward (validators : ValidatorRegistry) (address : String) (amount : ℚ) :
    Bool × ValidatorRegistry :=
  match validators.lookup address with
  | some v =>
    (true, validators.insert address
      { v with
        totalRewards := v.totalRewards + amount
        correctValidations := v.correctValidations + 1 })
  | none => (false, validators)

def recordValidation (validators : ValidatorRegistry) (address : String) : ValidatorRegistry :=
  match validators.lookup address with
  | some v => validators.insert address { v with tasksValidated := v.tasksValidated + 1 }
  | none => validators

def activeCount (validators : ValidatorRegistry) : ℕ :=
  validators.entries.countP fun entry => entry.2.isActive

end ValidatorRegistry

structure TaskFinalization where
  taskId : String
  approved : Bool
  approvalRatio : ℚ
  votes : ℕ
  bounty : ℚ
  solver : String

structure BlockReport where
  expiredTasks : ℕ
  openTasks : ℕ
  activeValidators : ℕ

structure ProofOfThoughtProtocol where
  taskMarket : TaskMarket
  validatorRegistry : ValidatorRegistry

namespace ProofOfThoughtProtocol

def validateSolution (p : ProofOfThoughtProtocol) (taskId validatorAddress : String)
    (approve : Bool) : Bool × ProofOfThoughtProtocol :=
  match p.taskMarket.lookup taskId with
  | some task =>
    if task.status = .proposed ∨ task.status = .validating then
      if task.claimedBy ≠ "" ∧ task.claimedBy = validatorAddress then (false, p)
      else
        match p.validatorRegistry.lookup validatorAddress with
        | some v =>
          if v.isActive then
            let task := { task with
              status := .validating
              validationVotes := task.validationVotes.insert validatorAddress approve }
            (true,
              { taskMarket := p.taskMarket.insert taskId task
                validatorRegistry := p.validatorRegistry.recordValidation validatorAddress })
          else (false, p)
        | none => (false, p)
    else (false, p)
  | none => (false, p)

/-- The first pass over the votes: the stake of those who voted and of all of them. -/
def rawStakes (validators : ValidatorRegistry) (votes : List (Σ _ : String, Bool)) :
    ℚ × HashMap ℚ :=
  votes.foldl
    (fun (rawTotal, validatorStakes) vote =>
      match validators.lookup vote.1 with
      | some v => (rawTotal + v.stakeQbc, validatorStakes.insert vote.1 v.stakeQbc)
      | none => (rawTotal, validatorStakes))
    (0, ∅)

/-- The second pass, with each weight capped: all of it and what approves. -/
def cappedStakes (rawTotal : ℚ) (validatorStakes : HashMap ℚ)
    (votes : List (Σ _ : String, Bool)) : ℚ × ℚ :=
  votes.foldl
    (fun (totalStake, approveStake) vote =>
      let raw := (validatorStakes.lookup vote.1).getD 0
      let capped := min raw (rawTotal * DEFAULT_MAX_VOTE_WEIGHT)
      (totalStake + capped, if vote.2 then approveStake + capped else approveStake))
    (0, 0)

/-- The reward of those who approved. -/
def rewardApproving (validators : ValidatorRegistry) (bountyQbc : ℚ)
    (votes : List (Σ _ : String, Bool)) : ValidatorRegistry :=
  votes.foldl
    (fun validators vote =>
      if vote.2 then
        (validators.reward vote.1 (bountyQbc * (1 / 10) / (max votes.length 1 : ℕ))).2
      else validators)
    validators

def finalizeTask (p : ProofOfThoughtProtocol) (taskId : String) :
    Option TaskFinalization × ProofOfThoughtProtocol :=
  match p.taskMarket.lookup taskId with
  | some task =>
    let votes := task.validationVotes.entries
    if task.status = .validating ∧ votes ≠ [] then
      let (rawTotal, validatorStakes) := rawStakes p.validatorRegistry votes
      if rawTotal = 0 then (none, p)
      else
        let (totalStake, approveStake) := cappedStakes rawTotal validatorStakes votes
        if totalStake = 0 then (none, p)
        else
          let approvalRatio := approveStake / totalStake
          let finalization (approved : Bool) : TaskFinalization :=
            { taskId := taskId
              approved := approved
              approvalRatio := round (approvalRatio * 10000) / 10000
              votes := votes.length
              bounty := task.bountyQbc
              solver := task.claimedBy }
          if VALIDATION_THRESHOLD ≤ approvalRatio then
            let task := { task with status := .completed, rewardDistributed := true }
            (some (finalization true),
              { taskMarket := p.taskMarket.insert taskId task
                validatorRegistry := rewardApproving p.validatorRegistry task.bountyQbc votes })
          else
            (some (finalization false),
              { taskMarket := p.taskMarket.insert taskId { task with status := .rejected }
                validatorRegistry :=
                  if task.claimedBy ≠ "" then (p.validatorRegistry.slash task.claimedBy).2
                  else p.validatorRegistry })
    else (none, p)
  | none => (none, p)

def processBlock (p : ProofOfThoughtProtocol) (blockHeight : UInt64) :
    BlockReport × ProofOfThoughtProtocol :=
  let (expired, taskMarket) := p.taskMarket.expireTasks blockHeight
  ({ expiredTasks := expired
     openTasks := taskMarket.openCount
     activeValidators := p.validatorRegistry.activeCount }, { p with taskMarket := taskMarket })

end ProofOfThoughtProtocol

end Qubitcoin.Aether.TaskProtocol
