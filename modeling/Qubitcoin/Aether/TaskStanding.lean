import Qubitcoin.Aether.TaskProtocol

/-! Who is active while unstaking, over whole runs of the task protocol. -/

namespace Qubitcoin.Aether.TaskProtocol

open Machine ValidatorRegistry ProofOfThoughtProtocol

inductive Call
  | stake (address : String) (amount : ℚ) (blockHeight : UInt64)
  | requestUnstake (address : String) (blockHeight : UInt64)
  | completeUnstake (address : String) (blockHeight : UInt64)
  | slash (address : String)
  | submitTask (now : ℚ) (submitter description : String) (bountyQbc : ℚ) (queryType : String)
      (blockHeight timeoutBlocks : UInt64)
  | claimTask (taskId solverAddress : String)
  | submitSolution (taskId solverAddress : String) (solutionData : HashMap String)
  | validateSolution (taskId validatorAddress : String) (approve : Bool)
  | finalizeTask (taskId : String)
  | processBlock (blockHeight : UInt64)

/-- The protocol with those who have asked to unstake since they last staked. -/
structure State where
  protocol : ProofOfThoughtProtocol
  leaving : Finset String

namespace State

def initial : State where
  protocol := { taskMarket := ∅, validatorRegistry := ∅ }
  leaving := ∅

def step (host : Host) (s : State) : Call → State
  | .stake address amount blockHeight =>
    let (staked, validators) := s.protocol.validatorRegistry.stake address amount blockHeight
    { protocol := { s.protocol with validatorRegistry := validators }
      leaving := if staked then s.leaving.erase address else s.leaving }
  | .requestUnstake address blockHeight =>
    let (requested, validators) := s.protocol.validatorRegistry.requestUnstake address blockHeight
    { protocol := { s.protocol with validatorRegistry := validators }
      leaving := if requested then insert address s.leaving else s.leaving }
  | .completeUnstake address blockHeight =>
    let (_, validators) := s.protocol.validatorRegistry.completeUnstake address blockHeight
    { s with protocol := { s.protocol with validatorRegistry := validators } }
  | .slash address =>
    let (_, validators) := s.protocol.validatorRegistry.slash address
    { s with protocol := { s.protocol with validatorRegistry := validators } }
  | .submitTask now submitter description bountyQbc queryType blockHeight timeoutBlocks =>
    let (_, taskMarket) := s.protocol.taskMarket.submitTask host now submitter description bountyQbc
      queryType blockHeight timeoutBlocks
    { s with protocol := { s.protocol with taskMarket := taskMarket } }
  | .claimTask taskId solverAddress =>
    let (_, taskMarket) := s.protocol.taskMarket.claimTask taskId solverAddress
    { s with protocol := { s.protocol with taskMarket := taskMarket } }
  | .submitSolution taskId solverAddress solutionData =>
    let (_, taskMarket) := s.protocol.taskMarket.submitSolution host taskId solverAddress
      solutionData
    { s with protocol := { s.protocol with taskMarket := taskMarket } }
  | .validateSolution taskId validatorAddress approve =>
    { s with protocol := (s.protocol.validateSolution taskId validatorAddress approve).2 }
  | .finalizeTask taskId => { s with protocol := (s.protocol.finalizeTask taskId).2 }
  | .processBlock blockHeight => { s with protocol := (s.protocol.processBlock blockHeight).2 }

def validator (s : State) (address : String) : Option Validator :=
  s.protocol.validatorRegistry.lookup address

/-- Whoever is active has the minimum at stake and is not on the way out. -/
def Locked (s : State) : Prop :=
  ∀ address v, s.validator address = some v → v.isActive →
    ¬v.isUnstaking ∧ address ∉ s.leaving ∧ MIN_VALIDATOR_STAKE ≤ v.stakeQbc

/-- The call records a vote of the validator. -/
def Records (s : State) (c : Call) (address : String) : Prop :=
  ∃ taskId approve, c = .validateSolution taskId address approve ∧
    (s.protocol.validateSolution taskId address approve).1 = true

end State

section Votes

variable (validators : ValidatorRegistry) (votes : List (Σ _ : String, Bool))

def stakeOf (address : String) : ℚ := ((validators.lookup address).map Validator.stakeQbc).getD 0

def votingStake : ℚ := (votes.map fun vote => stakeOf validators vote.1).sum

/-- The weight of a vote: the stake of the validator, at most a third of what votes. -/
def weight (vote : Σ _ : String, Bool) : ℚ :=
  min (stakeOf validators vote.1) (votingStake validators votes * DEFAULT_MAX_VOTE_WEIGHT)

def totalWeight : ℚ := (votes.map (weight validators votes)).sum

def approvingWeight : ℚ :=
  (votes.map fun vote => if vote.2 then weight validators votes vote else 0).sum

end Votes

/-- The votes on the task reject its solution, which is the validator's. -/
def Rejects (p : ProofOfThoughtProtocol) (taskId address : String) : Prop :=
  ∃ task, p.taskMarket.lookup taskId = some task ∧ task.status = .validating ∧
    task.claimedBy = address ∧ address ≠ "" ∧
    let votes := task.validationVotes.entries
    votingStake p.validatorRegistry votes ≠ 0 ∧ totalWeight p.validatorRegistry votes ≠ 0 ∧
      approvingWeight p.validatorRegistry votes / totalWeight p.validatorRegistry votes <
        VALIDATION_THRESHOLD

namespace State

/-- The validators a call slashes. -/
def Slashes (s : State) : Call → String → Prop
  | .slash address, a => a = address
  | .finalizeTask taskId, a => Rejects s.protocol taskId a
  | _, _ => False

/-- A validator on the way out is only slashed to below the minimum. -/
def Spares (s : State) (c : Call) : Prop :=
  ∀ address v, s.Slashes c address → address ∈ s.leaving → s.validator address = some v →
    v.stakeQbc < 2 * MIN_VALIDATOR_STAKE

end State

section Tally

variable {validators : ValidatorRegistry} {votes : List (Σ _ : String, Bool)}

theorem rawStakes_snoc (vote : Σ _ : String, Bool) :
    rawStakes validators (votes ++ [vote]) =
      match validators.lookup vote.1 with
      | some v => ((rawStakes validators votes).1 + v.stakeQbc,
        (rawStakes validators votes).2.insert vote.1 v.stakeQbc)
      | none => rawStakes validators votes := by
  rw [rawStakes, List.foldl_append]
  rfl

theorem rawStakes_fst : (rawStakes validators votes).1 = votingStake validators votes := by
  induction votes using List.reverseRecOn with
  | nil => rfl
  | append_singleton votes vote ih =>
    rw [votingStake, List.map_append, List.sum_append, ← votingStake, ← ih, rawStakes_snoc,
      List.map_singleton, List.sum_singleton, stakeOf]
    cases validators.lookup vote.1 with
    | none => exact (add_zero _).symm
    | some v => rfl

theorem lookup_rawStakes (a : String) :
    (rawStakes validators votes).2.lookup a =
      if a ∈ votes.map Sigma.fst then (validators.lookup a).map Validator.stakeQbc else none := by
  induction votes using List.reverseRecOn with
  | nil => rfl
  | append_singleton votes vote ih =>
    rw [rawStakes_snoc]
    by_cases heq : a = vote.1
    · subst heq
      cases hlookup : validators.lookup vote.1 with
      | none => simp [ih, hlookup]
      | some v => simp
    · cases hlookup : validators.lookup vote.1 with
      | none => simp [ih, heq]
      | some v => simp [ih, AList.lookup_insert_ne heq, heq]

theorem getD_lookup_rawStakes {vote : Σ _ : String, Bool} (h : vote ∈ votes) :
    ((rawStakes validators votes).2.lookup vote.1).getD 0 = stakeOf validators vote.1 := by
  rw [lookup_rawStakes, if_pos (List.mem_map_of_mem h), stakeOf]

theorem cappedStakes_eq (rawTotal : ℚ) (stakes : HashMap ℚ) :
    cappedStakes rawTotal stakes votes =
      let capped (vote : Σ _ : String, Bool) :=
        min ((stakes.lookup vote.1).getD 0) (rawTotal * DEFAULT_MAX_VOTE_WEIGHT)
      ((votes.map capped).sum, (votes.map fun vote => if vote.2 then capped vote else 0).sum) := by
  induction votes using List.reverseRecOn with
  | nil => rfl
  | append_singleton votes vote ih =>
    rw [cappedStakes, List.foldl_append, ← cappedStakes, ih]
    cases hvote : vote.2 <;> simp [hvote]

theorem cappedStakes_rawStakes :
    cappedStakes (votingStake validators votes) (rawStakes validators votes).2 votes =
      (totalWeight validators votes, approvingWeight validators votes) := by
  have hcapped : ∀ vote ∈ votes, min (((rawStakes validators votes).2.lookup vote.1).getD 0)
      (votingStake validators votes * DEFAULT_MAX_VOTE_WEIGHT) = weight validators votes vote := by
    intro vote hvote
    rw [getD_lookup_rawStakes hvote, weight]
  rw [cappedStakes_eq, totalWeight, approvingWeight]
  refine Prod.ext ?_ ?_
  · exact congrArg List.sum (List.map_congr_left hcapped)
  · refine congrArg List.sum (List.map_congr_left fun vote hvote => ?_)
    rw [← hcapped vote hvote]

end Tally

/-- What decides whether a validator votes. -/
structure Standing where
  stakeQbc : ℚ
  unstakingBlock : UInt64
  isActive : Bool
  deriving DecidableEq

def Validator.standing (v : Validator) : Standing where
  stakeQbc := v.stakeQbc
  unstakingBlock := v.unstakingBlock
  isActive := v.isActive

/-- What a call makes of one validator, who is slashed or not and may be on the way out before and
after. -/
inductive Change (isSlashed leaves leaves' : Prop) : Option Validator → Option Validator → Prop
  | kept {v v' : Option Validator} (hslashed : ¬isSlashed) (hleaves : leaves' ↔ leaves)
      (h : v'.map Validator.standing = v.map Validator.standing) : Change _ _ _ v v'
  | staked {v : Option Validator} {v' : Validator} {amount : ℚ} (hslashed : ¬isSlashed)
      (hleaves : ¬leaves') (hamount : MIN_VALIDATOR_STAKE ≤ amount)
      (h : v'.standing = ⟨(v.map Validator.stakeQbc).getD 0 + amount, 0, true⟩) :
      Change _ _ _ v (some v')
  | requested {v v' : Validator} {block : UInt64} (hslashed : ¬isSlashed) (hleaves : leaves')
      (h : v'.standing = ⟨v.stakeQbc, block, false⟩) : Change _ _ _ (some v) (some v')
  | removed {v : Option Validator} (hslashed : ¬isSlashed) : Change _ _ _ v none
  | slashed {v v' : Validator} (hslashed : isSlashed) (hleaves : leaves' ↔ leaves)
      (h : v'.standing =
        ⟨v.stakeQbc / 2, v.unstakingBlock, decide (2 * MIN_VALIDATOR_STAKE ≤ v.stakeQbc)⟩) :
      Change _ _ _ (some v) (some v')
  | absent : Change _ _ _ none none

section Changes

variable {validators : ValidatorRegistry} {a address : String}

theorem lookup_insert_eq {V : Type} (m : HashMap V) (k a : String) (v : V) :
    (m.insert k v).lookup a = if a = k then some v else m.lookup a := by
  by_cases h : a = k
  · rw [if_pos h, h, AList.lookup_insert]
  · rw [if_neg h, AList.lookup_insert_ne h]

theorem lookup_erase_eq {V : Type} (m : HashMap V) (k a : String) :
    (m.erase k).lookup a = if a = k then none else m.lookup a := by
  by_cases h : a = k
  · rw [if_pos h, h, AList.lookup_erase]
  · rw [if_neg h, AList.lookup_erase_ne h]

theorem standing_insert {v v' : Validator} (hlookup : validators.lookup address = some v)
    (h : v'.standing = v.standing) :
    ((validators.insert address v').lookup a).map Validator.standing =
      (validators.lookup a).map Validator.standing := by
  rw [lookup_insert_eq]
  split
  · next heq => rw [heq, hlookup, Option.map_some, Option.map_some, h]
  · rfl

theorem standing_reward (amount : ℚ) :
    ((validators.reward address amount).2.lookup a).map Validator.standing =
      (validators.lookup a).map Validator.standing := by
  rw [reward]
  split
  · next v hlookup => exact standing_insert hlookup rfl
  · rfl

theorem standing_recordValidation :
    ((validators.recordValidation address).lookup a).map Validator.standing =
      (validators.lookup a).map Validator.standing := by
  rw [recordValidation]
  split
  · next v hlookup => exact standing_insert hlookup rfl
  · rfl

theorem standing_rewardApproving (bountyQbc : ℚ) (votes : List (Σ _ : String, Bool)) :
    ((rewardApproving validators bountyQbc votes).lookup a).map Validator.standing =
      (validators.lookup a).map Validator.standing := by
  rw [rewardApproving]
  generalize bountyQbc * (1 / 10) / (max votes.length 1 : ℕ) = amount
  induction votes generalizing validators with
  | nil => rfl
  | cons vote votes ih =>
    rw [List.foldl_cons, ih]
    split
    · exact standing_reward amount
    · rfl

variable {leaving : Finset String}

theorem change_slash {isSlashed leaves : Prop} (h : isSlashed ↔ a = address) :
    Change isSlashed leaves leaves (validators.lookup a)
      ((validators.slash address).2.lookup a) := by
  rw [slash]
  split
  · next v hlookup =>
    rw [lookup_insert_eq]
    split
    · next heq =>
      rw [heq, hlookup]
      refine .slashed (h.mpr heq) .rfl ?_
      have hhalf : v.stakeQbc - v.stakeQbc * SLASH_PENALTY = v.stakeQbc / 2 := by
        rw [SLASH_PENALTY]
        ring
      simp only [Validator.standing, hhalf, Standing.mk.injEq, true_and, decide_eq_decide]
      exact le_div_iff₀' two_pos
    · next hne => exact .kept (hne ∘ h.mp) .rfl rfl
  · next hlookup =>
    by_cases heq : a = address
    · rw [heq, hlookup]
      exact .absent
    · exact .kept (heq ∘ h.mp) .rfl rfl

variable (validators address) in
theorem stake_cases (amount : ℚ) (blockHeight : UInt64) :
    validators.stake address amount blockHeight = (false, validators) ∨
      MIN_VALIDATOR_STAKE ≤ amount ∧
        ∃ v', validators.stake address amount blockHeight =
            (true, validators.insert address v') ∧
          v'.standing =
            ⟨((validators.lookup address).map Validator.stakeQbc).getD 0 + amount, 0, true⟩ := by
  rw [stake]
  split
  · exact .inl rfl
  · next hamount =>
    refine .inr ⟨not_lt.mp hamount, ?_⟩
    cases validators.lookup address with
    | none =>
      refine ⟨_, rfl, ?_⟩
      simp [Validator.standing, Validator.new]
    | some v => exact ⟨_, rfl, rfl⟩

theorem change_stake (amount : ℚ) (blockHeight : UInt64) :
    let result := validators.stake address amount blockHeight
    Change False (a ∈ leaving) (a ∈ if result.1 then leaving.erase address else leaving)
      (validators.lookup a) (result.2.lookup a) := by
  intro result
  rcases stake_cases validators address amount blockHeight with
    hresult | ⟨hamount, v', hresult, hstanding⟩
  · rw [show result = _ from hresult]
    exact .kept not_false .rfl rfl
  · rw [show result = _ from hresult, if_pos rfl, lookup_insert_eq]
    split
    · next heq =>
      subst heq
      exact .staked not_false (Finset.notMem_erase a leaving) hamount hstanding
    · next hne => exact .kept not_false (by rw [Finset.mem_erase]; exact and_iff_right hne) rfl

variable (validators address) in
theorem requestUnstake_cases (blockHeight : UInt64) :
    validators.requestUnstake address blockHeight = (false, validators) ∨
      ∃ v v', validators.lookup address = some v ∧
        validators.requestUnstake address blockHeight = (true, validators.insert address v') ∧
        v'.standing = ⟨v.stakeQbc, blockHeight + UNSTAKING_DELAY_BLOCKS, false⟩ := by
  rw [requestUnstake]
  split
  · next v hlookup =>
    split
    · exact .inr ⟨v, _, hlookup, rfl, rfl⟩
    · exact .inl rfl
  · exact .inl rfl

theorem change_requestUnstake (blockHeight : UInt64) :
    let result := validators.requestUnstake address blockHeight
    Change False (a ∈ leaving) (a ∈ if result.1 then insert address leaving else leaving)
      (validators.lookup a) (result.2.lookup a) := by
  intro result
  rcases requestUnstake_cases validators address blockHeight with
    hresult | ⟨v, v', hlookup, hresult, hstanding⟩
  · rw [show result = _ from hresult]
    exact .kept not_false .rfl rfl
  · rw [show result = _ from hresult, if_pos rfl, lookup_insert_eq]
    split
    · next heq =>
      subst heq
      rw [hlookup]
      exact .requested not_false (Finset.mem_insert_self _ _) hstanding
    · next hne => exact .kept not_false (by rw [Finset.mem_insert]; exact or_iff_right hne) rfl

theorem change_completeUnstake (blockHeight : UInt64) :
    Change False (a ∈ leaving) (a ∈ leaving) (validators.lookup a)
      ((validators.completeUnstake address blockHeight).2.lookup a) := by
  rw [completeUnstake]
  split
  · split
    · dsimp only
      split
      · rw [lookup_erase_eq]
        split
        · exact .removed not_false
        · exact .kept not_false .rfl rfl
      · exact .kept not_false .rfl rfl
    · exact .kept not_false .rfl rfl
  · exact .kept not_false .rfl rfl

theorem standing_validateSolution (p : ProofOfThoughtProtocol) (taskId : String) (approve : Bool) :
    ((p.validateSolution taskId address approve).2.validatorRegistry.lookup a).map
        Validator.standing =
      (p.validatorRegistry.lookup a).map Validator.standing := by
  rw [validateSolution]
  split
  · split
    · split
      · rfl
      · split
        · split
          · exact standing_recordValidation
          · rfl
        · rfl
    · rfl
  · rfl

theorem rejects_iff {p : ProofOfThoughtProtocol} {taskId : String} {task : ReasoningTask}
    (h : p.taskMarket.lookup taskId = some task) :
    Rejects p taskId a ↔ task.status = .validating ∧ task.claimedBy = a ∧ a ≠ "" ∧
      let votes := task.validationVotes.entries
      votingStake p.validatorRegistry votes ≠ 0 ∧ totalWeight p.validatorRegistry votes ≠ 0 ∧
        approvingWeight p.validatorRegistry votes / totalWeight p.validatorRegistry votes <
          VALIDATION_THRESHOLD := by
  simp only [Rejects, h, Option.some.injEq, exists_eq_left']

/-- Either nobody is slashed or the solver whose solution is rejected. -/
theorem finalizeTask_cases (p : ProofOfThoughtProtocol) (taskId : String) :
    (∀ a, ¬Rejects p taskId a ∧
      ((p.finalizeTask taskId).2.validatorRegistry.lookup a).map Validator.standing =
        (p.validatorRegistry.lookup a).map Validator.standing) ∨
    ∃ solver, (∀ a, Rejects p taskId a ↔ a = solver) ∧
      (p.finalizeTask taskId).2.validatorRegistry = (p.validatorRegistry.slash solver).2 := by
  simp only [finalizeTask]
  split
  · next task hlookup =>
    simp only [rejects_iff hlookup, cappedStakes_rawStakes, rawStakes_fst]
    split_ifs with hvalidating hraw htotal happrove hsolver
    · exact .inl fun a => ⟨fun h => h.2.2.2.1 hraw, rfl⟩
    · exact .inl fun a => ⟨fun h => h.2.2.2.2.1 htotal, rfl⟩
    · exact .inl fun a => ⟨fun h => h.2.2.2.2.2.not_ge happrove, standing_rewardApproving _ _⟩
    · refine .inr ⟨task.claimedBy, fun a => ⟨fun h => h.2.1.symm, ?_⟩, rfl⟩
      rintro rfl
      exact ⟨hvalidating.1, rfl, hsolver, hraw, htotal, not_le.mp happrove⟩
    · refine .inl fun a => ⟨fun h => h.2.2.1 ?_, rfl⟩
      rw [← h.2.1]
      exact not_not.mp hsolver
    · refine .inl fun a => ⟨fun h => hvalidating ⟨h.1, fun hnil => h.2.2.2.1 ?_⟩, rfl⟩
      rw [hnil]
      rfl
  · next hlookup =>
    refine .inl fun a => ⟨?_, rfl⟩
    rintro ⟨task, htask, -⟩
    rw [hlookup] at htask
    cases htask

theorem change_finalizeTask (p : ProofOfThoughtProtocol) (taskId : String) (leaves : Prop) :
    Change (Rejects p taskId a) leaves leaves (p.validatorRegistry.lookup a)
      ((p.finalizeTask taskId).2.validatorRegistry.lookup a) := by
  rcases finalizeTask_cases p taskId with hkept | ⟨solver, hrejects, hslash⟩
  · exact .kept (hkept a).1 .rfl (hkept a).2
  · rw [hslash]
    exact change_slash (hrejects a)

/-- Each call changes each validator in one of the ways. -/
theorem change_step (host : Host) (s : State) (c : Call) (a : String) :
    Change (s.Slashes c a) (a ∈ s.leaving) (a ∈ (s.step host c).leaving) (s.validator a)
      ((s.step host c).validator a) := by
  cases c with
  | stake address amount blockHeight => exact change_stake amount blockHeight
  | requestUnstake address blockHeight => exact change_requestUnstake blockHeight
  | completeUnstake address blockHeight => exact change_completeUnstake blockHeight
  | slash address => exact change_slash .rfl
  | finalizeTask taskId => exact change_finalizeTask s.protocol taskId _
  | validateSolution taskId validatorAddress approve =>
    exact .kept not_false .rfl (standing_validateSolution s.protocol taskId approve)
  | submitTask | claimTask | submitSolution | processBlock => exact .kept not_false .rfl rfl

end Changes

section Locked

/-- What every run keeps: an active validator has the minimum at stake, and one who is not on the
way out has no block to unstake at. -/
structure Kept (leaves : Prop) (v : Standing) : Prop where
  stakeQbc : 0 ≤ v.stakeQbc
  isActive : v.isActive → MIN_VALIDATOR_STAKE ≤ v.stakeQbc
  unstakingBlock : ¬leaves → v.unstakingBlock = 0

variable {isSlashed leaves leaves' : Prop} {v v' : Option Validator}

theorem Change.kept_of (h : Change isSlashed leaves leaves' v v')
    (hv : ∀ u, v = some u → Kept leaves u.standing) (u' : Validator) (hu' : v' = some u') :
    Kept leaves' u'.standing := by
  cases h with
  | kept _ hleaves h =>
    rw [hu', Option.map_some, eq_comm, Option.map_eq_some_iff] at h
    obtain ⟨u, hu, h⟩ := h
    rw [← h, hleaves]
    exact hv u hu
  | @staked _ _ amount _ hleaves hamount h =>
    cases hu'
    have hstake : 0 ≤ (v.map Validator.stakeQbc).getD 0 := by
      cases v with
      | none => exact le_rfl
      | some u => exact (hv u rfl).stakeQbc
    have hmin : MIN_VALIDATOR_STAKE ≤ (v.map Validator.stakeQbc).getD 0 + amount := by linarith
    rw [h]
    exact ⟨le_trans (by norm_num [MIN_VALIDATOR_STAKE]) hmin, fun _ => hmin, fun _ => rfl⟩
  | requested _ hleaves h =>
    cases hu'
    rw [h]
    exact ⟨(hv _ rfl).stakeQbc, nofun, fun hstays => absurd hleaves hstays⟩
  | @slashed u _ _ hleaves h =>
    cases hu'
    rw [h, hleaves]
    have hstake : 0 ≤ u.stakeQbc := (hv u rfl).stakeQbc
    refine ⟨div_nonneg hstake two_pos.le, fun hactive => ?_, (hv u rfl).unstakingBlock⟩
    exact (le_div_iff₀' two_pos).mpr (of_decide_eq_true hactive)
  | removed => cases hu'
  | absent => cases hu'

/-- Those on the way out stay inactive exactly if no slashing leaves them the minimum. -/
theorem Change.inactive_iff (h : Change isSlashed leaves leaves' v v')
    (hv : ∀ u, v = some u → u.isActive → ¬leaves) :
    (∀ u', v' = some u' → u'.isActive → ¬leaves') ↔
      (isSlashed → leaves → ∀ u, v = some u → u.stakeQbc < 2 * MIN_VALIDATOR_STAKE) := by
  cases h with
  | kept hslashed hleaves h =>
    refine iff_of_true ?_ fun hs => absurd hs hslashed
    intro u' hu' hactive
    rw [hu', Option.map_some, eq_comm, Option.map_eq_some_iff] at h
    obtain ⟨u, hu, h⟩ := h
    rw [hleaves]
    exact hv u hu ((congrArg Standing.isActive h).trans hactive)
  | staked hslashed hleaves =>
    exact iff_of_true (fun _ _ _ => hleaves) fun hs => absurd hs hslashed
  | requested hslashed _ h =>
    refine iff_of_true ?_ fun hs => absurd hs hslashed
    rintro _ ⟨⟩ hactive
    have hinactive := congrArg Standing.isActive h
    cases hinactive.symm.trans hactive
  | removed hslashed => exact iff_of_true nofun fun hs => absurd hs hslashed
  | @slashed u u' hslashed hleaves h =>
    have hactive : u'.isActive = decide (2 * MIN_VALIDATOR_STAKE ≤ u.stakeQbc) :=
      congrArg Standing.isActive h
    simp only [Option.some.injEq, forall_eq', hactive, decide_eq_true_eq, hleaves, hslashed,
      true_imp_iff]
    rw [← not_le, imp_not_comm]
  | absent => exact iff_of_true nofun fun _ _ => nofun

end Locked

namespace State

variable {host : Host} {s : State} {c : Call}

def AllKept (s : State) : Prop :=
  ∀ address v, s.validator address = some v → Kept (address ∈ s.leaving) v.standing

theorem AllKept.step (h : s.AllKept) (c : Call) : (s.step host c).AllKept :=
  fun address => (change_step host s c address).kept_of (h address)

theorem allKept_run (calls : List Call) : (run (step host) initial calls).AllKept :=
  run_induction (fun _ c h => h.step c) (fun _ _ h => nomatch h) calls

theorem AllKept.locked_iff (h : s.AllKept) :
    s.Locked ↔ ∀ address v, s.validator address = some v → v.isActive → address ∉ s.leaving := by
  refine forall_congr' fun address => forall₂_congr fun v hv => imp_congr_right fun hactive => ?_
  have hkept := h address v hv
  refine ⟨fun hlocked => hlocked.2.1, fun hstays => ⟨?_, hstays, hkept.isActive hactive⟩⟩
  have hblock : v.unstakingBlock = 0 := hkept.unstakingBlock hstays
  simp [Validator.isUnstaking, hblock]

theorem AllKept.locked_step_iff (h : s.AllKept) (hlocked : s.Locked) :
    (s.step host c).Locked ↔ s.Spares c := by
  rw [h.locked_iff] at hlocked
  rw [(h.step c).locked_iff]
  have hchange (a : String) := (change_step host s c a).inactive_iff (hlocked a)
  simp only [hchange, Spares]
  exact forall_congr' fun a => ⟨fun h v hs hl => h hs hl v, fun h hs hl v => h v hs hl⟩

/-- Who votes is active. -/
theorem Records.active {address : String} (h : s.Records c address) :
    ∃ v, s.validator address = some v ∧ v.isActive := by
  obtain ⟨taskId, approve, -, hrecorded⟩ := h
  rw [validateSolution] at hrecorded
  split at hrecorded
  · split at hrecorded
    · split at hrecorded
      · cases hrecorded
      · split at hrecorded
        · next v hlookup =>
          split at hrecorded
          · next hactive => exact ⟨v, hlookup, hactive⟩
          · cases hrecorded
        · cases hrecorded
    · cases hrecorded
  · cases hrecorded

/-- In a run active validators are locked in, and no vote comes from one on the way out, exactly as
long as the slashing of those on the way out leaves them less than the minimum. -/
theorem locked_iff_spares (host : Host) (calls : List Call) :
    ((∀ before, before <+: calls → (run (step host) initial before).Locked) ∧
      ∀ before c, before ++ [c] <+: calls → ∀ address,
        (run (step host) initial before).Records c address →
          address ∉ (run (step host) initial before).leaving) ↔
      ∀ before c, before ++ [c] <+: calls → (run (step host) initial before).Spares c := by
  constructor
  · rintro ⟨hlocked, -⟩ before c hle
    have hthere := hlocked _ hle
    rw [run_append] at hthere
    exact ((allKept_run before).locked_step_iff
      (hlocked before ((List.prefix_append _ _).trans hle))).mp hthere
  · intro hspares
    have hlocked : ∀ before, before <+: calls → (run (step host) initial before).Locked := by
      intro before hle
      refine (run_guarded (P := fun s => s.AllKept ∧ s.Locked) ?_ ?_ hspares hle).2
      · rintro s c ⟨hkept, hlocked⟩ hspare
        exact ⟨hkept.step c, (hkept.locked_step_iff hlocked).mpr hspare⟩
      · exact ⟨@allKept_run host [], fun _ _ h => nomatch h⟩
    refine ⟨hlocked, fun before c hle address hrecords => ?_⟩
    obtain ⟨v, hv, hactive⟩ := hrecords.active
    exact (hlocked before ((List.prefix_append _ _).trans hle) address v hv hactive).2.1

end State

namespace Sample

/-- A host whose digest is the first bytes of what it is given. -/
def host : Host where
  sha256 bytes := Vector.ofFn fun i => bytes.getD i 0
  display _ := "0"
  iterate := id

/-- The first hexadecimal digits of `alice:t` and `dave:t`. -/
def aliceTask : String := "616c6963653a743a"
def daveTask : String := "646176653a743a30"

/-- The solver of a rejected task asks to unstake before the task is finalized, and is then to vote
on the next one. -/
def calls : List Call :=
  [.stake "solver" 200 0, .stake "judge" 200 0,
    .submitTask 0 "alice" "t" 5 "general" 100 1000, .claimTask aliceTask "solver",
    .submitSolution aliceTask "solver" ∅, .requestUnstake "solver" 1000,
    .validateSolution aliceTask "judge" false, .finalizeTask aliceTask,
    .submitTask 0 "dave" "t" 5 "general" 1100 1000, .claimTask daveTask "erin",
    .submitSolution daveTask "erin" ∅]

end Sample

theorem unstaking_solver_votes :
    let s := run (State.step Sample.host) .initial Sample.calls
    ¬s.Locked ∧ s.Records (.validateSolution Sample.daveTask "solver" true) "solver" ∧
      "solver" ∈ s.leaving := by
  intro s
  refine ⟨fun hlocked => ?_, ⟨_, _, rfl, by decide +kernel⟩, by decide +kernel⟩
  have hvalidator : (s.validator "solver").map Validator.standing = some ⟨100, 184272, true⟩ := by
    decide +kernel
  obtain ⟨v, hv, hstanding⟩ := Option.map_eq_some_iff.mp hvalidator
  obtain ⟨hidle, -, -⟩ := hlocked "solver" v hv (congrArg Standing.isActive hstanding)
  have hblock : v.unstakingBlock = 184272 := congrArg Standing.unstakingBlock hstanding
  rw [Validator.isUnstaking, hblock] at hidle
  exact hidle (by decide)

end Qubitcoin.Aether.TaskProtocol
