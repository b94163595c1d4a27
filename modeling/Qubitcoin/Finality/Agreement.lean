import Qubitcoin.Finality.Core

/-! What finality is for: one hash for each finalized height, backed by a quorum. -/

namespace Qubitcoin.Finality

namespace FinalityCore

/-- The voters counted for a hash at a height. -/
def votersFor (c : FinalityCore) (blockHeight : Nat) (blockHash : String) : List String :=
  ((c.heightVotes blockHeight).filter fun v => v.blockHash == blockHash).map Vote.voter

/-- Validators with the threshold of the current stake have voted for this hash. -/
structure Quorum (c : FinalityCore) (blockHeight : Nat) (blockHash : String) : Prop where
  staked : 0 < c.totalStake
  reached : c.threshold * c.totalStake ≤
    Weights.weight c.validators (c.votersFor blockHeight blockHash)

variable {c : FinalityCore} {vs : List Vote} {blockHeight : Nat} {blockHash blockHash' : String}

theorem calculateVoteWeight_eq (c : FinalityCore) (blockHeight : Nat) :
    c.calculateVoteWeight blockHeight =
      (Weights.weight c.validators ((c.heightVotes blockHeight).map Vote.voter),
        c.totalStake) := by
  have hsum := Weights.sum_filterMap_lookup c.validators
    ((c.heightVotes blockHeight).map Vote.voter)
  rw [List.filterMap_map] at hsum
  rw [calculateVoteWeight, ← hsum]
  rfl

/-- The fallback agrees with the core. -/
theorem pythonVoteWeight_eq (c : FinalityCore) (blockHeight : Nat) :
    c.pythonVoteWeight blockHeight = c.calculateVoteWeight blockHeight := by
  rw [calculateVoteWeight_eq, pythonVoteWeight, Weights.weight, List.map_map]
  rfl

/-- No voter is counted twice at a height, and every vote there was offered for it. -/
structure Tidy (c : FinalityCore) (offered : List Vote) : Prop where
  nodup : ∀ h, ((c.heightVotes h).map Vote.voter).Nodup
  filed : ∀ h, ∀ v ∈ c.heightVotes h, v.blockHeight = h ∧ v ∈ offered

theorem Tidy.mono {offered offered' : List Vote} (h : c.Tidy offered)
    (hle : offered ⊆ offered') : c.Tidy offered' where
  nodup := h.nodup
  filed height v hv := ⟨(h.filed height v hv).1, hle (h.filed height v hv).2⟩

theorem eq_of_voter (hnodup : (vs.map Vote.voter).Nodup) {v w : Vote}
    (hv : v ∈ vs) (hw : w ∈ vs) (h : v.voter = w.voter) : v = w :=
  List.inj_on_of_nodup_map hnodup hv hw h

theorem nodup_votersFor (h : c.Tidy vs) (blockHeight : Nat) (blockHash : String) :
    (c.votersFor blockHeight blockHash).Nodup :=
  (h.nodup blockHeight).sublist (List.filter_sublist.map _)

/-- Above one half, quorums for two hashes share a voter, who has only one vote. -/
theorem Quorum.unique (htidy : c.Tidy vs) (hhalf : 1 / 2 < c.threshold)
    (h : c.Quorum blockHeight blockHash) (h' : c.Quorum blockHeight blockHash') :
    blockHash = blockHash' := by
  have hheavy : c.totalStake <
      Weights.weight c.validators (c.votersFor blockHeight blockHash) +
        Weights.weight c.validators (c.votersFor blockHeight blockHash') := by
    calc c.totalStake = 1 / 2 * c.totalStake + 1 / 2 * c.totalStake := by ring
      _ < c.threshold * c.totalStake + c.threshold * c.totalStake :=
        add_lt_add (mul_lt_mul_of_pos_right hhalf h.staked)
          (mul_lt_mul_of_pos_right hhalf h.staked)
      _ ≤ _ := add_le_add h.reached h'.reached
  obtain ⟨voter, hmem, hmem'⟩ := Weights.exists_common (nodup_votersFor htidy _ _)
    (nodup_votersFor htidy _ _) hheavy
  obtain ⟨v, hv, rfl⟩ := List.mem_map.mp hmem
  obtain ⟨w, hw, hvoter⟩ := List.mem_map.mp hmem'
  obtain ⟨hv, hhash⟩ := List.mem_filter.mp hv
  obtain ⟨hw, hhash'⟩ := List.mem_filter.mp hw
  rw [eq_of_voter (htidy.nodup _) hw hv hvoter] at hhash'
  exact (beq_iff_eq.mp hhash).symm.trans (beq_iff_eq.mp hhash')

theorem Quorum.exists_vote (hpos : 0 < c.threshold) (h : c.Quorum blockHeight blockHash) :
    ∃ v ∈ c.heightVotes blockHeight, v.blockHash = blockHash := by
  have hweight : 0 < Weights.weight c.validators (c.votersFor blockHeight blockHash) :=
    (mul_pos hpos h.staked).trans_le h.reached
  cases hvoters : c.votersFor blockHeight blockHash with
  | nil =>
    rw [hvoters] at hweight
    exact absurd hweight (lt_irrefl 0)
  | cons voter voters =>
    have hmem : voter ∈ c.votersFor blockHeight blockHash := by simp [hvoters]
    obtain ⟨v, hv, _⟩ := List.mem_map.mp hmem
    obtain ⟨hv, hhash⟩ := List.mem_filter.mp hv
    exact ⟨v, hv, beq_iff_eq.mp hhash⟩

/-- When all votes at the height name one hash, the threshold is reached for it. -/
theorem Quorum.of_unanimous (hstaked : 0 < c.totalStake)
    (hreached : c.threshold ≤ (c.calculateVoteWeight blockHeight).1 / c.totalStake)
    (hone : ∀ v ∈ c.heightVotes blockHeight, v.blockHash = blockHash) :
    c.Quorum blockHeight blockHash where
  staked := hstaked
  reached := by
    have hall : (c.heightVotes blockHeight).filter (fun v => v.blockHash == blockHash) =
        c.heightVotes blockHeight := by
      rw [List.filter_eq_self]
      intro v hv
      exact beq_iff_eq.mpr (hone v hv)
    rw [calculateVoteWeight_eq, le_div_iff₀ hstaked] at hreached
    rw [votersFor, hall]
    exact hreached

/-- What a check can do. -/
inductive Checked (c : FinalityCore) (blockHeight : Nat) : Bool × FinalityCore → Prop
  | past (h : blockHeight ≤ c.lastFinalized) : Checked c blockHeight (true, c)
  | short : Checked c blockHeight (false, c)
  | raised (h : c.lastFinalized < blockHeight) (staked : 0 < c.totalStake)
      (reached : c.threshold ≤ (c.calculateVoteWeight blockHeight).1 / c.totalStake) :
      Checked c blockHeight (true, { c with lastFinalized := blockHeight })

theorem checkFinality_checked (c : FinalityCore) (blockHeight : Nat) :
    Checked c blockHeight (c.checkFinality blockHeight) := by
  unfold checkFinality
  split
  · next h => exact .past h
  · next h =>
    simp only [calculateVoteWeight_eq]
    split
    · exact .short
    · next hstaked =>
      split
      · next hreached =>
        refine .raised (not_le.mp h) (not_le.mp hstaked) ?_
        rw [calculateVoteWeight_eq]
        exact hreached
      · exact .short

/-- What the offer of a vote can do. -/
inductive Recorded (c : FinalityCore) (voter : String) (blockHeight : Nat)
    (blockHash : String) : Bool × FinalityCore → Prop
  | refused : Recorded c voter blockHeight blockHash (false, c)
  | accepted (member : voter ∈ c.validators)
      (new : ∀ v ∈ c.heightVotes blockHeight, v.voter ≠ voter) :
      Recorded c voter blockHeight blockHash (true, { c with
        votes := c.votes.insert blockHeight
          (c.heightVotes blockHeight ++ [⟨voter, blockHeight, blockHash⟩]) })

theorem recordVote_recorded (c : FinalityCore) (voter : String) (blockHeight : Nat)
    (blockHash : String) : Recorded c voter blockHeight blockHash
      (c.recordVote voter blockHeight blockHash) := by
  unfold recordVote
  split
  · exact .refused
  · next hmember =>
    split
    · exact .refused
    · next hnew =>
      refine .accepted (not_not.mp hmember) ?_
      simpa using hnew

variable {voter : String}

theorem heightVotes_accepted (c : FinalityCore) (blockHeight h : Nat) (vs : List Vote) :
    ({ c with votes := c.votes.insert blockHeight vs } : FinalityCore).heightVotes h =
      if h = blockHeight then vs else c.heightVotes h :=
  StorageMap.value_insert_eq _ _ _ _ _

theorem heightVotes_pruneVotes (c : FinalityCore) (currentHeight h : Nat) :
    (c.pruneVotes currentHeight).heightVotes h = c.heightVotes h ∨
      (c.pruneVotes currentHeight).heightVotes h = [] := by
  unfold pruneVotes
  split
  · exact .inl rfl
  · simp only [heightVotes, StorageMap.value, StorageMap.lookup_retain]
    split
    · exact .inl rfl
    · exact .inr rfl

theorem Tidy.recordVote (h : c.Tidy vs) (voter : String) (blockHeight : Nat)
    (blockHash : String) :
    (c.recordVote voter blockHeight blockHash).2.Tidy (vs ++ [⟨voter, blockHeight, blockHash⟩]) := by
  have hrecorded := recordVote_recorded c voter blockHeight blockHash
  generalize c.recordVote voter blockHeight blockHash = r at hrecorded
  have hkeep := h.mono (List.subset_append_left vs [⟨voter, blockHeight, blockHash⟩])
  cases hrecorded with
  | refused => exact hkeep
  | accepted member new =>
    constructor
    · intro height
      rw [heightVotes_accepted]
      split
      · rw [List.map_append, List.nodup_append']
        refine ⟨h.nodup blockHeight, List.nodup_singleton _, ?_⟩
        intro other hold hnew
        obtain ⟨v, hv, rfl⟩ := List.mem_map.mp hold
        exact new v hv (List.mem_singleton.mp hnew)
      · exact h.nodup height
    · intro height v hv
      rw [heightVotes_accepted] at hv
      split at hv
      · next heq =>
        rw [heq]
        cases List.mem_append.mp hv with
        | inl hold => exact hkeep.filed _ v hold
        | inr hnew =>
          rw [List.mem_singleton.mp hnew]
          exact ⟨rfl, List.mem_append_right _ (List.mem_singleton_self _)⟩
      · exact hkeep.filed height v hv

theorem Tidy.pruneVotes (h : c.Tidy vs) (currentHeight : Nat) :
    (c.pruneVotes currentHeight).Tidy vs := by
  constructor
  · intro height
    cases heightVotes_pruneVotes c currentHeight height with
    | inl heq =>
      rw [heq]
      exact h.nodup height
    | inr heq => simp [heq]
  · intro height v hv
    cases heightVotes_pruneVotes c currentHeight height with
    | inl heq => exact h.filed height v (heq ▸ hv)
    | inr heq => simp [heq] at hv

theorem Tidy.checkFinality (h : c.Tidy vs) (blockHeight : Nat) :
    (c.checkFinality blockHeight).2.Tidy vs := by
  have hchecked := checkFinality_checked c blockHeight
  generalize c.checkFinality blockHeight = r at hchecked
  cases hchecked with
  | past _ => exact h
  | short => exact h
  | raised _ _ _ => exact ⟨h.nodup, h.filed⟩

end FinalityCore

open FinalityCore

variable {g : FinalityGadget} {op : Op} {ops : List Op} {θ : ℚ≥0} {h : Nat}

/-- The core as a check of this operation sees it. -/
def checking (g : FinalityGadget) : Op → FinalityCore
  | .submitVote voter blockHeight blockHash => (g.core.recordVote voter blockHeight blockHash).2
  | _ => g.core

/-- What `submit_vote` can do. -/
inductive Submitted (g : FinalityGadget) (voter : String) (blockHeight : Nat)
    (blockHash : String) : FinalityGadget → Prop
  | refused : Submitted g voter blockHeight blockHash g
  | waiting {core : FinalityCore}
      (checked : (g.core.recordVote voter blockHeight blockHash).2.checkFinality blockHeight =
        (false, core)) :
      Submitted g voter blockHeight blockHash { g with core := core }
  | finalized {core : FinalityCore} {row : Checkpoint} (hash : row.blockHash = blockHash)
      (checked : (g.core.recordVote voter blockHeight blockHash).2.checkFinality blockHeight =
        (true, core)) :
      Submitted g voter blockHeight blockHash
        ({ g with core := core }.persistCheckpoint blockHeight row)

theorem submitVote_submitted (g : FinalityGadget) (voter : String) (blockHeight : Nat)
    (blockHash : String) :
    Submitted g voter blockHeight blockHash (g.submitVote voter blockHeight blockHash) := by
  unfold FinalityGadget.submitVote
  cases hrecorded : g.core.recordVote voter blockHeight blockHash with
  | mk accepted recorded =>
    cases accepted with
    | false => exact .refused
    | true =>
      cases hchecked : recorded.checkFinality blockHeight with
      | mk finalized core =>
        cases finalized with
        | false =>
          simp only [hchecked, if_true]
          exact .waiting (by rw [hrecorded]; exact hchecked)
        | true =>
          simp only [hchecked, if_true]
          exact .finalized rfl (by rw [hrecorded]; exact hchecked)

@[simp] theorem core_persistCheckpoint (g : FinalityGadget) (blockHeight : Nat)
    (row : Checkpoint) : (g.persistCheckpoint blockHeight row).core = g.core := by
  unfold FinalityGadget.persistCheckpoint
  split
  · rfl
  · rfl

/-- A row is an old one, or the new one where there was none. -/
theorem checkpoints_persistCheckpoint {blockHeight h : Nat} {row row' : Checkpoint}
    (hlookup : (g.persistCheckpoint blockHeight row).checkpoints.lookup h = some row') :
    g.checkpoints.lookup h = some row' ∨ (h = blockHeight ∧ row' = row) := by
  unfold FinalityGadget.persistCheckpoint at hlookup
  split at hlookup
  · exact .inl hlookup
  · have hlookup := (StorageMap.lookup_insert_eq _ _ _ _).symm.trans hlookup
    split at hlookup
    · next heq =>
      cases hlookup
      exact .inr ⟨heq, rfl⟩
    · exact .inl hlookup

/-- What the gadget keeps comes from the votes it was offered. -/
structure Backed (θ : ℚ≥0) (offered : List Vote) (g : FinalityGadget) : Prop where
  tidy : g.core.Tidy offered
  threshold : g.core.threshold = θ
  checkpoints : ∀ h row, g.checkpoints.lookup h = some row →
    ∃ v ∈ offered, v.blockHeight = h ∧ v.blockHash = row.blockHash

theorem Backed.mono {offered offered' : List Vote} (h : Backed θ offered g)
    (hle : offered ⊆ offered') : Backed θ offered' g where
  tidy := h.tidy.mono hle
  threshold := h.threshold
  checkpoints height row hrow := by
    obtain ⟨v, hv, hvote⟩ := h.checkpoints height row hrow
    exact ⟨v, hle hv, hvote⟩

theorem recordVote_frame (c : FinalityCore) (voter : String) (blockHeight : Nat)
    (blockHash : String) :
    ∃ votes, (c.recordVote voter blockHeight blockHash).2 = { c with votes := votes } := by
  have hrecorded := recordVote_recorded c voter blockHeight blockHash
  generalize c.recordVote voter blockHeight blockHash = r at hrecorded
  cases hrecorded with
  | refused => exact ⟨c.votes, rfl⟩
  | accepted member new => exact ⟨_, rfl⟩

theorem pruneVotes_frame (c : FinalityCore) (currentHeight : Nat) :
    ∃ votes, c.pruneVotes currentHeight = { c with votes := votes } := by
  unfold FinalityCore.pruneVotes
  split
  · exact ⟨c.votes, rfl⟩
  · exact ⟨_, rfl⟩

theorem checkFinality_frame (c : FinalityCore) (blockHeight : Nat) :
    ∃ height, (c.checkFinality blockHeight).2 = { c with lastFinalized := height } := by
  have hchecked := checkFinality_checked c blockHeight
  generalize c.checkFinality blockHeight = r at hchecked
  cases hchecked with
  | past h => exact ⟨c.lastFinalized, rfl⟩
  | short => exact ⟨c.lastFinalized, rfl⟩
  | raised h staked reached => exact ⟨blockHeight, rfl⟩

@[simp] theorem threshold_recordVote (c : FinalityCore) (voter : String) (blockHeight : Nat)
    (blockHash : String) : (c.recordVote voter blockHeight blockHash).2.threshold = c.threshold := by
  obtain ⟨votes, hframe⟩ := recordVote_frame c voter blockHeight blockHash
  rw [hframe]

@[simp] theorem threshold_checkFinality (c : FinalityCore) (blockHeight : Nat) :
    (c.checkFinality blockHeight).2.threshold = c.threshold := by
  obtain ⟨height, hframe⟩ := checkFinality_frame c blockHeight
  rw [hframe]

@[simp] theorem threshold_pruneVotes (c : FinalityCore) (currentHeight : Nat) :
    (c.pruneVotes currentHeight).threshold = c.threshold := by
  obtain ⟨votes, hframe⟩ := pruneVotes_frame c currentHeight
  rw [hframe]

@[simp] theorem lastFinalized_recordVote (c : FinalityCore) (voter : String) (blockHeight : Nat)
    (blockHash : String) :
    (c.recordVote voter blockHeight blockHash).2.lastFinalized = c.lastFinalized := by
  obtain ⟨votes, hframe⟩ := recordVote_frame c voter blockHeight blockHash
  rw [hframe]

@[simp] theorem lastFinalized_pruneVotes (c : FinalityCore) (currentHeight : Nat) :
    (c.pruneVotes currentHeight).lastFinalized = c.lastFinalized := by
  obtain ⟨votes, hframe⟩ := pruneVotes_frame c currentHeight
  rw [hframe]

theorem Backed.submitVote {offered : List Vote} (h : Backed θ offered g) (voter : String)
    (blockHeight : Nat) (blockHash : String) :
    Backed θ (offered ++ [⟨voter, blockHeight, blockHash⟩])
      (g.submitVote voter blockHeight blockHash) := by
  have hold := h.mono (List.subset_append_left offered [⟨voter, blockHeight, blockHash⟩])
  have hcore := (h.tidy.recordVote voter blockHeight blockHash).checkFinality blockHeight
  have hthreshold : ((g.core.recordVote voter blockHeight blockHash).2.checkFinality
      blockHeight).2.threshold = θ := by simp [h.threshold]
  have hsubmitted := submitVote_submitted g voter blockHeight blockHash
  generalize g.submitVote voter blockHeight blockHash = g' at hsubmitted
  cases hsubmitted with
  | refused => exact hold
  | waiting checked =>
    rw [checked] at hcore hthreshold
    exact ⟨hcore, hthreshold, hold.checkpoints⟩
  | finalized hash checked =>
    rw [checked] at hcore hthreshold
    refine ⟨by simpa using hcore, by simpa using hthreshold, ?_⟩
    intro height row hrow
    cases checkpoints_persistCheckpoint hrow with
    | inl hrow => exact hold.checkpoints height row hrow
    | inr hnew =>
      obtain ⟨rfl, rfl⟩ := hnew
      exact ⟨_, List.mem_append_right _ (List.mem_singleton_self _), rfl, hash.symm⟩

theorem Backed.step {offered : List Vote} (h : Backed θ offered g) (op : Op) :
    Backed θ (offered ++ op.vote) (step g op) := by
  cases op with
  | addValidator address stake =>
    change Backed θ (offered ++ []) _
    rw [List.append_nil]
    exact ⟨⟨h.tidy.nodup, h.tidy.filed⟩, h.threshold, h.checkpoints⟩
  | removeValidator address =>
    change Backed θ (offered ++ []) _
    rw [List.append_nil]
    exact ⟨⟨h.tidy.nodup, h.tidy.filed⟩, h.threshold, h.checkpoints⟩
  | recordVote voter blockHeight blockHash =>
    have hold := h.mono (List.subset_append_left offered [⟨voter, blockHeight, blockHash⟩])
    refine ⟨h.tidy.recordVote voter blockHeight blockHash, ?_, hold.checkpoints⟩
    exact (threshold_recordVote _ _ _ _).trans h.threshold
  | checkFinality blockHeight =>
    change Backed θ (offered ++ []) _
    rw [List.append_nil]
    exact ⟨h.tidy.checkFinality blockHeight, (threshold_checkFinality _ _).trans h.threshold,
      h.checkpoints⟩
  | pruneVotes currentHeight =>
    change Backed θ (offered ++ []) _
    rw [List.append_nil]
    exact ⟨h.tidy.pruneVotes currentHeight, (threshold_pruneVotes _ _).trans h.threshold,
      h.checkpoints⟩
  | submitVote voter blockHeight blockHash => exact h.submitVote voter blockHeight blockHash

theorem run_snoc (θ : ℚ≥0) (expiry : Nat) (ops : List Op) (op : Op) :
    run θ expiry (ops ++ [op]) = step (run θ expiry ops) op :=
  Machine.run_append _ ops [op]

theorem backed_run (θ : ℚ≥0) (expiry : Nat) (ops : List Op) :
    Backed θ (offered ops) (run θ expiry ops) := by
  induction ops using List.reverseRecOn with
  | nil =>
    refine ⟨⟨fun h => List.nodup_nil, fun h v hv => absurd hv List.not_mem_nil⟩, rfl, ?_⟩
    intro h row hrow
    cases (Finmap.lookup_empty _).symm.trans hrow
  | append_singleton ops op ih =>
    rw [run_snoc, offered, List.flatMap_append, List.flatMap_singleton]
    exact ih.step op

/-- The operation moves the last finalized height up to `h`. -/
def Raises (g : FinalityGadget) (op : Op) (h : Nat) : Prop :=
  g.core.lastFinalized < h ∧ (step g op).core.lastFinalized = h

/-- A check that moves the height up has the threshold behind it. -/
theorem FinalityCore.reached_of_raised {c : FinalityCore} {blockHeight h : Nat}
    (hlow : c.lastFinalized < h) (hraised : (c.checkFinality blockHeight).2.lastFinalized = h) :
    h = blockHeight ∧ c.checkFinality blockHeight = (true, { c with lastFinalized := h }) ∧
      0 < c.totalStake ∧ c.threshold ≤ (c.calculateVoteWeight h).1 / c.totalStake := by
  have hchecked := checkFinality_checked c blockHeight
  generalize c.checkFinality blockHeight = r at hchecked hraised
  cases hchecked with
  | past _ => exact absurd hraised hlow.ne
  | short => exact absurd hraised hlow.ne
  | raised hlow staked reached =>
    cases hraised
    exact ⟨rfl, rfl, staked, reached⟩

theorem lastFinalized_submitVote (g : FinalityGadget) (voter : String) (blockHeight : Nat)
    (blockHash : String) :
    (g.submitVote voter blockHeight blockHash).core.lastFinalized = g.core.lastFinalized ∨
      (g.submitVote voter blockHeight blockHash).core =
        ((g.core.recordVote voter blockHeight blockHash).2.checkFinality blockHeight).2 := by
  have hsubmitted := submitVote_submitted g voter blockHeight blockHash
  generalize g.submitVote voter blockHeight blockHash = g' at hsubmitted
  cases hsubmitted with
  | refused => exact .inl rfl
  | waiting checked => exact .inr (by rw [checked])
  | finalized hash checked => exact .inr (by rw [checked, core_persistCheckpoint])

theorem Raises.reached (hraises : Raises g op h) :
    0 < (checking g op).totalStake ∧
      (checking g op).threshold ≤
        ((checking g op).calculateVoteWeight h).1 / (checking g op).totalStake := by
  obtain ⟨hlow, hraised⟩ := hraises
  cases op with
  | addValidator address stake => exact absurd hraised hlow.ne
  | removeValidator address => exact absurd hraised hlow.ne
  | recordVote voter blockHeight blockHash =>
    exact absurd ((lastFinalized_recordVote _ _ _ _).symm.trans hraised) hlow.ne
  | pruneVotes currentHeight =>
    exact absurd ((lastFinalized_pruneVotes _ _).symm.trans hraised) hlow.ne
  | checkFinality blockHeight =>
    obtain ⟨_, _, hstaked, hreached⟩ := FinalityCore.reached_of_raised hlow hraised
    exact ⟨hstaked, hreached⟩
  | submitVote voter blockHeight blockHash =>
    change (g.submitVote voter blockHeight blockHash).core.lastFinalized = h at hraised
    cases lastFinalized_submitVote g voter blockHeight blockHash with
    | inl hsame => exact absurd (hsame.symm.trans hraised) hlow.ne
    | inr hcore =>
      rw [hcore] at hraised
      rw [← lastFinalized_recordVote g.core voter blockHeight blockHash] at hlow
      obtain ⟨_, _, hstaked, hreached⟩ := FinalityCore.reached_of_raised hlow hraised
      exact ⟨hstaked, hreached⟩

/-- The votes for a height all name one hash. -/
def OneHash (vs : List Vote) : Prop :=
  ∀ v ∈ vs, ∀ w ∈ vs, v.blockHeight = w.blockHeight → v.blockHash = w.blockHash

/-- The run finalizes the height, with a quorum for this hash. -/
def Finalizes (θ : ℚ≥0) (expiry : Nat) (ops : List Op) (h : Nat) (blockHash : String) : Prop :=
  ∃ before op, before ++ [op] <+: ops ∧ Raises (run θ expiry before) op h ∧
    (checking (run θ expiry before) op).Quorum h blockHash

theorem Backed.checking {offered : List Vote} (hb : Backed θ offered g) (op : Op) :
    (checking g op).Tidy (offered ++ op.vote) ∧ (checking g op).threshold = θ := by
  have hold := hb.tidy.mono (List.subset_append_left offered op.vote)
  cases op with
  | submitVote voter blockHeight blockHash =>
    exact ⟨hb.tidy.recordVote voter blockHeight blockHash,
      (threshold_recordVote _ _ _ _).trans hb.threshold⟩
  | _ => exact ⟨hold, hb.threshold⟩

theorem offered_snoc (ops : List Op) (op : Op) :
    offered (ops ++ [op]) = offered ops ++ op.vote := by
  simp [offered]

theorem offered_subset {ops ops' : List Op} (hle : ops <+: ops') :
    offered ops ⊆ offered ops' := by
  obtain ⟨more, rfl⟩ := hle
  simp [offered]

theorem Finalizes.exists_vote {expiry : Nat} {blockHash : String} (hpos : 0 < θ)
    (hfinal : Finalizes θ expiry ops h blockHash) :
    ∃ v ∈ offered ops, v.blockHeight = h ∧ v.blockHash = blockHash := by
  obtain ⟨before, op, hle, _, hquorum⟩ := hfinal
  obtain ⟨htidy, hθ⟩ := (backed_run θ expiry before).checking op
  obtain ⟨v, hv, hhash⟩ := hquorum.exists_vote (hpos.trans_eq hθ.symm)
  obtain ⟨hheight, hoffered⟩ := htidy.filed h v hv
  rw [← offered_snoc] at hoffered
  exact ⟨v, offered_subset hle hoffered, hheight, hhash⟩

/-- Finality is for one block: a raise has a quorum for a single hash, gadgets that are
offered the same votes agree on it, and the checkpoint names it. -/
structure FinalizesOne (θ : ℚ≥0) (expiry : Nat) (ops : List Op) : Prop where
  single : ∀ before op h, before ++ [op] <+: ops → Raises (run θ expiry before) op h →
    ∃! blockHash, (checking (run θ expiry before) op).Quorum h blockHash
  agreement : ∀ expiry' ops', (offered ops').Perm (offered ops) → ∀ h blockHash blockHash',
    Finalizes θ expiry ops h blockHash → Finalizes θ expiry' ops' h blockHash' →
      blockHash = blockHash'
  recorded : ∀ before voter h blockHash, before ++ [.submitVote voter h blockHash] <+: ops →
    Raises (run θ expiry before) (.submitVote voter h blockHash) h →
      h ∈ (run θ expiry (before ++ [.submitVote voter h blockHash])).checkpoints
  checkpoint : ∀ h blockHash row, Finalizes θ expiry ops h blockHash →
    (run θ expiry ops).checkpoints.lookup h = some row → row.blockHash = blockHash

variable {expiry : Nat}

theorem exists_quorum (hone : OneHash (offered ops)) (hpos : 0 < θ) {before : List Op}
    (hle : before ++ [op] <+: ops) (hraises : Raises (run θ expiry before) op h) :
    ∃ blockHash, (checking (run θ expiry before) op).Quorum h blockHash := by
  obtain ⟨htidy, hθ⟩ := (backed_run θ expiry before).checking op
  obtain ⟨hstaked, hreached⟩ := hraises.reached
  rw [← offered_snoc] at htidy
  have hfiled : ∀ v ∈ (checking (run θ expiry before) op).heightVotes h,
      v.blockHeight = h ∧ v ∈ offered ops := by
    intro v hv
    obtain ⟨hheight, hoffered⟩ := htidy.filed h v hv
    exact ⟨hheight, offered_subset hle hoffered⟩
  cases hvotes : (checking (run θ expiry before) op).heightVotes h with
  | nil =>
    -- Without a vote the weight is zero, below any positive threshold.
    rw [calculateVoteWeight_eq, hvotes, hθ] at hreached
    simp only [List.map_nil, Weights.weight_nil, zero_div] at hreached
    exact absurd (hpos.trans_le hreached) (lt_irrefl 0)
  | cons first rest =>
    have hfirst : first ∈ (checking (run θ expiry before) op).heightVotes h := by simp [hvotes]
    refine ⟨first.blockHash, .of_unanimous hstaked hreached ?_⟩
    intro v hv
    exact hone v (hfiled v hv).2 first (hfiled first hfirst).2
      ((hfiled v hv).1.trans (hfiled first hfirst).1.symm)

theorem mem_persistCheckpoint (g : FinalityGadget) (blockHeight : Nat) (row : Checkpoint) :
    blockHeight ∈ (g.persistCheckpoint blockHeight row).checkpoints := by
  unfold FinalityGadget.persistCheckpoint
  split
  · next h => exact h
  · exact Finmap.mem_insert.mpr (.inl rfl)

theorem mem_checkpoints_of_raises {voter blockHash : String}
    (hraises : Raises g (.submitVote voter h blockHash) h) :
    h ∈ (step g (.submitVote voter h blockHash)).checkpoints := by
  obtain ⟨hlow, hraised⟩ := hraises
  change (g.submitVote voter h blockHash).core.lastFinalized = h at hraised
  change h ∈ (g.submitVote voter h blockHash).checkpoints
  rw [← lastFinalized_recordVote g.core voter h blockHash] at hlow
  have hsubmitted := submitVote_submitted g voter h blockHash
  generalize g.submitVote voter h blockHash = g' at hsubmitted hraised
  cases hsubmitted with
  | refused =>
    rw [lastFinalized_recordVote] at hlow
    exact absurd hraised hlow.ne
  | waiting checked =>
    have hcheck := FinalityCore.reached_of_raised hlow (by rw [checked]; exact hraised)
    rw [checked] at hcheck
    cases hcheck.2.1
  | finalized hash checked => exact mem_persistCheckpoint _ _ _

theorem finality_one_hash (θ : ℚ≥0) (expiry : Nat) (ops : List Op) (hhalf : 1 / 2 < θ)
    (hone : OneHash (offered ops)) : FinalizesOne θ expiry ops where
  single before op h hle hraises := by
    obtain ⟨htidy, hθ⟩ := (backed_run θ expiry before).checking op
    obtain ⟨blockHash, hquorum⟩ := exists_quorum hone (one_half_pos.trans hhalf) hle hraises
    refine ⟨blockHash, hquorum, ?_⟩
    intro other hother
    exact hother.unique htidy (hhalf.trans_eq hθ.symm) hquorum
  agreement expiry' ops' hperm h blockHash blockHash' hfinal hfinal' := by
    have hpos : 0 < θ := one_half_pos.trans hhalf
    obtain ⟨v, hv, hheight, rfl⟩ := hfinal.exists_vote hpos
    obtain ⟨w, hw, hheight', rfl⟩ := hfinal'.exists_vote hpos
    exact hone v hv w (hperm.mem_iff.mp hw) (hheight.trans hheight'.symm)
  recorded before voter h blockHash hle hraises := by
    rw [run_snoc]
    exact mem_checkpoints_of_raises hraises
  checkpoint h blockHash row hfinal hrow := by
    obtain ⟨v, hv, hheight, rfl⟩ := hfinal.exists_vote (one_half_pos.trans hhalf)
    obtain ⟨w, hw, hheight', hhash⟩ := (backed_run θ expiry ops).checkpoints h row hrow
    rw [← hhash]
    exact hone w hw v hv (hheight'.trans hheight.symm)

/-- Two validators of equal stake that vote for different blocks. -/
def splitVote : List Op :=
  [.addValidator "v1" 100, .addValidator "v2" 100, .submitVote "v1" 10 "a"]

/-- The second vote finalizes the height, though neither hash has two thirds; the checkpoint
names whichever hash came last. -/
theorem splitVote_finalizes :
    Raises (run (667 / 1000) 1000 splitVote) (.submitVote "v2" 10 "b") 10 ∧
      (¬ ∃ blockHash, (checking (run (667 / 1000) 1000 splitVote)
        (.submitVote "v2" 10 "b")).Quorum 10 blockHash) ∧
      ((run (667 / 1000) 1000 (splitVote ++ [.submitVote "v2" 10 "b"])).checkpoints.lookup
        10).map Checkpoint.blockHash = some "b" ∧
      ((run (667 / 1000) 1000 [.addValidator "v1" 100, .addValidator "v2" 100,
        .submitVote "v2" 10 "b", .submitVote "v1" 10 "a"]).checkpoints.lookup
        10).map Checkpoint.blockHash = some "a" := by
  refine ⟨?_, ?_, by decide +kernel, by decide +kernel⟩
  · constructor
    · decide +kernel
    · decide +kernel
  · rintro ⟨blockHash, hquorum⟩
    obtain ⟨v, hv, rfl⟩ := hquorum.exists_vote (by decide +kernel)
    have hvotes : (checking (run (667 / 1000) 1000 splitVote)
        (.submitVote "v2" 10 "b")).heightVotes 10 = [⟨"v1", 10, "a"⟩, ⟨"v2", 10, "b"⟩] := by
      decide +kernel
    have hreached := hquorum.reached
    rw [hvotes] at hv
    simp only [List.mem_cons, List.not_mem_nil, or_false] at hv
    cases hv with
    | inl hv =>
      rw [hv] at hreached
      revert hreached
      decide +kernel
    | inr hv =>
      rw [hv] at hreached
      revert hreached
      decide +kernel

/-- Three validators that vote for one block. -/
def unanimousVote : List Op :=
  [.addValidator "v1" 100, .addValidator "v2" 100, .addValidator "v3" 100,
    .submitVote "v1" 10 "a", .submitVote "v3" 10 "a", .submitVote "v2" 10 "a"]

theorem finality_one_hash_unanimous : FinalizesOne (667 / 1000) 1000 unanimousVote :=
  finality_one_hash _ _ _ (by decide +kernel) (by unfold OneHash; decide +kernel)

end Qubitcoin.Finality
