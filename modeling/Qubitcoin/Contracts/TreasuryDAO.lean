import Qubitcoin.Contracts.QUSDGovernance
import Qubitcoin.Contracts.Voting

/-! The community treasury: proposals, and votes weighed by what the voter holds at the time. -/

namespace Qubitcoin.Contracts

open Solidity Checked
open Evm (Address)

inductive ProposalStatus
  | active
  | passed
  | rejected
  | executed
  | canceled
  deriving DecidableEq

structure TreasuryProposal where
  id : Nat := 0
  proposer : Address := 0
  description : String := ""
  recipient : Address := 0
  amount : Nat := 0
  votesFor : Nat := 0
  votesAgainst : Nat := 0
  endTime : Nat := 0
  executeAfter : Nat := 0
  status : ProposalStatus := .active

def TreasuryProposal.cast (self : TreasuryProposal) (support : Bool) (weight : Nat) :
    Except String TreasuryProposal :=
  if support then do
    let votesFor ← add self.votesFor weight
    .ok { self with votesFor := votesFor }
  else do
    let votesAgainst ← add self.votesAgainst weight
    .ok { self with votesAgainst := votesAgainst }

/-- The treasury with its token, and the time of the block. -/
structure TreasuryDAO where
  owner : Address
  qbc : QBC20
  quorum : Nat := 100 * 10 ^ 18
  treasuryBalance : Nat := 0
  proposalCount : Nat := 0
  proposals : StorageMap Nat TreasuryProposal := ∅
  hasVoted : StorageMap (Nat × Address) Bool := ∅
  voteWeightUsed : Ledger (Nat × Address) := ∅
  timestamp : Nat

namespace TreasuryDAO

def votingPeriod : Nat := 5 * 86400
def executionDelay : Nat := 24 * 3600

def initial (sender : Address) (qbc : QBC20) (timestamp : Nat) : TreasuryDAO where
  owner := sender
  qbc := qbc
  timestamp := timestamp

variable (this : Address) (self : TreasuryDAO)

def proposal (p : Nat) : TreasuryProposal := self.proposals.value {} p

def voted (p : Nat) (a : Address) : Bool := self.hasVoted.value false (p, a)

def setProposal (p : Nat) (prop : TreasuryProposal) : TreasuryDAO :=
  { self with proposals := self.proposals.insert p prop }

def deposit (sender : Address) (amount : Nat) : Except String TreasuryDAO := do
  ensure (0 < amount) "Treasury: zero amount"
  let qbc ← self.qbc.call this (.transferFrom sender this amount)
  let treasuryBalance ← add self.treasuryBalance amount
  .ok { self with qbc := qbc, treasuryBalance := treasuryBalance }

def createProposal (sender : Address) (description : String) (recipient : Address) (amount : Nat) :
    Except String TreasuryDAO := do
  ensure (self.quorum / 10 ≤ self.qbc.balanceOf sender) "Treasury: below min proposal balance"
  ensure (amount ≤ self.treasuryBalance) "Treasury: insufficient funds"
  ensure (recipient ≠ 0) "Treasury: zero recipient"
  let proposalId ← add self.proposalCount 1
  let endTime ← add self.timestamp votingPeriod
  .ok { self.setProposal proposalId
          { id := proposalId
            proposer := sender
            description := description
            recipient := recipient
            amount := amount
            endTime := endTime } with
    proposalCount := proposalId }

def vote (sender : Address) (proposalId : Nat) (support : Bool) (weight : Nat) :
    Except String TreasuryDAO := do
  let p := self.proposal proposalId
  ensure (p.status = .active) "Treasury: not active"
  ensure (self.timestamp ≤ p.endTime) "Treasury: voting ended"
  ensure (self.voted proposalId sender = false) "Treasury: already voted"
  let voterBalance := self.qbc.balanceOf sender
  ensure (weight ≤ voterBalance) "Treasury: weight exceeds balance"
  let cast ← p.cast support weight
  .ok { self.setProposal proposalId cast with
    hasVoted := self.hasVoted.insert (proposalId, sender) true
    voteWeightUsed := self.voteWeightUsed.set (proposalId, sender) voterBalance }

def finalize (proposalId : Nat) : Except String TreasuryDAO := do
  let p := self.proposal proposalId
  ensure (p.status = .active) "Treasury: not active"
  ensure (p.endTime < self.timestamp) "Treasury: voting ongoing"
  let totalVotes ← add p.votesFor p.votesAgainst
  ensure (self.quorum ≤ totalVotes) "Treasury: quorum not reached"
  if p.votesAgainst < p.votesFor then do
    let executeAfter ← add self.timestamp executionDelay
    .ok (self.setProposal proposalId { p with status := .passed, executeAfter := executeAfter })
  else .ok (self.setProposal proposalId { p with status := .rejected })

def execute (sender : Address) (proposalId : Nat) : Except String TreasuryDAO := do
  let p := self.proposal proposalId
  ensure (sender = p.proposer ∨ sender = self.owner) "Treasury: not authorized"
  ensure (p.status = .passed) "Treasury: not passed"
  ensure (p.executeAfter ≤ self.timestamp) "Treasury: delay not met"
  ensure (p.amount ≤ self.treasuryBalance) "Treasury: insufficient funds"
  let treasuryBalance ← sub self.treasuryBalance p.amount
  let qbc ← self.qbc.call this (.transfer p.recipient p.amount)
  .ok { self.setProposal proposalId { p with status := .executed } with
    treasuryBalance := treasuryBalance
    qbc := qbc }

def setQuorum (sender : Address) (newQuorum : Nat) : Except String TreasuryDAO := do
  ensure (sender = self.owner) "Treasury: not owner"
  .ok { self with quorum := newQuorum }

/-- The calls to the treasury and to the token, and the time that passes between blocks. -/
inductive Call
  | deposit (sender : Address) (amount : Nat)
  | createProposal (sender : Address) (description : String) (recipient : Address) (amount : Nat)
  | vote (sender : Address) (proposalId : Nat) (support : Bool) (weight : Nat)
  | finalize (proposalId : Nat)
  | execute (sender : Address) (proposalId : Nat)
  | setQuorum (sender : Address) (newQuorum : Nat)
  | qbc (sender : Address) (c : QBC20.Call)
  | wait (seconds : Nat)

def call (self : TreasuryDAO) : Call → Except String TreasuryDAO
  | .deposit sender amount => self.deposit this sender amount
  | .createProposal sender description recipient amount =>
    self.createProposal sender description recipient amount
  | .vote sender proposalId support weight => self.vote sender proposalId support weight
  | .finalize proposalId => self.finalize proposalId
  | .execute sender proposalId => self.execute this sender proposalId
  | .setQuorum sender newQuorum => self.setQuorum sender newQuorum
  | .qbc sender c => do
    let qbc ← self.qbc.call sender c
    .ok { self with qbc := qbc }
  | .wait seconds => .ok { self with timestamp := self.timestamp + seconds }

def votes (p : Nat) : Nat := (self.proposal p).votesFor + (self.proposal p).votesAgainst

/-- Votes are taken. -/
def Open (p : Nat) : Prop :=
  (self.proposal p).status = .active ∧ self.timestamp ≤ (self.proposal p).endTime

instance (p : Nat) : Decidable (self.Open p) := inferInstanceAs (Decidable (_ ∧ _))

/-- The calls with what is counted. -/
def tallied (this : Address) (self : Tally TreasuryDAO) (c : Call) :
    Except String (Tally TreasuryDAO) := do
  let contract ← call this self.contract c
  let next := { self with contract := contract }
  match c with
  | .createProposal .. => .ok (next.propose contract.proposalCount contract.qbc.totalSupply)
  | .vote sender proposalId _ weight =>
    .ok (next.count proposalId fun a => if a = sender then weight else 0)
  | _ => .ok next

/-- Every open ballot puts up with a call of the token. -/
def Undisturbed (self : Tally TreasuryDAO) (sender : Address) (c : QBC20.Call) : Prop :=
  ∀ p, p ≤ self.contract.proposalCount →
    Calm (self.contract.Open p) (self.counted p) self.contract.qbc sender c

instance (self : Tally TreasuryDAO) (sender : Address) (c : QBC20.Call) :
    Decidable (Undisturbed self sender c) :=
  inferInstanceAs (Decidable (∀ p, p ≤ self.contract.proposalCount → _))

/-- No call takes tokens that an open ballot has counted. -/
def Steady (this : Address) (self : Tally TreasuryDAO) : Call → Prop
  | .deposit sender amount => Undisturbed self this (.transferFrom sender this amount)
  | .execute _ proposalId =>
    Undisturbed self this (.transfer (self.contract.proposal proposalId).recipient
      (self.contract.proposal proposalId).amount)
  | .qbc sender c => Undisturbed self sender c
  | _ => True

instance (this : Address) (self : Tally TreasuryDAO) : (c : Call) → Decidable (Steady this self c)
  | .deposit .. | .execute .. | .qbc .. => inferInstanceAs (Decidable (Undisturbed self _ _))
  | .createProposal .. | .vote .. | .finalize .. | .setQuorum .. | .wait .. => .isTrue trivial

structure Sound (w : Tally TreasuryDAO) : Prop where
  total : w.contract.qbc.balances.total = w.contract.qbc.totalSupply
  ballot : ∀ p, 1 ≤ p → p ≤ w.contract.proposalCount →
    Ballot (w.contract.votes p) (w.supplyAt p) (w.counted p) (w.contract.Open p) w.contract.qbc
  once : ∀ p a, w.contract.voted p a = false → w.counted p a = 0

variable {this self} {s t : TreasuryDAO} {w w' : Tally TreasuryDAO} {sender : Address} {p : Nat}

theorem cast_eq_ok {r r' : TreasuryProposal} {support : Bool} {weight : Nat}
    (h : r.cast support weight = .ok r') :
    r'.votesFor + r'.votesAgainst = r.votesFor + r.votesAgainst + weight ∧
      r'.status = r.status ∧ r'.endTime = r.endTime := by
  unfold TreasuryProposal.cast at h
  split at h
  · rw [add_bind_eq_ok] at h
    cases h.2
    exact ⟨Nat.add_right_comm _ _ _, rfl, rfl⟩
  · rw [add_bind_eq_ok] at h
    cases h.2
    exact ⟨(Nat.add_assoc _ _ _).symm, rfl, rfl⟩

theorem proposal_of_insert {prop : TreasuryProposal} (h : t.proposals = s.proposals.insert p prop)
    (q : Nat) : t.proposal q = if q = p then prop else s.proposal q := by
  rw [proposal, h, StorageMap.value_insert_eq]
  rfl

theorem createProposal_eq_ok {description : String} {recipient : Address} {amount : Nat}
    (h : s.createProposal sender description recipient amount = .ok t) :
    t.proposalCount = s.proposalCount + 1 ∧ t.qbc = s.qbc ∧ t.hasVoted = s.hasVoted ∧
      t.timestamp = s.timestamp ∧
      ∃ prop : TreasuryProposal, t.proposals = s.proposals.insert (s.proposalCount + 1) prop ∧
        prop.votesFor + prop.votesAgainst = 0 := by
  simp only [createProposal, ensure_bind_eq_ok, add_bind_eq_ok] at h
  obtain ⟨-, -, -, -, -, h⟩ := h
  cases h
  exact ⟨rfl, rfl, rfl, rfl, _, rfl, rfl⟩

theorem vote_eq_ok {support : Bool} {weight : Nat} (h : s.vote sender p support weight = .ok t) :
    s.Open p ∧ s.voted p sender = false ∧ weight ≤ s.qbc.balanceOf sender ∧
      t.proposalCount = s.proposalCount ∧ t.qbc = s.qbc ∧
      t.hasVoted = s.hasVoted.insert (p, sender) true ∧ t.timestamp = s.timestamp ∧
      ∃ prop : TreasuryProposal, t.proposals = s.proposals.insert p prop ∧
        prop.votesFor + prop.votesAgainst = s.votes p + weight ∧
        prop.status = (s.proposal p).status ∧ prop.endTime = (s.proposal p).endTime := by
  simp only [vote, ensure_bind_eq_ok] at h
  obtain ⟨hactive, htime, hnew, hweight, h⟩ := h
  rw [bind_eq_ok] at h
  obtain ⟨prop, hcast, h⟩ := h
  cases h
  exact ⟨⟨hactive, htime⟩, hnew, hweight, rfl, rfl, rfl, rfl, prop, rfl, cast_eq_ok hcast⟩

theorem finalize_eq_ok (h : s.finalize p = .ok t) :
    ∃ prop : TreasuryProposal, t = s.setProposal p prop ∧ prop.status ≠ .active ∧
      prop.votesFor = (s.proposal p).votesFor ∧ prop.votesAgainst = (s.proposal p).votesAgainst := by
  simp only [finalize, ensure_bind_eq_ok, add_bind_eq_ok] at h
  obtain ⟨-, -, -, -, h⟩ := h
  split at h
  · rw [add_bind_eq_ok] at h
    cases h.2
    exact ⟨_, rfl, (fun h => by cases h), rfl, rfl⟩
  · cases h
    exact ⟨_, rfl, (fun h => by cases h), rfl, rfl⟩

theorem execute_eq_ok (h : s.execute this sender p = .ok t) :
    ∃ qbc, s.qbc.call this (.transfer (s.proposal p).recipient (s.proposal p).amount) = .ok qbc ∧
      ∃ prop : TreasuryProposal, t.proposals = s.proposals.insert p prop ∧ prop.status ≠ .active ∧
        prop.votesFor = (s.proposal p).votesFor ∧
        prop.votesAgainst = (s.proposal p).votesAgainst ∧
        t.proposalCount = s.proposalCount ∧ t.qbc = qbc ∧ t.hasVoted = s.hasVoted ∧
        t.timestamp = s.timestamp := by
  simp only [execute, ensure_bind_eq_ok, sub_bind_eq_ok] at h
  obtain ⟨-, -, -, -, -, h⟩ := h
  rw [bind_eq_ok] at h
  obtain ⟨qbc, hqbc, h⟩ := h
  cases h
  exact ⟨qbc, hqbc, _, rfl, (fun h => by cases h), rfl, rfl, rfl, rfl, rfl, rfl⟩

theorem deposit_eq_ok {amount : Nat} (h : s.deposit this sender amount = .ok t) :
    ∃ qbc, s.qbc.call this (.transferFrom sender this amount) = .ok qbc ∧
      ∃ treasuryBalance, t = { s with qbc := qbc, treasuryBalance := treasuryBalance } := by
  simp only [deposit, ensure_bind_eq_ok] at h
  obtain ⟨-, h⟩ := h
  rw [bind_eq_ok] at h
  obtain ⟨qbc, hqbc, h⟩ := h
  rw [add_bind_eq_ok] at h
  cases h.2
  exact ⟨qbc, hqbc, _, rfl⟩

/-- No vote is cast, and no ballot opens. -/
theorem Sound.revise (h : Sound w) (hcount : t.proposalCount = w.contract.proposalCount)
    (hqbc : t.qbc = w.contract.qbc) (hvoted : t.hasVoted = w.contract.hasVoted)
    (hvotes : ∀ q, t.votes q = w.contract.votes q) (hopen : ∀ q, t.Open q → w.contract.Open q) :
    Sound { w with contract := t } where
  total := by
    rw [hqbc]
    exact h.total
  ballot q hpos hle := by
    rw [hqbc, hvotes]
    exact (h.ballot q hpos (hcount ▸ hle)).close (hopen q)
  once q a ha := by
    refine h.once q a ?_
    rw [voted, ← hvoted]
    exact ha

theorem Sound.token {c : QBC20.Call} {qbc : QBC20} (h : Sound w)
    (hcalm : Undisturbed w sender c) (hcall : w.contract.qbc.call sender c = .ok qbc) :
    Sound { w with contract := { w.contract with qbc := qbc } } where
  total := QBC20.call_supply h.total hcall
  ballot q hpos hle := (h.ballot q hpos hle).call (hcalm q hle) hcall
  once := h.once

/-- An entry that is not open takes the place of one with the same votes. -/
theorem votes_open_of_insert {prop : TreasuryProposal}
    (h : t.proposals = s.proposals.insert p prop) (hclosed : prop.status ≠ .active)
    (hfor : prop.votesFor = (s.proposal p).votesFor)
    (hagainst : prop.votesAgainst = (s.proposal p).votesAgainst)
    (htime : t.timestamp = s.timestamp) :
    (∀ q, t.votes q = s.votes q) ∧ ∀ q, t.Open q → s.Open q := by
  refine ⟨?_, ?_⟩
  · intro q
    rw [votes, votes, proposal_of_insert h]
    split
    · next heq => rw [heq, hfor, hagainst]
    · rfl
  · intro q
    rw [Open, Open, proposal_of_insert h, htime]
    split
    · rintro ⟨hactive, -⟩
      exact absurd hactive hclosed
    · exact id

theorem Sound.propose {description : String} {recipient : Address} {amount : Nat} (h : Sound w)
    (hcall : w.contract.createProposal sender description recipient amount = .ok t) :
    Sound ({ w with contract := t }.propose t.proposalCount t.qbc.totalSupply) := by
  obtain ⟨hcount, hqbc, hvoted, htime, prop, hprop, hnone⟩ := createProposal_eq_ok hcall
  refine ⟨?_, ?_, ?_⟩
  · change t.qbc.balances.total = t.qbc.totalSupply
    rw [hqbc]
    exact h.total
  · intro q hpos hle
    change q ≤ t.proposalCount at hle
    change Ballot (t.votes q) (Function.update w.supplyAt t.proposalCount t.qbc.totalSupply q)
      (Function.update w.counted t.proposalCount (fun _ => 0) q) (t.Open q) t.qbc
    rw [votes, Open, proposal_of_insert hprop, htime]
    by_cases hq : q = t.proposalCount
    · rw [hq, Function.update_self, Function.update_self, if_pos hcount, hnone]
      exact Ballot.fresh t.qbc
    · rw [Function.update_of_ne hq, Function.update_of_ne hq, if_neg (hcount ▸ hq), hqbc]
      exact h.ballot q hpos (by omega)
  · intro q a ha
    change Function.update w.counted t.proposalCount (fun _ => 0) q a = 0
    by_cases hq : q = t.proposalCount
    · rw [hq, Function.update_self]
    · rw [Function.update_of_ne hq]
      refine h.once q a ?_
      rw [voted, ← hvoted]
      exact ha

theorem Sound.vote {support : Bool} {weight : Nat} (h : Sound w)
    (hcall : w.contract.vote sender p support weight = .ok t) :
    Sound ({ w with contract := t }.count p fun a => if a = sender then weight else 0) := by
  obtain ⟨hopen, hnew, hweight, hcount, hqbc, hvoted, htime, prop, hprop, hvotes, hstatus, hend⟩ :=
    vote_eq_ok hcall
  refine ⟨?_, ?_, ?_⟩
  · change t.qbc.balances.total = t.qbc.totalSupply
    rw [hqbc]
    exact h.total
  · intro q hpos hle
    change q ≤ t.proposalCount at hle
    rw [hcount] at hle
    have hballot := h.ballot q hpos hle
    change Ballot (t.votes q) (w.supplyAt q) (Function.update w.counted p _ q) (t.Open q) t.qbc
    rw [votes, Open, proposal_of_insert hprop, htime, hqbc]
    by_cases hq : q = p
    · subst hq
      rw [Function.update_self, if_pos rfl, hvotes, hstatus, hend]
      refine hballot.vote hopen h.total ?_ ?_
      · simp
      · intro a
        split
        · next heq =>
          rw [heq, h.once q sender hnew, Nat.zero_add]
          exact hweight
        · exact hballot.backed hopen a
    · rw [Function.update_of_ne hq, if_neg hq]
      exact hballot
  · intro q a ha
    change t.hasVoted.value false (q, a) = false at ha
    rw [hvoted, StorageMap.value_insert_eq] at ha
    split at ha
    · cases ha
    · next hne =>
      change Function.update w.counted p _ q a = 0
      by_cases hq : q = p
      · subst hq
        have ha' : a ≠ sender := fun heq => hne (by rw [heq])
        rw [Function.update_self]
        dsimp only
        rw [if_neg ha', Nat.add_zero]
        exact h.once q a ha
      · rw [Function.update_of_ne hq]
        exact h.once q a ha

theorem tallied_sound {c : Call} (h : Sound w) (hsteady : Steady this w c)
    (hcall : tallied this w c = .ok w') : Sound w' := by
  rw [tallied, bind_eq_ok] at hcall
  obtain ⟨t, ht, hcall⟩ := hcall
  cases c with
  | deposit sender amount =>
    cases hcall
    obtain ⟨qbc, hqbc, treasuryBalance, rfl⟩ := deposit_eq_ok ht
    exact (h.token hsteady hqbc).revise rfl rfl rfl (fun _ => rfl) fun _ => id
  | createProposal sender description recipient amount =>
    cases hcall
    exact h.propose ht
  | vote sender proposalId support weight =>
    cases hcall
    exact h.vote ht
  | finalize proposalId =>
    cases hcall
    obtain ⟨prop, rfl, hclosed, hfor, hagainst⟩ := finalize_eq_ok ht
    obtain ⟨hvotes, hopen⟩ := votes_open_of_insert (t := w.contract.setProposal proposalId prop) rfl
      hclosed hfor hagainst rfl
    exact h.revise rfl rfl rfl hvotes hopen
  | execute sender proposalId =>
    cases hcall
    obtain ⟨qbc, hqbc, prop, hprop, hclosed, hfor, hagainst, hcount, hq, hvoted, htime⟩ :=
      execute_eq_ok ht
    obtain ⟨hvotes, hopen⟩ := votes_open_of_insert hprop hclosed hfor hagainst htime
    exact (h.token hsteady hqbc).revise hcount hq hvoted hvotes hopen
  | setQuorum sender newQuorum =>
    cases hcall
    cases (ensure_bind_eq_ok.mp ht).2
    exact h.revise rfl rfl rfl (fun _ => rfl) fun _ => id
  | qbc sender c =>
    cases hcall
    rw [call, bind_eq_ok] at ht
    obtain ⟨qbc, hqbc, ht⟩ := ht
    cases ht
    exact h.token hsteady hqbc
  | wait seconds =>
    cases hcall
    cases ht
    refine h.revise rfl rfl rfl (fun _ => rfl) ?_
    rintro q ⟨hactive, htime⟩
    exact ⟨hactive, (Nat.le_add_right _ _).trans htime⟩

/-- The treasury and the token as deployed. -/
def deployed (sender tokenOwner : Address) (supply timestamp : Nat) : Tally TreasuryDAO where
  contract := initial sender (.initial tokenOwner supply) timestamp

theorem deployed_sound (sender tokenOwner : Address) (supply timestamp : Nat) :
    Sound (deployed sender tokenOwner supply timestamp) where
  total := QBC20.initial_supply tokenOwner supply
  ballot p hpos hle := absurd (hpos.trans hle) (Nat.not_succ_le_zero 0)
  once _ _ _ := rfl

/-- No proposal has more votes than there were tokens when it was made. -/
def Bounded (self : Tally TreasuryDAO) : Prop :=
  ∀ p, p ≤ self.contract.proposalCount → 1 ≤ p → self.contract.votes p ≤ self.supplyAt p

instance (self : Tally TreasuryDAO) : Decidable (Bounded self) :=
  inferInstanceAs (Decidable (∀ p, p ≤ self.contract.proposalCount → _))

theorem Sound.isBounded (h : Sound w) : Bounded w :=
  fun p hle hpos => (h.ballot p hpos hle).bounded

end TreasuryDAO

end Qubitcoin.Contracts

/-! What the ballots of both contracts add up to. -/

namespace Qubitcoin.Contracts

open Solidity
open Evm (Address)

/-- Where nothing is counted that is not there, and nothing that is counted leaves before the
ballot closes, the votes stay within the supply. -/
theorem votes_le_supply (this sender tokenOwner : Address)
    (supply minBalance threshold timestamp : Nat) (governed : List QUSDGovernance.Call)
    (granted : List TreasuryDAO.Call) :
    (Guarded QUSDGovernance.tallied QUSDGovernance.Steady
        (QUSDGovernance.deployed sender tokenOwner supply minBalance threshold timestamp) governed →
      QUSDGovernance.Bounded (run QUSDGovernance.tallied
        (QUSDGovernance.deployed sender tokenOwner supply minBalance threshold timestamp)
        governed)) ∧
    (Guarded (TreasuryDAO.tallied this) (TreasuryDAO.Steady this)
        (TreasuryDAO.deployed sender tokenOwner supply timestamp) granted →
      TreasuryDAO.Bounded (run (TreasuryDAO.tallied this)
        (TreasuryDAO.deployed sender tokenOwner supply timestamp) granted)) := by
  constructor
  · intro hsteady
    have hstart : QUSDGovernance.Sound
        (QUSDGovernance.deployed sender tokenOwner supply minBalance threshold timestamp) :=
      QUSDGovernance.deployed_sound _ _ _ _ _ _
    exact (run_guarded (fun _ _ _ h hsteady hcall => QUSDGovernance.tallied_sound h hsteady hcall)
      hstart hsteady).isBounded
  · intro hsteady
    have hstart : TreasuryDAO.Sound (TreasuryDAO.deployed sender tokenOwner supply timestamp) :=
      TreasuryDAO.deployed_sound _ _ _ _
    exact (run_guarded (fun _ _ _ h hsteady hcall => TreasuryDAO.tallied_sound h hsteady hcall)
      hstart hsteady).isBounded

namespace Sample

/-- The second holder has delegated to the first, who votes for both. -/
def governed : List QUSDGovernance.Call :=
  [.qbc 1 (.transfer 2 40), .createProposal 1 "rebalance" 9 [] 7, .delegate 2 1, .vote 1 1 true 60,
    .qbc 3 (.approve 1 5), .wait 700000, .finalize 1, .qbc 1 (.transfer 3 60)]

/-- The tokens vote, move on, and vote again. -/
def governedTwice : List QUSDGovernance.Call :=
  [.createProposal 1 "rebalance" 9 [] 7, .vote 1 1 true 100, .qbc 1 (.transfer 2 100),
    .vote 2 1 true 100]

def granted : List TreasuryDAO.Call :=
  [.createProposal 1 "grant" 9 0, .vote 1 1 true 6, .qbc 1 (.transfer 2 4), .vote 2 1 false 4]

def grantedTwice : List TreasuryDAO.Call :=
  [.createProposal 1 "grant" 9 0, .vote 1 1 true (10 ^ 19), .qbc 1 (.transfer 2 (10 ^ 19)),
    .vote 2 1 true (10 ^ 19)]

end Sample

theorem votes_le_supply_sample :
    QUSDGovernance.Bounded (run QUSDGovernance.tallied
      (QUSDGovernance.deployed 1 1 100 10 3 1000) Sample.governed) ∧
    TreasuryDAO.Bounded (run (TreasuryDAO.tallied 5)
      (TreasuryDAO.deployed 1 1 (10 ^ 19) 1000) Sample.granted) :=
  ⟨(votes_le_supply 5 1 1 100 10 3 1000 _ []).1 (by decide +kernel),
    (votes_le_supply 5 1 1 (10 ^ 19) 10 3 1000 [] _).2 (by decide +kernel)⟩

/-- A hundred tokens give two hundred votes. -/
theorem vote_transfer_vote :
    (¬∀ (sender tokenOwner : Address) (supply minBalance threshold timestamp : Nat)
      (calls : List QUSDGovernance.Call),
      QUSDGovernance.Bounded (run QUSDGovernance.tallied
        (QUSDGovernance.deployed sender tokenOwner supply minBalance threshold timestamp) calls)) ∧
    ¬∀ (this sender tokenOwner : Address) (supply timestamp : Nat) (calls : List TreasuryDAO.Call),
      TreasuryDAO.Bounded (run (TreasuryDAO.tallied this)
        (TreasuryDAO.deployed sender tokenOwner supply timestamp) calls) := by
  constructor
  · intro h
    have hbounded := h 1 1 100 10 3 1000 Sample.governedTwice
    revert hbounded
    decide +kernel
  · intro h
    have hbounded := h 5 1 1 (10 ^ 19) 1000 Sample.grantedTwice
    revert hbounded
    decide +kernel

end Qubitcoin.Contracts
