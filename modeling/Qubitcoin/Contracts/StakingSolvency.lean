import Qubitcoin.Contracts.SynapticStaking

/-! What the staking contract owes, and the native balance that it has to pay it with. -/

namespace Qubitcoin.Contracts

open Solidity Checked
open Evm (Address)

namespace SynapticStaking

variable (self : SynapticStaking)

def index (connectionId : Nat) : Nat := (self.connection connectionId).rewardsPerToken

def earnedAt (rewardsPerToken : Nat) (s : Stake) : Nat :=
  s.amount * (rewardsPerToken - s.rewardsPerTokenPaid) / 10 ^ 18

/-- What a stake has earned that is not pending yet. -/
def unaccrued (s : Stake) : Nat := earnedAt (self.index s.connectionId) s

/-- The stakes, the unstake requests and the rewards, pending or not. -/
def liabilities : Nat :=
  Rows.sum Stake.amount self.userStakes + Rows.sum UnstakeRequest.amount self.unstakeRequests +
    (self.pendingRewards.total + Rows.sum self.unaccrued self.userStakes)

def Solvent : Prop := self.liabilities ≤ self.balance

/-- The index of a connection once it has been rewarded. -/
def rewardedIndex (connectionId rewardAmount : Nat) : Nat :=
  self.index connectionId +
    if 0 < (self.connection connectionId).totalStaked then
      rewardAmount * 10 ^ 18 / (self.connection connectionId).totalStaked
    else 0

/-- What a reward adds to what one stake has earned. -/
def raise (connectionId rewardAmount : Nat) (s : Stake) : Nat :=
  if s.connectionId = connectionId then
    earnedAt (self.rewardedIndex connectionId rewardAmount) s - self.unaccrued s
  else 0

/-- A call that adds to the liabilities and brings no coins finds a surplus that covers it. -/
def Covered (self : SynapticStaking) : Call → Prop
  | .stake _ _ _ amount _ _ => self.liabilities + amount ≤ self.balance
  | .distributeConnectionReward _ connectionId rewardAmount =>
    self.liabilities + Rows.sum (self.raise connectionId rewardAmount) self.userStakes ≤
      self.balance
  | _ => True

/-- Stakes are on active connections. -/
def Placed : Prop :=
  Rows.All (fun s => (self.connection s.connectionId).active = true) self.userStakes

variable {self} {s t : SynapticStaking} {staker sender : Address} {stakeIndex : Nat} {st : Stake}

theorem connection_insert (s : SynapticStaking) (connectionId c : Nat) (conn : Connection)
    (h : t.connections = s.connections.insert connectionId conn) :
    t.connection c = if c = connectionId then conn else s.connection c := by
  rw [connection, h, StorageMap.value_insert_eq]
  rfl

theorem connection_congr (h : t.connections = s.connections) (c : Nat) :
    t.connection c = s.connection c := by
  rw [connection, h]
  rfl

/-- The indices and the active connections are as they were. -/
def SameIndices (s t : SynapticStaking) : Prop :=
  ∀ c, t.index c = s.index c ∧ (t.connection c).active = (s.connection c).active

theorem sameIndices_of_insert {connectionId : Nat} {conn : Connection}
    (h : t.connections = s.connections.insert connectionId conn)
    (hindex : conn.rewardsPerToken = s.index connectionId)
    (hactive : conn.active = (s.connection connectionId).active) : SameIndices s t := by
  intro c
  rw [index, connection_insert s connectionId c conn h]
  split
  · next heq =>
    subst heq
    exact ⟨hindex, hactive⟩
  · exact ⟨rfl, rfl⟩

theorem SameIndices.unaccrued (h : SameIndices s t) : t.unaccrued = s.unaccrued := by
  funext st
  rw [SynapticStaking.unaccrued, (h st.connectionId).1]
  rfl

theorem SameIndices.placed (h : SameIndices s t) (hs : s.Placed)
    (hstakes : t.userStakes = s.userStakes) : t.Placed := by
  intro a st hmem
  rw [hstakes] at hmem
  rw [(h _).2]
  exact hs a st hmem

theorem earned_eq_ok {rewardsPerToken reward : Nat} (h : earned rewardsPerToken st = .ok reward) :
    reward = earnedAt rewardsPerToken st := by
  simp only [earned, sub_bind_eq_ok, mul_bind_eq_ok, div_eq_ok] at h
  exact h.2.2.2.symm

theorem earnedAt_of_paid {rewardsPerToken : Nat} (h : st.rewardsPerTokenPaid = rewardsPerToken) :
    earnedAt rewardsPerToken st = 0 := by
  simp [earnedAt, h]

/-- Accruing moves what a stake has earned to the pending rewards. -/
theorem accrueRewards_eq_ok (hget : (s.stakes staker)[stakeIndex]? = some st)
    (h : s.accrueRewards staker stakeIndex st = .ok t) :
    t.connections = s.connections ∧ t.unstakeRequests = s.unstakeRequests ∧
      t.balance = s.balance ∧ (s.Placed → t.Placed) ∧ t.liabilities = s.liabilities ∧
      ∃ st', (t.stakes staker)[stakeIndex]? = some st' ∧ st'.amount = st.amount ∧
        st'.connectionId = st.connectionId ∧ t.unaccrued st' = 0 := by
  simp only [accrueRewards, bind_eq_ok, add_eq_ok] at h
  obtain ⟨reward, hreward, pending, ⟨-, rfl⟩, rewardsClaimed, ⟨-, rfl⟩, h⟩ := h
  have hearned : reward = s.unaccrued st := earned_eq_ok hreward
  cases h
  set st' : Stake :=
    { st with
      rewardsPerTokenPaid := (s.connection st.connectionId).rewardsPerToken
      rewardsClaimed := st.rewardsClaimed + reward } with hst'
  have hzero : s.unaccrued st' = 0 := earnedAt_of_paid rfl
  have hamount := Rows.sum_put Stake.amount hget st'
  have hunaccrued := Rows.sum_put s.unaccrued hget st'
  have hpending := s.pendingRewards.total_set staker (s.pendingRewards.balance staker + reward)
  refine ⟨rfl, rfl, rfl, ?_, ?_, st', ?_, rfl, rfl, hzero⟩
  · intro hs
    exact Rows.All.put hs (hs staker st (List.mem_of_getElem? hget))
  · change Rows.sum Stake.amount (Rows.put s.userStakes staker stakeIndex st') +
      Rows.sum UnstakeRequest.amount s.unstakeRequests +
      ((s.pendingRewards.set staker (s.pendingRewards.balance staker + reward)).total +
        Rows.sum s.unaccrued (Rows.put s.userStakes staker stakeIndex st')) = _
    rw [liabilities]
    change _ + st.amount = _ + st.amount at hamount
    omega
  · have hlt : stakeIndex < (s.stakes staker).length := (List.getElem?_eq_some_iff.mp hget).1
    change (Rows.rows (Rows.put s.userStakes staker stakeIndex st') staker)[stakeIndex]? = _
    rw [Rows.rows_put, if_pos rfl]
    exact List.getElem?_set_self hlt

/-- A new stake has earned nothing. -/
theorem addStake_eq_ok {connectionId amount timestamp : Nat}
    (hactive : (s.connection connectionId).active = true)
    (h : s.addStake staker connectionId amount timestamp = .ok t) :
    t.balance = s.balance ∧ (s.Placed → t.Placed) ∧ t.liabilities = s.liabilities + amount := by
  simp only [addStake, add_bind_eq_ok, Except.ok.injEq] at h
  obtain ⟨-, -, h⟩ := h
  have hsame : SameIndices s t := by
    subst h
    apply sameIndices_of_insert <;> rfl
  have hunaccrued := hsame.unaccrued
  subst h
  refine ⟨rfl, ?_, ?_⟩
  · intro hs
    apply Rows.All.push
    · intro a st hmem
      rw [(hsame _).2]
      exact hs a st hmem
    · rw [(hsame _).2]
      exact hactive
  · have hnone : s.unaccrued ⟨staker, connectionId, amount, timestamp, 0,
        (s.connection connectionId).rewardsPerToken⟩ = 0 := earnedAt_of_paid rfl
    rw [liabilities, hunaccrued, Rows.sum_push, Rows.sum_push, hnone, liabilities]
    simp only
    omega

theorem userStake_eq_ok {connectionId value timestamp : Nat}
    (h : s.userStake sender connectionId value timestamp = .ok t) :
    t.balance = s.balance + value ∧ (s.Placed → t.Placed) ∧
      t.liabilities = s.liabilities + value := by
  simp only [userStake, ensure_bind_eq_ok, add_bind_eq_ok] at h
  obtain ⟨hactive, -, -, -, h⟩ := h
  exact addStake_eq_ok (s := { s with balance := s.balance + value }) hactive h

theorem requestUnstake_eq_ok {blockNumber : Nat}
    (h : s.requestUnstake staker stakeIndex blockNumber = .ok t) :
    t.balance = s.balance ∧ (s.Placed → t.Placed) ∧ t.liabilities = s.liabilities := by
  simp only [requestUnstake, okOr_bind_eq_ok, ensure_bind_eq_ok, add_bind_eq_ok] at h
  obtain ⟨st, hget, -, -, h⟩ := h
  rw [bind_eq_ok] at h
  obtain ⟨accrued, haccrue, h⟩ := h
  simp only [okOr_bind_eq_ok, sub_bind_eq_ok, Except.ok.injEq] at h
  obtain ⟨-, -, stake, hstake, h⟩ := h
  obtain ⟨hconnections, hrequests, hbalance, hplaced, hliabilities, st', hget', hamount, hid, hzero⟩ :=
    accrueRewards_eq_ok hget haccrue
  rw [hget'] at hstake
  cases hstake
  have hsame : SameIndices accrued t := by
    subst h
    apply sameIndices_of_insert
    · rw [hconnections]
    · rw [index, connection_congr hconnections]
    · rw [connection_congr hconnections]
  have hstakes : t.userStakes =
      Rows.put accrued.userStakes staker stakeIndex { stake with amount := 0 } := by rw [← h]
  have hpending : t.pendingRewards = accrued.pendingRewards := by rw [← h]
  have hrequests' : Rows.sum UnstakeRequest.amount t.unstakeRequests =
      Rows.sum UnstakeRequest.amount s.unstakeRequests + st.amount := by
    rw [← h, Rows.sum_push]
  have hbalance' : t.balance = accrued.balance := by rw [← h]
  refine ⟨hbalance'.trans hbalance, ?_, ?_⟩
  · intro hs a x hmem
    rw [hstakes] at hmem
    rw [(hsame _).2]
    have hall : Rows.All (fun x => (accrued.connection x.connectionId).active = true)
        (Rows.put accrued.userStakes staker stakeIndex { stake with amount := 0 }) :=
      Rows.All.put (hplaced hs) (hplaced hs staker stake (List.mem_of_getElem? hget'))
    exact hall a x hmem
  · have hsum := Rows.sum_put Stake.amount hget' { stake with amount := 0 }
    have hunaccrued := Rows.sum_put accrued.unaccrued hget' { stake with amount := 0 }
    have hnone : accrued.unaccrued { stake with amount := 0 } = 0 := by simp [unaccrued, earnedAt]
    rw [liabilities, hsame.unaccrued, hstakes, hpending, hrequests', ← hliabilities, liabilities,
      hrequests]
    simp only at hsum hunaccrued
    omega

theorem pay_eq_ok {amount : Nat} {accepts : Bool} (h : s.pay amount accepts = .ok t) :
    amount ≤ s.balance ∧ t = { s with balance := s.balance - amount } := by
  rw [pay, ensure_bind_eq_ok] at h
  obtain ⟨⟨hle, -⟩, h⟩ := h
  cases h
  exact ⟨hle, rfl⟩

theorem userCompleteUnstake_eq_ok {requestIndex blockNumber : Nat} {accepts : Bool}
    (h : s.userCompleteUnstake sender requestIndex blockNumber accepts = .ok t) :
    (s.Placed → t.Placed) ∧ t.liabilities + s.balance = s.liabilities + t.balance := by
  simp only [userCompleteUnstake, okOr_bind_eq_ok, ensure_bind_eq_ok] at h
  obtain ⟨req, hget, -, -, h⟩ := h
  obtain ⟨hle, rfl⟩ := pay_eq_ok h
  refine ⟨id, ?_⟩
  have hsum := Rows.sum_put UnstakeRequest.amount hget { req with amount := 0 }
  change Rows.sum Stake.amount s.userStakes + Rows.sum UnstakeRequest.amount _ +
    (s.pendingRewards.total + Rows.sum s.unaccrued s.userStakes) + s.balance = _
  simp only [liabilities] at hle hsum ⊢
  omega

theorem accrueActive_eq_ok (h : s.accrueActive staker stakeIndex = .ok t) :
    t.balance = s.balance ∧ (s.Placed → t.Placed) ∧ t.liabilities = s.liabilities := by
  unfold accrueActive at h
  split at h
  · next st hget =>
    split at h
    · obtain ⟨-, -, hbalance, hplaced, hliabilities, -⟩ := accrueRewards_eq_ok hget h
      exact ⟨hbalance, hplaced, hliabilities⟩
    · cases h
      exact ⟨rfl, id, rfl⟩
  · cases h

theorem accrueBatch_eq_ok {is : List Nat} (h : accrueBatch staker is s = .ok t) :
    t.balance = s.balance ∧ (s.Placed → t.Placed) ∧ t.liabilities = s.liabilities := by
  induction is generalizing s with
  | nil =>
    cases h
    exact ⟨rfl, id, rfl⟩
  | cons i is ih =>
    obtain ⟨accrued, hactive, hrest⟩ := bind_eq_ok.mp h
    obtain ⟨hbalance, hplaced, hliabilities⟩ := accrueActive_eq_ok hactive
    obtain ⟨hbalance', hplaced', hliabilities'⟩ := ih hrest
    exact ⟨hbalance'.trans hbalance, hplaced' ∘ hplaced, hliabilities'.trans hliabilities⟩

theorem claimRewards_eq_ok {startIndex : Nat} {accepts : Bool}
    (h : s.claimRewards sender startIndex accepts = .ok t) :
    (s.Placed → t.Placed) ∧ t.liabilities + s.balance = s.liabilities + t.balance := by
  simp only [claimRewards, ensure_bind_eq_ok, add_bind_eq_ok] at h
  obtain ⟨-, -, h⟩ := h
  rw [bind_eq_ok] at h
  obtain ⟨accrued, hbatch, h⟩ := h
  rw [ensure_bind_eq_ok] at h
  obtain ⟨-, h⟩ := h
  obtain ⟨hle, rfl⟩ := pay_eq_ok h
  obtain ⟨hbalance, hplaced, hliabilities⟩ := accrueBatch_eq_ok hbatch
  refine ⟨hplaced, ?_⟩
  have htotal := accrued.pendingRewards.total_set sender 0
  rw [← hbalance, ← hliabilities]
  change Rows.sum Stake.amount accrued.userStakes +
    Rows.sum UnstakeRequest.amount accrued.unstakeRequests +
    (Ledger.total _ + Rows.sum accrued.unaccrued accrued.userStakes) + accrued.balance = _
  simp only [liabilities] at hle ⊢
  omega

theorem earnedAt_mono {i j : Nat} (h : i ≤ j) : earnedAt i st ≤ earnedAt j st :=
  Nat.div_le_div_right (Nat.mul_le_mul_left _ (Nat.sub_le_sub_right h _))

theorem nextIndex_eq_ok {connectionId rewardAmount rewardsPerToken : Nat}
    (h : nextIndex (s.connection connectionId) rewardAmount = .ok rewardsPerToken) :
    rewardsPerToken = s.rewardedIndex connectionId rewardAmount := by
  unfold nextIndex at h
  unfold rewardedIndex
  split at h
  · next hpos =>
    simp only [mul_bind_eq_ok, div_bind_eq_ok, add_eq_ok] at h
    rw [if_pos hpos]
    exact h.2.2.2.symm
  · next hnone =>
    cases h
    rw [if_neg hnone]
    rfl

theorem distributeConnectionReward_eq_ok {connectionId rewardAmount : Nat}
    (h : s.distributeConnectionReward sender connectionId rewardAmount = .ok t) :
    t.balance = s.balance ∧ (s.Placed → t.Placed) ∧
      t.liabilities =
        s.liabilities + Rows.sum (s.raise connectionId rewardAmount) s.userStakes := by
  simp only [distributeConnectionReward, onlyKernel, ensure_bind_eq_ok, add_bind_eq_ok] at h
  obtain ⟨-, -, -, h⟩ := h
  obtain ⟨rewardsPerToken, hnext, h⟩ := bind_eq_ok.mp h
  have hindex := nextIndex_eq_ok hnext
  have hle : s.index connectionId ≤ rewardsPerToken := by
    rw [hindex]
    exact Nat.le_add_right _ _
  rw [Except.ok.injEq] at h
  have hconnection : ∀ c, t.index c = (if c = connectionId then rewardsPerToken else s.index c) ∧
      (t.connection c).active = (s.connection c).active := by
    intro c
    subst h
    rw [index, connection_insert s connectionId c _ rfl]
    split
    · next heq => exact ⟨rfl, heq ▸ rfl⟩
    · exact ⟨rfl, rfl⟩
  have hunaccrued :
      t.unaccrued = fun st => s.unaccrued st + s.raise connectionId rewardAmount st := by
    funext st
    rw [unaccrued, (hconnection _).1, raise]
    split
    · next heq =>
      have hmono : s.unaccrued st ≤ earnedAt rewardsPerToken st := by
        rw [unaccrued, heq]
        exact earnedAt_mono hle
      rw [← hindex]
      exact (Nat.add_sub_cancel' hmono).symm
    · exact (Nat.add_zero _).symm
  subst h
  refine ⟨rfl, ?_, ?_⟩
  · intro hs a st hmem
    rw [(hconnection _).2]
    exact hs a st hmem
  · rw [liabilities, hunaccrued, Rows.sum_add, liabilities]
    simp only
    omega

theorem activateConnection_eq_ok {fromNodeId toNodeId : BitVec 8} (hs : s.Placed)
    (h : s.activateConnection sender fromNodeId toNodeId = .ok t) :
    t.Placed ∧ t.liabilities = s.liabilities ∧ t.balance = s.balance := by
  simp only [activateConnection, onlyKernel, ensure_bind_eq_ok, Except.ok.injEq] at h
  obtain ⟨-, hinactive, h⟩ := h
  -- no stake is on the connection that is reset
  have hconnection : ∀ a, ∀ st ∈ s.stakes a,
      t.connection st.connectionId = s.connection st.connectionId := by
    intro a st hmem
    subst h
    rw [connection_insert s _ _ _ rfl, if_neg]
    intro heq
    have hactive : (s.connection st.connectionId).active = true := hs a st hmem
    rw [heq, hinactive] at hactive
    cases hactive
  have hunaccrued : Rows.sum t.unaccrued s.userStakes = Rows.sum s.unaccrued s.userStakes := by
    apply Rows.sum_congr
    intro a st hmem
    rw [unaccrued, index, hconnection a st hmem]
    rfl
  subst h
  refine ⟨?_, ?_, rfl⟩
  · intro a st hmem
    rw [hconnection a st hmem]
    exact hs a st hmem
  · rw [liabilities, hunaccrued, liabilities]

theorem updateUtility_eq_ok {connectionId newUtility : Nat}
    (h : s.updateUtility sender connectionId newUtility = .ok t) :
    (s.Placed → t.Placed) ∧ t.liabilities = s.liabilities ∧ t.balance = s.balance := by
  simp only [updateUtility, onlyKernel, ensure_bind_eq_ok, Except.ok.injEq] at h
  obtain ⟨-, -, h⟩ := h
  have hsame : SameIndices s t := by
    subst h
    apply sameIndices_of_insert <;> rfl
  have hunaccrued := hsame.unaccrued
  subst h
  refine ⟨fun hs => hsame.placed hs rfl, ?_, rfl⟩
  rw [liabilities, hunaccrued, liabilities]

/-- What a call needs to keep the contract solvent. -/
theorem call_solvent_iff {c : Call} (hplaced : s.Placed) (hs : s.Solvent) (h : call s c = .ok t) :
    t.Placed ∧ (t.Solvent ↔ s.Covered c) := by
  unfold Solvent at hs ⊢
  cases c with
  | activateConnection sender fromNodeId toNodeId =>
    obtain ⟨hplaced', hliabilities, hbalance⟩ := activateConnection_eq_ok hplaced h
    refine ⟨hplaced', iff_of_true ?_ trivial⟩
    rwa [hliabilities, hbalance]
  | userStake sender connectionId value timestamp =>
    obtain ⟨hbalance, hplaced', hliabilities⟩ := userStake_eq_ok h
    refine ⟨hplaced' hplaced, iff_of_true ?_ trivial⟩
    rw [hliabilities, hbalance]
    exact Nat.add_le_add_right hs _
  | userRequestUnstake sender stakeIndex blockNumber =>
    obtain ⟨hbalance, hplaced', hliabilities⟩ := requestUnstake_eq_ok h
    refine ⟨hplaced' hplaced, iff_of_true ?_ trivial⟩
    rwa [hliabilities, hbalance]
  | userCompleteUnstake sender requestIndex blockNumber accepts =>
    obtain ⟨hplaced', hliabilities⟩ := userCompleteUnstake_eq_ok h
    refine ⟨hplaced' hplaced, iff_of_true ?_ trivial⟩
    omega
  | claimRewards sender startIndex accepts =>
    obtain ⟨hplaced', hliabilities⟩ := claimRewards_eq_ok h
    refine ⟨hplaced' hplaced, iff_of_true ?_ trivial⟩
    omega
  | stake sender staker connectionId amount timestamp transferred =>
    simp only [call, stake, onlyKernel, ensure_bind_eq_ok] at h
    obtain ⟨-, hactive, -, -, h⟩ := h
    obtain ⟨hbalance, hplaced', hliabilities⟩ := addStake_eq_ok hactive h
    refine ⟨hplaced' hplaced, ?_⟩
    rw [hliabilities, hbalance]
    exact Iff.rfl
  | unstake sender staker stakeIndex blockNumber =>
    simp only [call, unstake, onlyKernel, ensure_bind_eq_ok] at h
    obtain ⟨hbalance, hplaced', hliabilities⟩ := requestUnstake_eq_ok h.2
    refine ⟨hplaced' hplaced, iff_of_true ?_ trivial⟩
    rwa [hliabilities, hbalance]
  | updateUtility sender connectionId newUtility =>
    obtain ⟨hplaced', hliabilities, hbalance⟩ := updateUtility_eq_ok h
    refine ⟨hplaced' hplaced, iff_of_true ?_ trivial⟩
    rwa [hliabilities, hbalance]
  | distributeConnectionReward sender connectionId rewardAmount =>
    obtain ⟨hbalance, hplaced', hliabilities⟩ := distributeConnectionReward_eq_ok h
    refine ⟨hplaced' hplaced, ?_⟩
    rw [hliabilities, hbalance]
    exact Iff.rfl
  | receive value =>
    cases h
    exact ⟨hplaced, iff_of_true (Nat.le_add_right_of_le hs) trivial⟩

theorem pay_ne_error {amount : Nat} {e : String} (h : amount ≤ s.balance) :
    s.pay amount true ≠ .error e :=
  bind_ne_error (ensure_ne_error (.inl ⟨h, rfl⟩)) fun _ _ => nofun

/-- No withdrawal and no claim fails at its payment where the receiver accepts it. -/
def Payable (s : SynapticStaking) : Prop :=
  (∀ sender requestIndex blockNumber,
    s.userCompleteUnstake sender requestIndex blockNumber true ≠
      .error "Synaptic: transfer failed") ∧
  ∀ sender startIndex,
    s.claimRewards sender startIndex true ≠ .error "Synaptic: transfer failed"

theorem accrueRewards_ne_error : s.accrueRewards staker stakeIndex st ≠
    .error "Synaptic: transfer failed" := by
  apply bind_ne_error
  · apply bind_ne_error (sub_ne_error (by decide))
    intro gained _
    apply bind_ne_error (mul_ne_error (by decide))
    intro scaled _
    exact div_ne_error (by decide)
  · intro reward _
    apply bind_ne_error (add_ne_error (by decide))
    intro pending _
    exact bind_ne_error (add_ne_error (by decide)) fun _ _ => nofun

theorem accrueActive_ne_error : s.accrueActive staker stakeIndex ≠
    .error "Synaptic: transfer failed" := by
  unfold accrueActive
  split
  · split
    · exact accrueRewards_ne_error
    · exact nofun
  · simp

theorem accrueBatch_ne_error {is : List Nat} : accrueBatch staker is s ≠
    .error "Synaptic: transfer failed" := by
  induction is generalizing s with
  | nil => exact nofun
  | cons i is ih => exact bind_ne_error accrueActive_ne_error fun _ _ => ih

theorem Solvent.payable (hs : s.Solvent) : s.Payable := by
  constructor
  · intro sender requestIndex blockNumber
    unfold userCompleteUnstake
    cases hget : (s.requests sender)[requestIndex]? with
    | none => simp [Option.okOr]
    | some req =>
      apply bind_ne_error (by simp [Option.okOr])
      intro r hr
      cases hr
      apply bind_ne_error (ensure_ne_error (.inr (by decide)))
      intro _ _
      apply bind_ne_error (ensure_ne_error (.inr (by decide)))
      intro _ _
      apply pay_ne_error
      have hrequest := Rows.le_sum UnstakeRequest.amount hget
      have hle := hs
      simp only [Solvent, liabilities] at hle ⊢
      omega
  · intro sender startIndex
    apply bind_ne_error (ensure_ne_error (.inr (by decide)))
    intro _ _
    apply bind_ne_error (add_ne_error (by decide))
    intro batchEnd _
    apply bind_ne_error accrueBatch_ne_error
    intro accrued hbatch
    apply bind_ne_error (ensure_ne_error (.inr (by decide)))
    intro _ _
    apply pay_ne_error
    obtain ⟨hbalance, -, hliabilities⟩ := accrueBatch_eq_ok hbatch
    have hreward := accrued.pendingRewards.balance_le_total sender
    have hle : accrued.liabilities ≤ accrued.balance := by
      rw [hliabilities, hbalance]
      exact hs
    simp only [liabilities] at hle ⊢
    omega

/-- All withdrawals and claims can be paid all along a run exactly if what brings no coins is
covered. -/
theorem solvent_iff_covered (sender kernel qbcToken : Address) (calls : List Call) :
    (∀ before, before <+: calls →
      (run call (initial sender kernel qbcToken) before).Solvent ∧
        (run call (initial sender kernel qbcToken) before).Payable) ↔
      Guarded call Covered (initial sender kernel qbcToken) calls := by
  rw [← forall_prefix_iff_guarded_of fun _ _ _ => call_solvent_iff]
  · constructor
    · intro h before hle
      exact (h before hle).1
    · intro h before hle
      exact ⟨h before hle, (h before hle).payable⟩
  · exact Rows.all_empty
  · exact Nat.zero_le _

/-- The kernel stakes 10 tokens on a connection for address 9, and 9 asks for them back. -/
def tokenStake : List Call :=
  [.activateConnection 1 1 2, .stake 2 9 12 10 1000 true, .userRequestUnstake 9 0 100]

theorem token_stake_not_payable :
    ¬∀ (sender kernel qbcToken : Address) (calls : List Call),
      (run call (initial sender kernel qbcToken) calls).Solvent ∧
        (run call (initial sender kernel qbcToken) calls).Payable := by
  intro h
  have hpayable := (h 1 2 3 tokenStake).2.1 9 0 200000
  exact hpayable rfl

end SynapticStaking

end Qubitcoin.Contracts
