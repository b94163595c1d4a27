import Qubitcoin.Evm.Words
import Qubitcoin.Library.Clocked
import Qubitcoin.Library.StorageMap

/-! Vesting plans with a cliff and a linear unlock, and what of a plan is paid out. -/

namespace Qubitcoin.Contracts

open Solidity Checked
open Evm (Address)

structure VestingPlan where
  beneficiary : Address := 0
  totalAmount : Nat := 0
  cliffDuration : Nat := 0
  vestingDuration : Nat := 0
  startTime : Nat := 0
  claimed : Nat := 0
  revocable : Bool := false
  revoked : Bool := false

inductive VestingEvent
  | vestingCreated (beneficiary : Address) (amount cliff duration : Nat)
  | tokensClaimed (beneficiary : Address) (amount : Nat)
  | vestingRevoked (beneficiary : Address) (unvestedAmount : Nat)

structure VestingSchedule where
  owner : Address
  plans : StorageMap Address VestingPlan := ∅
  beneficiaries : List Address := []
  totalReserved : Nat := 0
  events : List VestingEvent := []

namespace VestingSchedule

def initial (sender : Address) : VestingSchedule where
  owner := sender

variable (self : VestingSchedule)

def plan (beneficiary : Address) : VestingPlan := self.plans.value {} beneficiary

def onlyOwner (sender : Address) : Except String Unit :=
  ensure (sender = self.owner) "VestingSchedule: not owner"

/-- `transferred` is what the token answers. -/
def createVesting (timestamp : Nat) (sender beneficiary : Address) (amount cliff duration : Nat)
    (revocable transferred : Bool) : Except String VestingSchedule := do
  self.onlyOwner sender
  ensure (beneficiary ≠ 0) "VestingSchedule: zero beneficiary"
  ensure (0 < amount) "VestingSchedule: zero amount"
  ensure (0 < duration) "VestingSchedule: zero duration"
  ensure ((self.plan beneficiary).totalAmount = 0) "VestingSchedule: plan exists"
  ensure (transferred = true) "VestingSchedule: transfer failed"
  let totalReserved ← add self.totalReserved amount
  .ok { self with
    plans := self.plans.insert beneficiary
      { beneficiary := beneficiary
        totalAmount := amount
        cliffDuration := cliff
        vestingDuration := duration
        startTime := timestamp
        claimed := 0
        revocable := revocable
        revoked := false }
    beneficiaries := self.beneficiaries ++ [beneficiary]
    totalReserved := totalReserved
    events := self.events ++ [.vestingCreated beneficiary amount cliff duration] }

/-- `_vestedAmount`. -/
def vestedAmount (timestamp : Nat) (plan : VestingPlan) : Except String Nat := do
  let cliffEnd ← add plan.startTime plan.cliffDuration
  if timestamp < cliffEnd then .ok 0
  else do
    let sinceStart ← sub timestamp plan.startTime
    let elapsed ← sub sinceStart plan.cliffDuration
    if plan.vestingDuration ≤ elapsed then .ok plan.totalAmount
    else do
      let scaled ← mul plan.totalAmount elapsed
      div scaled plan.vestingDuration

def claim (timestamp : Nat) (sender : Address) (transferred : Bool) :
    Except String VestingSchedule := do
  let plan := self.plan sender
  ensure (0 < plan.totalAmount) "VestingSchedule: no plan"
  ensure (plan.revoked = false) "VestingSchedule: revoked"
  let vested ← vestedAmount timestamp plan
  let amount ← sub vested plan.claimed
  ensure (0 < amount) "VestingSchedule: nothing to claim"
  let claimed ← add plan.claimed amount
  let totalReserved ← sub self.totalReserved amount
  ensure (transferred = true) "VestingSchedule: transfer failed"
  .ok { self with
    plans := self.plans.insert sender { plan with claimed := claimed }
    totalReserved := totalReserved
    events := self.events ++ [.tokensClaimed sender amount] }

def claimable (timestamp : Nat) (beneficiary : Address) : Except String Nat :=
  let plan := self.plan beneficiary
  if plan.totalAmount = 0 ∨ plan.revoked = true then .ok 0
  else do
    let vested ← vestedAmount timestamp plan
    if vested ≤ plan.claimed then .ok 0 else sub vested plan.claimed

/-- What is reserved once the unvested portion went back to the owner. -/
def giveBack (unvested : Nat) (transferred : Bool) : Except String Nat :=
  if 0 < unvested then do
    let totalReserved ← sub self.totalReserved unvested
    ensure (transferred = true) "VestingSchedule: transfer failed"
    .ok totalReserved
  else .ok self.totalReserved

def revoke (timestamp : Nat) (sender beneficiary : Address) (transferred : Bool) :
    Except String VestingSchedule := do
  self.onlyOwner sender
  let plan := self.plan beneficiary
  ensure (0 < plan.totalAmount) "VestingSchedule: no plan"
  ensure (plan.revocable = true) "VestingSchedule: not revocable"
  ensure (plan.revoked = false) "VestingSchedule: already revoked"
  let vested ← vestedAmount timestamp plan
  let unvested ← sub plan.totalAmount vested
  let totalReserved ← self.giveBack unvested transferred
  .ok { self with
    plans := self.plans.insert beneficiary { plan with revoked := true }
    totalReserved := totalReserved
    events := self.events ++ [.vestingRevoked beneficiary unvested] }

def transferOwnership (sender newOwner : Address) : Except String VestingSchedule := do
  self.onlyOwner sender
  ensure (newOwner ≠ 0) "VestingSchedule: zero owner"
  .ok { self with owner := newOwner }

inductive Call
  | createVesting (sender beneficiary : Address) (amount cliff duration : Nat)
      (revocable transferred : Bool)
  | claim (sender : Address) (transferred : Bool)
  | revoke (sender beneficiary : Address) (transferred : Bool)
  | transferOwnership (sender newOwner : Address)

def call (timestamp : Nat) (self : VestingSchedule) : Call → Except String VestingSchedule
  | .createVesting sender beneficiary amount cliff duration revocable transferred =>
    self.createVesting timestamp sender beneficiary amount cliff duration revocable transferred
  | .claim sender transferred => self.claim timestamp sender transferred
  | .revoke sender beneficiary transferred => self.revoke timestamp sender beneficiary transferred
  | .transferOwnership sender newOwner => self.transferOwnership sender newOwner

end VestingSchedule

/-- From here on the whole amount has vested. -/
def VestingPlan.vestingEnd (plan : VestingPlan) : Nat :=
  plan.startTime + plan.cliffDuration + plan.vestingDuration

/-- What goes back to the owner for the plan of a beneficiary. -/
def VestingEvent.returned (beneficiary : Address) : VestingEvent → Nat
  | .vestingRevoked revoked unvestedAmount => if revoked = beneficiary then unvestedAmount else 0
  | _ => 0

namespace VestingSchedule

section Statement

variable (self : VestingSchedule)

def returned (beneficiary : Address) : Nat :=
  (self.events.map (VestingEvent.returned beneficiary)).sum

/-- Of each plan, what was claimed, what went back and what can be claimed at the end are the whole
amount; and what is reserved is what was neither claimed nor given back. -/
def PaysOut : Prop :=
  (∀ beneficiary timestamp, timestamp < 2 ^ 256 →
    (self.plan beneficiary).vestingEnd ≤ timestamp →
      ∃ rest, self.claimable timestamp beneficiary = .ok rest ∧
        (self.plan beneficiary).claimed + self.returned beneficiary + rest =
          (self.plan beneficiary).totalAmount) ∧
  self.totalReserved = self.plans.weigh fun beneficiary plan =>
    plan.totalAmount - plan.claimed - self.returned beneficiary

end Statement

/-- Nothing that has vested is unclaimed; or the vesting ends after the last timestamp there is. -/
def Settled (timestamp : Nat) (plan : VestingPlan) : Prop :=
  vestedAmount timestamp plan = .ok plan.claimed ∨ 2 ^ 256 ≤ plan.vestingEnd

/-- Only settled plans are revoked. -/
def RevokesSettled (s : Clocked VestingSchedule) : Clocked.Input Call → Prop
  | .transaction (.revoke _ beneficiary _) => Settled s.timestamp (s.contract.plan beneficiary)
  | _ => True

section Amounts

variable {timestamp later vested : Nat} {plan : VestingPlan}

/-- What has vested, where nothing overflows. -/
def vestedAt (timestamp : Nat) (plan : VestingPlan) : Nat :=
  let elapsed := timestamp - plan.startTime - plan.cliffDuration
  if timestamp < plan.startTime + plan.cliffDuration then 0
  else if plan.vestingDuration ≤ elapsed then plan.totalAmount
  else plan.totalAmount * elapsed / plan.vestingDuration

theorem vestedAmount_eq (h : vestedAmount timestamp plan = .ok vested) :
    vested = vestedAt timestamp plan := by
  simp only [vestedAmount, add_bind_eq_ok] at h
  obtain ⟨-, h⟩ := h
  rw [vestedAt]
  split at h
  · next hcliff =>
    cases h
    rw [if_pos hcliff]
  · next hcliff =>
    rw [if_neg hcliff]
    simp only [sub_bind_eq_ok] at h
    obtain ⟨-, -, h⟩ := h
    split at h
    · next hend =>
      cases h
      rw [if_pos hend]
    · next hend =>
      simp only [mul_bind_eq_ok, div_eq_ok] at h
      rw [if_neg hend]
      exact h.2.2.symm

theorem vestedAt_le (timestamp : Nat) (plan : VestingPlan) :
    vestedAt timestamp plan ≤ plan.totalAmount := by
  rw [vestedAt]
  split
  · exact Nat.zero_le _
  · split
    · exact le_rfl
    · next hlinear =>
      apply Nat.div_le_of_le_mul
      rw [Nat.mul_comm]
      exact Nat.mul_le_mul_right _ (not_le.mp hlinear).le

theorem vestedAt_mono (h : timestamp ≤ later) (plan : VestingPlan) :
    vestedAt timestamp plan ≤ vestedAt later plan := by
  have htotal := vestedAt_le timestamp plan
  rw [vestedAt] at htotal
  rw [vestedAt, vestedAt]
  by_cases hcliff : timestamp < plan.startTime + plan.cliffDuration
  · rw [if_pos hcliff]
    exact Nat.zero_le _
  · have hlater : ¬later < plan.startTime + plan.cliffDuration := by omega
    rw [if_neg hcliff] at htotal ⊢
    rw [if_neg hlater]
    by_cases hend : plan.vestingDuration ≤ later - plan.startTime - plan.cliffDuration
    · rwa [if_pos hend]
    · rw [if_neg hend, if_neg (by omega)]
      apply Nat.div_le_div_right
      apply Nat.mul_le_mul_left
      omega

theorem vestedAmount_of_vestingEnd (hword : timestamp < 2 ^ 256)
    (hend : plan.vestingEnd ≤ timestamp) :
    vestedAmount timestamp plan = .ok plan.totalAmount := by
  rw [VestingPlan.vestingEnd] at hend
  rw [vestedAmount, add, if_pos (by omega), ok_bind, if_neg (by omega), sub, if_pos (by omega),
    ok_bind, sub, if_pos (by omega), ok_bind, if_pos (by omega)]

end Amounts

section Accounting

variable {s t : VestingSchedule} {b : Address} {timestamp : Nat} {plan : VestingPlan}

theorem plan_insert (h : t.plans = s.plans.insert b plan) (a : Address) :
    t.plan a = if a = b then plan else s.plan a := by
  rw [VestingSchedule.plan, h, StorageMap.value_insert_eq]
  rfl

theorem returned_append {event : VestingEvent} (h : t.events = s.events ++ [event])
    (a : Address) : t.returned a = s.returned a + event.returned a := by
  rw [returned, h, List.map_append, List.sum_append]
  simp [returned]

/-- What of a plan neither was claimed nor went back. -/
def outstanding (s : VestingSchedule) (a : Address) (plan : VestingPlan) : Nat :=
  plan.totalAmount - plan.claimed - s.returned a

/-- No more was claimed than has vested, and nothing went back before the plan was revoked. -/
structure Accounts (timestamp : Nat) (s : VestingSchedule) : Prop where
  claimed_le : ∀ a, (s.plan a).claimed ≤ vestedAt timestamp (s.plan a)
  paid_le : ∀ a, (s.plan a).claimed + s.returned a ≤ (s.plan a).totalAmount
  returned_eq : ∀ a, (s.plan a).revoked = false → s.returned a = 0
  reserved_eq : s.totalReserved = StorageMap.weigh s.outstanding s.plans

theorem accounts_initial (timestamp : Nat) (sender : Address) :
    (initial sender).Accounts timestamp where
  claimed_le _ := Nat.zero_le _
  paid_le _ := le_rfl
  returned_eq _ _ := rfl
  reserved_eq := rfl

theorem Accounts.wait {later : Nat} (h : s.Accounts timestamp) (hle : timestamp ≤ later) :
    s.Accounts later where
  claimed_le a := (h.claimed_le a).trans (vestedAt_mono hle _)
  paid_le := h.paid_le
  returned_eq := h.returned_eq
  reserved_eq := h.reserved_eq

/-- A call rewrites the plan of one beneficiary, and logs it. -/
structure Rewrites (s t : VestingSchedule) (b : Address) (plan : VestingPlan) (back : Nat) :
    Prop where
  plans_eq : t.plans = s.plans.insert b plan
  returned_eq : ∀ a, t.returned a = s.returned a + if a = b then back else 0

theorem Rewrites.weigh_outstanding {back : Nat} (h : Rewrites s t b plan back) :
    StorageMap.weigh t.outstanding t.plans + s.outstanding b (s.plan b) =
      StorageMap.weigh s.outstanding s.plans + t.outstanding b plan := by
  have hothers : StorageMap.weigh t.outstanding (s.plans.erase b) = StorageMap.weigh s.outstanding (s.plans.erase b) := by
    apply StorageMap.weigh_congr
    intro a p ha
    rw [StorageMap.lookup_erase_eq] at ha
    split at ha
    · cases ha
    · next hne => rw [outstanding, outstanding, h.returned_eq, if_neg hne, Nat.add_zero]
  have hold : StorageMap.weigh s.outstanding (s.plans.erase b) + s.outstanding b (s.plan b) =
      StorageMap.weigh s.outstanding s.plans :=
    StorageMap.weigh_erase_value s.outstanding s.plans (by simp [outstanding])
  rw [h.plans_eq, ← StorageMap.insert_erase_self,
    StorageMap.weigh_insert _ _ Finmap.notMem_erase_self, hothers]
  omega

theorem Accounts.rewrite {back : Nat} (h : s.Accounts timestamp) (hr : Rewrites s t b plan back)
    (hclaimed : plan.claimed ≤ vestedAt timestamp plan)
    (hpaid : plan.claimed + (s.returned b + back) ≤ plan.totalAmount)
    (hreturned : plan.revoked = false → s.returned b + back = 0)
    (hreserved : t.totalReserved + s.outstanding b (s.plan b) =
      s.totalReserved + t.outstanding b plan) : t.Accounts timestamp where
  claimed_le a := by
    rw [plan_insert hr.plans_eq]
    split
    · exact hclaimed
    · exact h.claimed_le a
  paid_le a := by
    rw [plan_insert hr.plans_eq, hr.returned_eq]
    by_cases ha : a = b
    · subst ha
      rwa [if_pos rfl, if_pos rfl]
    · rw [if_neg ha, if_neg ha]
      exact h.paid_le a
  returned_eq a := by
    rw [plan_insert hr.plans_eq, hr.returned_eq]
    by_cases ha : a = b
    · subst ha
      rwa [if_pos rfl, if_pos rfl]
    · rw [if_neg ha, if_neg ha]
      exact h.returned_eq a
  reserved_eq := by
    have hweigh := hr.weigh_outstanding
    rw [h.reserved_eq] at hreserved
    omega

end Accounting

section Calls

variable {s t : VestingSchedule} {sender b : Address} {timestamp amount cliff duration : Nat}
  {revocable transferred : Bool}

theorem rewrites_of_log {plan : VestingPlan} {event : VestingEvent} {back : Nat}
    (hplans : t.plans = s.plans.insert b plan) (hevents : t.events = s.events ++ [event])
    (hback : ∀ a, event.returned a = if a = b then back else 0) : Rewrites s t b plan back where
  plans_eq := hplans
  returned_eq a := by rw [returned_append hevents, hback]

theorem createVesting_eq_ok
    (h : s.createVesting timestamp sender b amount cliff duration revocable transferred = .ok t) :
    (s.plan b).totalAmount = 0 ∧ t.totalReserved = s.totalReserved + amount ∧
      ∃ plan, Rewrites s t b plan 0 ∧ plan.totalAmount = amount ∧ plan.claimed = 0 ∧
        plan.revoked = false := by
  simp only [createVesting, onlyOwner, ensure_bind_eq_ok, add_bind_eq_ok] at h
  obtain ⟨-, -, -, -, hnone, -, -, h⟩ := h
  cases h
  refine ⟨hnone, rfl, _, rewrites_of_log rfl rfl ?_, rfl, rfl, rfl⟩
  intro a
  simp [VestingEvent.returned]

theorem claim_eq_ok (h : s.claim timestamp sender transferred = .ok t) :
    (s.plan sender).revoked = false ∧ ∃ vested,
      vestedAmount timestamp (s.plan sender) = .ok vested ∧ (s.plan sender).claimed ≤ vested ∧
      t.totalReserved + (vested - (s.plan sender).claimed) = s.totalReserved ∧
      Rewrites s t sender { s.plan sender with claimed := vested } 0 := by
  simp only [claim, ensure_bind_eq_ok] at h
  obtain ⟨-, hrevoked, h⟩ := h
  rw [bind_eq_ok] at h
  obtain ⟨vested, hvested, h⟩ := h
  simp only [sub_bind_eq_ok, ensure_bind_eq_ok, add_bind_eq_ok] at h
  obtain ⟨hle, -, -, hreserved, -, h⟩ := h
  rw [Nat.add_sub_cancel' hle] at h
  cases h
  refine ⟨hrevoked, vested, hvested, hle, Nat.sub_add_cancel hreserved,
    rewrites_of_log rfl rfl ?_⟩
  intro a
  simp [VestingEvent.returned]

theorem giveBack_eq_ok {unvested reserved : Nat}
    (h : s.giveBack unvested transferred = .ok reserved) :
    reserved + unvested = s.totalReserved := by
  rw [giveBack] at h
  split at h
  · simp only [sub_bind_eq_ok, ensure_bind_eq_ok] at h
    cases h.2.2
    exact Nat.sub_add_cancel h.1
  · cases h
    omega

theorem revoke_eq_ok (h : s.revoke timestamp sender b transferred = .ok t) :
    (s.plan b).revoked = false ∧ ∃ vested,
      vestedAmount timestamp (s.plan b) = .ok vested ∧ vested ≤ (s.plan b).totalAmount ∧
      t.totalReserved + ((s.plan b).totalAmount - vested) = s.totalReserved ∧
      Rewrites s t b { s.plan b with revoked := true } ((s.plan b).totalAmount - vested) := by
  simp only [revoke, onlyOwner, ensure_bind_eq_ok] at h
  obtain ⟨-, -, -, hrevoked, h⟩ := h
  rw [bind_eq_ok] at h
  obtain ⟨vested, hvested, h⟩ := h
  rw [sub_bind_eq_ok, bind_eq_ok] at h
  obtain ⟨hle, reserved, hreserved, h⟩ := h
  cases h
  refine ⟨hrevoked, vested, hvested, hle, giveBack_eq_ok hreserved, rewrites_of_log rfl rfl ?_⟩
  intro a
  exact if_congr eq_comm rfl rfl

theorem Accounts.createVesting (h : s.Accounts timestamp)
    (hcall : s.createVesting timestamp sender b amount cliff duration revocable transferred =
      .ok t) : t.Accounts timestamp := by
  obtain ⟨hnone, hreserved, plan, hr, htotal, hclaimed, -⟩ := createVesting_eq_ok hcall
  have hpaid := h.paid_le b
  have hreturned : s.returned b = 0 := by omega
  apply h.rewrite hr
  · rw [hclaimed]
    exact Nat.zero_le _
  · omega
  · intro _
    rw [hreturned]
  · rw [outstanding, outstanding, hr.returned_eq, if_pos rfl]
    omega

theorem Accounts.claim (h : s.Accounts timestamp)
    (hcall : s.claim timestamp sender transferred = .ok t) : t.Accounts timestamp := by
  obtain ⟨hrevoked, vested, hvested, hle, hreserved, hr⟩ := claim_eq_ok hcall
  have heq := vestedAmount_eq hvested
  have htotal := vestedAt_le timestamp (s.plan sender)
  have hreturned := h.returned_eq sender hrevoked
  apply h.rewrite hr
  · exact heq.le
  · rw [hreturned]
    exact heq.le.trans htotal
  · intro _
    rw [hreturned]
  · rw [outstanding, outstanding, hr.returned_eq, if_pos rfl]
    dsimp only
    omega

/-- What has not vested goes back. -/
theorem Accounts.revoke (h : s.Accounts timestamp)
    (hcall : s.revoke timestamp sender b transferred = .ok t) : t.Accounts timestamp := by
  obtain ⟨hrevoked, vested, hvested, hle, hreserved, hr⟩ := revoke_eq_ok hcall
  have hclaimed := h.claimed_le b
  rw [← vestedAmount_eq hvested] at hclaimed
  have hreturned := h.returned_eq b hrevoked
  apply h.rewrite hr
  · exact h.claimed_le b
  · rw [hreturned]
    dsimp only
    omega
  · nofun
  · rw [outstanding, outstanding, hr.returned_eq, if_pos rfl]
    dsimp only
    omega

end Calls

section Payout

variable {s t : VestingSchedule} {a b : Address} {timestamp : Nat} {plan : VestingPlan}

/-- The plan was not revoked, or has been paid out; or its vesting never ends. -/
def PaidOut (s : VestingSchedule) (a : Address) : Prop :=
  (s.plan a).revoked = false ∨ 2 ^ 256 ≤ (s.plan a).vestingEnd ∨
    (s.plan a).claimed + s.returned a = (s.plan a).totalAmount

theorem Accounts.claimable_of_vestingEnd {now : Nat} (h : s.Accounts now)
    (hword : timestamp < 2 ^ 256) (hend : (s.plan a).vestingEnd ≤ timestamp) :
    s.claimable timestamp a =
      .ok (if (s.plan a).revoked = true then 0 else (s.plan a).totalAmount - (s.plan a).claimed) := by
  have hpaid := h.paid_le a
  unfold claimable
  by_cases hrevoked : (s.plan a).revoked = true
  · rw [if_pos (.inr hrevoked), if_pos hrevoked]
  · rw [if_neg hrevoked]
    by_cases hnone : (s.plan a).totalAmount = 0
    · rw [if_pos (.inl hnone), hnone, Nat.zero_sub]
    · rw [if_neg (not_or.mpr ⟨hnone, hrevoked⟩), vestedAmount_of_vestingEnd hword hend, ok_bind]
      split
      · next hle => rw [Nat.sub_eq_zero_of_le hle]
      · rw [sub, if_pos (by omega)]

theorem Accounts.paysOut_iff (h : s.Accounts timestamp) : s.PaysOut ↔ ∀ a, s.PaidOut a := by
  constructor
  · rintro ⟨hall, -⟩ a
    by_cases hrevoked : (s.plan a).revoked = true
    · right
      by_cases hend : 2 ^ 256 ≤ (s.plan a).vestingEnd
      · exact .inl hend
      · obtain ⟨rest, hrest, hsum⟩ := hall a _ (not_le.mp hend) le_rfl
        rw [h.claimable_of_vestingEnd (not_le.mp hend) le_rfl, if_pos hrevoked,
          Except.ok.injEq] at hrest
        right
        omega
    · exact .inl (Bool.eq_false_of_not_eq_true hrevoked)
  · intro hall
    refine ⟨?_, h.reserved_eq⟩
    intro a timestamp hword hend
    refine ⟨_, h.claimable_of_vestingEnd hword hend, ?_⟩
    have hpaid := h.paid_le a
    rcases hall a with hrevoked | hnever | hpaidOut
    · rw [hrevoked, if_neg Bool.false_ne_true, h.returned_eq a hrevoked]
      omega
    · omega
    · split
      · exact hpaidOut
      · next hrevoked =>
        rw [h.returned_eq a (Bool.eq_false_of_not_eq_true hrevoked)]
        omega

/-- The other plans are paid out or not as before. -/
theorem Rewrites.paidOut_iff {back : Nat} (hr : Rewrites s t b plan back)
    (hs : ∀ a, s.PaidOut a) : (∀ a, t.PaidOut a) ↔ t.PaidOut b := by
  constructor
  · intro hall
    exact hall b
  · intro hb a
    by_cases ha : a = b
    · rwa [ha]
    · have hplan : t.plan a = s.plan a := by rw [plan_insert hr.plans_eq, if_neg ha]
      rw [PaidOut, hplan, hr.returned_eq, if_neg ha]
      exact hs a

theorem Rewrites.plan_eq {back : Nat} (hr : Rewrites s t b plan back) : t.plan b = plan := by
  rw [plan_insert hr.plans_eq, if_pos rfl]

theorem Rewrites.paidOut_of_not_revoked {back : Nat} (hr : Rewrites s t b plan back)
    (hs : ∀ a, s.PaidOut a) (hrevoked : plan.revoked = false) (a : Address) : t.PaidOut a :=
  (hr.paidOut_iff hs).mpr (.inl (by rw [hr.plan_eq, hrevoked])) a

/-- What vested and was not claimed before is claimed by nobody. -/
theorem Accounts.paidOut_revoke {sender : Address} {transferred : Bool}
    (h : s.Accounts timestamp) (hs : ∀ a, s.PaidOut a)
    (hcall : s.revoke timestamp sender b transferred = .ok t) :
    (∀ a, t.PaidOut a) ↔ Settled timestamp (s.plan b) := by
  obtain ⟨hrevoked, vested, hvested, hle, -, hr⟩ := revoke_eq_ok hcall
  have hclaimed := h.claimed_le b
  rw [← vestedAmount_eq hvested] at hclaimed
  rw [hr.paidOut_iff hs, PaidOut, hr.plan_eq, hr.returned_eq, if_pos rfl,
    h.returned_eq b hrevoked, Settled, hvested, Except.ok.injEq]
  change true = false ∨ 2 ^ 256 ≤ (s.plan b).vestingEnd ∨
    (s.plan b).claimed + (0 + ((s.plan b).totalAmount - vested)) = (s.plan b).totalAmount ↔ _
  rw [or_iff_right Bool.true_eq_false.mp, or_comm]
  apply or_congr_left
  omega

theorem Accounts.step {s t : Clocked VestingSchedule} {i : Clocked.Input Call}
    (h : s.contract.Accounts s.timestamp) (hcall : Clocked.step call s i = .ok t) :
    t.contract.Accounts t.timestamp := by
  cases i with
  | wait seconds =>
    rw [Clocked.step_wait] at hcall
    subst hcall
    exact h.wait (Nat.le_add_right _ _)
  | transaction c =>
    obtain ⟨hcall, htime⟩ := Clocked.step_transaction.mp hcall
    rw [htime]
    cases c with
    | createVesting sender beneficiary amount cliff duration revocable transferred =>
      exact h.createVesting hcall
    | claim sender transferred => exact h.claim hcall
    | revoke sender beneficiary transferred => exact h.revoke hcall
    | transferOwnership sender newOwner =>
      simp only [call, transferOwnership, onlyOwner, ensure_bind_eq_ok, Except.ok.injEq] at hcall
      rw [← hcall.2.2]
      exact ⟨h.claimed_le, h.paid_le, h.returned_eq, h.reserved_eq⟩

theorem call_step {s t : Clocked VestingSchedule} {i : Clocked.Input Call}
    (h : s.contract.Accounts s.timestamp) (hs : ∀ a, s.contract.PaidOut a)
    (hcall : Clocked.step call s i = .ok t) :
    t.contract.Accounts t.timestamp ∧ ((∀ a, t.contract.PaidOut a) ↔ RevokesSettled s i) := by
  refine ⟨h.step hcall, ?_⟩
  cases i with
  | wait seconds =>
    rw [Clocked.step_wait] at hcall
    subst hcall
    exact iff_of_true hs trivial
  | transaction c =>
    replace hcall := (Clocked.step_transaction.mp hcall).1
    cases c with
    | createVesting sender beneficiary amount cliff duration revocable transferred =>
      obtain ⟨-, -, plan, hr, -, -, hrevoked⟩ := createVesting_eq_ok hcall
      exact iff_of_true (hr.paidOut_of_not_revoked hs hrevoked) trivial
    | claim sender transferred =>
      obtain ⟨hrevoked, vested, -, -, -, hr⟩ := claim_eq_ok hcall
      exact iff_of_true (hr.paidOut_of_not_revoked hs hrevoked) trivial
    | revoke sender beneficiary transferred => exact h.paidOut_revoke hs hcall
    | transferOwnership sender newOwner =>
      simp only [call, transferOwnership, onlyOwner, ensure_bind_eq_ok, Except.ok.injEq] at hcall
      rw [← hcall.2.2]
      exact iff_of_true hs trivial

end Payout

/-- The plans are paid out all along exactly as long as only settled plans are revoked. -/
theorem paysOut_iff_revokesSettled (owner : Address) (timestamp : Nat)
    (inputs : List (Clocked.Input Call)) :
    (∀ before, before <+: inputs →
        (run (Clocked.step call) ⟨timestamp, initial owner⟩ before).contract.PaysOut) ↔
      Guarded (Clocked.step call) RevokesSettled ⟨timestamp, initial owner⟩ inputs := by
  set start : Clocked VestingSchedule := ⟨timestamp, initial owner⟩
  have haccounts : start.contract.Accounts start.timestamp := accounts_initial timestamp owner
  have hall (before : List (Clocked.Input Call)) :
      let s := run (Clocked.step call) start before
      s.contract.Accounts s.timestamp :=
    run_invariant (P := fun s : Clocked VestingSchedule => s.contract.Accounts s.timestamp)
      (fun _ _ _ hs ht => hs.step ht) haccounts before
  have hinit : ∀ a, start.contract.PaidOut a := fun a => .inl rfl
  rw [← forall_prefix_iff_guarded_of
    (I := fun s : Clocked VestingSchedule => s.contract.Accounts s.timestamp)
    (P := fun s => ∀ a, s.contract.PaidOut a) (fun _ _ _ hI hs ht => call_step hI hs ht)
    haccounts hinit]
  apply forall₂_congr
  intro before _
  exact (hall before).paysOut_iff

/-- Half of the plan has vested and is not claimed when it is revoked. -/
def earlyRevocation : List (Clocked.Input Call) :=
  [.transaction (.createVesting 1 2 100 0 100 true true), .wait 50,
    .transaction (.revoke 1 2 true)]

theorem earlyRevocation_strands :
    ¬(run (Clocked.step call) ⟨0, initial 1⟩ earlyRevocation).contract.PaysOut := by
  rintro ⟨hall, -⟩
  obtain ⟨rest, hrest, hsum⟩ := hall 2 100 (by norm_num) (by decide)
  have hnothing : (run (Clocked.step call) ⟨0, initial 1⟩ earlyRevocation).contract.claimable 100 2 =
      .ok 0 := by decide
  rw [hnothing] at hrest
  cases hrest
  revert hsum
  decide

end VestingSchedule

end Qubitcoin.Contracts
