import Qubitcoin.Contracts.QBC20

/-! Revenue sharing with an accumulator of the reward per share, and when it can pay what it
owes. -/

namespace Qubitcoin.Contracts

open Solidity Checked
open Evm (Address)

structure InvestorInfo where
  shares : Nat := 0
  rewardDebt : Nat := 0
  totalClaimed : Nat := 0
  registered : Bool := false
  deriving DecidableEq

/-- The distributor and the token it pays in. -/
structure RevenueDistributor where
  owner : Address
  feeCollector : Address
  paused : Bool := false
  qbcToken : QBC20
  accRewardPerShare : Nat := 0
  totalShares : Nat := 0
  totalDistributed : Nat := 0
  totalRegistered : Nat := 0
  investors : StorageMap Address InvestorInfo := ∅

namespace RevenueDistributor

/-- `1e18`. -/
def precision : Nat := 10 ^ 18

/-- An empty distributor. -/
def initial (sender feeCollector : Address) (qbcToken : QBC20) : RevenueDistributor where
  owner := sender
  feeCollector := feeCollector
  qbcToken := qbcToken

variable (this : Address) (self : RevenueDistributor)

def investor (qbcAddress : Address) : InvestorInfo := self.investors.value {} qbcAddress

def depositRevenue (sender : Address) (amount : Nat) : Except String RevenueDistributor := do
  ensure (self.paused = false) "RevenueDistributor: paused"
  ensure (sender = self.feeCollector) "RevenueDistributor: caller is not fee collector"
  ensure (0 < amount) "RevenueDistributor: zero amount"
  ensure (0 < self.totalShares) "RevenueDistributor: no investors"
  let qbcToken ← self.qbcToken.transferFrom this sender this amount
  let scaled ← mul amount precision
  let reward ← div scaled self.totalShares
  let accRewardPerShare ← add self.accRewardPerShare reward
  let totalDistributed ← add self.totalDistributed amount
  .ok { self with
    qbcToken := qbcToken
    accRewardPerShare := accRewardPerShare
    totalDistributed := totalDistributed }

/-- One turn of the loop of `registerInvestors`. -/
def register (addr : Address) (share : Nat) : Except String RevenueDistributor := do
  ensure (0 < share) "RevenueDistributor: zero shares"
  ensure ((self.investor addr).registered = false) "RevenueDistributor: already registered"
  let scaled ← mul share self.accRewardPerShare
  let rewardDebt ← div scaled precision
  let totalShares ← add self.totalShares share
  let totalRegistered ← add self.totalRegistered 1
  .ok { self with
    investors := self.investors.insert addr
      { shares := share, rewardDebt := rewardDebt, totalClaimed := 0, registered := true }
    totalShares := totalShares
    totalRegistered := totalRegistered }

def registerAll (self : RevenueDistributor) : List (Address × Nat) → Except String RevenueDistributor
  | [] => .ok self
  | (addr, share) :: rest => do
    let registered ← self.register addr share
    registered.registerAll rest

def registerInvestors (sender : Address) (addresses : List Address) (shares : List Nat) :
    Except String RevenueDistributor := do
  ensure (sender = self.owner) "RevenueDistributor: caller is not the owner"
  ensure (addresses.length = shares.length) "RevenueDistributor: length mismatch"
  ensure (0 < addresses.length ∧ addresses.length ≤ 100) "RevenueDistributor: batch size 1-100"
  self.registerAll (addresses.zip shares)

def pendingRevenue (qbcAddress : Address) : Except String Nat := do
  let info := self.investor qbcAddress
  if info.registered then do
    let scaled ← mul info.shares self.accRewardPerShare
    let accrued ← div scaled precision
    sub accrued info.rewardDebt
  else .ok 0

def claimRevenue (sender : Address) : Except String RevenueDistributor := do
  ensure (self.paused = false) "RevenueDistributor: paused"
  let info := self.investor sender
  ensure (info.registered = true) "RevenueDistributor: not registered"
  let scaled ← mul info.shares self.accRewardPerShare
  let accrued ← div scaled precision
  let pending ← sub accrued info.rewardDebt
  ensure (0 < pending) "RevenueDistributor: nothing to claim"
  let totalClaimed ← add info.totalClaimed pending
  let qbcToken ← self.qbcToken.transfer this sender pending
  .ok { self with
    investors := self.investors.insert sender
      { info with rewardDebt := accrued, totalClaimed := totalClaimed }
    qbcToken := qbcToken }

/-- The calls to the distributor, and to its token, which is in use elsewhere. -/
inductive Call (this : Address)
  | registerInvestors (sender : Caller this) (addresses : List Address) (shares : List Nat)
  | depositRevenue (sender : Caller this) (amount : Nat)
  | claimRevenue (sender : Caller this)
  | token (sender : Caller this) (c : QBC20.Call)

def call (self : RevenueDistributor) : Call this → Except String RevenueDistributor
  | .registerInvestors sender addresses shares => self.registerInvestors sender addresses shares
  | .depositRevenue sender amount => self.depositRevenue this sender amount
  | .claimRevenue sender => self.claimRevenue this sender
  | .token sender c => do
    let qbcToken ← self.qbcToken.call sender c
    .ok { self with qbcToken := qbcToken }

/-- What an investor is owed, rounded down. -/
def pending (info : InvestorInfo) : Nat :=
  info.shares * self.accRewardPerShare / precision - info.rewardDebt

/-- The distributor holds what it owes, so no claim fails for lack of funds. -/
def Solvent : Prop :=
  (self.investors.weigh fun _ info => self.pending info) ≤ self.qbcToken.balanceOf this ∧
    ∀ sender, self.claimRevenue this sender ≠ .error "QBC20: insufficient"

/-- What has to hold of a call: no rounding when the debt of a new investor is set. -/
def Exact (self : RevenueDistributor) : Call this → Prop
  | .registerInvestors _ _ shares => ∀ share ∈ shares, precision ∣ share * self.accRewardPerShare
  | _ => True

instance : (c : Call this) → Decidable (self.Exact this c)
  | .registerInvestors _ _ shares =>
    inferInstanceAs (Decidable (∀ share ∈ shares, precision ∣ share * self.accRewardPerShare))
  | .depositRevenue _ _ | .claimRevenue _ | .token _ _ => .isTrue trivial

variable {this self} {s t : RevenueDistributor} {sender a : Address} {amount share : Nat}

theorem pendingRevenue_eq_ok {n : Nat} (h : s.pendingRevenue a = .ok n)
    (hregistered : (s.investor a).registered = true) : n = s.pending (s.investor a) := by
  unfold pendingRevenue at h
  dsimp only at h
  rw [if_pos hregistered, mul_bind_eq_ok, div_bind_eq_ok, sub_eq_ok] at h
  exact h.2.2.2.symm

/-- Multiplied out, what the shares have earned is covered by what is there and what has been
paid. -/
structure Covered (this : Address) (s : RevenueDistributor) : Prop where
  shares : s.totalShares = s.investors.weigh fun _ info => info.shares
  debt : ∀ a, (s.investor a).rewardDebt * precision ≤ (s.investor a).shares * s.accRewardPerShare
  fresh : ∀ a, (s.investor a).registered = false → s.investor a = {}
  covered : s.totalShares * s.accRewardPerShare ≤
    (s.qbcToken.balanceOf this + s.investors.weigh fun _ info => info.rewardDebt) * precision
  closed : s.qbcToken.Closed this

theorem initial_covered {qbcToken : QBC20} (feeCollector : Address)
    (h : qbcToken.Closed this) : (initial sender feeCollector qbcToken).Covered this where
  shares := rfl
  debt a := by simp [initial, investor]
  fresh a _ := by simp [initial, investor]
  covered := by simp [initial]
  closed := h

theorem precision_pos : 0 < precision := by decide

theorem Covered.pending_le (h : s.Covered this) :
    (s.investors.weigh fun _ info => s.pending info) ≤ s.qbcToken.balanceOf this := by
  have hearned : (s.investors.weigh fun _ info => (s.pending info + info.rewardDebt) * precision) ≤
      s.investors.weigh fun _ info => info.shares * s.accRewardPerShare := by
    apply StorageMap.weigh_le
    intro a info hinfo
    have hdebt := h.debt a
    have heq : s.investor a = info := by
      simp [investor, StorageMap.value, hinfo]
    rw [heq, ← Nat.le_div_iff_mul_le precision_pos] at hdebt
    have hsum : s.pending info + info.rewardDebt = info.shares * s.accRewardPerShare / precision :=
      Nat.sub_add_cancel hdebt
    rw [hsum]
    exact Nat.div_mul_le_self _ _
  rw [StorageMap.weigh_mul_right, StorageMap.weigh_mul_right, StorageMap.weigh_add, ← h.shares]
    at hearned
  have hle := Nat.le_of_mul_le_mul_right (hearned.trans h.covered) precision_pos
  exact Nat.le_of_add_le_add_right hle

theorem claimRevenue_ne_insufficient (h : s.pending (s.investor sender) ≤ s.qbcToken.balanceOf this) :
    s.claimRevenue this sender ≠ .error "QBC20: insufficient" := by
  unfold claimRevenue
  apply bind_ne_error (ensure_ne_error (.inr (by decide)))
  intro _ _
  apply bind_ne_error (ensure_ne_error (.inr (by decide)))
  intro _ _
  apply bind_ne_error (mul_ne_error (by decide))
  intro scaled hscaled
  apply bind_ne_error (div_ne_error (by decide))
  intro accrued haccrued
  apply bind_ne_error (sub_ne_error (by decide))
  intro pending hpending
  apply bind_ne_error (ensure_ne_error (.inr (by decide)))
  intro _ _
  apply bind_ne_error (add_ne_error (by decide))
  intro _ _
  have hpays : pending ≤ s.qbcToken.balanceOf this := by
    cases (mul_eq_ok.mp hscaled).2
    cases (div_eq_ok.mp haccrued).2
    cases (sub_eq_ok.mp hpending).2
    exact h
  apply bind_ne_error (QBC20.transfer_ne_insufficient hpays)
  intro _ _ h
  cases h

theorem Covered.solvent (h : s.Covered this) : s.Solvent this := by
  refine ⟨h.pending_le, fun sender => claimRevenue_ne_insufficient ?_⟩
  cases hinfo : s.investors.lookup sender with
  | none =>
    have hnothing : s.investor sender = {} := by
      simp [investor, StorageMap.value, hinfo]
    rw [hnothing]
    exact (Nat.zero_le _).trans' (by simp [pending])
  | some info =>
    have heq : s.investor sender = info := by
      simp [investor, StorageMap.value, hinfo]
    rw [heq]
    exact (StorageMap.le_weigh (fun _ info => s.pending info) hinfo).trans h.pending_le

theorem depositRevenue_covered (hsender : sender ≠ this) (h : s.Covered this)
    (hcall : s.depositRevenue this sender amount = .ok t) : t.Covered this := by
  unfold depositRevenue at hcall
  simp only [ensure_bind_eq_ok] at hcall
  obtain ⟨-, -, -, -, hcall⟩ := hcall
  rw [bind_eq_ok] at hcall
  obtain ⟨qbcToken, htoken, hcall⟩ := hcall
  simp only [mul_bind_eq_ok, div_bind_eq_ok, add_bind_eq_ok] at hcall
  obtain ⟨-, -, -, -, hcall⟩ := hcall
  cases hcall
  obtain ⟨hbalance, hclosed⟩ := QBC20.transferFrom_this hsender htoken
  refine ⟨h.shares, ?_, h.fresh, ?_, hclosed h.closed⟩
  · intro a
    exact (h.debt a).trans (Nat.mul_le_mul_left _ (Nat.le_add_right _ _))
  · have hreward := Nat.mul_div_le (amount * precision) s.totalShares
    have hcovered := h.covered
    dsimp only
    rw [hbalance, Nat.mul_add, Nat.add_right_comm, Nat.add_mul]
    exact Nat.add_le_add hcovered hreward

/-- A new investor whose debt is exact owes and is owed nothing. -/
theorem register_covered (h : s.Covered this) (hexact : precision ∣ share * s.accRewardPerShare)
    (hcall : s.register a share = .ok t) :
    t.Covered this ∧ t.accRewardPerShare = s.accRewardPerShare := by
  unfold register at hcall
  simp only [ensure_bind_eq_ok, mul_bind_eq_ok, div_bind_eq_ok, add_bind_eq_ok] at hcall
  obtain ⟨-, hfresh, -, -, -, -, hcall⟩ := hcall
  cases hcall
  have hnothing : s.investors.value {} a = {} := h.fresh a hfresh
  have hshares := s.investors.weigh_replace (d := {}) (k := a) (fun _ info => info.shares)
    { shares := share, rewardDebt := share * s.accRewardPerShare / precision,
      totalClaimed := 0, registered := true } rfl
  have hdebts := s.investors.weigh_replace (d := {}) (k := a) (fun _ info => info.rewardDebt)
    { shares := share, rewardDebt := share * s.accRewardPerShare / precision,
      totalClaimed := 0, registered := true } rfl
  rw [hnothing] at hshares hdebts
  rw [Nat.add_zero] at hshares hdebts
  have hdebt := Nat.div_mul_cancel hexact
  refine ⟨⟨?_, ?_, ?_, ?_, h.closed⟩, rfl⟩
  · dsimp only
    rw [hshares, h.shares]
  · intro b
    unfold investor
    dsimp only
    rw [StorageMap.value_insert_eq]
    split
    · exact hdebt.le
    · exact h.debt b
  · intro b
    unfold investor
    dsimp only
    rw [StorageMap.value_insert_eq]
    split
    · intro hfresh
      cases hfresh
    · exact h.fresh b
  · have hcovered := h.covered
    dsimp only
    rw [hdebts, Nat.add_mul, ← Nat.add_assoc, Nat.add_mul, hdebt]
    exact Nat.add_le_add_right hcovered _

theorem registerAll_covered {batch : List (Address × Nat)} (h : s.Covered this)
    (hexact : ∀ entry ∈ batch, precision ∣ entry.2 * s.accRewardPerShare)
    (hcall : s.registerAll batch = .ok t) : t.Covered this := by
  induction batch generalizing s with
  | nil =>
    cases hcall
    exact h
  | cons entry batch ih =>
    obtain ⟨addr, share⟩ := entry
    rw [registerAll, bind_eq_ok] at hcall
    obtain ⟨r, hr, hcall⟩ := hcall
    obtain ⟨hcovered, hacc⟩ := register_covered h (hexact _ List.mem_cons_self) hr
    apply ih hcovered _ hcall
    intro entry hentry
    rw [hacc]
    exact hexact entry (List.mem_cons_of_mem _ hentry)

theorem registerInvestors_covered {addresses : List Address} {shares : List Nat}
    (h : s.Covered this) (hexact : ∀ share ∈ shares, precision ∣ share * s.accRewardPerShare)
    (hcall : s.registerInvestors sender addresses shares = .ok t) : t.Covered this := by
  unfold registerInvestors at hcall
  simp only [ensure_bind_eq_ok] at hcall
  obtain ⟨-, -, -, hcall⟩ := hcall
  apply registerAll_covered h _ hcall
  intro entry hentry
  exact hexact entry.2 (List.of_mem_zip hentry).2

theorem claimRevenue_covered (h : s.Covered this)
    (hcall : s.claimRevenue this sender = .ok t) : t.Covered this := by
  unfold claimRevenue at hcall
  simp only [ensure_bind_eq_ok, mul_bind_eq_ok, div_bind_eq_ok, sub_bind_eq_ok,
    add_bind_eq_ok] at hcall
  obtain ⟨-, hregistered, -, -, hdebt, -, -, hcall⟩ := hcall
  rw [bind_eq_ok] at hcall
  obtain ⟨qbcToken, htoken, hcall⟩ := hcall
  cases hcall
  obtain ⟨hbalance, hclosed⟩ := QBC20.transfer_this htoken
  have hshares := s.investors.weigh_replace (d := {}) (k := sender) (fun _ info => info.shares)
    { s.investor sender with
      rewardDebt := (s.investor sender).shares * s.accRewardPerShare / precision
      totalClaimed := (s.investor sender).totalClaimed +
        ((s.investor sender).shares * s.accRewardPerShare / precision -
          (s.investor sender).rewardDebt) } rfl
  have hdebts := s.investors.weigh_replace (d := {}) (k := sender) (fun _ info => info.rewardDebt)
    { s.investor sender with
      rewardDebt := (s.investor sender).shares * s.accRewardPerShare / precision
      totalClaimed := (s.investor sender).totalClaimed +
        ((s.investor sender).shares * s.accRewardPerShare / precision -
          (s.investor sender).rewardDebt) } rfl
  change _ + (s.investor sender).shares = _ + (s.investor sender).shares at hshares
  change _ + (s.investor sender).rewardDebt = _ at hdebts
  refine ⟨?_, ?_, ?_, ?_, hclosed h.closed⟩
  · dsimp only
    rw [h.shares, Nat.add_right_cancel hshares]
  · intro b
    unfold investor
    dsimp only
    rw [StorageMap.value_insert_eq]
    split
    · exact Nat.div_mul_le_self _ _
    · exact h.debt b
  · intro b
    unfold investor
    dsimp only
    rw [StorageMap.value_insert_eq]
    split
    · intro hfresh
      cases hregistered.symm.trans hfresh
    · exact h.fresh b
  · refine h.covered.trans (Nat.mul_le_mul_right _ ?_)
    dsimp only at hdebts ⊢
    omega

theorem call_covered {c : Call this} (h : s.Covered this) (hexact : s.Exact this c)
    (hcall : call this s c = .ok t) : t.Covered this := by
  cases c with
  | registerInvestors sender addresses shares => exact registerInvestors_covered h hexact hcall
  | depositRevenue sender amount => exact depositRevenue_covered sender.2 h hcall
  | claimRevenue sender => exact claimRevenue_covered h hcall
  | token sender c =>
    rw [call, bind_eq_ok] at hcall
    obtain ⟨qbcToken, htoken, hcall⟩ := hcall
    cases hcall
    obtain ⟨hclosed, hbalance⟩ := QBC20.call_closed sender.2 h.closed htoken
    refine ⟨h.shares, h.debt, h.fresh, ?_, hclosed⟩
    refine h.covered.trans (Nat.mul_le_mul_right _ ?_)
    exact Nat.add_le_add_right hbalance _

/-- Both contracts as deployed. -/
def deployed (sender feeCollector tokenOwner : Address) (supply : Nat) : RevenueDistributor :=
  initial sender feeCollector (.initial tokenOwner supply)

/-- In a run in which no debt of a new investor is rounded, the distributor stays solvent. -/
theorem solvent_of_exact (this sender feeCollector tokenOwner : Address) (supply : Nat)
    (calls : List (Call this))
    (hexact : Guarded (call this) (Exact this) (deployed sender feeCollector tokenOwner supply)
      calls) :
    (run (call this) (deployed sender feeCollector tokenOwner supply) calls).Solvent this := by
  apply Covered.solvent
  apply run_guarded (fun s c t h hexact hcall => call_covered h hexact hcall) _ hexact
  exact initial_covered feeCollector (QBC20.initial_closed _ _ _)

namespace Sample

theorem collector_ne : (2 : Address) ≠ 5 := by decide

def owner : Caller 5 := ⟨1, by decide⟩
def collector : Caller 5 := ⟨2, collector_ne⟩

/-- The first deposit leaves half a unit for each share; the later investors are not asked to
forgo it. -/
def late : List (Call 5) :=
  [.token collector (.approve 5 1000), .registerInvestors owner [10] [2],
    .depositRevenue collector 1, .registerInvestors owner [11, 12] [1, 1],
    .depositRevenue collector 2]

end Sample

theorem solvent_of_exact_sample :
    (run (call 5) (deployed 1 2 2 1000) [.token Sample.collector (.approve 5 1000),
      .registerInvestors Sample.owner [10] [2], .depositRevenue Sample.collector 3,
      .registerInvestors Sample.owner [11, 12] [4, 2],
      .depositRevenue Sample.collector 7]).Solvent 5 :=
  solvent_of_exact 5 1 2 2 1000 _ (by decide +kernel)

/-- Owing 4 and holding 3. -/
theorem late_investors_insolvent :
    ¬∀ (this sender feeCollector tokenOwner : Address) (supply : Nat) (calls : List (Call this)),
      (run (call this) (deployed sender feeCollector tokenOwner supply) calls).Solvent this := by
  intro h
  have hsolvent := (h 5 1 2 2 1000 Sample.late).1
  revert hsolvent
  decide +kernel

end RevenueDistributor

end Qubitcoin.Contracts
