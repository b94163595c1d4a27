import Qubitcoin.Evm.Words
import Qubitcoin.Library.Bytes
import Qubitcoin.Library.Clocked
import Qubitcoin.Library.StorageMap

/-! Vesting of two tokens for the investors of a Merkle tree, from a start that the owner may move. -/

namespace Qubitcoin.Contracts

open Solidity Checked
open Evm (Address)

structure VestingInfo where
  qbcTotal : Nat := 0
  qusdTotal : Nat := 0
  qbcClaimed : Nat := 0
  qusdClaimed : Nat := 0
  initialized : Bool := false

structure InvestorVesting where
  owner : Address
  paused : Bool := false
  merkleRoot : BitVec 256 := 0
  merkleRootSet : Bool := false
  tgeTimestamp : Nat := 0
  totalClaimedQBC : Nat := 0
  totalClaimedQUSD : Nat := 0
  totalInitialized : Nat := 0
  vestingInfo : StorageMap Address VestingInfo := ∅

namespace InvestorVesting

def cliffDuration : Nat := 180 * 86400
def vestingDuration : Nat := 720 * 86400

/-- `1e18`, the unit of fractions. -/
def precision : Nat := 10 ^ 18

def initial (sender : Address) : InvestorVesting where
  owner := sender

variable (keccak256 : Bytes → BitVec 256) (self : InvestorVesting)

/-- The address is the key itself, as `bytes20`. -/
def info (qbcAddress : Address) : VestingInfo := self.vestingInfo.value {} qbcAddress

def onlyOwner (sender : Address) : Except String Unit :=
  ensure (sender = self.owner) "InvestorVesting: caller is not the owner"

def whenNotPaused : Except String Unit :=
  ensure (self.paused = false) "InvestorVesting: paused"

def setMerkleRoot (sender : Address) (root : BitVec 256) : Except String InvestorVesting := do
  self.onlyOwner sender
  ensure (self.merkleRootSet = false) "InvestorVesting: merkle root already set"
  ensure (root ≠ 0) "InvestorVesting: zero root"
  .ok { self with merkleRoot := root, merkleRootSet := true }

def setTGETimestamp (sender : Address) (timestamp : Nat) : Except String InvestorVesting := do
  self.onlyOwner sender
  ensure (0 < timestamp) "InvestorVesting: zero timestamp"
  .ok { self with tgeTimestamp := timestamp }

/-- `pause` and `unpause`. -/
def setPaused (sender : Address) (paused : Bool) : Except String InvestorVesting := do
  self.onlyOwner sender
  .ok { self with paused := paused }

def transferOwnership (sender newOwner : Address) : Except String InvestorVesting := do
  self.onlyOwner sender
  ensure (newOwner ≠ 0) "InvestorVesting: zero owner"
  .ok { self with owner := newOwner }

/-- `abi.encodePacked` of a word of `width` bytes. -/
def packed (width n : Nat) : Bytes := (Bytes.le width n).reverse

/-- `_verifyProof`. -/
def verifyProof (root : BitVec 256) : List (BitVec 256) → BitVec 256 → Bool
  | [], hash => hash = root
  | proofElement :: proof, hash =>
    if hash ≤ proofElement then
      verifyProof root proof (keccak256 (packed 32 hash.toNat ++ packed 32 proofElement.toNat))
    else verifyProof root proof (keccak256 (packed 32 proofElement.toNat ++ packed 32 hash.toNat))

def initializeClaim (sender : Address) (qbcAmount qusdAmount : Nat) (proof : List (BitVec 256)) :
    Except String InvestorVesting := do
  self.whenNotPaused
  ensure (self.merkleRootSet = true) "InvestorVesting: merkle root not set"
  ensure ((self.info sender).initialized = false) "InvestorVesting: already initialized"
  ensure (0 < qbcAmount ∨ 0 < qusdAmount) "InvestorVesting: zero allocation"
  let leaf := keccak256 (packed 20 sender.toNat ++ packed 32 qbcAmount ++ packed 32 qusdAmount)
  ensure (verifyProof keccak256 self.merkleRoot proof leaf = true)
    "InvestorVesting: invalid merkle proof"
  let totalInitialized ← add self.totalInitialized 1
  .ok { self with
    vestingInfo := self.vestingInfo.insert sender
      { qbcTotal := qbcAmount
        qusdTotal := qusdAmount
        qbcClaimed := 0
        qusdClaimed := 0
        initialized := true }
    totalInitialized := totalInitialized }

def getVestedFraction (timestamp : Nat) : Except String Nat :=
  if self.tgeTimestamp = 0 then .ok 0
  else do
    let cliffEnd ← add self.tgeTimestamp cliffDuration
    if timestamp ≤ cliffEnd then .ok 0
    else do
      let sinceStart ← sub timestamp self.tgeTimestamp
      let elapsed ← sub sinceStart cliffDuration
      if vestingDuration ≤ elapsed then .ok precision
      else do
        let scaled ← mul elapsed precision
        div scaled vestingDuration

/-- What of an allocation has vested. -/
def vested (total fraction : Nat) : Except String Nat := do
  let scaled ← mul total fraction
  div scaled precision

/-- The amounts that `claim` computes before it looks whether there is something to claim. -/
def claimable (timestamp : Nat) (info : VestingInfo) : Except String (Nat × Nat) := do
  let fraction ← self.getVestedFraction timestamp
  let qbcVested ← vested info.qbcTotal fraction
  let qusdVested ← vested info.qusdTotal fraction
  let qbcClaimable ← sub qbcVested info.qbcClaimed
  let qusdClaimable ← sub qusdVested info.qusdClaimed
  .ok (qbcClaimable, qusdClaimable)

/-- `qbcTransferred` and `qusdTransferred` are what the tokens answer; they call nothing back, so the
guard against reentrancy is open. -/
def claim (timestamp : Nat) (sender : Address) (qbcTransferred qusdTransferred : Bool) :
    Except String InvestorVesting := do
  self.whenNotPaused
  let info := self.info sender
  ensure (info.initialized = true) "InvestorVesting: not initialized"
  ensure (0 < self.tgeTimestamp) "InvestorVesting: TGE not set"
  let cliffEnd ← add self.tgeTimestamp cliffDuration
  ensure (cliffEnd < timestamp) "InvestorVesting: cliff not reached"
  let (qbcClaimable, qusdClaimable) ← self.claimable timestamp info
  ensure (0 < qbcClaimable ∨ 0 < qusdClaimable) "InvestorVesting: nothing to claim"
  let qbcClaimed ← add info.qbcClaimed qbcClaimable
  let qusdClaimed ← add info.qusdClaimed qusdClaimable
  let totalClaimedQBC ← add self.totalClaimedQBC qbcClaimable
  let totalClaimedQUSD ← add self.totalClaimedQUSD qusdClaimable
  ensure (0 < qbcClaimable → qbcTransferred = true) "InvestorVesting: QBC transfer failed"
  ensure (0 < qusdClaimable → qusdTransferred = true) "InvestorVesting: QUSD transfer failed"
  .ok { self with
    vestingInfo := self.vestingInfo.insert sender
      { info with qbcClaimed := qbcClaimed, qusdClaimed := qusdClaimed }
    totalClaimedQBC := totalClaimedQBC
    totalClaimedQUSD := totalClaimedQUSD }

/-- What `getVestingInfo` adds to the stored fields. -/
structure Claimable where
  qbcClaimable : Nat := 0
  qusdClaimable : Nat := 0

/-- `getVestingInfo`. -/
def getVestingInfo (timestamp : Nat) (qbcAddress : Address) :
    Except String (VestingInfo × Claimable) := do
  let info := self.info qbcAddress
  if info.initialized = true ∧ 0 < self.tgeTimestamp then do
    let cliffEnd ← add self.tgeTimestamp cliffDuration
    if cliffEnd < timestamp then do
      let fraction ← self.getVestedFraction timestamp
      let qbcVested ← vested info.qbcTotal fraction
      let qusdVested ← vested info.qusdTotal fraction
      .ok (info,
        { qbcClaimable := if info.qbcClaimed < qbcVested then qbcVested - info.qbcClaimed else 0
          qusdClaimable :=
            if info.qusdClaimed < qusdVested then qusdVested - info.qusdClaimed else 0 })
    else .ok (info, {})
  else .ok (info, {})

inductive Call
  | setMerkleRoot (sender : Address) (root : BitVec 256)
  | setTGETimestamp (sender : Address) (timestamp : Nat)
  | setPaused (sender : Address) (paused : Bool)
  | transferOwnership (sender newOwner : Address)
  | initializeClaim (sender : Address) (qbcAmount qusdAmount : Nat) (proof : List (BitVec 256))
  | claim (sender : Address) (qbcTransferred qusdTransferred : Bool)

def call (timestamp : Nat) (self : InvestorVesting) : Call → Except String InvestorVesting
  | .setMerkleRoot sender root => self.setMerkleRoot sender root
  | .setTGETimestamp sender timestamp => self.setTGETimestamp sender timestamp
  | .setPaused sender paused => self.setPaused sender paused
  | .transferOwnership sender newOwner => self.transferOwnership sender newOwner
  | .initializeClaim sender qbcAmount qusdAmount proof =>
    self.initializeClaim keccak256 sender qbcAmount qusdAmount proof
  | .claim sender qbcTransferred qusdTransferred =>
    self.claim timestamp sender qbcTransferred qusdTransferred

section Fractions

variable {self : InvestorVesting} {timestamp total fraction later amount : Nat}

theorem getVestedFraction_le (h : self.getVestedFraction timestamp = .ok fraction) :
    fraction ≤ precision := by
  unfold getVestedFraction at h
  split at h
  · cases h
    exact Nat.zero_le _
  · rw [add_bind_eq_ok] at h
    replace h := h.2
    split at h
    · cases h
      exact Nat.zero_le _
    · simp only [sub_bind_eq_ok] at h
      replace h := h.2.2
      split at h
      · cases h
        exact le_rfl
      · next hlinear =>
        simp only [mul_bind_eq_ok, div_eq_ok] at h
        rw [← h.2.2]
        apply Nat.div_le_of_le_mul
        exact Nat.mul_le_mul_right _ (not_le.mp hlinear).le

/-- The part of an allocation that a fraction stands for, rounded down. -/
def share (total fraction : Nat) : Nat := total * fraction / precision

theorem share_zero (total : Nat) : share total 0 = 0 := by rw [share, Nat.mul_zero, Nat.zero_div]

theorem share_le (h : fraction ≤ precision) : share total fraction ≤ total := by
  apply Nat.div_le_of_le_mul
  rw [Nat.mul_comm]
  exact Nat.mul_le_mul_right _ h

theorem share_mono (h : fraction ≤ later) (total : Nat) : share total fraction ≤ share total later :=
  Nat.div_le_div_right (Nat.mul_le_mul_left _ h)

/-- Where a share has grown, the fraction has, and so have all shares. -/
theorem share_le_of_lt {other : Nat} (h : share total fraction < share total later) :
    share other fraction ≤ share other later := by
  apply share_mono
  by_contra hlt
  exact absurd (share_mono (not_le.mp hlt).le total) (not_le.mpr h)

theorem vested_eq_ok : vested total fraction = .ok amount ↔
    total * fraction < 2 ^ 256 ∧ share total fraction = amount := by
  rw [vested, mul_bind_eq_ok, div_eq_ok]
  constructor
  · rintro ⟨hword, -, heq⟩
    exact ⟨hword, heq⟩
  · rintro ⟨hword, heq⟩
    exact ⟨hword, by decide, heq⟩

end Fractions

section Claims

variable {self t : InvestorVesting} {timestamp fraction : Nat} {info : VestingInfo}
  {a sender : Address}

theorem info_insert (h : t.vestingInfo = self.vestingInfo.insert sender info) (a : Address) :
    t.info a = if a = sender then info else self.info a := by
  rw [InvestorVesting.info, h, StorageMap.value_insert_eq]
  rfl

/-- Both tokens are claimed to the share of one fraction, zero before there is an allocation. -/
structure ClaimedTo (info : VestingInfo) (fraction : Nat) : Prop where
  le_precision : fraction ≤ precision
  eq_zero : info.initialized = false → fraction = 0
  qbc_eq : info.qbcClaimed = share info.qbcTotal fraction
  qusd_eq : info.qusdClaimed = share info.qusdTotal fraction

theorem claimedTo_zero (hqbc : info.qbcClaimed = 0) (hqusd : info.qusdClaimed = 0) :
    ClaimedTo info 0 where
  le_precision := Nat.zero_le _
  eq_zero _ := rfl
  qbc_eq := by rw [hqbc, share_zero]
  qusd_eq := by rw [hqusd, share_zero]

/-- Where one token has something to claim, neither subtraction fails. -/
theorem ClaimedTo.claimable_eq (h : ClaimedTo info fraction) {now : Nat}
    (hfraction : self.getVestedFraction timestamp = .ok now)
    (hqbc : info.qbcTotal * now < 2 ^ 256) (hqusd : info.qusdTotal * now < 2 ^ 256)
    (hgrown : info.qbcClaimed < share info.qbcTotal now ∨
      info.qusdClaimed < share info.qusdTotal now) :
    info.qbcClaimed ≤ share info.qbcTotal now ∧ info.qusdClaimed ≤ share info.qusdTotal now ∧
      self.claimable timestamp info = .ok (share info.qbcTotal now - info.qbcClaimed,
        share info.qusdTotal now - info.qusdClaimed) := by
  have hle : info.qbcClaimed ≤ share info.qbcTotal now ∧
      info.qusdClaimed ≤ share info.qusdTotal now := by
    rw [h.qbc_eq, h.qusd_eq] at hgrown ⊢
    cases hgrown with
    | inl hlt => exact ⟨hlt.le, share_le_of_lt hlt⟩
    | inr hlt => exact ⟨share_le_of_lt hlt, hlt.le⟩
  refine ⟨hle.1, hle.2, ?_⟩
  rw [claimable, hfraction, ok_bind, vested_eq_ok.mpr ⟨hqbc, rfl⟩, ok_bind,
    vested_eq_ok.mpr ⟨hqusd, rfl⟩, ok_bind, sub, if_pos hle.1, ok_bind, sub, if_pos hle.2]
  rfl

/-- What is reported is what a claim would pay, and it is past the cliff. -/
theorem ClaimedTo.claimable_of_reported (h : ClaimedTo (self.info a) fraction)
    {stored : VestingInfo} {reported : Claimable}
    (hinfo : self.getVestingInfo timestamp a = .ok (stored, reported))
    (hpos : 0 < reported.qbcClaimable ∨ 0 < reported.qusdClaimable) :
    self.claimable timestamp (self.info a) =
        .ok (reported.qbcClaimable, reported.qusdClaimable) ∧
      (self.info a).initialized = true ∧ 0 < self.tgeTimestamp ∧
      self.tgeTimestamp + cliffDuration < 2 ^ 256 ∧
      self.tgeTimestamp + cliffDuration < timestamp ∧
      (self.info a).qbcClaimed + reported.qbcClaimable < 2 ^ 256 ∧
      (self.info a).qusdClaimed + reported.qusdClaimable < 2 ^ 256 := by
  have hnone : ¬(0 < ({} : Claimable).qbcClaimable ∨ 0 < ({} : Claimable).qusdClaimable) := by
    decide
  have hshare (total now : Nat) : share total now ≤ total * now := Nat.div_le_self _ _
  simp only [getVestingInfo] at hinfo
  split at hinfo
  · next hset =>
    rw [add_bind_eq_ok] at hinfo
    obtain ⟨hword, hinfo⟩ := hinfo
    split at hinfo
    · next hcliff =>
      simp only [bind_eq_ok, vested_eq_ok, Except.ok.injEq, Prod.mk.injEq] at hinfo
      obtain ⟨now, hfraction, _, ⟨hqbc, rfl⟩, _, ⟨hqusd, rfl⟩, -, rfl⟩ := hinfo
      have hsub (x y : Nat) : (if x < y then y - x else 0) = y - x := by
        split <;> omega
      rw [hsub, hsub] at hpos ⊢
      obtain ⟨hqbcLe, hqusdLe, heq⟩ := h.claimable_eq hfraction hqbc hqusd
        (hpos.imp Nat.lt_of_sub_pos Nat.lt_of_sub_pos)
      refine ⟨heq, hset.1, hset.2, hword, hcliff, ?_, ?_⟩
      · rw [Nat.add_sub_cancel' hqbcLe]
        exact (hshare _ _).trans_lt hqbc
      · rw [Nat.add_sub_cancel' hqusdLe]
        exact (hshare _ _).trans_lt hqusd
    · cases hinfo
      exact absurd hpos hnone
  · cases hinfo
    exact absurd hpos hnone

/-- What is reported can be claimed, unless the sums over all investors overflow. -/
theorem ClaimedTo.claim_of_reported (h : ClaimedTo (self.info a) fraction)
    {stored : VestingInfo} {reported : Claimable}
    (hinfo : self.getVestingInfo timestamp a = .ok (stored, reported))
    (hpos : 0 < reported.qbcClaimable ∨ 0 < reported.qusdClaimable) (hpaused : self.paused = false)
    (hqbc : self.totalClaimedQBC + reported.qbcClaimable < 2 ^ 256)
    (hqusd : self.totalClaimedQUSD + reported.qusdClaimable < 2 ^ 256) :
    ∃ t, self.claim timestamp a true true = .ok t := by
  obtain ⟨heq, hinitialized, hset, hword, hcliff, hqbc', hqusd'⟩ :=
    h.claimable_of_reported hinfo hpos
  simp only [claim, whenNotPaused, ensure_bind_eq_ok, add_bind_eq_ok, heq, ok_bind]
  exact ⟨_, hpaused, hinitialized, hset, hword, hcliff, hpos, hqbc', hqusd', hqbc, hqusd,
    fun _ => trivial, fun _ => trivial, rfl⟩

theorem claimable_eq_ok {amounts : Nat × Nat} (h : self.claimable timestamp info = .ok amounts) :
    ∃ now, self.getVestedFraction timestamp = .ok now ∧
      info.qbcClaimed ≤ share info.qbcTotal now ∧ info.qusdClaimed ≤ share info.qusdTotal now ∧
      amounts = (share info.qbcTotal now - info.qbcClaimed,
        share info.qusdTotal now - info.qusdClaimed) := by
  simp only [claimable, bind_eq_ok, vested_eq_ok, sub_eq_ok] at h
  obtain ⟨now, hfraction, _, ⟨-, rfl⟩, _, ⟨-, rfl⟩, _, ⟨hqbc, rfl⟩, _, ⟨hqusd, rfl⟩, hamounts⟩ := h
  cases hamounts
  exact ⟨now, hfraction, hqbc, hqusd, rfl⟩

/-- A claim brings both tokens to the share of the fraction of its time. -/
theorem claim_eq_ok {qbcTransferred qusdTransferred : Bool}
    (h : self.claim timestamp sender qbcTransferred qusdTransferred = .ok t) :
    ∃ now info, self.getVestedFraction timestamp = .ok now ∧ ClaimedTo info now ∧
      t.vestingInfo = self.vestingInfo.insert sender info := by
  simp only [claim, whenNotPaused, ensure_bind_eq_ok, add_bind_eq_ok] at h
  obtain ⟨-, hinitialized, -, -, -, h⟩ := h
  rw [bind_eq_ok] at h
  obtain ⟨amounts, hamounts, h⟩ := h
  obtain ⟨now, hfraction, hqbc, hqusd, rfl⟩ := claimable_eq_ok hamounts
  simp only [ensure_bind_eq_ok, add_bind_eq_ok] at h
  obtain ⟨-, -, -, -, -, -, -, h⟩ := h
  cases h
  refine ⟨now, _, hfraction, ⟨getVestedFraction_le hfraction, ?_, ?_, ?_⟩, rfl⟩
  · intro hfresh
    exact absurd (hinitialized.symm.trans hfresh) (by decide)
  · exact Nat.add_sub_cancel' hqbc
  · exact Nat.add_sub_cancel' hqusd

end Claims

section Runs

variable {keccak256 : Bytes → BitVec 256} {a : Address} {s t : Clocked InvestorVesting}
  {i : Clocked.Input Call}

/-- The fraction at which a transaction claims for `a`. -/
def claimedFraction (a : Address) (s : Clocked InvestorVesting) : Clocked.Input Call → List Nat
  | .transaction (.claim sender qbcTransferred qusdTransferred) =>
    match s.contract.claim s.timestamp sender qbcTransferred qusdTransferred,
      s.contract.getVestedFraction s.timestamp with
    | .ok _, .ok fraction => if sender = a then [fraction] else []
    | _, _ => []
  | _ => []

/-- The fraction at the last claim of `a`, zero before the first one. -/
def lastFraction (keccak256 : Bytes → BitVec 256) (a : Address) (s : Clocked InvestorVesting)
    (inputs : List (Clocked.Input Call)) : Nat :=
  (Machine.history (transact (Clocked.step (call keccak256))) (claimedFraction a) s
    inputs).getLastD 0

theorem claimedTo_claim {fraction : Nat} {sender : Address}
    {qbcTransferred qusdTransferred : Bool}
    (h : ClaimedTo (s.contract.info a) fraction)
    (hcall : s.contract.claim s.timestamp sender qbcTransferred qusdTransferred = .ok t.contract) :
    ClaimedTo (t.contract.info a)
      ((claimedFraction a s (.transaction (.claim sender qbcTransferred qusdTransferred))).getLastD
        fraction) := by
  obtain ⟨now, info, hfraction, hclaimed, hinsert⟩ := claim_eq_ok hcall
  rw [info_insert hinsert, claimedFraction, hcall, hfraction]
  change ClaimedTo _ (List.getLastD (if sender = a then [now] else []) fraction)
  by_cases ha : a = sender
  · rw [if_pos ha, if_pos ha.symm]
    exact hclaimed
  · rw [if_neg ha, if_neg (Ne.symm ha)]
    exact h

/-- Only a claim changes what was claimed. -/
theorem claimedTo_step {fraction : Nat} (h : ClaimedTo (s.contract.info a) fraction)
    (hstep : Clocked.step (call keccak256) s i = .ok t) :
    ClaimedTo (t.contract.info a) ((claimedFraction a s i).getLastD fraction) := by
  cases i with
  | wait seconds =>
    rw [Clocked.step_wait] at hstep
    subst hstep
    exact h
  | transaction c =>
    replace hstep := (Clocked.step_transaction.mp hstep).1
    -- all but two kinds of call leave what is stored of the investors as it was
    have hkept (hkept : t.contract.vestingInfo = s.contract.vestingInfo) :
        ClaimedTo (t.contract.info a) fraction := by
      rwa [info, hkept]
    cases c with
    | setMerkleRoot sender root =>
      simp only [call, setMerkleRoot, onlyOwner, ensure_bind_eq_ok, Except.ok.injEq] at hstep
      exact hkept (by rw [← hstep.2.2.2])
    | setTGETimestamp sender timestamp =>
      simp only [call, setTGETimestamp, onlyOwner, ensure_bind_eq_ok, Except.ok.injEq] at hstep
      exact hkept (by rw [← hstep.2.2])
    | setPaused sender paused =>
      simp only [call, setPaused, onlyOwner, ensure_bind_eq_ok, Except.ok.injEq] at hstep
      exact hkept (by rw [← hstep.2])
    | transferOwnership sender newOwner =>
      simp only [call, transferOwnership, onlyOwner, ensure_bind_eq_ok, Except.ok.injEq] at hstep
      exact hkept (by rw [← hstep.2.2])
    | initializeClaim sender qbcAmount qusdAmount proof =>
      simp only [call, initializeClaim, whenNotPaused, ensure_bind_eq_ok, add_bind_eq_ok,
        Except.ok.injEq] at hstep
      obtain ⟨-, -, hfresh, -, -, -, hstep⟩ := hstep
      change ClaimedTo _ fraction
      rw [info_insert (by rw [← hstep])]
      split
      · next ha =>
        rw [ha] at h
        rw [h.eq_zero hfresh]
        exact claimedTo_zero rfl rfl
      · exact h
    | claim sender qbcTransferred qusdTransferred => exact claimedTo_claim h hstep

theorem claimedFraction_of_error {e : String}
    (h : Clocked.step (call keccak256) s i = .error e) : claimedFraction a s i = [] := by
  cases i with
  | wait seconds => rfl
  | transaction c =>
    cases c with
    | claim sender qbcTransferred qusdTransferred =>
      have herror : ∃ e, s.contract.claim s.timestamp sender qbcTransferred qusdTransferred =
          .error e := by
        cases hclaim : s.contract.claim s.timestamp sender qbcTransferred qusdTransferred with
        | error e => exact ⟨e, rfl⟩
        | ok t =>
          rw [Clocked.step, call, hclaim] at h
          cases h
      obtain ⟨e, herror⟩ := herror
      rw [claimedFraction, herror]
    | _ => rfl

theorem getLastD_append {α : Type} (xs ys : List α) (d : α) :
    (xs ++ ys).getLastD d = ys.getLastD (xs.getLastD d) := by
  rw [List.getLastD_eq_getLast?, List.getLast?_append, List.getLastD_eq_getLast?,
    List.getLastD_eq_getLast?]
  cases ys.getLast? <;> rfl

/-- Along every run. -/
theorem claimedTo_run (keccak256 : Bytes → BitVec 256) (owner a : Address) (timestamp : Nat)
    (inputs : List (Clocked.Input Call)) :
    ClaimedTo ((run (Clocked.step (call keccak256)) ⟨timestamp, initial owner⟩ inputs).contract.info a)
      (lastFraction keccak256 a ⟨timestamp, initial owner⟩ inputs) := by
  apply Machine.history_invariant (P := fun (s : Clocked InvestorVesting) fractions =>
    ClaimedTo (s.contract.info a) (fractions.getLastD 0))
  · intro s fractions i h
    rw [getLastD_append]
    cases hstep : Clocked.step (call keccak256) s i with
    | error e =>
      rw [transact_of_error hstep, claimedFraction_of_error hstep]
      exact h
    | ok t =>
      rw [transact_of_ok hstep]
      exact claimedTo_step h hstep
  · exact claimedTo_zero rfl rfl

end Runs

/-- Wherever a run leads and however its start is moved, an investor has claimed the share of the
fraction at the last claim, never more than the allocation; and where something is reported as
claimable, both subtractions of a claim go through. -/
theorem claims_telescope (keccak256 : Bytes → BitVec 256) (owner a : Address) (timestamp : Nat)
    (inputs : List (Clocked.Input Call)) :
    let s := run (Clocked.step (call keccak256)) ⟨timestamp, initial owner⟩ inputs
    let info := s.contract.info a
    let fraction := lastFraction keccak256 a ⟨timestamp, initial owner⟩ inputs
    info.qbcClaimed ≤ info.qbcTotal ∧ info.qusdClaimed ≤ info.qusdTotal ∧
      info.qbcClaimed = info.qbcTotal * fraction / 10 ^ 18 ∧
      info.qusdClaimed = info.qusdTotal * fraction / 10 ^ 18 ∧
      ∀ now stored reported, s.contract.getVestingInfo now a = .ok (stored, reported) →
        0 < reported.qbcClaimable ∨ 0 < reported.qusdClaimable →
          s.contract.claimable now info = .ok (reported.qbcClaimable, reported.qusdClaimable) ∧
            (s.contract.paused = false →
              s.contract.totalClaimedQBC + reported.qbcClaimable < 2 ^ 256 →
              s.contract.totalClaimedQUSD + reported.qusdClaimable < 2 ^ 256 →
                ∃ t, s.contract.claim now a true true = .ok t) := by
  have h := claimedTo_run keccak256 owner a timestamp inputs
  refine ⟨?_, ?_, h.qbc_eq, h.qusd_eq, ?_⟩
  · rw [h.qbc_eq]
    exact share_le h.le_precision
  · rw [h.qusd_eq]
    exact share_le h.le_precision
  · intro now stored reported hinfo hpos
    exact ⟨(h.claimable_of_reported hinfo hpos).1, h.claim_of_reported hinfo hpos⟩

end InvestorVesting

end Qubitcoin.Contracts
