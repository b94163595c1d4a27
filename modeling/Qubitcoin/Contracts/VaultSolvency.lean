import Qubitcoin.Contracts.BridgeVault
import Qubitcoin.Contracts.QuantumBridgeVault
import Qubitcoin.Library.Reentrancy

/-! Both vaults hold what they have locked and what they owe in fees, whatever the receivers of
their payments call back. -/

namespace Qubitcoin.Contracts

open Solidity Checked
open Evm (Address Word addressBytes)

/-- `setZKVerifier` in ASCII. -/
def setZKVerifierBytes : Bytes := [115, 101, 116, 90, 75, 86, 101, 114, 105, 102, 105, 101, 114]

structure TimelockOp where
  opHash : Word := 0
  executeAfter : Nat := 0
  executed : Bool := false

/-- The vault on an external chain with its reentrancy guard, its timelocks and its native balance.
`payments` lists the proof hashes that it has paid. -/
structure VaultAccount where
  vault : QuantumBridgeVault
  locked : Bool := false
  timelocks : StorageMap Word TimelockOp := ∅
  balance : Nat := 0
  payments : List Word := []

namespace VaultAccount

def timelockPeriod : Nat := 24 * 3600

variable (keccak256 : Bytes → Word) (chainId : Nat) (self : VaultAccount)

def nonReentrant : Except String Unit := ensure (self.locked = false) "QBV: reentrant call"

def lock (sender : Address) (value : Nat) (qbcRecipient : String) (blockNumber timestamp : Nat) :
    Except String VaultAccount := do
  self.vault.whenNotPaused
  self.nonReentrant
  let (vault, _) ← self.vault.lock keccak256 sender value qbcRecipient blockNumber timestamp chainId
  .ok { self with vault := vault, balance := self.balance + value }

/-- `unlock` up to the moment when its recipient has the coins and control. -/
def unlock (sender recipient : Address) (amount : Nat) (burnProofHash : Word)
    (blockNumber : Nat) : Except String VaultAccount := do
  ensure (sender = self.vault.zkVerifier) "QBV: not verifier"
  self.vault.whenNotPaused
  self.nonReentrant
  let vault ← self.vault.unlock keccak256 sender recipient amount burnProofHash blockNumber
    (decide (amount ≤ self.balance))
  .ok { self with
    vault := vault
    locked := true
    balance := self.balance - amount
    payments := self.payments ++ [burnProofHash] }

def timelock (opHash : Word) : TimelockOp := self.timelocks.value {} opHash

def queueTimelock (sender : Address) (opHash : Word) (timestamp : Nat) :
    Except String VaultAccount := do
  self.vault.onlyOwner sender
  ensure ((self.timelock opHash).executeAfter = 0) "QBV: already queued"
  let executeAfter ← add timestamp timelockPeriod
  .ok { self with timelocks := self.timelocks.insert opHash ⟨opHash, executeAfter, false⟩ }

def setZKVerifier (sender verifier : Address) (timestamp : Nat) : Except String VaultAccount := do
  self.vault.onlyOwner sender
  let opHash := keccak256 (setZKVerifierBytes ++ addressBytes verifier)
  let op := self.timelock opHash
  ensure (0 < op.executeAfter ∧ op.executed = false) "QBV: not queued"
  ensure (op.executeAfter ≤ timestamp) "QBV: timelock active"
  ensure (verifier ≠ 0) "QBV: zero verifier"
  .ok { self with
    timelocks := self.timelocks.insert opHash { op with executed := true }
    vault := { self.vault with zkVerifier := verifier } }

def setGuardian (sender guardian : Address) : Except String VaultAccount := do
  self.vault.onlyOwner sender
  .ok { self with vault := { self.vault with guardian := guardian } }

def setFeeRecipient (sender recipient : Address) : Except String VaultAccount := do
  self.vault.onlyOwner sender
  ensure (recipient ≠ 0) "QBV: zero recipient"
  .ok { self with vault := { self.vault with feeRecipient := recipient } }

/-- `withdrawFees` up to the moment when the fee recipient has the coins and control. -/
def withdrawFees (sender : Address) : Except String VaultAccount := do
  self.vault.onlyOwner sender
  self.nonReentrant
  ensure (0 < self.vault.totalFees) "QBV: no fees"
  ensure (self.vault.totalFees ≤ self.balance) "QBV: fee transfer failed"
  .ok { self with
    vault := { self.vault with totalFees := 0 }
    locked := true
    balance := self.balance - self.vault.totalFees }

/-- `emergencyWithdraw` up to the moment when the owner has the coins and control. -/
def emergencyWithdraw (sender : Address) : Except String VaultAccount := do
  self.vault.onlyOwner sender
  self.nonReentrant
  ensure (self.vault.paused = true) "QBV: must be paused"
  ensure (0 < self.balance) "QBV: no balance"
  .ok { self with
    vault := { self.vault with totalLocked := 0, totalFees := 0 }
    locked := true
    balance := 0 }

inductive Call
  | lock (sender : Address) (value : Nat) (qbcRecipient : String) (blockNumber timestamp : Nat)
  | unlock (sender recipient : Address) (amount : Nat) (burnProofHash : Word) (blockNumber : Nat)
  | queueTimelock (sender : Address) (opHash : Word) (timestamp : Nat)
  | setZKVerifierInitial (sender verifier : Address)
  | setZKVerifier (sender verifier : Address) (timestamp : Nat)
  | setGuardian (sender guardian : Address)
  | setFeeBps (sender : Address) (newFeeBps : Nat)
  | setFeeRecipient (sender recipient : Address)
  | withdrawFees (sender : Address)
  | pause (sender : Address)
  | unpause (sender : Address)
  | emergencyWithdraw (sender : Address)
  | receive (value : Nat)

/-- A call of the vault that moves no coins. -/
def withVault (vault : Except String QuantumBridgeVault) : Except String VaultAccount := do
  let vault ← vault
  .ok { self with vault := vault }

def enter (self : VaultAccount) : Call → Except String VaultAccount
  | .lock sender value qbcRecipient blockNumber timestamp =>
    self.lock keccak256 chainId sender value qbcRecipient blockNumber timestamp
  | .unlock sender recipient amount burnProofHash blockNumber =>
    self.unlock keccak256 sender recipient amount burnProofHash blockNumber
  | .queueTimelock sender opHash timestamp => self.queueTimelock sender opHash timestamp
  | .setZKVerifierInitial sender verifier =>
    self.withVault (self.vault.setZKVerifierInitial sender verifier)
  | .setZKVerifier sender verifier timestamp =>
    self.setZKVerifier keccak256 sender verifier timestamp
  | .setGuardian sender guardian => self.setGuardian sender guardian
  | .setFeeBps sender newFeeBps => self.withVault (self.vault.setFeeBps sender newFeeBps)
  | .setFeeRecipient sender recipient => self.setFeeRecipient sender recipient
  | .withdrawFees sender => self.withdrawFees sender
  | .pause sender => self.withVault (self.vault.pause sender)
  | .unpause sender => self.withVault (self.vault.unpause sender)
  | .emergencyWithdraw sender => self.emergencyWithdraw sender
  | .receive value => .ok { self with balance := self.balance + value }

/-- The three payments hand over control. -/
def handover : Handover VaultAccount Call where
  enter := enter keccak256 chainId
  handsOver
    | .unlock .. | .withdrawFees _ | .emergencyWithdraw _ => true
    | _ => false
  refused
    | .withdrawFees _ => "QBV: fee transfer failed"
    | .emergencyWithdraw _ => "QBV: emergency transfer failed"
    | _ => "QBV: transfer failed"
  leave s := { s with locked := false }

def custody : Custody Word where
  locked := self.vault.totalLocked
  fees := self.vault.totalFees
  balance := self.balance
  released := self.payments
  done := self.vault.processedProofs.value false

variable {keccak256 chainId self} {s t : VaultAccount} {sender : Address}

theorem custody_withVault {vault : Except String QuantumBridgeVault}
    (h : s.withVault vault = .ok t)
    (hvault : ∀ v, vault = .ok v → v.totalLocked = s.vault.totalLocked ∧
      v.totalFees = s.vault.totalFees ∧ v.processedProofs = s.vault.processedProofs) :
    t.custody = s.custody := by
  obtain ⟨v, hv, h⟩ := bind_eq_ok.mp h
  obtain ⟨hlocked, hfees, hproofs⟩ := hvault v hv
  cases h
  simp only [custody, hlocked, hfees, hproofs]

/-- The vault keeps its coins as a keeper does. -/
theorem step_of_enter {c : Call} (h : s.enter keccak256 chainId c = .ok t) :
    Custody.Step s.custody t.custody := by
  cases c with
  | lock sender value qbcRecipient blockNumber timestamp =>
    simp only [enter, lock, QuantumBridgeVault.whenNotPaused, nonReentrant, ensure_bind_eq_ok] at h
    obtain ⟨-, -, h⟩ := h
    obtain ⟨⟨vault, event⟩, hlock, h⟩ := bind_eq_ok.mp h
    cases h
    simp only [QuantumBridgeVault.lock, QuantumBridgeVault.whenNotPaused, ensure_bind_eq_ok,
      mul_bind_eq_ok, div_bind_eq_ok, sub_bind_eq_ok, add_bind_eq_ok] at hlock
    obtain ⟨-, -, -, -, -, hfee, -, -, -, hlock⟩ := hlock
    cases hlock
    have hvalue : value - value * s.vault.feeBps / QuantumBridgeVault.bpsDenominator +
        value * s.vault.feeBps / QuantumBridgeVault.bpsDenominator = value :=
      Nat.sub_add_cancel hfee
    have htake := Custody.Step.take s.custody
      (value - value * s.vault.feeBps / QuantumBridgeVault.bpsDenominator)
      (value * s.vault.feeBps / QuantumBridgeVault.bpsDenominator)
    rw [hvalue] at htake
    exact htake
  | unlock sender recipient amount burnProofHash blockNumber =>
    simp only [enter, unlock, QuantumBridgeVault.whenNotPaused, nonReentrant,
      ensure_bind_eq_ok] at h
    obtain ⟨-, -, -, h⟩ := h
    obtain ⟨vault, hunlock, h⟩ := bind_eq_ok.mp h
    cases h
    simp only [QuantumBridgeVault.unlock, QuantumBridgeVault.whenNotPaused, ensure_bind_eq_ok,
      sub_bind_eq_ok] at hunlock
    obtain ⟨-, -, -, hamount, hnew, -, -, hunlock⟩ := hunlock
    cases hunlock
    have hdone : StorageMap.value false (s.vault.processedProofs.insert burnProofHash true) =
        Function.update s.custody.done burnProofHash true := by
      funext proofHash
      rw [StorageMap.value_insert_eq, Function.update_apply]
      rfl
    have hrelease := Custody.Step.release s.custody burnProofHash amount hnew hamount.2
    rw [← hdone] at hrelease
    exact hrelease
  | queueTimelock sender opHash timestamp =>
    simp only [enter, queueTimelock, QuantumBridgeVault.onlyOwner, ensure_bind_eq_ok,
      add_bind_eq_ok] at h
    obtain ⟨-, -, -, h⟩ := h
    cases h
    exact .idle _
  | setZKVerifierInitial sender verifier =>
    rw [custody_withVault h]
    · exact .idle _
    · intro v hv
      simp only [QuantumBridgeVault.setZKVerifierInitial, QuantumBridgeVault.onlyOwner,
        ensure_bind_eq_ok] at hv
      cases hv.2.2.2
      exact ⟨rfl, rfl, rfl⟩
  | setZKVerifier sender verifier timestamp =>
    simp only [enter, setZKVerifier, QuantumBridgeVault.onlyOwner, ensure_bind_eq_ok] at h
    obtain ⟨-, -, -, -, h⟩ := h
    cases h
    exact .idle _
  | setGuardian sender guardian =>
    simp only [enter, setGuardian, QuantumBridgeVault.onlyOwner, ensure_bind_eq_ok] at h
    cases h.2
    exact .idle _
  | setFeeBps sender newFeeBps =>
    rw [custody_withVault h]
    · exact .idle _
    · intro v hv
      simp only [QuantumBridgeVault.setFeeBps, QuantumBridgeVault.onlyOwner,
        ensure_bind_eq_ok] at hv
      cases hv.2.2
      exact ⟨rfl, rfl, rfl⟩
  | setFeeRecipient sender recipient =>
    simp only [enter, setFeeRecipient, QuantumBridgeVault.onlyOwner, ensure_bind_eq_ok] at h
    cases h.2.2
    exact .idle _
  | withdrawFees sender =>
    simp only [enter, withdrawFees, QuantumBridgeVault.onlyOwner, nonReentrant,
      ensure_bind_eq_ok] at h
    obtain ⟨-, -, -, -, h⟩ := h
    cases h
    exact .payFees _
  | pause sender =>
    rw [custody_withVault h]
    · exact .idle _
    · intro v hv
      simp only [QuantumBridgeVault.pause, ensure_bind_eq_ok] at hv
      cases hv.2
      exact ⟨rfl, rfl, rfl⟩
  | unpause sender =>
    rw [custody_withVault h]
    · exact .idle _
    · intro v hv
      simp only [QuantumBridgeVault.unpause, QuantumBridgeVault.onlyOwner, ensure_bind_eq_ok] at hv
      cases hv.2
      exact ⟨rfl, rfl, rfl⟩
  | emergencyWithdraw sender =>
    simp only [enter, emergencyWithdraw, QuantumBridgeVault.onlyOwner, nonReentrant,
      ensure_bind_eq_ok] at h
    obtain ⟨-, -, -, -, h⟩ := h
    cases h
    exact .empty _
  | receive value =>
    cases h
    exact .receive _ _

/-- Whatever is called back during a payment. -/
theorem sound_run {s : VaultAccount} (hs : s.custody.Sound) (acts : List (Act Call)) :
    (run (handover keccak256 chainId).exec s acts).custody.Sound :=
  Handover.run_exec_invariant (P := fun s : VaultAccount => s.custody.Sound)
    (fun _ _ _ hs h => hs.step (step_of_enter h)) (fun _ hs => hs) hs acts

end VaultAccount

namespace BridgeVault

/-- The two payments hand over control. -/
def handover (keccak256 : Bytes → Word) : Handover BridgeVault Call where
  enter := enter keccak256
  handsOver
    | .processWithdrawal .. | .withdrawFees _ => true
    | _ => false
  refused
    | .withdrawFees _ => "Vault: fee transfer failed"
    | _ => "Vault: transfer failed"
  leave s := { s with locked := false }

def custody (s : BridgeVault) : Custody Word where
  locked := s.totalLocked
  fees := s.totalFees
  balance := s.balance
  released := s.payments
  done wId := (s.withdrawal wId).completed

variable {keccak256 : Bytes → Word} {s t : BridgeVault}

/-- The vault keeps its coins as a keeper does. -/
theorem step_of_enter {c : Call} (h : s.enter keccak256 c = .ok t) :
    Custody.Step s.custody t.custody := by
  cases c with
  | deposit sender value targetChain targetAddress blockNumber timestamp =>
    simp only [enter, deposit, whenNotPaused, ensure_bind_eq_ok, add_bind_eq_ok, mul_bind_eq_ok,
      div_bind_eq_ok, sub_bind_eq_ok] at h
    obtain ⟨-, -, -, -, -, -, -, -, hfee, -, -, -, h⟩ := h
    cases h
    have htake := Custody.Step.take s.custody (value - value * s.feeBps / bpsDenominator)
      (value * s.feeBps / bpsDenominator)
    rw [Nat.sub_add_cancel hfee] at htake
    exact htake
  | processWithdrawal sender r timestamp =>
    simp only [enter, processWithdrawal, onlyRelayer, whenNotPaused, nonReentrant,
      ensure_bind_eq_ok, add_bind_eq_ok, sub_bind_eq_ok] at h
    obtain ⟨-, -, -, -, -, hlocked, hnew, -, -, -, -, h⟩ := h
    have hdone : t.custody.done = Function.update s.custody.done (r.id keccak256) true := by
      cases h
      funext wId
      change (StorageMap.value {} (s.withdrawals.insert (r.id keccak256) _) wId).completed = _
      rw [StorageMap.value_insert_eq, Function.update_apply]
      split <;> rfl
    have hrelease := Custody.Step.release s.custody (r.id keccak256) r.amount hnew hlocked
    rw [← hdone] at hrelease
    cases h
    exact hrelease
  | confirmDeposit sender depositId =>
    simp only [enter, confirmDeposit, onlyRelayer, whenNotPaused, ensure_bind_eq_ok] at h
    obtain ⟨-, -, -, -, h⟩ := h
    cases h
    exact .idle _
  | confirmWithdrawal sender r =>
    simp only [enter, confirmWithdrawal, onlyRelayer, whenNotPaused, nonReentrant,
      ensure_bind_eq_ok, add_bind_eq_ok] at h
    obtain ⟨-, -, -, -, -, -, h⟩ := h
    cases h
    exact .idle _
  | addChain sender chainId =>
    simp only [enter, addChain, onlyOwner, ensure_bind_eq_ok] at h
    cases h.2.2
    exact .idle _
  | removeChain sender chainId =>
    simp only [enter, removeChain, onlyOwner, ensure_bind_eq_ok] at h
    cases h.2.2
    exact .idle _
  | addRelayer sender relayer =>
    simp only [enter, addRelayer, onlyOwner, ensure_bind_eq_ok, add_bind_eq_ok] at h
    cases h.2.2.2.2
    exact .idle _
  | removeRelayer sender relayer =>
    simp only [enter, removeRelayer, onlyOwner, ensure_bind_eq_ok, sub_bind_eq_ok] at h
    cases h.2.2.2.2
    exact .idle _
  | withdrawFees sender =>
    simp only [enter, withdrawFees, onlyOwner, nonReentrant, ensure_bind_eq_ok] at h
    obtain ⟨-, -, -, -, h⟩ := h
    cases h
    exact .payFees _
  | setFeeBps sender newFeeBps =>
    simp only [enter, setFeeBps, onlyOwner, ensure_bind_eq_ok] at h
    cases h.2.2
    exact .idle _
  | setFeeRecipient sender recipient =>
    simp only [enter, setFeeRecipient, onlyOwner, ensure_bind_eq_ok] at h
    cases h.2.2
    exact .idle _
  | setPaused sender paused =>
    simp only [enter, setPaused, onlyOwner, ensure_bind_eq_ok] at h
    cases h.2
    exact .idle _
  | receive value =>
    cases h
    exact .receive _ _

/-- Whatever is called back during a payment. -/
theorem sound_run {s : BridgeVault} (hs : s.custody.Sound) (acts : List (Act Call)) :
    (run (handover keccak256).exec s acts).custody.Sound :=
  Handover.run_exec_invariant (P := fun s : BridgeVault => s.custody.Sound)
    (fun _ _ _ hs h => hs.step (step_of_enter h)) (fun _ hs => hs) hs acts

end BridgeVault

/-- Between the transactions of any run, each vault holds what it has locked and its fees, and has
paid no withdrawal and no proof twice. -/
theorem vaults_solvent (keccak256 : Bytes → Word) (chainId : Nat)
    (sender feeRecipient sender' feeRecipient' guardian : Address)
    (requiredConfirmations feeBps : Nat) (vault : QuantumBridgeVault)
    (h : QuantumBridgeVault.initial sender' feeRecipient' guardian feeBps = .ok vault)
    (acts : List (Act BridgeVault.Call)) (acts' : List (Act VaultAccount.Call)) :
    let s := run (BridgeVault.handover keccak256).exec
      (BridgeVault.initial sender feeRecipient requiredConfirmations) acts
    let t := run (VaultAccount.handover keccak256 chainId).exec { vault := vault } acts'
    (s.totalLocked + s.totalFees ≤ s.balance ∧ s.payments.Nodup) ∧
      t.vault.totalLocked + t.vault.totalFees ≤ t.balance ∧ t.payments.Nodup := by
  intro s t
  have hstart : (BridgeVault.initial sender feeRecipient requiredConfirmations).custody.Sound :=
    ⟨le_rfl, nofun, List.nodup_nil⟩
  have hstart' : (VaultAccount.mk vault false ∅ 0 []).custody.Sound := by
    rw [QuantumBridgeVault.initial, ensure_bind_eq_ok] at h
    cases h.2
    exact ⟨le_rfl, nofun, List.nodup_nil⟩
  have hs : s.custody.Sound := BridgeVault.sound_run hstart acts
  have ht : t.custody.Sound := VaultAccount.sound_run hstart' acts'
  exact ⟨⟨hs.solvent, hs.once⟩, ht.solvent, ht.once⟩

namespace BridgeVault

def sampleRelease : Release := ⟨6, 5000000, 1, 7⟩

/-- The Keccak hashes of the release and of the deposit before it. -/
def sampleHash (packed : Bytes) : Word :=
  if packed = addressBytes 6 ++ Evm.bigEndian 32 5000000 ++ Evm.bigEndian 32 1 ++
      Evm.wordBytes 7 then
    0x4cc83c3cdc6d81323d19fa02c87f2e33f994121278b0bea8f3ddfa17a95dee79
  else 0xd9780061408eacbd2b99ebb1256bcf57126319c4c184a15799ef8ed915653e62

/-- Relayer 5 releases what 4 has deposited; the recipient has 5 ask for it once more. -/
def sampleActs : List (Act Call) :=
  [.mk (.deposit 4 10000000 1 [0xab] 10 1000) [] true, .mk (.addRelayer 1 5) [] true,
    .mk (.confirmWithdrawal 5 sampleRelease) [] true,
    .mk (.processWithdrawal 5 sampleRelease 2000)
      [.mk (.processWithdrawal 5 sampleRelease 2000) [] true] true]

end BridgeVault

theorem vaults_solvent_sample :
    (run (BridgeVault.handover BridgeVault.sampleHash).exec (BridgeVault.initial 1 2 1)
        BridgeVault.sampleActs).payments.length = 1 ∧
      (run (BridgeVault.handover BridgeVault.sampleHash).exec (BridgeVault.initial 1 2 1)
        BridgeVault.sampleActs).payments.Nodup := by
  refine ⟨by decide +kernel, ?_⟩
  have h := vaults_solvent BridgeVault.sampleHash 1 1 2 1 2 3 1 10 _ rfl BridgeVault.sampleActs
    [.mk (.receive 5) [] true]
  exact h.1.2

end Qubitcoin.Contracts
