import Qubitcoin.Contracts.QuantumBridge
import Qubitcoin.Contracts.VaultSolvency
import Qubitcoin.Library.Confirmations

/-! Who stands behind a release of the bridges: the relayers of the one, the provers of the other. -/

namespace Qubitcoin.Contracts

open Solidity Checked Confirmations
open Evm (Address Word)

namespace BridgeVault

variable (keccak256 : Bytes → Word) (self : BridgeVault)

/-- A call and the release of the guard.  What a receiver calls back is among the calls that
follow, since nothing else is written after a payment. -/
def call (c : Call) : Except String BridgeVault := do
  let entered ← self.enter keccak256 c
  .ok { entered with locked := false }

def confirmers (wId : Word) : Finset Address := Confirmations.confirmers self.hasConfirmed wId

/-- The relayers of the moment who have confirmed what is paid are as many as required. -/
def Quorate : Call → Prop
  | .processWithdrawal _ r _ =>
    Quorum self.relayer (self.confirmers (r.id keccak256)) self.requiredConfirmations
  | _ => True

instance : (c : Call) → Decidable (self.Quorate keccak256 c)
  | .processWithdrawal .. => inferInstanceAs (Decidable (Quorum _ _ _))
  | .deposit .. | .confirmDeposit .. | .confirmWithdrawal .. | .addChain .. | .removeChain ..
  | .addRelayer .. | .removeRelayer .. | .withdrawFees _ | .setFeeBps .. | .setFeeRecipient ..
  | .setPaused .. | .receive _ => .isTrue trivial

/-- What has been confirmed beyond the requirement is as much as former relayers have confirmed. -/
def Surplus : Call → Prop
  | .processWithdrawal _ r _ =>
    self.requiredConfirmations + (stale self.relayer (self.confirmers (r.id keccak256))).card ≤
      self.confirmations (r.id keccak256)
  | _ => True

/-- No relayer is removed who has confirmed a withdrawal that is still open. -/
def KeepsConfirmers : Call → Prop
  | .removeRelayer _ relayer =>
    ∀ wId, relayer ∈ self.confirmers wId → (self.withdrawal wId).completed = true
  | _ => True

variable {keccak256 self} {s t : BridgeVault} {c : Call}

theorem mem_confirmers {wId : Word} {a : Address} :
    a ∈ s.confirmers wId ↔ s.confirmed wId a = true :=
  Confirmations.mem_confirmers

/-- The relayers and the withdrawals are as they were. -/
def SameRelayers (s t : BridgeVault) : Prop :=
  t.relayers = s.relayers ∧ t.withdrawals = s.withdrawals

/-- The confirmations and their counts are as they were. -/
def SameConfirmations (s t : BridgeVault) : Prop :=
  t.hasConfirmed = s.hasConfirmed ∧ t.confirmationCount = s.confirmationCount

/-- What a call does to the relayers and their confirmations. -/
inductive Effect (keccak256 : Bytes → Word) (s t : BridgeVault) : Call → Prop
  | confirm (sender : Address) (r : Release) (hrelayer : s.relayer sender = true)
    (hnew : s.confirmed (r.id keccak256) sender = false)
    (hconfirmed : t.hasConfirmed = s.hasConfirmed.insert (r.id keccak256, sender) true)
    (hcount : t.confirmationCount =
      s.confirmationCount.insert (r.id keccak256) (s.confirmations (r.id keccak256) + 1))
    (hsame : SameRelayers s t) : Effect keccak256 s t (.confirmWithdrawal sender r)
  | pay (sender : Address) (r : Release) (timestamp : Nat) (w : Withdrawal)
    (hopen : (s.withdrawal (r.id keccak256)).completed = false)
    (henough : s.requiredConfirmations ≤ s.confirmations (r.id keccak256))
    (hcompleted : w.completed = true) (hsame : SameConfirmations s t)
    (hrelayers : t.relayers = s.relayers)
    (hwithdrawals : t.withdrawals = s.withdrawals.insert (r.id keccak256) w) :
    Effect keccak256 s t (.processWithdrawal sender r timestamp)
  | enrol (sender relayer : Address) (hsame : SameConfirmations s t)
    (hrelayers : t.relayers = s.relayers.insert relayer true)
    (hwithdrawals : t.withdrawals = s.withdrawals) :
    Effect keccak256 s t (.addRelayer sender relayer)
  | dismiss (sender relayer : Address) (hsame : SameConfirmations s t)
    (hrelayers : t.relayers = s.relayers.insert relayer false)
    (hwithdrawals : t.withdrawals = s.withdrawals) :
    Effect keccak256 s t (.removeRelayer sender relayer)
  | other (c : Call) (hquorate : s.Quorate keccak256 c) (hsurplus : s.Surplus keccak256 c)
    (hsame : SameConfirmations s t) (hsame' : SameRelayers s t) : Effect keccak256 s t c

theorem effect_of_call (h : s.call keccak256 c = .ok t) : Effect keccak256 s t c := by
  rw [call, bind_eq_ok] at h
  obtain ⟨entered, h, heq⟩ := h
  cases heq
  cases c with
  | deposit sender value targetChain targetAddress blockNumber timestamp =>
    simp only [enter, deposit, whenNotPaused, ensure_bind_eq_ok, add_bind_eq_ok, mul_bind_eq_ok,
      div_bind_eq_ok, sub_bind_eq_ok] at h
    obtain ⟨-, -, -, -, -, -, -, -, -, -, -, -, h⟩ := h
    cases h
    exact .other _ trivial trivial ⟨rfl, rfl⟩ ⟨rfl, rfl⟩
  | confirmDeposit sender depositId =>
    simp only [enter, confirmDeposit, onlyRelayer, whenNotPaused, ensure_bind_eq_ok] at h
    obtain ⟨-, -, -, -, h⟩ := h
    cases h
    exact .other _ trivial trivial ⟨rfl, rfl⟩ ⟨rfl, rfl⟩
  | confirmWithdrawal sender r =>
    simp only [enter, confirmWithdrawal, onlyRelayer, whenNotPaused, nonReentrant,
      ensure_bind_eq_ok, add_bind_eq_ok] at h
    obtain ⟨hrelayer, -, -, -, hnew, -, h⟩ := h
    cases h
    exact .confirm sender r hrelayer hnew rfl rfl ⟨rfl, rfl⟩
  | processWithdrawal sender r timestamp =>
    simp only [enter, processWithdrawal, onlyRelayer, whenNotPaused, nonReentrant,
      ensure_bind_eq_ok, add_bind_eq_ok, sub_bind_eq_ok] at h
    obtain ⟨-, -, -, -, -, -, hopen, henough, -, -, -, h⟩ := h
    cases h
    exact .pay sender r timestamp _ hopen henough rfl ⟨rfl, rfl⟩ rfl rfl
  | addChain sender chainId =>
    simp only [enter, addChain, onlyOwner, ensure_bind_eq_ok] at h
    cases h.2.2
    exact .other _ trivial trivial ⟨rfl, rfl⟩ ⟨rfl, rfl⟩
  | removeChain sender chainId =>
    simp only [enter, removeChain, onlyOwner, ensure_bind_eq_ok] at h
    cases h.2.2
    exact .other _ trivial trivial ⟨rfl, rfl⟩ ⟨rfl, rfl⟩
  | addRelayer sender relayer =>
    simp only [enter, addRelayer, onlyOwner, ensure_bind_eq_ok, add_bind_eq_ok] at h
    cases h.2.2.2.2
    exact .enrol sender relayer ⟨rfl, rfl⟩ rfl rfl
  | removeRelayer sender relayer =>
    simp only [enter, removeRelayer, onlyOwner, ensure_bind_eq_ok, sub_bind_eq_ok] at h
    cases h.2.2.2.2
    exact .dismiss sender relayer ⟨rfl, rfl⟩ rfl rfl
  | withdrawFees sender =>
    simp only [enter, withdrawFees, onlyOwner, nonReentrant, ensure_bind_eq_ok] at h
    obtain ⟨-, -, -, -, h⟩ := h
    cases h
    exact .other _ trivial trivial ⟨rfl, rfl⟩ ⟨rfl, rfl⟩
  | setFeeBps sender newFeeBps =>
    simp only [enter, setFeeBps, onlyOwner, ensure_bind_eq_ok] at h
    cases h.2.2
    exact .other _ trivial trivial ⟨rfl, rfl⟩ ⟨rfl, rfl⟩
  | setFeeRecipient sender recipient =>
    simp only [enter, setFeeRecipient, onlyOwner, ensure_bind_eq_ok] at h
    cases h.2.2
    exact .other _ trivial trivial ⟨rfl, rfl⟩ ⟨rfl, rfl⟩
  | setPaused sender paused =>
    simp only [enter, setPaused, onlyOwner, ensure_bind_eq_ok] at h
    cases h.2
    exact .other _ trivial trivial ⟨rfl, rfl⟩ ⟨rfl, rfl⟩
  | receive value =>
    cases h
    exact .other _ trivial trivial ⟨rfl, rfl⟩ ⟨rfl, rfl⟩

/-- The counts are those of the confirmations. -/
def Counted (s : BridgeVault) : Prop :=
  Confirmations.Counted s.hasConfirmed s.confirmationCount

/-- Who has confirmed an open withdrawal is a relayer still. -/
def Standing (s : BridgeVault) : Prop :=
  ∀ wId, (s.withdrawal wId).completed = false → ∀ a ∈ s.confirmers wId, s.relayer a = true

theorem Counted.effect (hs : s.Counted) (h : Effect keccak256 s t c) : t.Counted := by
  have hsame : SameConfirmations s t → t.Counted := by
    rintro ⟨hconfirmed, hcount⟩
    rw [Counted, hconfirmed, hcount]
    exact hs
  cases h with
  | confirm sender r hrelayer hnew hconfirmed hcount =>
    rw [Counted, hconfirmed, hcount]
    exact Confirmations.Counted.confirm hs hnew
  | pay sender r timestamp w hopen henough hcompleted hconfirmations => exact hsame hconfirmations
  | enrol sender relayer hconfirmations => exact hsame hconfirmations
  | dismiss sender relayer hconfirmations => exact hsame hconfirmations
  | other c hquorate hsurplus hconfirmations => exact hsame hconfirmations

theorem quorate_iff_surplus (hs : s.Counted) : s.Quorate keccak256 c ↔ s.Surplus keccak256 c := by
  cases c with
  | processWithdrawal sender r timestamp =>
    simp only [Quorate, Surplus]
    rw [quorum_iff, confirmations, hs]
    rfl
  | _ => exact Iff.rfl

theorem Standing.effect (hs : s.Standing) (hkeeps : s.KeepsConfirmers c)
    (h : Effect keccak256 s t c) : t.Standing := by
  cases h with
  | confirm sender r hrelayer hnew hconfirmed hcount hsame =>
    intro wId hopen a hmem
    rw [confirmers, hconfirmed, confirmers_insert] at hmem
    rw [withdrawal, hsame.2] at hopen
    rw [relayer, hsame.1]
    split at hmem
    · next heq =>
      rcases Finset.mem_insert.mp hmem with rfl | hmem
      · exact hrelayer
      · exact hs wId hopen a (heq ▸ hmem)
    · exact hs wId hopen a hmem
  | pay sender r timestamp w hopen' henough hcompleted hsame hrelayers hwithdrawals =>
    intro wId hopen a hmem
    rw [confirmers, hsame.1] at hmem
    rw [withdrawal, hwithdrawals, StorageMap.value_insert_eq] at hopen
    rw [relayer, hrelayers]
    split at hopen
    · rw [hcompleted] at hopen
      cases hopen
    · exact hs wId hopen a hmem
  | enrol sender newRelayer hsame hrelayers hwithdrawals =>
    intro wId hopen a hmem
    rw [confirmers, hsame.1] at hmem
    rw [withdrawal, hwithdrawals] at hopen
    rw [relayer, hrelayers, StorageMap.value_insert_eq]
    split
    · rfl
    · exact hs wId hopen a hmem
  | dismiss sender former hsame hrelayers hwithdrawals =>
    intro wId hopen a hmem
    rw [confirmers, hsame.1] at hmem
    rw [withdrawal, hwithdrawals] at hopen
    rw [relayer, hrelayers, StorageMap.value_insert_eq, if_neg]
    · exact hs wId hopen a hmem
    · rintro rfl
      have hcompleted := hkeeps wId hmem
      rw [withdrawal, hopen] at hcompleted
      cases hcompleted
  | other c hquorate hsurplus hsame hsame' =>
    intro wId hopen a hmem
    rw [confirmers, hsame.1] at hmem
    rw [withdrawal, hsame'.2] at hopen
    rw [relayer, hsame'.1]
    exact hs wId hopen a hmem

theorem quorate_of_standing (hs : s.Counted) (hstanding : s.Standing)
    (h : Effect keccak256 s t c) : s.Quorate keccak256 c := by
  cases h with
  | pay sender r timestamp w hopen henough =>
    apply quorum_of_standing
    · intro a hmem
      exact hstanding _ hopen a hmem
    · rwa [confirmers, ← hs]
  | confirm => trivial
  | enrol => trivial
  | dismiss => trivial
  | other c hquorate => exact hquorate

theorem counted_initial (sender feeRecipient : Address) (requiredConfirmations : Nat) :
    (initial sender feeRecipient requiredConfirmations).Counted :=
  counted_empty

theorem guarded_quorate_iff (sender feeRecipient : Address) (requiredConfirmations : Nat)
    (calls : List Call) :
    Guarded (call keccak256) (Quorate keccak256)
        (initial sender feeRecipient requiredConfirmations) calls ↔
      Guarded (call keccak256) (Surplus keccak256)
        (initial sender feeRecipient requiredConfirmations) calls := by
  apply guarded_congr_of (I := Counted)
  · intro s c t hs h
    exact ⟨hs.effect (effect_of_call h), quorate_iff_surplus hs⟩
  · exact counted_initial _ _ _

theorem guarded_quorate_of_keeps (sender feeRecipient : Address) (requiredConfirmations : Nat)
    (calls : List Call)
    (h : Guarded (call keccak256) KeepsConfirmers
      (initial sender feeRecipient requiredConfirmations) calls) :
    Guarded (call keccak256) (Quorate keccak256)
      (initial sender feeRecipient requiredConfirmations) calls := by
  refine Guarded.mono_of (I := fun s => s.Counted ∧ s.Standing) ?_ ⟨counted_initial _ _ _, ?_⟩ h
  · intro s c t hs hkeeps hcall
    have heffect := effect_of_call hcall
    exact ⟨⟨hs.1.effect heffect, hs.2.effect hkeeps heffect⟩,
      quorate_of_standing hs.1 hs.2 heffect⟩
  · intro wId _ a hmem
    rw [mem_confirmers] at hmem
    cases hmem

end BridgeVault

namespace ZKBridgeVerifier

variable {keccak256 : Bytes → Word} {s t : ZKBridgeVerifier} {sender : Address} {c : Call}

def active (s : ZKBridgeVerifier) (a : Address) : Bool := (s.prover a).active

def confirmers (s : ZKBridgeVerifier) (proofHash : Word) : Finset Address :=
  Confirmations.confirmers s.hasConfirmedProof proofHash

def Counted (s : ZKBridgeVerifier) : Prop :=
  Confirmations.Counted s.hasConfirmedProof s.proofConfirmations

/-- Who has confirmed a proof that is not executed is a prover still. -/
structure Standing (s : ZKBridgeVerifier) : Prop where
  recorded : ∀ proofHash, (s.proof proofHash).executed = true →
    (s.proof proofHash).proofHash ≠ 0
  active : ∀ proofHash, (s.proof proofHash).executed = false → ∀ a ∈ s.confirmers proofHash,
    s.active a = true

/-- The confirmations are as they were. -/
def SameConfirmations (s t : ZKBridgeVerifier) : Prop :=
  t.hasConfirmedProof = s.hasConfirmedProof ∧ t.proofConfirmations = s.proofConfirmations

theorem mem_confirmers {proofHash : Word} {a : Address} :
    a ∈ s.confirmers proofHash ↔ s.hasConfirmedProof.value false (proofHash, a) = true :=
  Confirmations.mem_confirmers

theorem active_insert (s : ZKBridgeVerifier) (p a : Address) (prover : Prover)
    (h : t.provers = s.provers.insert p prover) :
    t.active a = if a = p then prover.active else s.active a := by
  unfold active ZKBridgeVerifier.prover
  rw [h, StorageMap.value_insert_eq]
  split <;> rfl

theorem active_congr (h : t.provers = s.provers) : t.active = s.active := by
  funext a
  unfold active ZKBridgeVerifier.prover
  rw [h]

theorem Counted.same (hs : s.Counted) (h : SameConfirmations s t) : t.Counted := by
  rw [Counted, h.1, h.2]
  exact hs

/-- What the first half of `submitProof` does to the confirmations. -/
theorem confirmProof_confirms {sub : Submission} {stateWitness : Bytes} {chainId timestamp : Nat}
    (h : s.confirmProof keccak256 sender sub stateWitness chainId timestamp = .ok t) :
    s.active sender = true ∧
      s.hasConfirmedProof.value false (keccak256 sub.pack, sender) = false ∧
      t.hasConfirmedProof = s.hasConfirmedProof.insert (keccak256 sub.pack, sender) true ∧
      t.proofConfirmations = s.proofConfirmations.insert (keccak256 sub.pack)
        (s.confirmations (keccak256 sub.pack) + 1) ∧
      t.active = s.active ∧ t.requiredProverConfirmations = s.requiredProverConfirmations := by
  simp only [confirmProof, onlyProver, whenNotPaused, ensure_bind_eq_ok, add_bind_eq_ok] at h
  obtain ⟨hactive, -, -, -, -, -, -, -, hnew, -, -, h⟩ := h
  have hsame : t.active = s.active := by
    funext a
    cases h
    rw [active_insert s sender a _ rfl]
    split
    · next heq => rw [heq, active]
    · rfl
  cases h
  exact ⟨hactive, hnew, rfl, rfl, hsame, rfl⟩

theorem markExecuted_confirms {proofHash : Word} (h : s.markExecuted proofHash = .ok t) :
    SameConfirmations s t ∧ t.active = s.active := by
  simp only [markExecuted, ensure_bind_eq_ok, add_bind_eq_ok] at h
  obtain ⟨-, -, -, h⟩ := h
  cases h
  exact ⟨⟨rfl, rfl⟩, rfl⟩

theorem Counted.confirm {sub : Submission} {stateWitness : Bytes} {chainId timestamp : Nat}
    (hs : s.Counted)
    (h : s.confirmProof keccak256 sender sub stateWitness chainId timestamp = .ok t) :
    t.Counted := by
  obtain ⟨-, hnew, hconfirmed, hcount, -, -⟩ := confirmProof_confirms h
  rw [Counted, hconfirmed, hcount]
  exact Confirmations.Counted.confirm hs hnew

theorem Standing.confirm {sub : Submission} {stateWitness : Bytes} {chainId timestamp : Nat}
    (hs : s.Standing)
    (h : s.confirmProof keccak256 sender sub stateWitness chainId timestamp = .ok t) :
    t.Standing := by
  obtain ⟨hsender, -, hconfirmed, -, hactive, -⟩ := confirmProof_confirms h
  obtain ⟨-, -, p, -, hnew, -, hproofs⟩ := confirmProof_eq_ok h
  have hproof : ∀ proofHash, t.proof proofHash = s.proof proofHash ∨
      (t.proof proofHash = p ∧ (s.proof proofHash).proofHash = 0) := by
    intro proofHash
    split at hproofs
    · next hzero =>
      rw [proof_insert s proofHash _ p hproofs]
      split
      · next heq => exact .inr ⟨rfl, heq ▸ hzero⟩
      · exact .inl rfl
    · exact .inl (proof_congr hproofs proofHash)
  constructor
  · intro proofHash hexecuted
    rcases hproof proofHash with heq | ⟨heq, -⟩
    · rw [heq] at hexecuted ⊢
      exact hs.recorded proofHash hexecuted
    · rw [heq, hnew] at hexecuted
      cases hexecuted
  · intro proofHash hopen a hmem
    have hopen' : (s.proof proofHash).executed = false := by
      rcases hproof proofHash with heq | ⟨-, hzero⟩
      · rwa [heq] at hopen
      · by_contra hexecuted
        exact hs.recorded proofHash (by simpa using hexecuted) hzero
    rw [confirmers, hconfirmed, confirmers_insert] at hmem
    rw [hactive]
    split at hmem
    · next heq =>
      rcases Finset.mem_insert.mp hmem with rfl | hmem
      · exact hsender
      · exact hs.active proofHash hopen' a (heq ▸ hmem)
    · exact hs.active proofHash hopen' a hmem

theorem Standing.mark {proofHash : Word} (hs : s.Standing)
    (h : s.markExecuted proofHash = .ok t) : t.Standing := by
  obtain ⟨⟨hconfirmed, -⟩, hactive⟩ := markExecuted_confirms h
  obtain ⟨hfound, -, hproofs⟩ := markExecuted_eq_ok h
  have hproof := (proof_insert s · proofHash _ hproofs)
  constructor
  · intro key hexecuted
    rw [hproof key] at hexecuted ⊢
    split at hexecuted
    · next heq => rwa [if_pos heq]
    · next hne =>
      rw [if_neg hne]
      exact hs.recorded key hexecuted
  · intro key hopen a hmem
    rw [hproof key] at hopen
    rw [hactive]
    rw [confirmers, hconfirmed] at hmem
    split at hopen
    · cases hopen
    · exact hs.active key hopen a hmem

/-- What the administration does to the provers. -/
theorem active_of_call (h : s.call sender c = .ok t) :
    SameConfirmations s t ∧ ((∃ p, c = .removeProver p ∧ ∀ a, a ≠ p → t.active a = s.active a) ∨
      ∀ a, s.active a = true → t.active a = true) := by
  cases c with
  | addProver p dilithiumPubKeyHash timestamp =>
    simp only [call, addProver, onlyOwner, ensure_bind_eq_ok, add_bind_eq_ok] at h
    obtain ⟨-, -, -, -, h⟩ := h
    cases h
    refine ⟨⟨rfl, rfl⟩, .inr ?_⟩
    intro a ha
    rw [active_insert s p a _ rfl]
    split
    · rfl
    · exact ha
  | removeProver p =>
    simp only [call, removeProver, onlyOwner, ensure_bind_eq_ok, sub_bind_eq_ok] at h
    obtain ⟨-, -, -, h⟩ := h
    cases h
    refine ⟨⟨rfl, rfl⟩, .inl ⟨p, rfl, ?_⟩⟩
    intro a hne
    rw [active_insert s p a _ rfl, if_neg hne]
  | updateStateRoot newRoot blockHeight timestamp =>
    simp only [call, updateStateRoot, onlyProver, ensure_bind_eq_ok] at h
    cases h.2
    exact ⟨⟨rfl, rfl⟩, .inr fun _ => id⟩
  | setRequiredConfirmations required =>
    simp only [call, setRequiredConfirmations, onlyOwner, ensure_bind_eq_ok] at h
    cases h.2.2
    exact ⟨⟨rfl, rfl⟩, .inr fun _ => id⟩
  | scheduleBridgeMinterChange minter timestamp =>
    simp only [call, scheduleBridgeMinterChange, onlyOwner, ensure_bind_eq_ok,
      add_bind_eq_ok] at h
    cases h.2.2.2
    exact ⟨⟨rfl, rfl⟩, .inr fun _ => id⟩
  | executeBridgeMinterChange timestamp =>
    simp only [call, executeBridgeMinterChange, onlyOwner, ensure_bind_eq_ok,
      add_bind_eq_ok] at h
    cases h.2.2.2.2
    exact ⟨⟨rfl, rfl⟩, .inr fun _ => id⟩
  | scheduleBridgeVaultChange vault timestamp =>
    simp only [call, scheduleBridgeVaultChange, onlyOwner, ensure_bind_eq_ok, add_bind_eq_ok] at h
    cases h.2.2.2
    exact ⟨⟨rfl, rfl⟩, .inr fun _ => id⟩
  | executeBridgeVaultChange timestamp =>
    simp only [call, executeBridgeVaultChange, onlyOwner, ensure_bind_eq_ok, add_bind_eq_ok] at h
    cases h.2.2.2.2
    exact ⟨⟨rfl, rfl⟩, .inr fun _ => id⟩
  | addChain chainId =>
    simp only [call, addChain, onlyOwner, ensure_bind_eq_ok] at h
    cases h.2.2
    exact ⟨⟨rfl, rfl⟩, .inr fun _ => id⟩
  | removeChain chainId =>
    simp only [call, removeChain, onlyOwner, ensure_bind_eq_ok] at h
    cases h.2.2
    exact ⟨⟨rfl, rfl⟩, .inr fun _ => id⟩
  | setPaused paused =>
    simp only [call, setPaused, onlyOwner, ensure_bind_eq_ok] at h
    cases h.2
    exact ⟨⟨rfl, rfl⟩, .inr fun _ => id⟩
  | transferOwnership newOwner =>
    simp only [call, transferOwnership, onlyOwner, ensure_bind_eq_ok] at h
    cases h.2.2
    exact ⟨⟨rfl, rfl⟩, .inr fun _ => id⟩

theorem Standing.call (hs : s.Standing)
    (hkeeps : ∀ p, c = .removeProver p → ∀ proofHash, p ∈ s.confirmers proofHash →
      (s.proof proofHash).executed = true)
    (h : s.call sender c = .ok t) : t.Standing := by
  have hproof := proof_congr (call_verifiedProofs h)
  obtain ⟨⟨hconfirmed, -⟩, hactive⟩ := active_of_call h
  constructor
  · simp only [hproof]
    exact hs.recorded
  · intro proofHash hopen a hmem
    rw [hproof] at hopen
    rw [confirmers, hconfirmed] at hmem
    have ha := hs.active proofHash hopen a hmem
    rcases hactive with ⟨p, rfl, hactive⟩ | hactive
    · rw [hactive a, ha]
      rintro rfl
      have hexecuted := hkeeps a rfl proofHash hmem
      rw [hopen] at hexecuted
      cases hexecuted
    · exact hactive a ha

end ZKBridgeVerifier

namespace QuantumBridge

variable (keccak256 : Bytes → Word) (sites : BridgeSites) (chainId : Nat) (self : QuantumBridge)

/-- The provers of the moment who have confirmed what is executed are as many as required. -/
def Quorate : Address × Call → Prop
  | (sender, .submitProof sub _ _ _ _) =>
    self.verifier.requiredProverConfirmations ≤
        self.verifier.confirmations (keccak256 sub.pack) + 1 →
      Quorum self.verifier.active (insert sender (self.verifier.confirmers (keccak256 sub.pack)))
        self.verifier.requiredProverConfirmations
  | (_, .executeProof proofHash _ _) =>
    Quorum self.verifier.active (self.verifier.confirmers proofHash)
      self.verifier.requiredProverConfirmations
  | _ => True

/-- What has been confirmed beyond the requirement is as much as former provers have confirmed. -/
def Surplus : Address × Call → Prop
  | (_, .submitProof sub _ _ _ _) =>
    self.verifier.requiredProverConfirmations ≤
        self.verifier.confirmations (keccak256 sub.pack) + 1 →
      self.verifier.requiredProverConfirmations + (stale self.verifier.active
          (self.verifier.confirmers (keccak256 sub.pack))).card ≤
        self.verifier.confirmations (keccak256 sub.pack) + 1
  | (_, .executeProof proofHash _ _) =>
    self.verifier.requiredProverConfirmations +
        (stale self.verifier.active (self.verifier.confirmers proofHash)).card ≤
      self.verifier.confirmations proofHash
  | _ => True

/-- No prover is removed who has confirmed a proof that is not executed. -/
def KeepsConfirmers : Address × Call → Prop
  | (_, .verifier (.removeProver p)) =>
    ∀ proofHash, p ∈ self.verifier.confirmers proofHash →
      (self.verifier.proof proofHash).executed = true
  | _ => True

variable {keccak256 sites chainId self} {s t : QuantumBridge} {c : Address × Call}

theorem execute_eq_ok {proofHash : Word} {blockNumber : Nat} {answer : Except String Unit}
    (h : s.execute keccak256 sites proofHash blockNumber answer = .ok t) :
    s.verifier.markExecuted proofHash = .ok t.verifier := by
  obtain ⟨verifier, hmark, hdispatch⟩ := bind_eq_ok.mp h
  rw [(dispatch_eq_ok hdispatch).1]
  exact hmark

/-- What a call does to the verifier. -/
inductive Effect (keccak256 : Bytes → Word) (chainId : Nat) (s t : QuantumBridge) :
    Address × Call → Prop
  | confirm (sender : Address) (sub : Submission) (stateWitness : Bytes)
    (blockNumber timestamp : Nat) (answer : Except String Unit)
    (hwait : ¬s.verifier.requiredProverConfirmations ≤
      s.verifier.confirmations (keccak256 sub.pack) + 1)
    (hconfirm : s.verifier.confirmProof keccak256 sender sub stateWitness chainId timestamp =
      .ok t.verifier) :
    Effect keccak256 chainId s t (sender, .submitProof sub stateWitness blockNumber timestamp answer)
  | submit (sender : Address) (sub : Submission) (stateWitness : Bytes)
    (blockNumber timestamp : Nat) (answer : Except String Unit) (verifier : ZKBridgeVerifier)
    (henough : s.verifier.requiredProverConfirmations ≤
      s.verifier.confirmations (keccak256 sub.pack) + 1)
    (hconfirm : s.verifier.confirmProof keccak256 sender sub stateWitness chainId timestamp =
      .ok verifier)
    (hmark : verifier.markExecuted (keccak256 sub.pack) = .ok t.verifier) :
    Effect keccak256 chainId s t (sender, .submitProof sub stateWitness blockNumber timestamp answer)
  | execute (sender : Address) (proofHash : Word) (blockNumber : Nat)
    (answer : Except String Unit)
    (henough : s.verifier.requiredProverConfirmations ≤ s.verifier.confirmations proofHash)
    (hmark : s.verifier.markExecuted proofHash = .ok t.verifier) :
    Effect keccak256 chainId s t (sender, .executeProof proofHash blockNumber answer)
  | administer (sender : Address) (c : ZKBridgeVerifier.Call)
    (hcall : s.verifier.call sender c = .ok t.verifier) :
    Effect keccak256 chainId s t (sender, .verifier c)
  | other (c : Address × Call) (hquorate : s.Quorate keccak256 c) (hsurplus : s.Surplus keccak256 c)
    (hsame : t.verifier = s.verifier) : Effect keccak256 chainId s t c

theorem effect_of_call (h : s.call keccak256 sites chainId c = .ok t) :
    Effect keccak256 chainId s t c := by
  obtain ⟨sender, c⟩ := c
  cases c with
  | submitProof sub stateWitness blockNumber timestamp answer =>
    obtain ⟨verifier, hconfirm, h⟩ := bind_eq_ok.mp h
    obtain ⟨-, -, -, hcount, -, hrequired⟩ := ZKBridgeVerifier.confirmProof_confirms hconfirm
    have hconfirmations : verifier.confirmations (keccak256 sub.pack) =
        s.verifier.confirmations (keccak256 sub.pack) + 1 := by
      rw [ZKBridgeVerifier.confirmations, hcount, StorageMap.value_insert]
    dsimp only at h
    rw [hrequired, hconfirmations] at h
    split at h
    · next henough =>
      exact .submit _ _ _ _ _ _ verifier henough hconfirm (execute_eq_ok h)
    · next hwait =>
      cases h
      exact .confirm _ _ _ _ _ _ hwait hconfirm
  | executeProof proofHash blockNumber answer =>
    obtain ⟨-, -, h⟩ := bind_eq_ok.mp h
    obtain ⟨henough, h⟩ := ensure_bind_eq_ok.mp h
    exact .execute _ _ _ _ henough (execute_eq_ok h)
  | verifier c =>
    obtain ⟨verifier, hcall, h⟩ := bind_eq_ok.mp h
    cases h
    exact .administer _ _ hcall
  | minter c =>
    obtain ⟨minter, -, h⟩ := bind_eq_ok.mp h
    cases h
    exact .other _ trivial trivial rfl
  | vault c =>
    obtain ⟨vault, -, h⟩ := bind_eq_ok.mp h
    cases h
    exact .other _ trivial trivial rfl

theorem counted_of_effect (hs : s.verifier.Counted) (h : Effect keccak256 chainId s t c) :
    t.verifier.Counted := by
  cases h with
  | confirm sender sub stateWitness blockNumber timestamp answer hwait hconfirm =>
    exact hs.confirm hconfirm
  | submit sender sub stateWitness blockNumber timestamp answer verifier henough hconfirm hmark =>
    exact (hs.confirm hconfirm).same (ZKBridgeVerifier.markExecuted_confirms hmark).1
  | execute sender proofHash blockNumber answer henough hmark =>
    exact hs.same (ZKBridgeVerifier.markExecuted_confirms hmark).1
  | administer sender c hcall => exact hs.same (ZKBridgeVerifier.active_of_call hcall).1
  | other c hquorate hsurplus hsame => rwa [hsame]

theorem standing_of_effect (hs : s.verifier.Standing) (hkeeps : s.KeepsConfirmers c)
    (h : Effect keccak256 chainId s t c) : t.verifier.Standing := by
  cases h with
  | confirm sender sub stateWitness blockNumber timestamp answer hwait hconfirm =>
    exact hs.confirm hconfirm
  | submit sender sub stateWitness blockNumber timestamp answer verifier henough hconfirm hmark =>
    exact (hs.confirm hconfirm).mark hmark
  | execute sender proofHash blockNumber answer henough hmark => exact hs.mark hmark
  | administer sender c hcall =>
    apply hs.call _ hcall
    rintro p rfl
    exact hkeeps
  | other c hquorate hsurplus hsame => rwa [hsame]

/-- The voters for a proof once `sender` is among them. -/
theorem card_voters {sender : Address} {sub : Submission} {stateWitness : Bytes}
    {timestamp : Nat} {verifier : ZKBridgeVerifier} (hs : s.verifier.Counted)
    (h : s.verifier.confirmProof keccak256 sender sub stateWitness chainId timestamp =
      .ok verifier) :
    (insert sender (s.verifier.confirmers (keccak256 sub.pack))).card =
        s.verifier.confirmations (keccak256 sub.pack) + 1 ∧
      stale s.verifier.active (insert sender (s.verifier.confirmers (keccak256 sub.pack))) =
        stale s.verifier.active (s.verifier.confirmers (keccak256 sub.pack)) := by
  obtain ⟨hactive, hnew, -⟩ := ZKBridgeVerifier.confirmProof_confirms h
  constructor
  · rw [Finset.card_insert_of_notMem, ZKBridgeVerifier.confirmations, hs]
    · rfl
    · rw [ZKBridgeVerifier.mem_confirmers, hnew]
      exact Bool.false_ne_true
  · rw [stale, Finset.filter_insert, if_neg]
    · rfl
    · rw [hactive]
      exact nofun

theorem quorate_iff_surplus (hs : s.verifier.Counted) (h : Effect keccak256 chainId s t c) :
    s.Quorate keccak256 c ↔ s.Surplus keccak256 c := by
  have hvoters : ∀ {sender sub stateWitness timestamp verifier},
      s.verifier.confirmProof keccak256 sender sub stateWitness chainId timestamp =
        .ok verifier → ∀ blockNumber answer,
      (s.Quorate keccak256 (sender, .submitProof sub stateWitness blockNumber timestamp answer) ↔
        s.Surplus keccak256 (sender, .submitProof sub stateWitness blockNumber timestamp answer)) := by
    intro sender sub stateWitness timestamp verifier hconfirm blockNumber answer
    obtain ⟨hcard, hstale⟩ := card_voters hs hconfirm
    simp only [Quorate, Surplus]
    rw [quorum_iff, hcard, hstale]
  cases h with
  | confirm sender sub stateWitness blockNumber timestamp answer hwait hconfirm =>
    exact hvoters hconfirm _ _
  | submit sender sub stateWitness blockNumber timestamp answer verifier henough hconfirm =>
    exact hvoters hconfirm _ _
  | execute sender proofHash blockNumber answer =>
    simp only [Quorate, Surplus]
    rw [quorum_iff, ZKBridgeVerifier.confirmations, hs]
    rfl
  | administer => exact Iff.rfl
  | other c hquorate hsurplus => exact iff_of_true hquorate hsurplus

theorem quorate_of_standing (hs : s.verifier.Counted) (hstanding : s.verifier.Standing)
    (h : Effect keccak256 chainId s t c) : s.Quorate keccak256 c := by
  cases h with
  | confirm sender sub stateWitness blockNumber timestamp answer hwait hconfirm =>
    exact fun henough => absurd henough hwait
  | submit sender sub stateWitness blockNumber timestamp answer verifier henough hconfirm hmark =>
    intro _
    obtain ⟨-, -, hconfirmed, -, hactive, -⟩ := ZKBridgeVerifier.confirmProof_confirms hconfirm
    obtain ⟨-, hopen, -⟩ := ZKBridgeVerifier.markExecuted_eq_ok hmark
    apply quorum_of_standing
    · intro a hmem
      rw [← hactive]
      apply (hstanding.confirm hconfirm).active _ hopen a
      rwa [ZKBridgeVerifier.confirmers, hconfirmed, confirmers_insert, if_pos rfl]
    · rwa [(card_voters hs hconfirm).1]
  | execute sender proofHash blockNumber answer henough hmark =>
    obtain ⟨-, hopen, -⟩ := ZKBridgeVerifier.markExecuted_eq_ok hmark
    apply quorum_of_standing
    · intro a hmem
      exact hstanding.active _ hopen a hmem
    · rwa [ZKBridgeVerifier.confirmers, ← hs]
  | administer => trivial
  | other c hquorate => exact hquorate

theorem counted_deploy (sender : Address) (requiredConfirmations : Nat) (minter : BridgeMinter)
    (vault : QuantumBridgeVault) :
    (deploy sender requiredConfirmations minter vault).verifier.Counted :=
  counted_empty

theorem standing_deploy (sender : Address) (requiredConfirmations : Nat) (minter : BridgeMinter)
    (vault : QuantumBridgeVault) :
    (deploy sender requiredConfirmations minter vault).verifier.Standing := by
  constructor
  · intro proofHash hexecuted
    cases hexecuted
  · intro proofHash _ a hmem
    rw [ZKBridgeVerifier.mem_confirmers] at hmem
    cases hmem

theorem guarded_quorate_iff (sender : Address) (requiredConfirmations : Nat)
    (minter : BridgeMinter) (vault : QuantumBridgeVault) (calls : List (Address × Call)) :
    Guarded (call keccak256 sites chainId) (Quorate keccak256)
        (deploy sender requiredConfirmations minter vault) calls ↔
      Guarded (call keccak256 sites chainId) (Surplus keccak256)
        (deploy sender requiredConfirmations minter vault) calls := by
  apply guarded_congr_of (I := fun s : QuantumBridge => s.verifier.Counted)
  · intro s c t hs h
    have heffect := effect_of_call h
    exact ⟨counted_of_effect hs heffect, quorate_iff_surplus hs heffect⟩
  · exact counted_deploy _ _ _ _

theorem guarded_quorate_of_keeps (sender : Address) (requiredConfirmations : Nat)
    (minter : BridgeMinter) (vault : QuantumBridgeVault) (calls : List (Address × Call))
    (h : Guarded (call keccak256 sites chainId) KeepsConfirmers
      (deploy sender requiredConfirmations minter vault) calls) :
    Guarded (call keccak256 sites chainId) (Quorate keccak256)
      (deploy sender requiredConfirmations minter vault) calls := by
  refine Guarded.mono_of
    (I := fun s : QuantumBridge => s.verifier.Counted ∧ s.verifier.Standing) ?_
    ⟨counted_deploy _ _ _ _, standing_deploy _ _ _ _⟩ h
  intro s c t hs hkeeps hcall
  have heffect := effect_of_call hcall
  exact ⟨⟨counted_of_effect hs.1 heffect, standing_of_effect hs.2 hkeeps heffect⟩,
    quorate_of_standing hs.1 hs.2 heffect⟩

end QuantumBridge

/-- Every release is made with a quorum of the moment exactly if former members' confirmations are
never needed, as where none who has confirmed an open release is ever removed. -/
theorem releases_quorate_iff (keccak256 : Bytes → Word) (sites : BridgeSites) (chainId : Nat)
    (sender feeRecipient sender' : Address) (requiredConfirmations requiredConfirmations' : Nat)
    (minter : BridgeMinter) (vault : QuantumBridgeVault) (calls : List BridgeVault.Call)
    (calls' : List (Address × QuantumBridge.Call)) :
    let start := BridgeVault.initial sender feeRecipient requiredConfirmations
    let start' := QuantumBridge.deploy sender' requiredConfirmations' minter vault
    ((Guarded (BridgeVault.call keccak256) (BridgeVault.Quorate keccak256) start calls ↔
        Guarded (BridgeVault.call keccak256) (BridgeVault.Surplus keccak256) start calls) ∧
      (Guarded (BridgeVault.call keccak256) BridgeVault.KeepsConfirmers start calls →
        Guarded (BridgeVault.call keccak256) (BridgeVault.Quorate keccak256) start calls)) ∧
    (Guarded (QuantumBridge.call keccak256 sites chainId) (QuantumBridge.Quorate keccak256) start'
          calls' ↔
        Guarded (QuantumBridge.call keccak256 sites chainId) (QuantumBridge.Surplus keccak256)
          start' calls') ∧
      (Guarded (QuantumBridge.call keccak256 sites chainId) QuantumBridge.KeepsConfirmers start'
          calls' →
        Guarded (QuantumBridge.call keccak256 sites chainId) (QuantumBridge.Quorate keccak256)
          start' calls') := by
  intro start start'
  exact ⟨⟨BridgeVault.guarded_quorate_iff _ _ _ _, BridgeVault.guarded_quorate_of_keeps _ _ _ _⟩,
    QuantumBridge.guarded_quorate_iff _ _ _ _ _, QuantumBridge.guarded_quorate_of_keeps _ _ _ _ _⟩

namespace BridgeVault

/-- Relayers 5 and 6 confirm, 5 is removed, and 7 has the withdrawal paid. -/
def staleRelease : List Call :=
  [.deposit 4 10000000 1 [0xab] 10 1000, .addRelayer 1 5, .addRelayer 1 6, .addRelayer 1 7,
    .addRelayer 1 8, .confirmWithdrawal 5 sampleRelease, .confirmWithdrawal 6 sampleRelease,
    .removeRelayer 1 5, .processWithdrawal 7 sampleRelease 2000]

end BridgeVault

theorem release_on_stale_confirmation :
    ¬∀ (keccak256 : Bytes → Word) (sites : BridgeSites) (chainId : Nat)
      (sender feeRecipient sender' : Address) (requiredConfirmations requiredConfirmations' : Nat)
      (minter : BridgeMinter) (vault : QuantumBridgeVault) (calls : List BridgeVault.Call)
      (calls' : List (Address × QuantumBridge.Call)),
      Guarded (BridgeVault.call keccak256) (BridgeVault.Quorate keccak256)
          (BridgeVault.initial sender feeRecipient requiredConfirmations) calls ∧
        Guarded (QuantumBridge.call keccak256 sites chainId) (QuantumBridge.Quorate keccak256)
          (QuantumBridge.deploy sender' requiredConfirmations' minter vault) calls' := by
  intro h
  have hquorate := (h BridgeVault.sampleHash QuantumBridge.bridgeSites 3303 1 2 1 2 1
    QuantumBridge.newMinter QuantumBridge.newVault BridgeVault.staleRelease []).1
  revert hquorate
  decide +kernel

end Qubitcoin.Contracts
