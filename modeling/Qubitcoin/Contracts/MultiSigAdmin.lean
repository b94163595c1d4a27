import Qubitcoin.Evm.Words
import Qubitcoin.Library.Solidity

/-! The multi-signature administration of QUSD. -/

namespace Qubitcoin.Contracts

open Solidity Checked
open Evm (Address Word)

structure Action where
  actionHash : Word := 0
  description : String := ""
  proposer : Address := 0
  approvalCount : Nat := 0
  proposedAt : Nat := 0
  executed : Bool := false
  canceled : Bool := false
  target : Address := 0
  callData : List (BitVec 8) := []

structure MultiSigAdmin where
  owner : Address
  signers : List Address := []
  isSigner : StorageMap Address Bool := ∅
  threshold : Nat
  actionExpiry : Nat
  actions : StorageMap Word Action := ∅
  approvals : StorageMap (Word × Address) Bool := ∅
  actionHashes : List Word := []
  totalProposed : Nat := 0
  totalExecuted : Nat := 0
  totalCanceled : Nat := 0

namespace MultiSigAdmin

def minSigners : Nat := 2
def maxSigners : Nat := 10
def minThreshold : Nat := 2
def maxExpiry : Nat := 30 * 86400

variable (self : MultiSigAdmin)

def signer (a : Address) : Bool := self.isSigner.value false a

def action (actionHash : Word) : Action := self.actions.value {} actionHash

def approved (actionHash : Word) (a : Address) : Bool := self.approvals.value false (actionHash, a)

def enlist (a : Address) : MultiSigAdmin :=
  { self with signers := self.signers ++ [a], isSigner := self.isSigner.insert a true }

/-- One round of the loop over the first signers. -/
def enrol (a : Address) : Except String MultiSigAdmin := do
  ensure (a ≠ 0) "MultiSig: zero signer"
  ensure (self.signer a = false) "MultiSig: duplicate signer"
  .ok (self.enlist a)

def initial (sender : Address) (signers : List Address) (threshold actionExpiry : Nat) :
    Except String MultiSigAdmin := do
  ensure (minSigners ≤ signers.length) "MultiSig: need >= 2 signers"
  ensure (signers.length ≤ maxSigners) "MultiSig: need <= 10 signers"
  ensure (minThreshold ≤ threshold) "MultiSig: threshold >= 2"
  ensure (threshold ≤ signers.length) "MultiSig: threshold <= signers"
  ensure (0 < actionExpiry ∧ actionExpiry ≤ maxExpiry) "MultiSig: invalid expiry"
  signers.foldlM enrol { owner := sender, threshold := threshold, actionExpiry := actionExpiry }

def onlySigner (sender : Address) : Except String Unit :=
  ensure (self.signer sender = true) "MultiSig: not signer"

def isExpired (a : Action) (timestamp : Nat) : Except String Bool := do
  if a.proposedAt = 0 then
    .ok false
  else
    let deadline ← add a.proposedAt self.actionExpiry
    .ok (decide (deadline < timestamp))

def requireExecuted (actionHash : Word) : Except String Unit :=
  ensure ((self.action actionHash).executed = true) "MultiSig: action not executed"

def proposeAction (sender : Address) (actionHash : Word) (description : String) (target : Address)
    (callData : List (BitVec 8)) (timestamp : Nat) : Except String MultiSigAdmin := do
  self.onlySigner sender
  ensure (actionHash ≠ 0) "MultiSig: zero hash"
  ensure ((self.action actionHash).proposedAt = 0) "MultiSig: action exists"
  let totalProposed ← add self.totalProposed 1
  .ok { self with
    actions := self.actions.insert actionHash
      { actionHash := actionHash
        description := description
        proposer := sender
        approvalCount := 1
        proposedAt := timestamp
        target := target
        callData := callData }
    approvals := self.approvals.insert (actionHash, sender) true
    actionHashes := self.actionHashes ++ [actionHash]
    totalProposed := totalProposed }

/-- The checks that approval and execution share. -/
def pending (a : Action) (timestamp : Nat) : Except String Unit := do
  ensure (0 < a.proposedAt) "MultiSig: action not found"
  ensure (a.executed = false) "MultiSig: already executed"
  ensure (a.canceled = false) "MultiSig: action canceled"
  let expired ← self.isExpired a timestamp
  ensure (expired = false) "MultiSig: action expired"

def approveAction (sender : Address) (actionHash : Word) (timestamp : Nat) :
    Except String MultiSigAdmin := do
  self.onlySigner sender
  self.pending (self.action actionHash) timestamp
  ensure (self.approved actionHash sender = false) "MultiSig: already approved"
  let approvalCount ← add (self.action actionHash).approvalCount 1
  .ok { self with
    approvals := self.approvals.insert (actionHash, sender) true
    actions := self.actions.insert actionHash
      { self.action actionHash with approvalCount := approvalCount } }

/-- `success` is what the call of the target returns.  Where the target calls back, it finds the
action executed, so its calls are those that follow. -/
def executeAction (sender : Address) (actionHash : Word) (timestamp : Nat) (success : Bool) :
    Except String MultiSigAdmin := do
  self.onlySigner sender
  self.pending (self.action actionHash) timestamp
  ensure (self.threshold ≤ (self.action actionHash).approvalCount)
    "MultiSig: insufficient approvals"
  let totalExecuted ← add self.totalExecuted 1
  ensure ((self.action actionHash).target = 0 ∨ (self.action actionHash).callData = [] ∨
    success = true) "MultiSig: execution failed"
  .ok { self with
    actions := self.actions.insert actionHash { self.action actionHash with executed := true }
    totalExecuted := totalExecuted }

def cancelAction (sender : Address) (actionHash : Word) : Except String MultiSigAdmin := do
  ensure (0 < (self.action actionHash).proposedAt) "MultiSig: action not found"
  ensure ((self.action actionHash).executed = false) "MultiSig: already executed"
  ensure ((self.action actionHash).canceled = false) "MultiSig: already canceled"
  ensure (sender = (self.action actionHash).proposer ∨ sender = self.owner)
    "MultiSig: not proposer or owner"
  let totalCanceled ← add self.totalCanceled 1
  .ok { self with
    actions := self.actions.insert actionHash { self.action actionHash with canceled := true }
    totalCanceled := totalCanceled }

def addSigner (sender newSigner : Address) (actionHash : Word) : Except String MultiSigAdmin := do
  self.onlySigner sender
  self.requireExecuted actionHash
  ensure (newSigner ≠ 0) "MultiSig: zero address"
  ensure (self.signer newSigner = false) "MultiSig: already signer"
  ensure (self.signers.length < maxSigners) "MultiSig: max signers reached"
  .ok (self.enlist newSigner)

/-- The last element takes the place of the first `a`. -/
def swapRemove (a : Address) (l : List Address) : List Address :=
  if a ∈ l then (l.set (l.idxOf a) (l.getLastD 0)).dropLast else l

def removeSigner (sender signer : Address) (actionHash : Word) : Except String MultiSigAdmin := do
  self.onlySigner sender
  self.requireExecuted actionHash
  ensure (self.signer signer = true) "MultiSig: not a signer"
  let left ← sub self.signers.length 1
  ensure (self.threshold ≤ left) "MultiSig: would break threshold"
  ensure (minSigners ≤ left) "MultiSig: need >= 2 signers"
  .ok { self with
    isSigner := self.isSigner.insert signer false
    signers := swapRemove signer self.signers }

def setThreshold (sender : Address) (newThreshold : Nat) (actionHash : Word) :
    Except String MultiSigAdmin := do
  self.onlySigner sender
  self.requireExecuted actionHash
  ensure (minThreshold ≤ newThreshold) "MultiSig: threshold >= 2"
  ensure (newThreshold ≤ self.signers.length) "MultiSig: threshold <= signers"
  .ok { self with threshold := newThreshold }

def setExpiry (sender : Address) (newExpiry : Nat) (actionHash : Word) :
    Except String MultiSigAdmin := do
  self.onlySigner sender
  self.requireExecuted actionHash
  ensure (0 < newExpiry ∧ newExpiry ≤ maxExpiry) "MultiSig: invalid expiry"
  .ok { self with actionExpiry := newExpiry }

/-- The changes that need the signers. -/
inductive Change
  | addSigner (newSigner : Address)
  | removeSigner (signer : Address)
  | setThreshold (newThreshold : Nat)
  | setExpiry (newExpiry : Nat)
  deriving DecidableEq

def change (sender : Address) (actionHash : Word) : Change → Except String MultiSigAdmin
  | .addSigner newSigner => self.addSigner sender newSigner actionHash
  | .removeSigner signer => self.removeSigner sender signer actionHash
  | .setThreshold newThreshold => self.setThreshold sender newThreshold actionHash
  | .setExpiry newExpiry => self.setExpiry sender newExpiry actionHash

inductive Call
  | proposeAction (sender : Address) (actionHash : Word) (description : String) (target : Address)
      (callData : List (BitVec 8)) (timestamp : Nat)
  | approveAction (sender : Address) (actionHash : Word) (timestamp : Nat)
  | executeAction (sender : Address) (actionHash : Word) (timestamp : Nat) (success : Bool)
  | cancelAction (sender : Address) (actionHash : Word)
  | change (sender : Address) (change : Change) (actionHash : Word)

def call (self : MultiSigAdmin) : Call → Except String MultiSigAdmin
  | .proposeAction sender actionHash description target callData timestamp =>
    self.proposeAction sender actionHash description target callData timestamp
  | .approveAction sender actionHash timestamp => self.approveAction sender actionHash timestamp
  | .executeAction sender actionHash timestamp success =>
    self.executeAction sender actionHash timestamp success
  | .cancelAction sender actionHash => self.cancelAction sender actionHash
  | .change sender change actionHash => self.change sender actionHash change

/-- What a watcher writes down. -/
inductive Event
  | approved (actionHash : Word) (signer : Address)
  | executed (actionHash : Word) (threshold : Nat)
  | changed (change : Change) (actionHash : Word)
  deriving DecidableEq

namespace Event

def approver (actionHash : Word) : Event → Option Address
  | approved h a => if h = actionHash then some a else none
  | _ => none

/-- The action that a change has used. -/
def used : Event → Option Word
  | changed _ h => some h
  | _ => none

end Event

def event (self : MultiSigAdmin) : Call → Option Event
  | .proposeAction sender actionHash .. | .approveAction sender actionHash _ =>
    if self.signer sender then some (.approved actionHash sender) else none
  | .executeAction _ actionHash .. => some (.executed actionHash self.threshold)
  | .cancelAction .. => none
  | .change _ change actionHash => some (.changed change actionHash)

def observe (self : MultiSigAdmin) (c : Call) : List Event :=
  if (self.call c).isOk then (self.event c).toList else []

def log (self : MultiSigAdmin) (calls : List Call) : List Event :=
  Machine.history (transact call) observe self calls

/-- The signers who have approved an action. -/
def approvers (actionHash : Word) (l : List Event) : Finset Address :=
  (l.filterMap (Event.approver actionHash)).toFinset

/-- The action was executed once a threshold of the signers had approved it. -/
def Approved (l : List Event) (actionHash : Word) : Prop :=
  ∃ before threshold after, l = before ++ .executed actionHash threshold :: after ∧
    threshold ≤ (approvers actionHash before).card

/-- `changeHash` is how the signers name a change. -/
structure Authorised (changeHash : Change → Word) (l : List Event) : Prop where
  approved : ∀ before change actionHash, before ++ [.changed change actionHash] <+: l →
    actionHash = changeHash change ∧ Approved before actionHash
  once : (l.filterMap Event.used).Nodup

/-- The change names itself by the action that it uses, which no other has used before. -/
def Fresh (changeHash : Change → Word) (l : List Event) : Event → Prop
  | .changed change actionHash =>
    actionHash = changeHash change ∧ actionHash ∉ l.filterMap Event.used
  | _ => True

instance (changeHash : Change → Word) (l : List Event) :
    (e : Event) → Decidable (Fresh changeHash l e)
  | .changed change actionHash =>
    inferInstanceAs (Decidable (actionHash = changeHash change ∧ actionHash ∉ _))
  | .approved .. | .executed .. => .isTrue trivial

/-- Every change that is made is fresh. -/
def OwnActions (changeHash : Change → Word) (self : MultiSigAdmin) (calls : List Call) : Prop :=
  ∀ before c, before ++ [c] <+: calls → ∀ e ∈ observe (run call self before) c,
    Fresh changeHash (self.log before) e

variable {self} {s t : MultiSigAdmin} {c : Call} {l l' : List Event} {actionHash : Word}
  {changeHash : Change → Word}

theorem mem_approvers {a : Address} :
    a ∈ approvers actionHash l ↔ .approved actionHash a ∈ l := by
  rw [approvers, List.mem_toFinset, List.mem_filterMap]
  constructor
  · rintro ⟨e, he, hsome⟩
    cases e with
    | approved h b =>
      simp only [Event.approver, Option.ite_none_right_eq_some, Option.some.injEq] at hsome
      rwa [hsome.1, hsome.2] at he
    | executed => cases hsome
    | changed => cases hsome
  · intro he
    exact ⟨_, he, if_pos rfl⟩

theorem approvers_subset (actionHash : Word) (l l' : List Event) :
    approvers actionHash l ⊆ approvers actionHash (l ++ l') := by
  intro a ha
  rw [mem_approvers] at ha ⊢
  exact List.mem_append_left _ ha

theorem approvers_snoc (a : Address) (l : List Event) :
    approvers actionHash (l ++ [.approved actionHash a]) = insert a (approvers actionHash l) := by
  ext b
  simp [mem_approvers, or_comm]

theorem Approved.append (h : Approved l actionHash) (l' : List Event) :
    Approved (l ++ l') actionHash := by
  obtain ⟨before, threshold, after, rfl, hcard⟩ := h
  exact ⟨before, threshold, after ++ l', by simp, hcard⟩

/-- What the contract knows of the actions is what the log shows. -/
structure Recorded (s : MultiSigAdmin) (l : List Event) : Prop where
  known : ∀ actionHash, ∀ a ∈ approvers actionHash l, s.approved actionHash a = true
  counted : ∀ actionHash, (s.action actionHash).approvalCount ≤ (approvers actionHash l).card
  executed : ∀ actionHash, (s.action actionHash).executed = true → Approved l actionHash

theorem onlySigner_bind_eq_ok {sender : Address} {k : Unit → Except String MultiSigAdmin} :
    (s.onlySigner sender >>= k) = .ok t ↔ s.signer sender = true ∧ k () = .ok t :=
  ensure_bind_eq_ok

theorem requireExecuted_bind_eq_ok {k : Unit → Except String MultiSigAdmin} :
    (s.requireExecuted actionHash >>= k) = .ok t ↔
      (s.action actionHash).executed = true ∧ k () = .ok t :=
  ensure_bind_eq_ok

theorem proposeAction_eq_ok {sender target : Address} {description : String}
    {callData : List (BitVec 8)} {timestamp : Nat}
    (h : s.proposeAction sender actionHash description target callData timestamp = .ok t) :
    s.signer sender = true ∧
      t.approvals = s.approvals.insert (actionHash, sender) true ∧
      ∃ a : Action, t.actions = s.actions.insert actionHash a ∧ a.approvalCount = 1 ∧
        a.executed = false := by
  unfold proposeAction at h
  simp only [onlySigner_bind_eq_ok, ensure_bind_eq_ok, add_bind_eq_ok] at h
  obtain ⟨hsigner, -, -, -, h⟩ := h
  cases h
  exact ⟨hsigner, rfl, _, rfl, rfl, rfl⟩

theorem approveAction_eq_ok {sender : Address} {timestamp : Nat}
    (h : s.approveAction sender actionHash timestamp = .ok t) :
    s.signer sender = true ∧ s.approved actionHash sender = false ∧
      t.approvals = s.approvals.insert (actionHash, sender) true ∧
      t.actions = s.actions.insert actionHash
        { s.action actionHash with approvalCount := (s.action actionHash).approvalCount + 1 } := by
  unfold approveAction at h
  rw [onlySigner_bind_eq_ok, bind_eq_ok] at h
  obtain ⟨hsigner, -, -, h⟩ := h
  simp only [ensure_bind_eq_ok, add_bind_eq_ok] at h
  obtain ⟨hnew, -, h⟩ := h
  cases h
  exact ⟨hsigner, hnew, rfl, rfl⟩

theorem executeAction_eq_ok {sender : Address} {timestamp : Nat} {success : Bool}
    (h : s.executeAction sender actionHash timestamp success = .ok t) :
    s.threshold ≤ (s.action actionHash).approvalCount ∧ t.approvals = s.approvals ∧
      t.actions = s.actions.insert actionHash { s.action actionHash with executed := true } := by
  unfold executeAction at h
  rw [onlySigner_bind_eq_ok, bind_eq_ok] at h
  obtain ⟨-, -, -, h⟩ := h
  simp only [ensure_bind_eq_ok, add_bind_eq_ok] at h
  obtain ⟨henough, -, -, h⟩ := h
  cases h
  exact ⟨henough, rfl, rfl⟩

theorem cancelAction_eq_ok {sender : Address} (h : s.cancelAction sender actionHash = .ok t) :
    t.approvals = s.approvals ∧
      t.actions = s.actions.insert actionHash { s.action actionHash with canceled := true } := by
  unfold cancelAction at h
  simp only [ensure_bind_eq_ok, add_bind_eq_ok] at h
  obtain ⟨-, -, -, -, -, h⟩ := h
  cases h
  exact ⟨rfl, rfl⟩

theorem change_eq_ok {sender : Address} {change : Change}
    (h : s.change sender actionHash change = .ok t) :
    (s.action actionHash).executed = true ∧ t.approvals = s.approvals ∧ t.actions = s.actions := by
  cases change with
  | addSigner newSigner =>
    simp only [MultiSigAdmin.change, addSigner, onlySigner_bind_eq_ok, requireExecuted_bind_eq_ok,
      ensure_bind_eq_ok] at h
    obtain ⟨-, hexecuted, -, -, -, h⟩ := h
    cases h
    exact ⟨hexecuted, rfl, rfl⟩
  | removeSigner signer =>
    simp only [MultiSigAdmin.change, removeSigner, onlySigner_bind_eq_ok,
      requireExecuted_bind_eq_ok, ensure_bind_eq_ok, sub_bind_eq_ok] at h
    obtain ⟨-, hexecuted, -, -, -, -, h⟩ := h
    cases h
    exact ⟨hexecuted, rfl, rfl⟩
  | setThreshold newThreshold =>
    simp only [MultiSigAdmin.change, setThreshold, onlySigner_bind_eq_ok,
      requireExecuted_bind_eq_ok, ensure_bind_eq_ok] at h
    obtain ⟨-, hexecuted, -, -, h⟩ := h
    cases h
    exact ⟨hexecuted, rfl, rfl⟩
  | setExpiry newExpiry =>
    simp only [MultiSigAdmin.change, setExpiry, onlySigner_bind_eq_ok, requireExecuted_bind_eq_ok,
      ensure_bind_eq_ok] at h
    obtain ⟨-, hexecuted, -, h⟩ := h
    cases h
    exact ⟨hexecuted, rfl, rfl⟩

theorem action_of_insert {a : Action} (h : t.actions = s.actions.insert actionHash a) (k : Word) :
    t.action k = if k = actionHash then a else s.action k := by
  rw [action, h, StorageMap.value_insert_eq]
  rfl

theorem approved_of_insert {b : Address}
    (h : t.approvals = s.approvals.insert (actionHash, b) true) (k : Word) (a : Address) :
    t.approved k a = if k = actionHash ∧ a = b then true else s.approved k a := by
  rw [approved, h, StorageMap.value_insert_eq]
  simp only [Prod.mk.injEq]
  rfl

theorem approved_of_eq (h : t.approvals = s.approvals) (k : Word) (a : Address) :
    t.approved k a = s.approved k a := by
  rw [approved, h]
  rfl

/-- One action is rewritten while the log grows. -/
theorem Recorded.update {a : Action} (h : Recorded s l)
    (hactions : t.actions = s.actions.insert actionHash a)
    (hknown : ∀ k, ∀ b ∈ approvers k (l ++ l'), t.approved k b = true)
    (hcounted : a.approvalCount ≤ (approvers actionHash (l ++ l')).card)
    (hexecuted : a.executed = true → Approved (l ++ l') actionHash) : Recorded t (l ++ l') where
  known := hknown
  counted k := by
    rw [action_of_insert hactions]
    split
    · next heq => rwa [heq]
    · exact (h.counted k).trans (Finset.card_le_card (approvers_subset k l l'))
  executed k := by
    rw [action_of_insert hactions]
    split
    · next heq => rwa [heq]
    · intro hk
      exact (h.executed k hk).append l'

/-- The sender's approval is written down in both places. -/
theorem Recorded.known_snoc {sender : Address} (h : Recorded s l)
    (happrovals : t.approvals = s.approvals.insert (actionHash, sender) true) :
    ∀ k, ∀ b ∈ approvers k (l ++ [.approved actionHash sender]), t.approved k b = true := by
  intro k b hb
  rw [approved_of_insert happrovals]
  rw [mem_approvers, List.mem_append, List.mem_singleton, Event.approved.injEq] at hb
  split
  · rfl
  · next hne => exact h.known k b (mem_approvers.mpr (hb.resolve_right hne))

/-- Events other than approvals add no approver. -/
theorem approvers_append_of_not_mem {k : Word} (h : ∀ a, .approved k a ∉ l') :
    approvers k (l ++ l') = approvers k l := by
  ext a
  simp [mem_approvers, h]

theorem Recorded.known_append (h : Recorded s l) (happrovals : t.approvals = s.approvals)
    (hnone : ∀ k a, .approved k a ∉ l') :
    ∀ k, ∀ b ∈ approvers k (l ++ l'), t.approved k b = true := by
  intro k b hb
  rw [approvers_append_of_not_mem (hnone k)] at hb
  rw [approved_of_eq happrovals]
  exact h.known k b hb

theorem Recorded.step (h : Recorded s l) (hcall : s.call c = .ok t) :
    Recorded t (l ++ (s.event c).toList) := by
  cases c with
  | proposeAction sender actionHash description target callData timestamp =>
    obtain ⟨hsigner, happrovals, a, hactions, hcount, hexecuted⟩ := proposeAction_eq_ok hcall
    rw [event, if_pos hsigner, Option.toList_some]
    refine h.update hactions (h.known_snoc happrovals) ?_ ?_
    · rw [hcount, approvers_snoc]
      exact Finset.card_pos.mpr (Finset.insert_nonempty _ _)
    · simp [hexecuted]
  | approveAction sender actionHash timestamp =>
    obtain ⟨hsigner, hnew, happrovals, hactions⟩ := approveAction_eq_ok hcall
    rw [event, if_pos hsigner, Option.toList_some]
    refine h.update hactions (h.known_snoc happrovals) ?_ ?_
    · have hfresh : sender ∉ approvers actionHash l := by
        intro hmem
        rw [h.known _ _ hmem] at hnew
        cases hnew
      rw [approvers_snoc, Finset.card_insert_of_notMem hfresh]
      exact Nat.succ_le_succ (h.counted actionHash)
    · intro hexecuted
      exact (h.executed actionHash hexecuted).append _
  | executeAction sender actionHash timestamp success =>
    obtain ⟨henough, happrovals, hactions⟩ := executeAction_eq_ok hcall
    have hnone : ∀ k a, .approved k a ∉ [Event.executed actionHash s.threshold] := by simp
    refine h.update hactions (h.known_append happrovals hnone) ?_ ?_
    · rw [event, Option.toList_some, approvers_append_of_not_mem (hnone _)]
      exact h.counted actionHash
    · intro _
      exact ⟨l, s.threshold, [], rfl, henough.trans (h.counted actionHash)⟩
  | cancelAction sender actionHash =>
    obtain ⟨happrovals, hactions⟩ := cancelAction_eq_ok hcall
    have hnone : ∀ k a, Event.approved k a ∉ [] := by simp
    refine h.update hactions (h.known_append happrovals hnone) ?_ ?_
    · rw [event, Option.toList_none, List.append_nil]
      exact h.counted actionHash
    · intro hexecuted
      exact (h.executed actionHash hexecuted).append _
  | change sender change actionHash =>
    obtain ⟨-, happrovals, hactions⟩ := change_eq_ok hcall
    have hnone : ∀ k a, .approved k a ∉ [Event.changed change actionHash] := by simp
    have haction : t.action = s.action := by
      funext k
      rw [action, hactions]
      rfl
    refine ⟨h.known_append happrovals hnone, ?_, ?_⟩
    · intro k
      rw [haction, event, Option.toList_some, approvers_append_of_not_mem (hnone k)]
      exact h.counted k
    · intro k hk
      rw [haction] at hk
      exact (h.executed k hk).append _

theorem observe_of_ok (h : s.call c = .ok t) : s.observe c = (s.event c).toList := by
  rw [observe, h]
  rfl

theorem observe_of_error {e : String} (h : s.call c = .error e) : s.observe c = [] := by
  rw [observe, h]
  rfl

theorem Recorded.transact (h : Recorded s l) (c : Call) :
    Recorded (transact call s c) (l ++ s.observe c) := by
  cases hcall : s.call c with
  | error e =>
    rw [transact_of_error hcall, observe_of_error hcall, List.append_nil]
    exact h
  | ok t =>
    rw [transact_of_ok hcall, observe_of_ok hcall]
    exact h.step hcall

/-- No action has been proposed yet. -/
def Blank (s : MultiSigAdmin) : Prop := ∀ actionHash, s.action actionHash = {}

theorem Blank.enrol {a : Address} (h : s.Blank) (henrol : s.enrol a = .ok t) : t.Blank := by
  simp only [MultiSigAdmin.enrol, ensure_bind_eq_ok] at henrol
  cases henrol.2.2
  exact h

theorem Blank.foldlM {as : List Address} (h : s.Blank)
    (hfold : as.foldlM MultiSigAdmin.enrol s = .ok t) : t.Blank := by
  induction as generalizing s with
  | nil =>
    cases hfold
    exact h
  | cons a as ih =>
    rw [List.foldlM_cons, bind_eq_ok] at hfold
    obtain ⟨s', henrol, hfold⟩ := hfold
    exact ih (h.enrol henrol) hfold

theorem initial_blank {sender : Address} {signers : List Address} {threshold actionExpiry : Nat}
    (h : initial sender signers threshold actionExpiry = .ok s) : s.Blank := by
  simp only [initial, ensure_bind_eq_ok] at h
  apply Blank.foldlM ?_ h.2.2.2.2.2
  intro k
  exact StorageMap.value_empty _ k

theorem Blank.recorded (h : s.Blank) : Recorded s [] where
  known k a ha := by
    rw [mem_approvers] at ha
    cases ha
  counted k := by
    rw [h k]
    exact Nat.zero_le _
  executed k hk := by
    rw [h k] at hk
    cases hk

theorem Blank.recorded_run (h : s.Blank) (calls : List Call) :
    Recorded (run call s calls) (s.log calls) :=
  Machine.history_invariant (fun _ _ c hs => hs.transact c) h.recorded calls

theorem log_snoc (s : MultiSigAdmin) (calls : List Call) (c : Call) :
    s.log (calls ++ [c]) = s.log calls ++ (run call s calls).observe c :=
  Machine.history_snoc s calls c

theorem log_prefix {before calls : List Call} (h : before <+: calls) :
    s.log before <+: s.log calls := by
  obtain ⟨rest, rfl⟩ := h
  rw [log, log, Machine.history_append]
  exact List.prefix_append _ _

theorem observe_eq_singleton {e : Event} (h : e ∈ s.observe c) : s.observe c = [e] := by
  unfold observe at h ⊢
  split at h
  · next hok =>
    rw [Option.mem_toList] at h
    rw [if_pos hok, h, Option.toList_some]
  · cases h

/-- A change is made with an action that was approved. -/
theorem Recorded.approved_of_changed {change : Change} (h : Recorded s l)
    (hobs : .changed change actionHash ∈ s.observe c) : Approved l actionHash := by
  cases hcall : s.call c with
  | error e =>
    rw [observe_of_error hcall] at hobs
    cases hobs
  | ok t =>
    rw [observe_of_ok hcall, Option.mem_toList] at hobs
    cases c with
    | proposeAction | approveAction => simp [event] at hobs
    | executeAction | cancelAction => cases hobs
    | change sender change' hash =>
      cases hobs
      exact h.executed actionHash (change_eq_ok hcall).1

theorem filterMap_used_snoc (l : List Event) (e : Event) :
    (l ++ [e]).filterMap Event.used = l.filterMap Event.used ++ e.used.toList := by
  rw [List.filterMap_append]
  cases e <;> rfl

theorem Authorised.snoc {e : Event} (h : Authorised changeHash l) (hfresh : Fresh changeHash l e)
    (happroved : ∀ change actionHash, e = .changed change actionHash → Approved l actionHash) :
    Authorised changeHash (l ++ [e]) where
  approved before change actionHash hle := by
    cases List.prefix_concat_iff.mp hle with
    | inl heq =>
      obtain ⟨rfl, hlast⟩ := List.append_inj' heq rfl
      cases List.singleton_inj.mp hlast
      exact ⟨hfresh.1, happroved change actionHash rfl⟩
    | inr hle => exact h.approved before change actionHash hle
  once := by
    rw [filterMap_used_snoc]
    cases e with
    | approved | executed => simpa [Event.used] using h.once
    | changed change actionHash =>
      rw [Event.used, Option.toList_some, ← List.concat_eq_append]
      exact List.Nodup.concat hfresh.2 h.once

theorem OwnActions.of_prefix {before calls : List Call} (h : OwnActions changeHash s calls)
    (hle : before <+: calls) : OwnActions changeHash s before := by
  intro earlier c hc
  exact h earlier c (hc.trans hle)

theorem OwnActions.authorised {calls : List Call} (hs : s.Blank)
    (h : OwnActions changeHash s calls) : Authorised changeHash (s.log calls) := by
  induction calls using List.reverseRecOn with
  | nil =>
    refine ⟨?_, List.nodup_nil⟩
    intro before change actionHash hle
    simp [log, Machine.history] at hle
  | append_singleton calls c ih =>
    have hbefore := ih (h.of_prefix (List.prefix_append _ _))
    rw [log_snoc]
    cases hobs : (run call s calls).observe c with
    | nil => rwa [List.append_nil]
    | cons e es =>
      have he : e ∈ (run call s calls).observe c := hobs ▸ List.mem_cons_self
      rw [← hobs, observe_eq_singleton he]
      refine hbefore.snoc (h calls c (List.prefix_refl _) e he) ?_
      rintro change actionHash rfl
      exact (hs.recorded_run calls).approved_of_changed he

theorem Authorised.ownActions {calls : List Call} (h : Authorised changeHash (s.log calls)) :
    OwnActions changeHash s calls := by
  intro before c hle e he
  cases e with
  | approved | executed => trivial
  | changed change actionHash =>
    have hprefix := log_prefix (s := s) hle
    rw [log_snoc, observe_eq_singleton he] at hprefix
    refine ⟨(h.approved _ change actionHash hprefix).1, ?_⟩
    have honce := h.once.sublist (List.Sublist.filterMap Event.used hprefix.sublist)
    rw [filterMap_used_snoc, List.nodup_append'] at honce
    simpa [Event.used] using honce.2.2

/-- Every change is authorised by an action of its own exactly when each one names itself by the
action it uses, and no two use the same: the approvals are what the contract sees to. -/
theorem authorised_iff_ownActions {sender : Address} {signers : List Address}
    {threshold actionExpiry : Nat} (h : initial sender signers threshold actionExpiry = .ok s)
    (changeHash : Change → Word) (calls : List Call) :
    Authorised changeHash (s.log calls) ↔ OwnActions changeHash s calls :=
  ⟨Authorised.ownActions, OwnActions.authorised (initial_blank h)⟩

namespace Sample

def unsigned : MultiSigAdmin where
  owner := 1
  threshold := 2
  actionExpiry := 604800

def start : MultiSigAdmin := ((unsigned.enlist 1).enlist 2).enlist 3

theorem start_eq : initial 1 [1, 2, 3] 2 604800 = .ok start := rfl

def changeName : Change → Word
  | .addSigner newSigner => 4 * newSigner.setWidth 256 + 1
  | .removeSigner signer => 4 * signer.setWidth 256 + 2
  | .setThreshold newThreshold => 4 * newThreshold + 3
  | .setExpiry newExpiry => 4 * newExpiry + 4

def adding : List Call :=
  [.proposeAction 1 37 "add 9" 0 [] 1000, .approveAction 2 37 1001, .executeAction 3 37 1002 true,
    .change 1 (.addSigner 9) 37]

/-- The action for a new signer, used again for the threshold. -/
def reusing : List Call := adding ++ [.change 9 (.setThreshold 4) 37]

end Sample

theorem authorised_sample : Authorised Sample.changeName (Sample.start.log Sample.adding) :=
  (authorised_iff_ownActions Sample.start_eq Sample.changeName Sample.adding).mpr <| by
    simp only [OwnActions, Sample.adding, Machine.forall_before_cons, Machine.forall_before_nil]
    decide +kernel

theorem action_authorises_twice :
    ¬∃ changeHash : Change → Word, ∀ (sender : Address) (signers : List Address)
      (threshold actionExpiry : Nat) (s : MultiSigAdmin) (calls : List Call),
      initial sender signers threshold actionExpiry = .ok s →
        Authorised changeHash (s.log calls) := by
  rintro ⟨changeHash, h⟩
  have honce := (h 1 [1, 2, 3] 2 604800 Sample.start Sample.reusing Sample.start_eq).once
  revert honce
  decide +kernel

end MultiSigAdmin

end Qubitcoin.Contracts
