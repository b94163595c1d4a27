import Qubitcoin.Contracts.QUSDGovernance

/-! The books of delegated votes in the governance of the reserve, and the chains that a delegate
makes who delegates himself. -/

namespace Qubitcoin.Contracts.QUSDGovernance

open Solidity Checked
open Evm (Address)

/-- Everyone's delegated votes are the amounts of his delegators, and each of these can be taken
back. -/
structure Booked (s : QUSDGovernance) : Prop where
  votes : ∀ v, s.delegatedVotes.balance v =
    ∑ a, if s.delegateOf a = v then s.delegatedAmount.balance a else 0
  released : ∀ a, ∃ released, s.release a = .ok released

/-- Who has delegated holds no votes of others. -/
def Unchained (s : QUSDGovernance) : Prop :=
  ∀ a, s.delegateOf a ≠ 0 → s.delegatedVotes.balance a = 0

/-- Who delegates holds no votes of others. -/
def Direct (s : QUSDGovernance) : Call → Prop
  | .delegate sender _ => s.delegatedVotes.balance sender = 0
  | _ => True

variable {s t : QUSDGovernance} {sender toAddr : Address}

theorem Pledged.booked (h : Pledged s) : Booked s where
  votes := h.votes
  released a := by
    have hle : s.delegatedAmount.balance a ≤ s.delegatedVotes.balance (s.delegateOf a) := by
      rw [h.votes]
      apply (le_of_eq (if_pos rfl).symm).trans
      exact Finset.single_le_sum
        (f := fun b => if s.delegateOf b = s.delegateOf a then s.delegatedAmount.balance b else 0)
        (fun _ _ => Nat.zero_le _) (Finset.mem_univ a)
    by_cases hnone : s.delegateOf a = 0
    · exact ⟨_, if_neg (not_not.mpr hnone)⟩
    · refine ⟨s.delegatedVotes.set (s.delegateOf a)
        (s.delegatedVotes.balance (s.delegateOf a) - s.delegatedAmount.balance a), ?_⟩
      rw [release, if_pos hnone, sub_bind_eq_ok]
      exact ⟨hle, rfl⟩

theorem sameDelegation_setProposal (p : Nat) (prop : GovernanceProposal) :
    SameDelegation s (s.setProposal p prop) :=
  ⟨rfl, rfl, rfl⟩

/-- What a call does to the delegations. -/
theorem call_cases {c : Call} (hidle : ∀ a, s.delegateOf a = 0 → s.delegatedAmount.balance a = 0)
    (h : s.call c = .ok t) :
    (∃ sender toAddr, c = .delegate sender toAddr ∧ s.delegate sender toAddr = .ok t ∧
      Redelegation s t sender toAddr (s.qbc.balanceOf sender)) ∨
    (∃ sender, c = .undelegate sender ∧ Redelegation s t sender 0 0) ∨
    (Direct s c ∧ SameDelegation s t) := by
  cases c with
  | createProposal sender description target callData blockNumber =>
    exact .inr (.inr ⟨trivial, (createProposal_eq_ok h).1⟩)
  | vote sender proposalId support weight => exact .inr (.inr ⟨trivial, (vote_eq_ok h).2.1⟩)
  | delegate sender toAddr =>
    exact .inl ⟨sender, toAddr, rfl, h, (delegate_eq_ok (hidle sender) h).1⟩
  | undelegate sender => exact .inr (.inl ⟨sender, rfl, (undelegate_eq_ok (hidle sender) h).1⟩)
  | finalize proposalId =>
    obtain ⟨prop, rfl, -⟩ := close_eq_ok (.inl h)
    exact .inr (.inr ⟨trivial, sameDelegation_setProposal _ _⟩)
  | execute sender proposalId result =>
    obtain ⟨prop, rfl, -⟩ := close_eq_ok (.inr (.inl ⟨sender, result, h⟩))
    exact .inr (.inr ⟨trivial, sameDelegation_setProposal _ _⟩)
  | cancel sender proposalId =>
    obtain ⟨prop, rfl, -⟩ := close_eq_ok (.inr (.inr (.inl ⟨sender, h⟩)))
    exact .inr (.inr ⟨trivial, sameDelegation_setProposal _ _⟩)
  | emergencySign sender proposalId success =>
    refine .inr (.inr ⟨trivial, ?_⟩)
    simp only [call, emergencySign, ensure_bind_eq_ok] at h
    obtain ⟨-, -, h⟩ := h
    split at h
    · obtain ⟨prop, rfl, -⟩ := close_eq_ok (.inr (.inr (.inr ⟨success, h⟩)))
      exact ⟨rfl, rfl, rfl⟩
    · cases h
      exact ⟨rfl, rfl, rfl⟩
  | addEmergencySigner sender signer =>
    simp only [call, addEmergencySigner, ensure_bind_eq_ok] at h
    cases h.2.2.2.2
    exact .inr (.inr ⟨trivial, ⟨rfl, rfl, rfl⟩⟩)
  | qbc sender c =>
    rw [call, bind_eq_ok] at h
    obtain ⟨qbc, -, h⟩ := h
    cases h
    exact .inr (.inr ⟨trivial, ⟨rfl, rfl, rfl⟩⟩)
  | wait seconds =>
    cases h
    exact .inr (.inr ⟨trivial, ⟨rfl, rfl, rfl⟩⟩)

theorem delegate_checks (h : s.delegate sender toAddr = .ok t) :
    toAddr ≠ sender ∧ toAddr ≠ 0 ∧ s.delegateOf toAddr = 0 := by
  simp only [delegate, ensure_bind_eq_ok] at h
  exact ⟨h.1, h.2.1, h.2.2.1⟩

theorem Redelegation.delegateOf_eq {stored : Nat}
    (hmove : Redelegation s t sender toAddr stored) (a : Address) :
    t.delegateOf a = if a = sender then toAddr else s.delegateOf a := by
  rw [delegateOf, hmove.delegates, StorageMap.value_insert_eq]
  rfl

theorem unchained_delegate_iff (hpledged : Pledged s) (h : Unchained s)
    (hcall : s.delegate sender toAddr = .ok t)
    (hmove : Redelegation s t sender toAddr (s.qbc.balanceOf sender)) :
    Unchained t ↔ s.delegatedVotes.balance sender = 0 := by
  obtain ⟨hself, hzero, hfree⟩ := delegate_checks hcall
  constructor
  · intro hnext
    by_cases hnone : s.delegateOf sender = 0
    · have hsender : t.delegatedVotes.balance sender = 0 := by
        apply hnext
        rwa [hmove.delegateOf_eq, if_pos rfl]
      have hvotes := hmove.delegatedVotes sender
      rw [hsender, if_neg hself, hpledged.idle sender hnone, ite_self] at hvotes
      exact hvotes.symm
    · exact h sender hnone
  · intro hsender a ha
    rw [hmove.delegateOf_eq] at ha
    have hvotes := hmove.delegatedVotes a
    by_cases heq : a = sender
    · subst heq
      rw [hsender, if_neg hself] at hvotes
      omega
    · rw [if_neg heq] at ha
      have hto : toAddr ≠ a := by
        rintro rfl
        exact ha hfree
      rw [h a ha, if_neg hto] at hvotes
      omega

theorem Unchained.undelegate (h : Unchained s) (hmove : Redelegation s t sender 0 0) :
    Unchained t := by
  intro a ha
  rw [hmove.delegateOf_eq] at ha
  split at ha
  · exact absurd rfl ha
  · have hvotes := hmove.delegatedVotes a
    rw [h a ha, ite_self] at hvotes
    omega

theorem Pledged.call {c : Call} (h : Pledged s) (hcall : s.call c = .ok t) : Pledged t := by
  rcases call_cases h.idle hcall with ⟨_, _, -, -, hmove⟩ | ⟨_, -, hmove⟩ | ⟨-, hsame⟩
  · exact h.redelegate hmove
  · exact h.redelegate hmove
  · exact h.same hsame

/-- A call leaves no chain exactly if it is direct. -/
theorem unchained_call_iff {c : Call} (hpledged : Pledged s) (h : Unchained s)
    (hcall : s.call c = .ok t) : Unchained t ↔ Direct s c := by
  rcases call_cases hpledged.idle hcall with
    ⟨sender, toAddr, rfl, hdelegate, hmove⟩ | ⟨sender, rfl, hmove⟩ | ⟨hdirect, hsame⟩
  · exact unchained_delegate_iff hpledged h hdelegate hmove
  · exact iff_of_true (h.undelegate hmove) trivial
  · refine iff_of_true ?_ hdirect
    intro a ha
    rw [hsame.delegatedVotes]
    apply h
    rwa [delegateOf, hsame.delegates] at ha

theorem pledged_initial (sender : Address) (qbc : QBC20)
    (minBalance emergencyThreshold timestamp : Nat) :
    Pledged (initial sender qbc minBalance emergencyThreshold timestamp) where
  votes v := by simp [initial]
  idle a _ := Ledger.balance_empty a

theorem unchained_initial (sender : Address) (qbc : QBC20)
    (minBalance emergencyThreshold timestamp : Nat) :
    Unchained (initial sender qbc minBalance emergencyThreshold timestamp) :=
  fun a _ => Ledger.balance_empty a

theorem unchained_iff_direct (sender : Address) (qbc : QBC20)
    (minBalance emergencyThreshold timestamp : Nat) (calls : List Call) :
    (∀ before, before <+: calls →
      Booked (run call (initial sender qbc minBalance emergencyThreshold timestamp) before)) ∧
    ((∀ before, before <+: calls →
        Booked (run call (initial sender qbc minBalance emergencyThreshold timestamp) before) ∧
        Unchained (run call (initial sender qbc minBalance emergencyThreshold timestamp) before)) ↔
      Guarded call Direct (initial sender qbc minBalance emergencyThreshold timestamp) calls) := by
  have hpledged := pledged_initial sender qbc minBalance emergencyThreshold timestamp
  have hbooked (before : List Call) :
      Booked (run call (initial sender qbc minBalance emergencyThreshold timestamp) before) :=
    Pledged.booked (run_invariant (fun _ _ _ h => h.call) hpledged before)
  refine ⟨fun before _ => hbooked before, ?_⟩
  simp only [hbooked, true_and]
  exact forall_prefix_iff_guarded_of
    (fun s c t hs h hcall => ⟨hs.call hcall, unchained_call_iff hs h hcall⟩) hpledged
    (unchained_initial sender qbc minBalance emergencyThreshold timestamp)

/-- A delegate delegates, with the votes that he holds. -/
theorem chain_of_delegate :
    ¬Unchained (run call (initial 9 (.initial 1 100) 0 1 0)
      [.delegate 1 2, .delegate 2 3]) := by
  intro h
  have hvotes := h 2 (by decide +kernel)
  revert hvotes
  decide +kernel

end Qubitcoin.Contracts.QUSDGovernance
