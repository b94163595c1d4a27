import Qubitcoin.Contracts.QBC20

/-! Votes that are weighed by balances of the token, and what is counted of each account. -/

namespace Qubitcoin.Contracts

open Solidity Checked
open Evm (Address)

/-- A contract that takes votes, with what it does not keep itself: what has been counted of each
account for a proposal, and the supply of the token when the proposal was made. -/
structure Tally (σ : Type) where
  contract : σ
  counted : Nat → Address → Nat := fun _ _ => 0
  supplyAt : Nat → Nat := fun _ => 0

namespace Tally

variable {σ : Type} (self : Tally σ)

def propose (p supply : Nat) : Tally σ :=
  { self with
    counted := Function.update self.counted p fun _ => 0
    supplyAt := Function.update self.supplyAt p supply }

def count (p : Nat) (added : Address → Nat) : Tally σ :=
  { self with counted := Function.update self.counted p fun a => self.counted p a + added a }

end Tally

/-- What leaves an account leaves there what has been counted of it. -/
def Kept (token : QBC20) (counted : Address → Nat) (holder toAddr : Address) (amount : Nat) : Prop :=
  toAddr = holder ∨ counted holder + amount ≤ token.balanceOf holder

instance (token : QBC20) (counted : Address → Nat) (holder toAddr : Address) (amount : Nat) :
    Decidable (Kept token counted holder toAddr amount) :=
  inferInstanceAs (Decidable (_ ∨ _))

/-- The calls to the token that an open ballot puts up with: its supply is fixed. -/
def Calm (isOpen : Prop) (counted : Address → Nat) (token : QBC20) (sender : Address) :
    QBC20.Call → Prop
  | .transfer toAddr amount => isOpen → Kept token counted sender toAddr amount
  | .transferFrom holder toAddr amount => isOpen → Kept token counted holder toAddr amount
  | .mint .. | .burn .. => ¬isOpen
  | .approve .. | .increaseAllowance .. | .decreaseAllowance .. | .transferOwnership .. => True

instance (isOpen : Prop) [Decidable isOpen] (counted : Address → Nat) (token : QBC20)
    (sender : Address) : (c : QBC20.Call) → Decidable (Calm isOpen counted token sender c)
  | .transfer toAddr amount =>
    inferInstanceAs (Decidable (isOpen → Kept token counted sender toAddr amount))
  | .transferFrom holder toAddr amount =>
    inferInstanceAs (Decidable (isOpen → Kept token counted holder toAddr amount))
  | .mint .. | .burn .. => inferInstanceAs (Decidable ¬isOpen)
  | .approve .. | .increaseAllowance .. | .decreaseAllowance .. | .transferOwnership .. =>
    .isTrue trivial

/-- A ballot: while it is open, what has been counted of an account is still there. -/
structure Ballot (votes supply : Nat) (counted : Address → Nat) (isOpen : Prop) (token : QBC20) :
    Prop where
  bounded : votes ≤ supply
  votes_eq : votes = ∑ a, counted a
  supply_eq : isOpen → token.totalSupply = supply
  backed : isOpen → ∀ a, counted a ≤ token.balanceOf a

variable {votes supply : Nat} {counted : Address → Nat} {isOpen isOpen' : Prop} {s t : QBC20}
  {sender : Address} {c : QBC20.Call}

namespace QBC20

theorem initial_supply (owner : Address) (supply : Nat) :
    (initial owner supply).balances.total = (initial owner supply).totalSupply := by
  have htotal := Ledger.total_set ∅ owner supply
  rw [Ledger.balance_empty, Ledger.total_empty, Nat.zero_add] at htotal
  exact htotal

theorem move_total {holder toAddr : Address} {amount : Nat}
    (h : s.move holder toAddr amount = .ok t) (hpays : amount ≤ s.balanceOf holder) :
    t.balances.total = s.balances.total ∧ t.totalSupply = s.totalSupply := by
  unfold move at h
  rw [add_bind_eq_ok] at h
  cases h.2
  exact ⟨Ledger.total_move hpays toAddr, rfl⟩

theorem call_supply (hs : s.balances.total = s.totalSupply) (h : s.call sender c = .ok t) :
    t.balances.total = t.totalSupply := by
  cases c with
  | approve spender amount =>
    simp only [call, approve, ensure_bind_eq_ok] at h
    cases h.2
    exact hs
  | increaseAllowance spender addedValue =>
    simp only [call, increaseAllowance, add_bind_eq_ok] at h
    cases h.2
    exact hs
  | decreaseAllowance spender subtractedValue =>
    simp only [call, decreaseAllowance, ensure_bind_eq_ok] at h
    cases h.2
    exact hs
  | transfer toAddr amount =>
    obtain ⟨hpays, hmove⟩ := transfer_eq_ok h
    obtain ⟨htotal, hsupply⟩ := move_total hmove hpays
    rw [htotal, hsupply, hs]
  | transferFrom holder toAddr amount =>
    obtain ⟨hpays, -, hmove⟩ := transferFrom_eq_ok h
    obtain ⟨htotal, hsupply⟩ := move_total hmove hpays
    rw [htotal, hsupply]
    exact hs
  | mint toAddr amount =>
    simp only [call, mint, ensure_bind_eq_ok, add_bind_eq_ok] at h
    cases h.2.2.2.2
    exact (Ledger.total_credit _ _ _).trans (congrArg (· + amount) hs)
  | burn amount =>
    simp only [call, burn, ensure_bind_eq_ok, sub_bind_eq_ok] at h
    obtain ⟨hpays, -, h⟩ := h
    cases h
    have htotal := Ledger.total_debit hpays
    dsimp only
    omega
  | transferOwnership newOwner =>
    simp only [call, transferOwnership, ensure_bind_eq_ok] at h
    cases h.2.2
    exact hs

end QBC20

namespace Ballot

theorem fresh (token : QBC20) : Ballot 0 token.totalSupply (fun _ => 0) isOpen token where
  bounded := Nat.zero_le _
  votes_eq := Finset.sum_const_zero.symm
  supply_eq _ := rfl
  backed _ _ := Nat.zero_le _

theorem close (h : Ballot votes supply counted isOpen s) (hopen : isOpen' → isOpen) :
    Ballot votes supply counted isOpen' s where
  bounded := h.bounded
  votes_eq := h.votes_eq
  supply_eq ho := h.supply_eq (hopen ho)
  backed ho := h.backed (hopen ho)

/-- A vote that counts of nobody more than he has. -/
theorem vote {added : Address → Nat} {power : Nat} (h : Ballot votes supply counted isOpen s)
    (hopen : isOpen) (htotal : s.balances.total = s.totalSupply) (hpower : power = ∑ a, added a)
    (hfits : ∀ a, counted a + added a ≤ s.balanceOf a) :
    Ballot (votes + power) supply (fun a => counted a + added a) isOpen s := by
  have hvotes : votes + power = ∑ a, (counted a + added a) := by
    rw [Finset.sum_add_distrib, ← h.votes_eq, hpower]
  refine ⟨?_, hvotes, h.supply_eq, fun _ => hfits⟩
  rw [← h.supply_eq hopen, ← htotal, hvotes]
  exact Ledger.sum_le_total hfits

theorem backed_of_move {holder toAddr : Address} {amount : Nat}
    (h : Ballot votes supply counted isOpen s) (hmove : s.move holder toAddr amount = .ok t)
    (hpays : amount ≤ s.balanceOf holder)
    (hkept : isOpen → Kept s counted holder toAddr amount) :
    isOpen → ∀ a, counted a ≤ t.balanceOf a := by
  intro hopen a
  have hbefore := h.backed hopen a
  have hbalance := QBC20.balanceOf_of_move hmove hpays a
  by_cases hholder : a = holder
  · subst hholder
    rw [if_pos rfl] at hbalance
    cases hkept hopen with
    | inl hsame =>
      rw [if_pos hsame.symm] at hbalance
      omega
    | inr hleft => omega
  · rw [if_neg hholder] at hbalance
    omega

/-- The token in use. -/
theorem call (h : Ballot votes supply counted isOpen s) (hcalm : Calm isOpen counted s sender c)
    (hcall : s.call sender c = .ok t) : Ballot votes supply counted isOpen t := by
  cases c with
  | approve spender amount =>
    simp only [QBC20.call, QBC20.approve, ensure_bind_eq_ok] at hcall
    cases hcall.2
    exact ⟨h.bounded, h.votes_eq, h.supply_eq, h.backed⟩
  | increaseAllowance spender addedValue =>
    simp only [QBC20.call, QBC20.increaseAllowance, add_bind_eq_ok] at hcall
    cases hcall.2
    exact ⟨h.bounded, h.votes_eq, h.supply_eq, h.backed⟩
  | decreaseAllowance spender subtractedValue =>
    simp only [QBC20.call, QBC20.decreaseAllowance, ensure_bind_eq_ok] at hcall
    cases hcall.2
    exact ⟨h.bounded, h.votes_eq, h.supply_eq, h.backed⟩
  | transfer toAddr amount =>
    obtain ⟨hpays, hmove⟩ := QBC20.transfer_eq_ok hcall
    refine ⟨h.bounded, h.votes_eq, ?_, h.backed_of_move hmove hpays hcalm⟩
    rw [(QBC20.move_total hmove hpays).2]
    exact h.supply_eq
  | transferFrom holder toAddr amount =>
    obtain ⟨hpays, -, hmove⟩ := QBC20.transferFrom_eq_ok hcall
    have hsame : Ballot votes supply counted isOpen
        { s with allowances := s.allowances.debit (holder, sender) amount } :=
      ⟨h.bounded, h.votes_eq, h.supply_eq, h.backed⟩
    refine ⟨h.bounded, h.votes_eq, ?_, hsame.backed_of_move hmove hpays hcalm⟩
    rw [(QBC20.move_total hmove hpays).2]
    exact h.supply_eq
  | mint | burn =>
    exact ⟨h.bounded, h.votes_eq, fun ho => absurd ho hcalm, fun ho => absurd ho hcalm⟩
  | transferOwnership newOwner =>
    simp only [QBC20.call, QBC20.transferOwnership, ensure_bind_eq_ok] at hcall
    cases hcall.2.2
    exact ⟨h.bounded, h.votes_eq, h.supply_eq, h.backed⟩

end Ballot

end Qubitcoin.Contracts
