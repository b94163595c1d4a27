import Qubitcoin.Library.Solidity

/-! Contracts that read the time of the block.  Time passes between the transactions, never back. -/

universe u v

namespace Solidity

structure Clocked (σ : Type u) where
  timestamp : Nat
  contract : σ

inductive Clocked.Input (ι : Type v)
  | wait (seconds : Nat)
  | transaction (call : ι)

namespace Clocked

variable {σ : Type} {ι : Type v} {call : Nat → σ → ι → Except String σ} {s t : Clocked σ}

def step (call : Nat → σ → ι → Except String σ) (s : Clocked σ) :
    Input ι → Except String (Clocked σ)
  | .wait seconds => .ok { s with timestamp := s.timestamp + seconds }
  | .transaction c => do
    let contract ← call s.timestamp s.contract c
    .ok { s with contract := contract }

theorem step_wait (seconds : Nat) :
    step call s (.wait seconds) = .ok t ↔ t = { s with timestamp := s.timestamp + seconds } := by
  rw [step, Except.ok.injEq]
  exact eq_comm

theorem step_transaction {c : ι} :
    step call s (.transaction c) = .ok t ↔
      call s.timestamp s.contract c = .ok t.contract ∧ t.timestamp = s.timestamp := by
  rw [step, Checked.bind_eq_ok]
  constructor
  · rintro ⟨contract, hcall, h⟩
    cases h
    exact ⟨hcall, rfl⟩
  · rintro ⟨hcall, htime⟩
    refine ⟨t.contract, hcall, ?_⟩
    rw [← htime]

end Clocked

end Solidity
