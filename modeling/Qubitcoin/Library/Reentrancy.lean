import Qubitcoin.Library.Solidity

/-! Transactions that hand control to their receiver before they end.  What the receiver does
with it is a list of calls, each of which may hand over control in its turn; since the list is
any, it may be what a receiver chooses after seeing the state. -/

universe u v

namespace Solidity

/-- A call, the calls that its receiver makes once it has control, and whether the receiver
accepts what it is sent. -/
inductive Act (ι : Type v)
  | mk (call : ι) (reaction : List (Act ι)) (accepts : Bool)

/-- `enter` is a call up to the point where it hands over control, or all of it where it does
not; `leave` is what follows. -/
structure Handover (σ : Type u) (ι : Type v) where
  enter : σ → ι → Except String σ
  handsOver : ι → Bool
  refused : ι → String
  leave : σ → σ

namespace Handover

variable {σ : Type} {ι : Type v} (H : Handover σ ι)

mutual

def exec (s : σ) : Act ι → Except String σ
  | .mk call reaction accepts => do
    let entered ← H.enter s call
    if H.handsOver call = true then do
      let reacted := react entered reaction
      ensure (accepts = true) (H.refused call)
      .ok (H.leave reacted)
    else .ok entered

/-- A call that reverts leaves the state as it was, and the receiver goes on. -/
def react (s : σ) : List (Act ι) → σ
  | [] => s
  | a :: as => react (settle s (exec s a)) as

end

variable {H} {P : σ → Prop}

/-- The state after a call that has been entered. -/
theorem exec_eq_ok {s t : σ} {call : ι} {reaction : List (Act ι)} {accepts : Bool}
    (h : H.exec s (.mk call reaction accepts) = .ok t) :
    ∃ entered, H.enter s call = .ok entered ∧
      (t = entered ∨ t = H.leave (H.react entered reaction)) := by
  rw [exec, Checked.bind_eq_ok] at h
  obtain ⟨entered, henter, h⟩ := h
  refine ⟨entered, henter, ?_⟩
  split at h
  · rw [Checked.ensure_bind_eq_ok] at h
    cases h.2
    exact .inr rfl
  · cases h
    exact .inl rfl

mutual

/-- An invariant that holds whenever control is handed over. -/
theorem exec_invariant (henter : ∀ s call t, P s → H.enter s call = .ok t → P t)
    (hleave : ∀ s, P s → P (H.leave s)) {s t : σ} (hs : P s) (a : Act ι)
    (h : H.exec s a = .ok t) : P t := by
  match a with
  | .mk call reaction accepts =>
    obtain ⟨entered, hcall, heq⟩ := exec_eq_ok h
    have hentered := henter s call entered hs hcall
    rcases heq with rfl | rfl
    · exact hentered
    · exact hleave _ (react_invariant henter hleave hentered reaction)

theorem react_invariant (henter : ∀ s call t, P s → H.enter s call = .ok t → P t)
    (hleave : ∀ s, P s → P (H.leave s)) {s : σ} (hs : P s) (as : List (Act ι)) :
    P (H.react s as) := by
  match as with
  | [] => exact hs
  | a :: as =>
    rw [react]
    apply react_invariant henter hleave
    cases h : H.exec s a with
    | error e => exact hs
    | ok t => exact exec_invariant henter hleave hs a h

end

/-- The same of a run of transactions. -/
theorem run_exec_invariant (henter : ∀ s call t, P s → H.enter s call = .ok t → P t)
    (hleave : ∀ s, P s → P (H.leave s)) {s : σ} (hs : P s) (as : List (Act ι)) :
    P (run H.exec s as) :=
  run_invariant (fun _ a _ hs h => exec_invariant henter hleave hs a h) hs as

end Handover

end Solidity

/-! Keepers of other people's coins: what they have locked and what they have earned in fees,
against what they hold, and the releases that they have made, each under an identifier of its own. -/

structure Custody (I : Type u) where
  locked : Nat
  fees : Nat
  balance : Nat
  released : List I
  done : I → Bool

namespace Custody

variable {I : Type u} [DecidableEq I]

/-- What a keeper does with the coins. -/
inductive Step : Custody I → Custody I → Prop
  | idle (c : Custody I) : Step c c
  | receive (c : Custody I) (value : Nat) : Step c { c with balance := c.balance + value }
  | take (c : Custody I) (net fee : Nat) :
    Step c { c with
      locked := c.locked + net, fees := c.fees + fee, balance := c.balance + (net + fee) }
  | release (c : Custody I) (i : I) (amount : Nat) (hnew : c.done i = false)
      (hlocked : amount ≤ c.locked) :
    Step c { c with
      locked := c.locked - amount
      balance := c.balance - amount
      released := c.released ++ [i]
      done := Function.update c.done i true }
  | payFees (c : Custody I) : Step c { c with fees := 0, balance := c.balance - c.fees }
  | empty (c : Custody I) : Step c { c with locked := 0, fees := 0, balance := 0 }

omit [DecidableEq I] in
/-- The coins are there, and no identifier has been released twice. -/
structure Sound (c : Custody I) : Prop where
  solvent : c.locked + c.fees ≤ c.balance
  done : ∀ i ∈ c.released, c.done i = true
  once : c.released.Nodup

variable {c d : Custody I}

theorem Sound.step (hc : c.Sound) (h : Step c d) : d.Sound := by
  have hsolvent := hc.solvent
  cases h with
  | idle => exact hc
  | receive value => exact ⟨Nat.le_add_right_of_le hsolvent, hc.done, hc.once⟩
  | take net fee =>
    refine ⟨?_, hc.done, hc.once⟩
    simp only
    omega
  | release i amount hnew hlocked =>
    have hfresh : i ∉ c.released := by
      intro hmem
      rw [hc.done i hmem] at hnew
      cases hnew
    refine ⟨?_, ?_, ?_⟩
    · simp only
      omega
    · intro j hmem
      change Function.update c.done i true j = true
      by_cases heq : j = i
      · rw [heq, Function.update_self]
      · rw [Function.update_of_ne heq]
        have hold : j ∈ c.released := by simpa [heq] using hmem
        exact hc.done j hold
    · rw [List.nodup_append_comm]
      exact List.nodup_cons.mpr ⟨hfresh, hc.once⟩
  | payFees =>
    refine ⟨?_, hc.done, hc.once⟩
    simp only
    omega
  | empty => exact ⟨le_rfl, hc.done, hc.once⟩

end Custody
