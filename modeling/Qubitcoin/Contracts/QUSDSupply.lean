import Qubitcoin.Contracts.QUSD
import Qubitcoin.Library.Clocked

/-! The supply of the stablecoin, and what its stabilizer mints in a day. -/

namespace Qubitcoin.Contracts.QUSD

open Solidity Checked
open Evm (Address)

/-- The balances are all there is, and what was minted and not burned. -/
structure Accounted (s : QUSD) : Prop where
  balances : s.balances.total = s.totalSupply
  burned : s.totalBurned ≤ s.totalMinted
  supply : s.totalSupply = s.totalMinted - s.totalBurned

section Supply

variable {s t : QUSD} {sender holder toAddr : Address} {amount timestamp : Nat}

theorem transferWithFee_eq (h : s.transferWithFee holder toAddr amount = .ok t) :
    t = { s with balances := t.balances, totalFeesCollected := t.totalFeesCollected } ∧
      t.balances.total = s.balances.total := by
  unfold transferWithFee at h
  simp only [ensure_bind_eq_ok] at h
  obtain ⟨-, -, hpays, h⟩ := h
  have hdebit := Ledger.total_debit hpays
  split at h
  · rw [add_bind_eq_ok] at h
    cases h.2
    refine ⟨rfl, ?_⟩
    exact Ledger.total_move hpays toAddr
  · simp only [mul_bind_eq_ok, div_bind_eq_ok, sub_bind_eq_ok, add_bind_eq_ok] at h
    obtain ⟨-, -, hle, -, -, -, h⟩ := h
    cases h
    refine ⟨rfl, ?_⟩
    -- the fee and the rest are credited one after the other, whoever they go to
    change (((s.balances.debit holder amount).credit toAddr _).credit s.reserveAddress _).total = _
    rw [Ledger.total_credit, Ledger.total_credit, ← hdebit, Nat.add_assoc, Nat.sub_add_cancel hle]

theorem Accounted.transferWithFee (h : s.Accounted)
    (hcall : s.transferWithFee holder toAddr amount = .ok t) : t.Accounted := by
  obtain ⟨heq, htotal⟩ := transferWithFee_eq hcall
  rw [heq]
  exact ⟨htotal.trans h.balances, h.burned, h.supply⟩

/-- The counter of the day, where a mint of the stabilizer is counted. -/
theorem capMint_counted (hcap : sender = s.stabilizer ∧ 0 < s.stabilizerDailyMintCap)
    (h : s.capMint sender amount timestamp = .ok t) :
    t = { s with
      stabilizerMintedToday := t.stabilizerMintedToday
      stabilizerMintDayStart := t.stabilizerMintDayStart } ∧
    t.stabilizerMintDayStart = max s.stabilizerMintDayStart (timestamp / 86400 * 86400) ∧
    t.stabilizerMintedToday =
      (if s.stabilizerMintDayStart < timestamp / 86400 * 86400 then 0
        else s.stabilizerMintedToday) + amount ∧
    t.stabilizerMintedToday ≤ s.stabilizerDailyMintCap := by
  rw [capMint, if_pos hcap] at h
  simp only [add_bind_eq_ok, ensure_bind_eq_ok] at h
  obtain ⟨-, hle, h⟩ := h
  cases h
  split
  · next hnew => exact ⟨rfl, (max_eq_right hnew.le).symm, rfl, by simpa [hnew] using hle⟩
  · next hsame =>
    exact ⟨rfl, (max_eq_left (not_lt.mp hsame)).symm, rfl, by simpa [hsame] using hle⟩

theorem capMint_free (hfree : ¬(sender = s.stabilizer ∧ 0 < s.stabilizerDailyMintCap))
    (h : s.capMint sender amount timestamp = .ok t) : t = s := by
  rw [capMint, if_neg hfree] at h
  cases h
  rfl

theorem mint_eq (h : s.mint sender toAddr amount timestamp = .ok t) :
    ∃ capped, s.capMint sender amount timestamp = .ok capped ∧
      t = { capped with
        totalSupply := capped.totalSupply + amount
        totalMinted := capped.totalMinted + amount
        balances := capped.balances.credit toAddr amount } := by
  unfold mint at h
  rw [ensure_bind_eq_ok, whenNotPaused_bind_eq_ok, ensure_bind_eq_ok, bind_eq_ok] at h
  obtain ⟨-, -, -, capped, hcapped, h⟩ := h
  simp only [add_bind_eq_ok] at h
  cases h.2.2.2
  exact ⟨capped, hcapped, rfl⟩

theorem Accounted.mint (h : s.Accounted)
    (hcall : s.mint sender toAddr amount timestamp = .ok t) : t.Accounted := by
  obtain ⟨capped, hcapped, rfl⟩ := mint_eq hcall
  have haccounted : capped.Accounted := by
    by_cases hcap : sender = s.stabilizer ∧ 0 < s.stabilizerDailyMintCap
    · rw [(capMint_counted hcap hcapped).1]
      exact ⟨h.balances, h.burned, h.supply⟩
    · rwa [capMint_free hcap hcapped]
  have hbalances := haccounted.balances
  have hburned := haccounted.burned
  have hsupply := haccounted.supply
  refine ⟨?_, ?_, ?_⟩
  · dsimp only
    rw [Ledger.total_credit, hbalances]
  · dsimp only
    omega
  · dsimp only
    omega

theorem Accounted.burn (h : s.Accounted) (hcall : s.burn sender amount = .ok t) :
    t.Accounted := by
  unfold QUSD.burn at hcall
  rw [whenNotPaused_bind_eq_ok, ensure_bind_eq_ok, sub_bind_eq_ok, add_bind_eq_ok] at hcall
  obtain ⟨-, hpays, hle, -, hcall⟩ := hcall
  cases hcall
  have hdebit := Ledger.total_debit hpays
  have hbalances := h.balances
  have hburned := h.burned
  have hsupply := h.supply
  refine ⟨?_, ?_, ?_⟩
  · dsimp only
    omega
  · dsimp only
    omega
  · dsimp only
    omega

/-- The other calls leave the tokens and the counter of the day as they are. -/
theorem call_cases {c : Call} (h : s.call sender c = .ok t) :
    (∃ toAddr amount, c = .transfer toAddr amount ∧
      s.transferWithFee sender toAddr amount = .ok t) ∨
    (∃ holder toAddr amount, c = .transferFrom holder toAddr amount ∧
      transferWithFee { s with allowances := s.allowances.debit (holder, sender) amount } holder
        toAddr amount = .ok t) ∨
    (∃ toAddr amount timestamp, c = .mint toAddr amount timestamp ∧
      s.mint sender toAddr amount timestamp = .ok t) ∨
    (∃ amount, c = .burn amount ∧ s.burn sender amount = .ok t) ∨
    (t.balances = s.balances ∧ t.totalSupply = s.totalSupply ∧ t.totalMinted = s.totalMinted ∧
      t.totalBurned = s.totalBurned ∧ t.stabilizerMintedToday = s.stabilizerMintedToday ∧
      t.stabilizerMintDayStart = s.stabilizerMintDayStart) := by
  cases c with
  | approve spender amount =>
    simp only [call, approve, ensure_bind_eq_ok] at h
    cases h.2
    exact .inr (.inr (.inr (.inr ⟨rfl, rfl, rfl, rfl, rfl, rfl⟩)))
  | transfer toAddr amount => exact .inl ⟨toAddr, amount, rfl, transfer_eq_ok h⟩
  | transferFrom holder toAddr amount =>
    exact .inr (.inl ⟨holder, toAddr, amount, rfl, (transferFrom_eq_ok h).2⟩)
  | mint toAddr amount timestamp => exact .inr (.inr (.inl ⟨toAddr, amount, timestamp, rfl, h⟩))
  | burn amount => exact .inr (.inr (.inr (.inl ⟨amount, rfl, h⟩)))
  | setFeeBps newFeeBps =>
    simp only [call, setFeeBps, onlyOwner_bind_eq_ok, ensure_bind_eq_ok] at h
    cases h.2.2
    exact .inr (.inr (.inr (.inr ⟨rfl, rfl, rfl, rfl, rfl, rfl⟩)))
  | setFeeExempt account exempt =>
    simp only [call, setFeeExempt, onlyOwner_bind_eq_ok, ensure_bind_eq_ok] at h
    cases h.2.2
    exact .inr (.inr (.inr (.inr ⟨rfl, rfl, rfl, rfl, rfl, rfl⟩)))
  | setReserveAddress newReserve =>
    simp only [call, setReserveAddress, onlyOwner_bind_eq_ok, ensure_bind_eq_ok] at h
    cases h.2.2
    exact .inr (.inr (.inr (.inr ⟨rfl, rfl, rfl, rfl, rfl, rfl⟩)))
  | setDebtLedger debtLedger =>
    simp only [call, setDebtLedger, onlyOwner_bind_eq_ok, ensure_bind_eq_ok] at h
    cases h.2.2
    exact .inr (.inr (.inr (.inr ⟨rfl, rfl, rfl, rfl, rfl, rfl⟩)))
  | setStabilizer stabilizer =>
    simp only [call, setStabilizer, onlyOwner_bind_eq_ok, ensure_bind_eq_ok] at h
    cases h.2.2
    exact .inr (.inr (.inr (.inr ⟨rfl, rfl, rfl, rfl, rfl, rfl⟩)))
  | setStabilizerDailyMintCap cap =>
    simp only [call, setStabilizerDailyMintCap, onlyOwner_bind_eq_ok] at h
    cases h.2
    exact .inr (.inr (.inr (.inr ⟨rfl, rfl, rfl, rfl, rfl, rfl⟩)))
  | setPaused paused =>
    simp only [call, setPaused, onlyOwner_bind_eq_ok] at h
    cases h.2
    exact .inr (.inr (.inr (.inr ⟨rfl, rfl, rfl, rfl, rfl, rfl⟩)))
  | transferOwnership newOwner =>
    simp only [call, transferOwnership, onlyOwner_bind_eq_ok, ensure_bind_eq_ok] at h
    cases h.2.2
    exact .inr (.inr (.inr (.inr ⟨rfl, rfl, rfl, rfl, rfl, rfl⟩)))

theorem Accounted.call {c : Call} (h : s.Accounted) (hcall : s.call sender c = .ok t) :
    t.Accounted := by
  rcases call_cases hcall with ⟨_, _, -, htransfer⟩ | ⟨_, _, _, -, htransfer⟩ |
    ⟨_, _, _, -, hmint⟩ | ⟨_, -, hburn⟩ | ⟨hbalances, hsupply, hminted, hburned, -⟩
  · exact h.transferWithFee htransfer
  · apply Accounted.transferWithFee _ htransfer
    exact ⟨h.balances, h.burned, h.supply⟩
  · exact h.mint hmint
  · exact h.burn hburn
  · refine ⟨?_, ?_, ?_⟩
    · rw [hbalances, hsupply, h.balances]
    · rw [hburned, hminted]
      exact h.burned
    · rw [hsupply, hminted, hburned, h.supply]

theorem accounted_initial (sender reserveAddress : Address) :
    (initial sender reserveAddress).Accounted where
  balances := by
    have htotal := Ledger.total_set (∅ : Ledger Address) sender initialSupply
    rw [Ledger.balance_empty, Ledger.total_empty, Nat.add_zero, Nat.zero_add] at htotal
    exact htotal
  burned := Nat.zero_le _
  supply := rfl

end Supply

section Days

/-- A call of somebody in a block with a timestamp. -/
def callAt (timestamp : Nat) (s : QUSD) : Address × Call → Except String QUSD
  | (sender, .mint toAddr amount _) => s.call sender (.mint toAddr amount timestamp)
  | (sender, c) => s.call sender c

abbrev Input := Clocked.Input (Address × Call)

/-- A mint of the stabilizer under a cap, on a day since the epoch. -/
structure CappedMint where
  day : Nat
  amount : Nat
  cap : Nat

/-- What a transaction mints under a cap. -/
def cappedMint (s : Clocked QUSD) : Input → List CappedMint
  | .transaction (sender, .mint toAddr amount _) =>
    if (s.contract.mint sender toAddr amount s.timestamp).isOk ∧ sender = s.contract.stabilizer ∧
        0 < s.contract.stabilizerDailyMintCap then
      [{ day := s.timestamp / 86400
         amount := amount
         cap := s.contract.stabilizerDailyMintCap }]
    else []
  | _ => []

def cappedMints (s : Clocked QUSD) (inputs : List Input) : List CappedMint :=
  Machine.history (transact (Clocked.step callAt)) cappedMint s inputs

def mintedOn (day : Nat) (mints : List CappedMint) : Nat :=
  ((mints.filter (·.day = day)).map CappedMint.amount).sum

/-- At each of the mints, those of its day so far are within its cap. -/
def WithinCaps (mints : List CappedMint) : Prop :=
  ∀ before m after, mints = before ++ m :: after → mintedOn m.day (before ++ [m]) ≤ m.cap

variable {s t : Clocked QUSD} {mints : List CappedMint}

theorem mintedOn_append (day : Nat) (mints mints' : List CappedMint) :
    mintedOn day (mints ++ mints') = mintedOn day mints + mintedOn day mints' := by
  simp [mintedOn]

theorem mintedOn_eq_zero {day : Nat} (h : ∀ m ∈ mints, m.day ≠ day) : mintedOn day mints = 0 := by
  have hnone : mints.filter (·.day = day) = [] := by
    rw [List.filter_eq_nil_iff]
    intro m hm
    simpa using h m hm
  rw [mintedOn, hnone]
  rfl

theorem WithinCaps.snoc (h : WithinCaps mints) {m : CappedMint}
    (hm : mintedOn m.day (mints ++ [m]) ≤ m.cap) : WithinCaps (mints ++ [m]) := by
  intro before m' after heq
  cases after using List.reverseRecOn with
  | nil =>
    obtain ⟨rfl, hlast⟩ := List.append_inj' heq rfl
    cases List.singleton_inj.mp hlast
    exact hm
  | append_singleton after last =>
    rw [← List.cons_append, ← List.append_assoc] at heq
    exact h before m' after (List.append_inj' heq rfl).1

/-- The counter holds what was minted on its day, which is the last on which there was a mint. -/
structure Counting (s : Clocked QUSD) (mints : List CappedMint) : Prop where
  started : s.contract.stabilizerMintDayStart ≤ s.timestamp
  day : ∃ day, s.contract.stabilizerMintDayStart = day * 86400 ∧
    s.contract.stabilizerMintedToday = mintedOn day mints ∧ ∀ m ∈ mints, m.day ≤ day
  within : WithinCaps mints

theorem Counting.of_same (h : Counting s mints) (hle : s.timestamp ≤ t.timestamp)
    (htoday : t.contract.stabilizerMintedToday = s.contract.stabilizerMintedToday)
    (hstart : t.contract.stabilizerMintDayStart = s.contract.stabilizerMintDayStart) :
    Counting t mints where
  started := by
    rw [hstart]
    exact h.started.trans hle
  day := by
    rw [hstart, htoday]
    exact h.day
  within := h.within

/-- A mint under a cap. -/
theorem Counting.mint {sender toAddr : Address} {amount : Nat} (h : Counting s mints)
    (hcap : sender = s.contract.stabilizer ∧ 0 < s.contract.stabilizerDailyMintCap)
    (hmint : s.contract.mint sender toAddr amount s.timestamp = .ok t.contract)
    (htime : t.timestamp = s.timestamp) :
    Counting t (mints ++ [{ day := s.timestamp / 86400
                            amount := amount
                            cap := s.contract.stabilizerDailyMintCap }]) := by
  obtain ⟨capped, hcapped, heq⟩ := mint_eq hmint
  obtain ⟨-, hstart, htoday, hle⟩ := capMint_counted hcap hcapped
  obtain ⟨day, hday, hcounted, hmints⟩ := h.day
  have hstarted := h.started
  have hnow : day ≤ s.timestamp / 86400 := by omega
  have htoday' : capped.stabilizerMintedToday =
      mintedOn (s.timestamp / 86400) mints + amount := by
    rw [htoday]
    split
    · next hnew =>
      rw [mintedOn_eq_zero]
      intro m hm
      have hbefore := hmints m hm
      omega
    · next hsame =>
      have hdays : day = s.timestamp / 86400 := by omega
      rw [hcounted, hdays]
  have hsum : mintedOn (s.timestamp / 86400) (mints ++ [{ day := s.timestamp / 86400
                                                          amount := amount
                                                          cap := s.contract.stabilizerDailyMintCap }]) =
      capped.stabilizerMintedToday := by
    rw [mintedOn_append, htoday']
    simp [mintedOn]
  have hlast : t.contract.stabilizerMintDayStart = s.timestamp / 86400 * 86400 := by
    rw [heq]
    exact hstart.trans (max_eq_right (by omega))
  refine ⟨?_, ⟨s.timestamp / 86400, hlast, ?_, ?_⟩, h.within.snoc ?_⟩
  · rw [hlast, htime]
    exact Nat.div_mul_le_self _ _
  · rw [hsum, heq]
  · intro m hm
    rcases List.mem_append.mp hm with hold | hnew
    · exact (hmints m hold).trans hnow
    · cases List.mem_singleton.mp hnew
      exact le_rfl
  · rw [hsum]
    exact hle

theorem Counting.transact (h : Counting s mints) (input : Input) :
    Counting (transact (Clocked.step callAt) s input) (mints ++ cappedMint s input) := by
  cases hstep : Clocked.step callAt s input with
  | error e =>
    rw [transact_of_error hstep]
    have hnone : cappedMint s input = [] := by
      unfold cappedMint
      split
      · next sender toAddr amount _ =>
        rw [if_neg]
        rintro ⟨hok, -⟩
        cases hmint : s.contract.mint sender toAddr amount s.timestamp with
        | error _ =>
          rw [hmint] at hok
          cases hok
        | ok contract =>
          rw [Clocked.step] at hstep
          change (s.contract.mint sender toAddr amount s.timestamp >>= _) = _ at hstep
          rw [hmint] at hstep
          cases hstep
      · rfl
    rwa [hnone, List.append_nil]
  | ok t =>
    rw [transact_of_ok hstep]
    cases input with
    | wait seconds =>
      obtain rfl := (Clocked.step_wait seconds).mp hstep
      rw [cappedMint, List.append_nil]
      · exact h.of_same (Nat.le_add_right _ _) rfl rfl
      · intro sender toAddr amount timestamp h
        cases h
    | transaction c =>
      obtain ⟨hcall, htime⟩ := Clocked.step_transaction.mp hstep
      obtain ⟨sender, c⟩ := c
      by_cases hmint : ∃ toAddr amount timestamp, c = .mint toAddr amount timestamp
      · obtain ⟨toAddr, amount, timestamp, rfl⟩ := hmint
        change s.contract.mint sender toAddr amount s.timestamp = .ok t.contract at hcall
        by_cases hcap : sender = s.contract.stabilizer ∧ 0 < s.contract.stabilizerDailyMintCap
        · rw [cappedMint, if_pos ⟨by rw [hcall]; rfl, hcap⟩]
          exact h.mint hcap hcall htime
        · rw [cappedMint, if_neg fun hand => hcap hand.2, List.append_nil]
          obtain ⟨capped, hcapped, heq⟩ := mint_eq hcall
          cases capMint_free hcap hcapped
          exact h.of_same htime.ge (by rw [heq]) (by rw [heq])
      · have hnone : cappedMint s (.transaction (sender, c)) = [] := by
          unfold cappedMint
          split
          · next heq =>
            cases heq
            exact absurd ⟨_, _, _, rfl⟩ hmint
          · rfl
        have hsame : s.contract.call sender c = .ok t.contract := by
          unfold callAt at hcall
          split at hcall
          · next heq =>
            cases heq
            exact absurd ⟨_, _, _, rfl⟩ hmint
          · next heq =>
            cases heq
            exact hcall
        rw [hnone, List.append_nil]
        rcases call_cases hsame with ⟨_, _, -, htransfer⟩ | ⟨_, _, _, -, htransfer⟩ |
          ⟨toAddr, amount, timestamp, rfl, -⟩ | ⟨_, -, hburn⟩ | ⟨-, -, -, -, htoday, hstart⟩
        · have heq := (transferWithFee_eq htransfer).1
          exact h.of_same htime.ge (by rw [heq]) (by rw [heq])
        · have heq := (transferWithFee_eq htransfer).1
          exact h.of_same htime.ge (by rw [heq]) (by rw [heq])
        · exact absurd ⟨_, _, _, rfl⟩ hmint
        · unfold QUSD.burn at hburn
          rw [whenNotPaused_bind_eq_ok, ensure_bind_eq_ok, sub_bind_eq_ok, add_bind_eq_ok] at hburn
          obtain ⟨-, -, -, -, hburn⟩ := hburn
          have heq := (Except.ok.inj hburn).symm
          exact h.of_same htime.ge (by rw [heq]) (by rw [heq])
        · exact h.of_same htime.ge htoday hstart

end Days

/-- The contract as deployed. -/
def deployed (sender reserveAddress : Address) (timestamp : Nat) : Clocked QUSD where
  timestamp := timestamp
  contract := initial sender reserveAddress

theorem accounted_run (sender reserveAddress : Address) (timestamp : Nat) (inputs : List Input) :
    (run (Clocked.step callAt) (deployed sender reserveAddress timestamp) inputs).contract.Accounted := by
  refine run_invariant (P := fun s : Clocked QUSD => s.contract.Accounted) ?_ (accounted_initial _ _) inputs
  intro s input t h hstep
  cases input with
  | wait seconds =>
    obtain rfl := (Clocked.step_wait seconds).mp hstep
    exact h
  | transaction c =>
    obtain ⟨hcall, -⟩ := Clocked.step_transaction.mp hstep
    unfold callAt at hcall
    split at hcall
    · exact h.call hcall
    · exact h.call hcall

theorem counting_run (sender reserveAddress : Address) (timestamp : Nat) (inputs : List Input) :
    Counting (run (Clocked.step callAt) (deployed sender reserveAddress timestamp) inputs)
      (cappedMints (deployed sender reserveAddress timestamp) inputs) := by
  apply Machine.history_invariant (P := Counting)
  · exact fun _ _ input h => h.transact input
  · refine ⟨Nat.zero_le _, ⟨0, rfl, rfl, nofun⟩, ?_⟩
    intro before m after heq
    exact absurd heq.symm (by simp)

end Qubitcoin.Contracts.QUSD
