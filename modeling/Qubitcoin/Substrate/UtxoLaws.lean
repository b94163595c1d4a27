import Qubitcoin.Substrate.LedgerLaws
import Qubitcoin.Substrate.Utxo

/-! What a successful call of the UTXO pallet moves.  Value is only ever lost to
saturation, and nothing saturates while the whole supply fits its word. -/

namespace Qubitcoin.Substrate.Utxo

open Ledger

/-- Unspent outputs, fees waiting for a miner and fees burned. -/
def Storage.supply (s : Storage) : Nat :=
  s.total + s.accumulatedFees.toNat + s.totalFeesBurned.toNat

/-- A movement of funds: `spent` leaves the set, `made` enters it, and `reward` is
the value that was not there before. -/
structure Movement (s s' : Storage) (spent : List (OutPoint × Utxo)) (made : List Utxo)
    (reward : Nat) : Prop where
  holds : s.Holds spent
  nodup : (made.map Utxo.key).Nodup
  ledger : s'.toLedger = s.toLedger.transfer spent made
  value_le :
    worth made + s'.accumulatedFees.toNat + s'.totalFeesBurned.toNat ≤
      worth (spent.map Prod.snd) + s.accumulatedFees.toNat + s.totalFeesBurned.toNat + reward
  value_eq : s.supply + reward < 2 ^ 128 →
    worth made + s'.accumulatedFees.toNat + s'.totalFeesBurned.toNat =
      worth (spent.map Prod.snd) + s.accumulatedFees.toNat + s.totalFeesBurned.toNat + reward

section Movement

variable {s s' : Storage} {spent : List (OutPoint × Utxo)} {made : List Utxo} {reward : Nat}

theorem Movement.of_frame (hledger : s'.toLedger = s.toLedger)
    (hfees : s'.accumulatedFees = s.accumulatedFees)
    (hburned : s'.totalFeesBurned = s.totalFeesBurned) : Movement s s' [] [] 0 where
  holds := ⟨List.nodup_nil, fun _ h => absurd h List.not_mem_nil⟩
  nodup := List.nodup_nil
  ledger := hledger
  value_le := by rw [hfees, hburned]; rfl
  value_eq _ := by rw [hfees, hburned]; rfl

theorem Movement.supply_le (m : Movement s s' spent made reward) :
    s'.supply ≤ s.supply + reward := by
  have hmoved := total_transfer_le made m.holds
  have hvalue := m.value_le
  rw [Storage.supply, Storage.supply, m.ledger]
  omega

theorem Movement.supply_eq (m : Movement s s' spent made reward) (hl : s.Logged)
    (hm : s.Fresh made) (hfits : s.supply + reward < 2 ^ 128) :
    s'.supply = s.supply + reward := by
  have hmoved := total_transfer hl m.holds hm
  have hvalue := m.value_eq hfits
  rw [Storage.supply, Storage.supply, m.ledger]
  omega

theorem Movement.worth_spent_le (m : Movement s s' spent made reward) :
    worth (spent.map Prod.snd) ≤ s.total := by
  rw [← total_dropAll m.holds]
  exact Nat.le_add_left _ _

end Movement

/-! ## Transactions -/

variable {cfg : Config} {s s' : Storage} {msg : Bytes}

theorem validateInput_eq_ok {signature : Option Dilithium.Signature}
    {input : TransactionInput} {utxo : Utxo} :
    validateInput cfg s msg signature input = .ok utxo ↔
      s.utxoSet.lookup input.key = some utxo ∧
      (utxo.isCoinbase → coinbaseMaturity ≤ s.currentHeight - utxo.blockHeight) ∧
      ∃ sig, signature = some sig ∧ ∃ pk, cfg.getPublicKey utxo.address = some pk ∧
        cfg.verifySignature pk msg sig.val = true := by
  simp only [validateInput, Checked.okOr_bind_eq_ok, Checked.ensure_bind_eq_ok,
    Checked.pure_eq_ok, Except.ok.injEq]
  constructor
  · rintro ⟨u, hlookup, hmature, sig, hsig, pk, hpk, hverify, rfl⟩
    exact ⟨hlookup, hmature, sig, hsig, pk, hpk, hverify⟩
  · rintro ⟨hlookup, hmature, sig, hsig, pk, hpk, hverify⟩
    exact ⟨utxo, hlookup, hmature, sig, hsig, pk, hpk, hverify, rfl⟩

theorem validateInputs_ok {signatures : List Dilithium.Signature} {i : Nat}
    {totalInput t : QbcBalance} {inputs : List TransactionInput} {utxos : List Utxo}
    (h : validateInputs cfg s msg signatures i totalInput inputs = .ok (t, utxos)) :
    List.Forall₂ (fun input utxo => ∃ sig, validateInput cfg s msg sig input = .ok utxo)
      inputs utxos ∧ t.toNat = totalInput.toNat + worth utxos := by
  induction inputs generalizing i totalInput utxos with
  | nil =>
    cases h
    exact ⟨.nil, rfl⟩
  | cons input inputs ih =>
    simp only [validateInputs, Checked.bind_eq_ok, Checked.okOr_eq_ok, Checked.pure_eq_ok,
      Except.ok.injEq] at h
    obtain ⟨utxo, hinput, next, hadd, ⟨t', rest⟩, hrest, heq⟩ := h
    cases heq
    obtain ⟨hall, hsum⟩ := ih hrest
    refine ⟨.cons ⟨_, hinput⟩ hall, ?_⟩
    rw [hsum, BitVec.toNat_of_checkedAdd hadd, worth_cons, Nat.add_assoc]

theorem validateOutputs_ok {totalOutput t : QbcBalance} {outputs : List TransactionOutput}
    (h : validateOutputs totalOutput outputs = .ok t) :
    (∀ o ∈ outputs, 0 < o.amount) ∧
      t.toNat = totalOutput.toNat + (outputs.map fun o => o.amount.toNat).sum := by
  induction outputs generalizing totalOutput with
  | nil =>
    cases h
    exact ⟨fun _ h => absurd h List.not_mem_nil, rfl⟩
  | cons output outputs ih =>
    simp only [validateOutputs, Checked.ensure_bind_eq_ok, Checked.okOr_bind_eq_ok] at h
    obtain ⟨hpos, next, hadd, hrest⟩ := h
    obtain ⟨hall, hsum⟩ := ih hrest
    refine ⟨List.forall_mem_cons.mpr ⟨hpos, hall⟩, ?_⟩
    rw [hsum, BitVec.toNat_of_checkedAdd hadd, List.map_cons, List.sum_cons, Nat.add_assoc]

theorem accumulateFee_eq (s : Storage) (fee : QbcBalance) :
    accumulateFee s fee =
      { s with accumulatedFees := s.accumulatedFees.saturatingAdd fee } := by
  unfold accumulateFee
  split
  · rfl
  · next h =>
    have hzero : fee.toNat = 0 := by simpa [BitVec.lt_def] using h
    have hid : s.accumulatedFees.saturatingAdd fee = s.accumulatedFees := by
      have := s.accumulatedFees.isLt
      apply BitVec.eq_of_toNat_eq
      rw [BitVec.toNat_saturatingAdd]
      omega
    rw [hid]

theorem spendInputs_eq (s : Storage) (spent : List (TransactionInput × Utxo)) :
    ∃ marks, spendInputs s spent =
      { s with
        toLedger := s.toLedger.dropAll (spent.map fun p => (p.1.key, p.2))
        spentUtxos := marks } := by
  induction spent generalizing s with
  | nil => exact ⟨s.spentUtxos, rfl⟩
  | cons p ps ih =>
    obtain ⟨marks, h⟩ := ih (spendInput s p.1 p.2)
    exact ⟨marks, h⟩

theorem foldl_putUtxo (s : Storage) (utxos : List Utxo) :
    utxos.foldl putUtxo s = { s with toLedger := s.toLedger.putAll utxos } := by
  induction utxos generalizing s with
  | nil => rfl
  | cons u us ih => exact ih (putUtxo s u)

/-- The outputs a transaction makes at a height. -/
def madeOutputs (cfg : Config) (inputs : List TransactionInput)
    (outputs : List TransactionOutput) (height : BlockHeight) : List Utxo :=
  outputs.mapIdx (outputUtxo (computeTxid cfg inputs outputs) height)

theorem worth_mapIdx {make : Nat → TransactionOutput → Utxo}
    (hmake : ∀ i o, (make i o).amount = o.amount) (outputs : List TransactionOutput) :
    worth (outputs.mapIdx make) = (outputs.map fun o => o.amount.toNat).sum := by
  induction outputs generalizing make with
  | nil => rfl
  | cons o os ih =>
    rw [List.mapIdx_cons, worth_cons, hmake, ih (fun i => hmake (i + 1)), List.map_cons,
      List.sum_cons]

theorem worth_madeOutputs (cfg : Config) (inputs : List TransactionInput)
    (outputs : List TransactionOutput) (height : BlockHeight) :
    worth (madeOutputs cfg inputs outputs height) =
      (outputs.map fun o => o.amount.toNat).sum :=
  worth_mapIdx (fun _ _ => rfl) outputs

theorem nodup_keys_madeOutputs (inputs : List TransactionInput)
    {outputs : List TransactionOutput} (h : outputs.length ≤ maxOutputs) (height : BlockHeight) :
    ((madeOutputs cfg inputs outputs height).map Utxo.key).Nodup := by
  have hbound : maxOutputs < 2 ^ 32 := by decide
  rw [madeOutputs, List.Nodup, List.pairwise_map, List.pairwise_iff_getElem]
  intro i j hi hj hij hkey
  rw [List.length_mapIdx] at hi hj
  rw [List.getElem_mapIdx, List.getElem_mapIdx] at hkey
  have hvout := congrArg (fun k : OutPoint => k.2.toNat) hkey
  simp only [Utxo.key, outputUtxo, BitVec.toNat_ofNat] at hvout
  rw [Nat.mod_eq_of_lt (by omega), Nat.mod_eq_of_lt (by omega)] at hvout
  omega

/-- Everything a successful transaction says about the state it met. -/
structure Accepted (cfg : Config) (s : Storage) (inputs : List TransactionInput)
    (outputs : List TransactionOutput) (spent : List Utxo) : Prop where
  inputs_ne_nil : inputs ≠ []
  outputs_ne_nil : outputs ≠ []
  nodup : (inputs.map TransactionInput.key).Nodup
  unspent : ∀ i ∈ inputs, i.key ∉ s.spentUtxos
  unfrozen : ∀ i ∈ inputs, cfg.isFrozen i.prevTxid i.prevVout = false
  valid : List.Forall₂ (fun input utxo => ∃ sig,
    validateInput cfg s (signingMessage inputs outputs) sig input = .ok utxo) inputs spent
  covered : (outputs.map fun o => o.amount.toNat).sum ≤ worth spent

theorem submitTransaction_ok {inputs : BoundedVec TransactionInput maxInputs}
    {outputs : BoundedVec TransactionOutput maxOutputs}
    {signatures : BoundedVec Dilithium.Signature maxInputs}
    (h : submitTransaction cfg s inputs outputs signatures = .ok s') :
    ∃ spent marks, ∃ fee : QbcBalance,
      Accepted cfg s inputs.val outputs.val spent ∧
      fee.toNat = worth spent - (outputs.val.map fun o => o.amount.toNat).sum ∧
      s' = { s with
        toLedger := s.toLedger.transfer ((inputs.val.map TransactionInput.key).zip spent)
          (madeOutputs cfg inputs.val outputs.val s.currentHeight)
        accumulatedFees := s.accumulatedFees.saturatingAdd fee
        spentUtxos := marks
        txCount := s.txCount.saturatingAdd 1 } := by
  simp only [submitTransaction, Checked.ensure_bind_eq_ok] at h
  obtain ⟨hinputs, houtputs, hpairwise, hunspent, hunfrozen, h⟩ := h
  obtain ⟨⟨totalInput, spent⟩, hvalid, h⟩ := Checked.bind_eq_ok.mp h
  obtain ⟨totalOutput, houts, h⟩ := Checked.bind_eq_ok.mp h
  obtain ⟨hcovered, h⟩ := Checked.ensure_bind_eq_ok.mp h
  cases h
  obtain ⟨hall, hin⟩ := validateInputs_ok hvalid
  obtain ⟨-, hout⟩ := validateOutputs_ok houts
  obtain ⟨marks, hspend⟩ := spendInputs_eq
    (accumulateFee s (totalInput.saturatingSub totalOutput)) (inputs.val.zip spent)
  rw [BitVec.le_def, hin, hout] at hcovered
  refine ⟨spent, marks, totalInput.saturatingSub totalOutput, ?_, ?_, ?_⟩
  · refine ⟨hinputs, houtputs, ?_, hunspent, hunfrozen, hall, by simpa using hcovered⟩
    rw [List.Nodup, List.pairwise_map]
    exact hpairwise.imp fun hne heq => hne (Prod.mk.inj heq)
  · rw [BitVec.toNat_saturatingSub, hin, hout]
    simp
  · rw [hspend, createOutputs, foldl_putUtxo, accumulateFee_eq, transfer, List.zip_map_left]
    rfl

theorem Accepted.length_eq {inputs : List TransactionInput} {outputs : List TransactionOutput}
    {spent : List Utxo} (h : Accepted cfg s inputs outputs spent) :
    (inputs.map TransactionInput.key).length = spent.length := by
  rw [List.length_map]
  exact h.valid.length_eq

/-- Every input is spent, with the entry it was found at. -/
theorem Accepted.exists_spent {inputs : List TransactionInput}
    {outputs : List TransactionOutput} {spent : List Utxo}
    (h : Accepted cfg s inputs outputs spent) {k : OutPoint}
    (hk : k ∈ inputs.map TransactionInput.key) :
    ∃ u, (k, u) ∈ (inputs.map TransactionInput.key).zip spent := by
  rw [← List.map_fst_zip h.length_eq.le] at hk
  obtain ⟨⟨k', u⟩, hmem, rfl⟩ := List.mem_map.mp hk
  exact ⟨u, hmem⟩

theorem Accepted.holds {inputs : List TransactionInput} {outputs : List TransactionOutput}
    {spent : List Utxo} (h : Accepted cfg s inputs outputs spent) :
    s.Holds ((inputs.map TransactionInput.key).zip spent) where
  nodup := by
    rw [List.map_fst_zip h.length_eq.le]
    exact h.nodup
  lookup := by
    intro p hp
    rw [List.zip_map_left, List.mem_map] at hp
    obtain ⟨⟨input, utxo⟩, hmem, rfl⟩ := hp
    obtain ⟨sig, hsig⟩ := List.forall₂_iff_zip.mp h.valid |>.2 hmem
    exact (validateInput_eq_ok.mp hsig).1

theorem Accepted.movement {inputs : List TransactionInput} {outputs : List TransactionOutput}
    {spent : List Utxo} {fee : QbcBalance} (h : Accepted cfg s inputs outputs spent)
    (hbound : outputs.length ≤ maxOutputs)
    (hfee : fee.toNat = worth spent - (outputs.map fun o => o.amount.toNat).sum)
    (hledger : s'.toLedger = s.toLedger.transfer ((inputs.map TransactionInput.key).zip spent)
      (madeOutputs cfg inputs outputs s.currentHeight))
    (hfees : s'.accumulatedFees = s.accumulatedFees.saturatingAdd fee)
    (hburned : s'.totalFeesBurned = s.totalFeesBurned) :
    Movement s s' ((inputs.map TransactionInput.key).zip spent)
      (madeOutputs cfg inputs outputs s.currentHeight) 0 := by
  have hmade := worth_madeOutputs cfg inputs outputs s.currentHeight
  have hspent : ((inputs.map TransactionInput.key).zip spent).map Prod.snd = spent :=
    List.map_snd_zip h.length_eq.ge
  have hcovered := h.covered
  have hdrop := total_dropAll h.holds
  rw [hspent] at hdrop
  constructor
  · exact h.holds
  · exact nodup_keys_madeOutputs inputs hbound s.currentHeight
  · exact hledger
  · have hle := BitVec.toNat_saturatingAdd_le s.accumulatedFees fee
    rw [hspent, hmade, hfees, hburned]
    omega
  · intro hfits
    rw [Storage.supply] at hfits
    rw [hspent, hmade, hfees, hburned, BitVec.toNat_saturatingAdd_of_lt]
    · omega
    · omega

/-! ## Fees and coinbases -/

theorem finalizeFeesWithBurn_ledger (s : Storage) :
    (finalizeFeesWithBurn s).2.toLedger = s.toLedger := by
  unfold finalizeFeesWithBurn
  split <;> rfl

theorem finalizeFeesWithBurn_height (s : Storage) :
    (finalizeFeesWithBurn s).2.currentHeight = s.currentHeight := by
  unfold finalizeFeesWithBurn
  split <;> rfl

/-- The burned half never exceeds the fees, not even when `fees + 1` wraps. -/
theorem finalizeFeesWithBurn_value (s : Storage) :
    ∃ burn ≤ s.accumulatedFees.toNat,
      (finalizeFeesWithBurn s).1.toNat = s.accumulatedFees.toNat - burn ∧
      (finalizeFeesWithBurn s).2.accumulatedFees.toNat = 0 ∧
      (finalizeFeesWithBurn s).2.totalFeesBurned.toNat =
        min (s.totalFeesBurned.toNat + burn) (2 ^ 128 - 1) := by
  by_cases hzero : s.accumulatedFees = 0
  · have hburned := s.totalFeesBurned.isLt
    refine ⟨0, Nat.zero_le _, ?_⟩
    rw [finalizeFeesWithBurn, if_pos hzero, hzero]
    refine ⟨rfl, rfl, ?_⟩
    change s.totalFeesBurned.toNat = _
    omega
  · have hpos : s.accumulatedFees.toNat ≠ 0 := by
      intro h
      exact hzero (BitVec.eq_of_toNat_eq h)
    refine ⟨((s.accumulatedFees + 1) / 2).toNat, ?_, ?_⟩
    · rw [BitVec.toNat_udiv, BitVec.toNat_add]
      change (s.accumulatedFees.toNat + 1) % 2 ^ 128 / 2 ≤ _
      have := Nat.mod_le (s.accumulatedFees.toNat + 1) (2 ^ 128)
      omega
    · rw [finalizeFeesWithBurn, if_neg hzero]
      exact ⟨BitVec.toNat_saturatingSub _ _, rfl, BitVec.toNat_saturatingAdd _ _⟩

end Qubitcoin.Substrate.Utxo
