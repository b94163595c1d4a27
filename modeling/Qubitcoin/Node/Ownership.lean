import Qubitcoin.Node.Validation

/-! What a transaction that the validator accepts does with the unspent outputs: whose they are,
and whether the amounts add up. -/

namespace Qubitcoin.Node

open Privacy (Curve)

def TxInput.key (inp : TxInput) : Option (String × ℤ) := do return (← inp.txid, ← inp.vout)

/-- The unspent output that an input names. -/
def ChainView.coin (db : ChainView) (inp : TxInput) : Option Utxo := do
  db.unspent (← inp.txid) (← inp.vout)

/-- The exact amounts that a transaction moves: each input names an unspent output, and each
output has a number for its amount. -/
structure Movement (db : ChainView) (tx : Transaction) where
  coins : List Utxo
  spent : List ℚ
  created : List ℚ
  fee : ℚ
  coins_eq : tx.inputs.map db.coin = coins.map some
  spent_eq : coins.map Utxo.amount = spent.map .finite
  created_eq : tx.outputs.map TxOutput.decimal = created.map fun q => some (.finite q)
  fee_eq : tx.fee = .finite fee

/-- A sum of numbers as the code takes it. -/
def roundedSum (amounts : List ℚ) : ℚ :=
  amounts.foldl (fun sum q => Decimal.roundTo prec (sum + q)) 0

section

variable {crypto : Crypto} {db : ChainView} {tx : Transaction}

structure Movement.Sound (m : Movement db tx) (crypto : Crypto) : Prop where
  owned : ∀ utxo ∈ m.coins, tx.signer crypto = some utxo.address
  distinct : (tx.inputs.map TxInput.key).Nodup
  positive : ∀ q ∈ m.created, 0 < q
  fee_nonneg : 0 ≤ m.fee
  balanced : m.spent.sum = m.created.sum + m.fee

/-- The sums need no more digits than the context has. -/
def Movement.Exact (m : Movement db tx) : Prop :=
  roundedSum m.spent = m.spent.sum ∧
    Decimal.roundTo prec (roundedSum m.created + m.fee) = m.created.sum + m.fee

/-- What the validator leaves to the sender. -/
structure Movement.Honest (m : Movement db tx) (crypto : Crypto) : Prop where
  owned : ∀ utxo ∈ m.coins, tx.signer crypto = some utxo.address
  distinct : tx.isPrivate = true → (tx.inputs.map TxInput.key).Nodup
  positive : ∀ q ∈ m.created, 0 < q
  fee_nonneg : 0 ≤ m.fee
  no_surplus : m.spent.sum ≤ m.created.sum + m.fee
  covered : tx.isPrivate = true ∨ ¬ m.Exact → m.created.sum + m.fee ≤ m.spent.sum

theorem sum_finite (amounts : List ℚ) (q : ℚ) :
    (amounts.map Decimal.finite).foldlM (Decimal.add prec) (.finite q) =
      .ok (.finite (amounts.foldl (fun sum q => Decimal.roundTo prec (sum + q)) q)) := by
  induction amounts generalizing q with
  | nil => rfl
  | cons a amounts ih =>
    rw [List.map_cons, List.foldlM_cons]
    exact ih _

theorem sumDecimals_finite (amounts : List ℚ) :
    sumDecimals (amounts.map .finite) = .ok (.finite (roundedSum amounts)) :=
  sum_finite amounts 0

theorem ofSignal_eq_ok {α : Type} {x : Except Decimal.Signal α} {a : α} :
    ofSignal x = .ok a ↔ x = .ok a :=
  Checked.mapError_eq_ok

/-- One input: an unspent output that the inputs before it do not name. -/
theorem spendInput_ok {height : ℤ} {s s' : Spending} {inp : TxInput}
    (h : spendInput db height s inp = .ok s') :
    ∃ key utxo, inp.key = some key ∧ db.coin inp = some utxo ∧ key ∉ s.spentUtxos ∧
      s'.spentUtxos = key :: s.spentUtxos ∧
        Decimal.add prec s.inputTotal utxo.amount = .ok s'.inputTotal := by
  unfold spendInput at h
  obtain ⟨txid, htxid, h⟩ := Checked.okOr_bind_eq_ok.mp h
  obtain ⟨vout, hvout, h⟩ := Checked.okOr_bind_eq_ok.mp h
  obtain ⟨hfresh, h⟩ := Checked.ensure_bind_eq_ok.mp h
  obtain ⟨utxo, hutxo, h⟩ := Checked.okOr_bind_eq_ok.mp h
  obtain ⟨-, h⟩ := Checked.ensure_bind_eq_ok.mp h
  obtain ⟨total, htotal, h⟩ := Checked.mapError_bind_eq_ok.mp h
  cases h
  refine ⟨(txid, vout), utxo, ?_, ?_, hfresh, rfl, htotal⟩
  · simp [TxInput.key, htxid, hvout]
  · simp [ChainView.coin, htxid, hvout, hutxo]

/-- The whole loop over the inputs. -/
theorem spendInputs_ok {height : ℤ} {inputs : List TxInput} {s s' : Spending}
    (h : inputs.foldlM (spendInput db height) s = .ok s') (hs : s.spentUtxos.Nodup) :
    ∃ (keys : List (String × ℤ)) (coins : List Utxo),
      inputs.map TxInput.key = keys.map some ∧ inputs.map db.coin = coins.map some ∧
      s'.spentUtxos = keys.reverse ++ s.spentUtxos ∧ s'.spentUtxos.Nodup ∧
        (coins.map Utxo.amount).foldlM (Decimal.add prec) s.inputTotal = .ok s'.inputTotal := by
  induction inputs generalizing s with
  | nil =>
    cases h
    exact ⟨[], [], rfl, rfl, rfl, hs, rfl⟩
  | cons inp inputs ih =>
    rw [List.foldlM_cons] at h
    obtain ⟨s₁, hstep, h⟩ := Checked.bind_eq_ok.mp h
    obtain ⟨key, utxo, hkey, hutxo, hfresh, hspent, hadd⟩ := spendInput_ok hstep
    have hs₁ : s₁.spentUtxos.Nodup := by
      rw [hspent]
      exact List.nodup_cons.mpr ⟨hfresh, hs⟩
    obtain ⟨keys, coins, hkeys, hcoins, hspent', hnodup, htotal⟩ := ih h hs₁
    refine ⟨key :: keys, utxo :: coins, ?_, ?_, ?_, hnodup, ?_⟩
    · simp [hkey, hkeys]
    · simp [hutxo, hcoins]
    · simp [hspent', hspent]
    · rw [List.map_cons, List.foldlM_cons, hadd]
      exact htotal

/-- What the validator itself checks of a public transaction. -/
theorem checkPublicTransaction_ok {height : Option ℤ}
    (h : checkPublicTransaction crypto db tx height = .ok ()) :
    (tx.inputs.map TxInput.key).Nodup ∧
      ∃ (coins : List Utxo) (amounts : List Decimal) (spent created needed : Decimal),
        tx.inputs.map db.coin = coins.map some ∧
        tx.outputs.map TxOutput.decimal = amounts.map some ∧
          sumDecimals (coins.map Utxo.amount) = .ok spent ∧ sumDecimals amounts = .ok created ∧
            Decimal.add prec created tx.fee = .ok needed ∧ needed ≤ spent := by
  unfold checkPublicTransaction at h
  obtain ⟨content, -, h⟩ := Checked.okOr_bind_eq_ok.mp h
  obtain ⟨valid, -, h⟩ := Checked.okOr_bind_eq_ok.mp h
  obtain ⟨-, h⟩ := Checked.ensure_bind_eq_ok.mp h
  obtain ⟨now, -, h⟩ := Checked.mapError_bind_eq_ok.mp h
  obtain ⟨s, hloop, h⟩ := Checked.bind_eq_ok.mp h
  obtain ⟨amounts, hamounts, h⟩ := Checked.okOr_bind_eq_ok.mp h
  obtain ⟨created, hcreated, h⟩ := Checked.mapError_bind_eq_ok.mp h
  obtain ⟨needed, hneeded, h⟩ := Checked.mapError_bind_eq_ok.mp h
  obtain ⟨short, hshort, h⟩ := Checked.mapError_bind_eq_ok.mp h
  cases Checked.ensure_eq_ok.mp h
  obtain ⟨keys, coins, hkeys, hcoins, hspent, hnodup, htotal⟩ := spendInputs_ok hloop List.nodup_nil
  constructor
  · rw [hspent, List.append_nil, List.nodup_reverse] at hnodup
    rw [hkeys]
    exact hnodup.map (Option.some_injective _)
  · exact ⟨coins, amounts, s.inputTotal, created, needed, hcoins, Checked.mapM_eq_some.mp hamounts,
      htotal, hcreated, hneeded, Decimal.of_lt?_false hshort⟩

/-- What the validator itself checks of the amounts, where they are numbers. -/
theorem Movement.covered_of_accepted (m : Movement db tx) {height : Option ℤ}
    (h : checkPublicTransaction crypto db tx height = .ok ()) :
    Decimal.roundTo prec (roundedSum m.created + m.fee) ≤ roundedSum m.spent := by
  obtain ⟨-, coins, amounts, spent, created, needed, hcoins, hamounts, hspent, hcreated, hneeded,
    hle⟩ := checkPublicTransaction_ok h
  have hsome := Function.Injective.list_map (Option.some_injective Utxo)
  cases hsome (hcoins.symm.trans m.coins_eq)
  have hfinite : amounts = m.created.map .finite := by
    apply Function.Injective.list_map (Option.some_injective Decimal)
    rw [← hamounts, m.created_eq, List.map_map]
    rfl
  rw [m.spent_eq, sumDecimals_finite] at hspent
  rw [hfinite, sumDecimals_finite] at hcreated
  cases hspent
  cases hcreated
  rw [m.fee_eq] at hneeded
  cases hneeded
  exact Decimal.finite_le_finite.mp hle

theorem checkPublicTransaction_of_accepted {E : Type} [Curve E] [DecidableEq E] {height : Option ℤ}
    (hprivate : tx.isPrivate = false) (h : validateTransaction E crypto db tx height = true) :
    checkPublicTransaction crypto db tx height = .ok () := by
  rw [validateTransaction, hprivate] at h
  cases hcheck : checkPublicTransaction crypto db tx height with
  | ok u => rfl
  | error e =>
    rw [hcheck] at h
    cases h

/-- An accepted transaction spends only the signer's unspent outputs, each once, and creates
exactly what it spends less its fee, if and only if it is honest. -/
theorem accepted_sound_iff {E : Type} [Curve E] [DecidableEq E] {height : Option ℤ}
    (h : validateTransaction E crypto db tx height = true) :
    (∃ m : Movement db tx, m.Sound crypto) ↔ ∃ m : Movement db tx, m.Honest crypto := by
  constructor
  · rintro ⟨m, hm⟩
    refine ⟨m, hm.owned, fun _ => hm.distinct, hm.positive, hm.fee_nonneg, ?_, fun _ => ?_⟩
    · exact hm.balanced.le
    · exact hm.balanced.ge
  · rintro ⟨m, hm⟩
    cases hprivate : tx.isPrivate with
    | true =>
      have hle := hm.covered (.inl hprivate)
      exact ⟨m, hm.owned, hm.distinct hprivate, hm.positive, hm.fee_nonneg,
        le_antisymm hm.no_surplus hle⟩
    | false =>
      have hok := checkPublicTransaction_of_accepted hprivate h
      refine ⟨m, hm.owned, (checkPublicTransaction_ok hok).1, hm.positive, hm.fee_nonneg, ?_⟩
      apply le_antisymm hm.no_surplus
      by_cases hexact : m.Exact
      · have hle := m.covered_of_accepted hok
        rwa [hexact.1, hexact.2] at hle
      · exact hm.covered (.inr hexact)

end

section Sample

/-- A key of the second Dilithium level that is all zeros, with its digest, and a signature that
verifies under it. -/
def sampleCrypto : Crypto where
  encode _ := []
  verify pk _ sig := pk.length = 1312 && sig.length = 2420
  sha256 _ :=
    [44, 118, 99, 232, 9, 201, 130, 125, 244, 130, 206, 38, 13, 7, 148, 103, 208, 47, 159, 24, 26,
      109, 31, 204, 90, 148, 43, 42, 126, 27, 211, 230]

/-- One unspent output of 5, of a transaction that had inputs. -/
def sampleUtxo (address : String) : Utxo where
  txid := "f0"
  vout := 0
  amount := .finite 5
  address := address
  blockHeight := some 10
  spent := false
  spentBy := none

def sampleView (address : String) : ChainView where
  getUtxo txid vout := .ok (if txid = "f0" ∧ vout = 0 then some (sampleUtxo address) else none)
  storedInputs _ := .ok (some (some [{ txid := some "e0", vout := some 0, keyImage := none }]))
  keyImage _ := .ok false
  currentHeight := .ok 20

/-- Pays 3 and 1 to others, and leaves 1 as the fee. -/
def sampleTransaction : Transaction where
  txid := "f1"
  inputs := [{ txid := some "f0", vout := some 0, keyImage := none }]
  outputs :=
    [{ address := some "b0", oneTimeAddress := none, amount := some ⟨"3", some (.finite 3)⟩,
       commitment := none, rangeProof := none },
      { address := some "b1", oneTimeAddress := none, amount := some ⟨"1", some (.finite 1)⟩,
        commitment := none, rangeProof := none }]
  fee := .finite 1
  feeText := "1"
  signature := String.ofList (List.replicate 4840 '0')
  publicKey := String.ofList (List.replicate 2624 '0')
  timestamp := "1700000000.0"
  txType := "transfer"
  isPrivate := false

def sampleAddress : String := "2c7663e809c9827df482ce260d079467d02f9f18"

theorem fromHexChars_zeros (n : ℕ) :
    fromHexChars (List.replicate (2 * n) '0') = some (List.replicate n 0) := by
  induction n with
  | zero => rfl
  | succ n ih =>
    change (do
      let high ← hexValue '0'
      let low ← hexValue '0'
      return UInt8.ofNat (16 * high + low) :: (← fromHexChars (List.replicate (2 * n) '0'))) = _
    rw [ih]
    rfl

theorem fromHex_zeros (n : ℕ) :
    fromHex (String.ofList (List.replicate (2 * n) '0')) = some (List.replicate n 0) := by
  rw [fromHex, String.toList_ofList, fromHexChars_zeros]

theorem sampleTransaction_signer : sampleTransaction.signer sampleCrypto = some sampleAddress := by
  have hkey : fromHex sampleTransaction.publicKey = some (List.replicate 1312 0) :=
    fromHex_zeros 1312
  rw [Transaction.signer, hkey]
  decide +kernel

theorem sampleCrypto_verify {pk sig : Bytes} (hpk : pk.length = 1312) (hsig : sig.length = 2420)
    (message : Bytes) : sampleCrypto.verify pk message sig = true := by
  simp [sampleCrypto, hpk, hsig]

theorem sampleTransaction_checkSignature (content : SignedContent) :
    sampleTransaction.checkSignature sampleCrypto content = some true := by
  have hkey : fromHex sampleTransaction.publicKey = some (List.replicate 1312 0) :=
    fromHex_zeros 1312
  have hsignature : fromHex sampleTransaction.signature = some (List.replicate 2420 0) :=
    fromHex_zeros 2420
  rw [Transaction.checkSignature, hkey, hsignature]
  exact congrArg some (sampleCrypto_verify List.length_replicate List.length_replicate _)

theorem sampleTransaction_accepted {E : Type} [Curve E] [DecidableEq E] :
    ∀ address ∈ [sampleAddress, "a0"],
      validateTransaction E sampleCrypto (sampleView address) sampleTransaction (some 20) = true := by
  change ∀ address ∈ [sampleAddress, "a0"], (checkPublicTransaction sampleCrypto
    (sampleView address) sampleTransaction (some 20)).isOk = true
  unfold checkPublicTransaction
  simp only [sampleTransaction_checkSignature]
  decide +kernel

def sampleMovement (address : String) : Movement (sampleView address) sampleTransaction where
  coins := [sampleUtxo address]
  spent := [5]
  created := [3, 1]
  fee := 1
  coins_eq := rfl
  spent_eq := rfl
  created_eq := rfl
  fee_eq := rfl

theorem accepted_sound_sample :
    ∃ m : Movement (sampleView sampleAddress) sampleTransaction, m.Sound sampleCrypto := by
  let _ := Privacy.logarithms sampleCrypto.sha256
  have haccepted := sampleTransaction_accepted (E := ZMod Privacy.order) sampleAddress (by simp)
  apply (accepted_sound_iff haccepted).mpr
  refine ⟨sampleMovement sampleAddress, ?_, ?_, ?_, ?_, ?_, ?_⟩
  · intro utxo h
    cases List.mem_singleton.mp h
    exact sampleTransaction_signer
  · decide
  · decide +kernel
  · decide +kernel
  · decide +kernel
  · intro _
    decide +kernel

/-- The same transaction over an output of somebody else. -/
theorem accepts_foreign_coin :
    @validateTransaction (ZMod Privacy.order) (Privacy.logarithms sampleCrypto.sha256) _
        sampleCrypto (sampleView "a0") sampleTransaction (some 20) = true ∧
      ¬ ∃ m : Movement (sampleView "a0") sampleTransaction, m.Sound sampleCrypto := by
  constructor
  · exact @sampleTransaction_accepted _ (Privacy.logarithms sampleCrypto.sha256) _ "a0" (by simp)
  · rintro ⟨m, hm⟩
    have hcoins : m.coins = [sampleUtxo "a0"] := by
      apply Function.Injective.list_map (Option.some_injective Utxo)
      exact m.coins_eq.symm
    have howned := hm.owned (sampleUtxo "a0") (by simp [hcoins])
    rw [sampleTransaction_signer] at howned
    exact absurd howned (by decide)

end Sample

end Qubitcoin.Node
