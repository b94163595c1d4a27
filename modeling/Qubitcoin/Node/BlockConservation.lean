import Qubitcoin.Node.BlockValidation
import Qubitcoin.Node.Ownership

/-! What the blocks that the validator accepts create, against what they spend. -/

namespace Qubitcoin.Node

open Privacy (Curve)

def TxOutput.value (out : TxOutput) : ℚ := (out.decimal.map Decimal.value).getD 0

def Transaction.created (tx : Transaction) : ℚ := (tx.outputs.map TxOutput.value).sum

/-- The outputs that a transaction names, each once. -/
def Transaction.keys (tx : Transaction) : Finset (String × ℤ) :=
  (tx.inputs.filterMap TxInput.key).toFinset

def ChainView.value (db : ChainView) (key : String × ℤ) : ℚ :=
  ((db.unspent key.1 key.2).map fun utxo => utxo.amount.value).getD 0

def ChainView.total (db : ChainView) (keys : Finset (String × ℤ)) : ℚ := ∑ key ∈ keys, db.value key

/-- The outputs that a block spends. -/
def Block.keys (block : Block) : Finset (String × ℤ) :=
  (block.transactions.flatMap fun tx => tx.inputs.filterMap TxInput.key).toFinset

def Transaction.paysFee (tx : Transaction) : Bool := !tx.isCoinbase && !tx.isContract

def Transaction.feePaid (tx : Transaction) : ℚ := if tx.paysFee then tx.fee.value else 0

/-- The fees in the order in which the validator adds them. -/
def Block.fees (block : Block) : List Decimal :=
  (block.transactions.filter Transaction.paysFee).map Transaction.fee

/-- The numbers by which the coinbase is judged. -/
structure Payout (rules : Rules) (db : BlockView) (block : Block) where
  supply : Decimal
  reward : ℚ
  totalFees : Decimal
  burned : ℚ
  supply_eq : db.totalSupply = .ok supply
  reward_eq : calculateReward rules block.height supply = .ok (.finite reward)
  totalFees_eq : sumDecimals block.fees = .ok totalFees
  burned_eq : burnedFees rules totalFees = .ok (.finite burned)

/-- The block reward; that of the genesis block has the premine in it. -/
def Payout.blockReward {rules : Rules} {db : BlockView} {block : Block}
    (p : Payout rules db block) : ℚ :=
  p.reward + if block.height = 0 ∧ 0 < rules.premine then rules.premine else 0

/-- All amounts are numbers. -/
structure Block.Numeric (db : ChainView) (block : Block) : Prop where
  outputs : ∀ tx ∈ block.transactions, ∀ out ∈ tx.outputs, ∃ q, out.decimal = some (.finite q)
  fees : ∀ tx ∈ block.transactions, ∃ q, tx.fee = .finite q
  coins : ∀ tx ∈ block.transactions, ∀ inp ∈ tx.inputs, ∀ utxo ∈ db.coin inp,
    ∃ q, utxo.amount = .finite q

/-- No two transactions name one output. -/
def Block.Apart (block : Block) : Prop :=
  block.transactions.Pairwise fun a b => Disjoint a.keys b.keys

/-- The validator checks these against neither the unspent outputs nor the coinbase. -/
def Transaction.unchecked (tx : Transaction) : Bool :=
  !tx.isCoinbase && (tx.isContract || tx.isPrivate)

/-- What a transaction creates and pays, beyond what it spends. -/
def Transaction.net (db : ChainView) (tx : Transaction) : ℚ :=
  tx.created - db.total tx.keys + tx.feePaid

section

variable {rules : Rules} {db : BlockView} {block : Block}

structure Payout.Conserving (p : Payout rules db block) : Prop where
  numeric : block.Numeric db.toChainView
  apart : block.Apart
  created_le : (block.transactions.map Transaction.created).sum ≤
    db.total block.keys + p.blockReward - p.burned

/-- What the unchecked transactions create from nothing. -/
def Block.excess (db : ChainView) (block : Block) : ℚ :=
  ((block.transactions.filter Transaction.unchecked).map (Transaction.net db)).sum

/-- What the other transactions and the coinbase leave unclaimed. -/
def Payout.surplus (p : Payout rules db block) : ℚ :=
  p.blockReward + (block.transactions.map Transaction.feePaid).sum - p.burned -
    ((block.transactions.filter fun tx => !tx.unchecked).map (Transaction.net db.toChainView)).sum

/-- The bound of the coinbase as it is computed. -/
def Payout.limit (p : Payout rules db block) : ℚ :=
  let minerFees := Decimal.roundTo prec (p.totalFees.value - p.burned)
  let expected := Decimal.roundTo prec (p.reward + minerFees)
  if block.height = 0 ∧ 0 < rules.premine then Decimal.roundTo prec (expected + rules.premine)
  else expected

/-- The sums of the validator need no more digits than the context has. -/
structure Payout.Exact (p : Payout rules db block) : Prop where
  spent : ∀ tx ∈ block.transactions, tx.isCoinbase = false → tx.unchecked = false →
    ∀ m : Movement db.toChainView tx, m.Exact
  coinbase : ∀ tx ∈ block.transactions, tx.isCoinbase = true →
    roundedSum (tx.outputs.map TxOutput.value) = tx.created
  limit : p.limit =
    p.blockReward + (block.transactions.map Transaction.feePaid).sum - p.burned

/-- What the validator leaves to the miner. -/
structure Payout.Honest (p : Payout rules db block) : Prop where
  numeric : block.Numeric db.toChainView
  apart : block.Apart
  covered : 0 < block.excess db.toChainView ∨ ¬ p.Exact →
    block.excess db.toChainView ≤ p.surplus

theorem total_union {keys keys' : Finset (String × ℤ)} (h : Disjoint keys keys') :
    db.total (keys ∪ keys') = db.total keys + db.total keys' :=
  Finset.sum_union h

/-- Outputs that no two transactions name are counted once each. -/
theorem total_keys (h : block.Apart) :
    db.total block.keys = (block.transactions.map fun tx => db.total tx.keys).sum := by
  unfold Block.keys
  unfold Block.Apart at h
  generalize block.transactions = txs at h ⊢
  induction txs with
  | nil => rfl
  | cons tx txs ih =>
    obtain ⟨hapart, htail⟩ := List.pairwise_cons.mp h
    have hdisjoint : Disjoint tx.keys
        (txs.flatMap fun tx => tx.inputs.filterMap TxInput.key).toFinset := by
      rw [Finset.disjoint_right]
      intro key hkey hmem
      obtain ⟨tx', htx', hinput⟩ := List.mem_flatMap.mp (List.mem_toFinset.mp hkey)
      exact Finset.disjoint_left.mp (hapart tx' htx') hmem (List.mem_toFinset.mpr hinput)
    rw [List.flatMap_cons, List.toFinset_append, List.map_cons, List.sum_cons, ← ih htail]
    exact total_union hdisjoint

/-- The two sides of the balance, transaction by transaction. -/
theorem excess_le_surplus_iff (p : Payout rules db block) (h : block.Apart) :
    block.excess db.toChainView ≤ p.surplus ↔
      (block.transactions.map Transaction.created).sum ≤
        db.total block.keys + p.blockReward - p.burned := by
  have hsplit : ∀ txs : List Transaction,
      ((txs.filter Transaction.unchecked).map (Transaction.net db.toChainView)).sum +
        ((txs.filter fun tx => !tx.unchecked).map (Transaction.net db.toChainView)).sum =
      (txs.map Transaction.created).sum - (txs.map fun tx => db.total tx.keys).sum +
        (txs.map Transaction.feePaid).sum := by
    intro txs
    induction txs with
    | nil => simp
    | cons tx txs ih =>
      cases hchecked : tx.unchecked <;> simp [hchecked, Transaction.net] <;> linarith
  have hnet := hsplit block.transactions
  rw [total_keys h]
  unfold Block.excess Payout.surplus
  constructor <;> intro hle <;> linarith

section Accepted

variable {crypto : Crypto}

/-- Inputs whose coins are found have keys. -/
theorem exists_keys {inputs : List TxInput} {coins : List Utxo}
    (h : inputs.map db.coin = coins.map some) :
    ∃ keys : List (String × ℤ), inputs.map TxInput.key = keys.map some ∧
      keys.map db.value = coins.map fun utxo => utxo.amount.value := by
  induction inputs generalizing coins with
  | nil =>
    cases coins with
    | nil => exact ⟨[], rfl, rfl⟩
    | cons utxo coins => cases h
  | cons inp inputs ih =>
    cases coins with
    | nil => cases h
    | cons utxo coins =>
      obtain ⟨hcoin, htail⟩ := List.cons.inj h
      obtain ⟨keys, hkeys, hsum⟩ := ih htail
      unfold ChainView.coin at hcoin
      obtain ⟨txid, htxid, hcoin⟩ := Option.bind_eq_some_iff.mp hcoin
      obtain ⟨vout, hvout, hcoin⟩ := Option.bind_eq_some_iff.mp hcoin
      refine ⟨(txid, vout) :: keys, ?_, ?_⟩
      · simp [TxInput.key, htxid, hvout, hkeys]
      · simp [ChainView.value, hcoin, hsum]

theorem total_eq_coins {tx : Transaction} {coins : List Utxo}
    (hcoins : tx.inputs.map db.coin = coins.map some) (hkeys : (tx.inputs.map TxInput.key).Nodup) :
    db.total tx.keys = (coins.map fun utxo => utxo.amount.value).sum := by
  obtain ⟨keys, hsome, hsum⟩ := exists_keys hcoins
  have hfilter : tx.inputs.filterMap TxInput.key = keys := by
    calc tx.inputs.filterMap TxInput.key
        = (tx.inputs.map TxInput.key).filterMap id := by rw [List.filterMap_map]; rfl
      _ = keys := by rw [hsome, List.filterMap_map]; simp
  rw [hsome] at hkeys
  unfold ChainView.total Transaction.keys
  rw [hfilter, List.sum_toFinset _ hkeys.of_map, hsum]

/-- The amounts of a plain transaction that is accepted. -/
theorem Block.Numeric.movement (hn : block.Numeric db.toChainView) {tx : Transaction}
    (hmem : tx ∈ block.transactions) {coins : List Utxo}
    (hcoins : tx.inputs.map db.coin = coins.map some) :
    ∃ m : Movement db.toChainView tx, m.coins = coins ∧
      m.spent.sum = (coins.map fun utxo => utxo.amount.value).sum ∧
        m.created = tx.outputs.map TxOutput.value ∧ m.fee = tx.fee.value := by
  obtain ⟨fee, hfee⟩ := hn.fees tx hmem
  refine ⟨⟨coins, coins.map fun utxo => utxo.amount.value, tx.outputs.map TxOutput.value,
    tx.fee.value, hcoins, ?_, ?_, ?_⟩, rfl, rfl, rfl, rfl⟩
  · rw [List.map_map]
    apply List.map_congr_left
    intro utxo hutxo
    have hsome : some utxo ∈ tx.inputs.map db.coin := by
      rw [hcoins]
      exact List.mem_map_of_mem hutxo
    obtain ⟨inp, hinp, hcoin⟩ := List.mem_map.mp hsome
    obtain ⟨q, hq⟩ := hn.coins tx hmem inp hinp utxo hcoin
    simp [hq, Decimal.value]
  · rw [List.map_map]
    apply List.map_congr_left
    intro out hout
    obtain ⟨q, hq⟩ := hn.outputs tx hmem out hout
    simp [TxOutput.value, hq, Decimal.value]
  · rw [hfee]
    rfl

/-- A plain transaction creates and pays no more than it spends. -/
theorem net_nonpos {p : Payout rules db block} (hn : block.Numeric db.toChainView) (hx : p.Exact)
    {tx : Transaction} (hmem : tx ∈ block.transactions) (hcoinbase : tx.isCoinbase = false)
    (hchecked : tx.unchecked = false) {height : Option ℤ}
    (h : checkPublicTransaction crypto db.toChainView tx height = .ok ()) :
    tx.net db.toChainView ≤ 0 := by
  obtain ⟨hkeys, coins, -, -, -, -, hcoins, -⟩ := checkPublicTransaction_ok h
  obtain ⟨m, hmcoins, hspent, hcreated, hfee⟩ := hn.movement hmem hcoins
  obtain ⟨hexactSpent, hexactCreated⟩ := hx.spent tx hmem hcoinbase hchecked m
  have hle := m.covered_of_accepted h
  rw [hexactSpent, hexactCreated, hspent, hcreated, hfee] at hle
  have hpaid : tx.feePaid = tx.fee.value := by
    unfold Transaction.unchecked at hchecked
    simp_all [Transaction.feePaid, Transaction.paysFee]
  unfold Transaction.net
  rw [total_eq_coins hcoins hkeys, hpaid]
  unfold Transaction.created
  linarith

variable {E : Type} [Curve E] [DecidableEq E]

/-- One transaction of the scan. -/
theorem scanTransaction_ok {height : ℤ} {s s' : BlockScan} {tx : Transaction}
    (h : scanTransaction E crypto db height s tx = .ok s') :
    (tx.isCoinbase = true ∧ s.coinbase = none ∧ s' = { s with coinbase := some tx }) ∨
      (tx.isCoinbase = false ∧ tx.isContract = true ∧ s' = s) ∨
        tx.paysFee = true ∧
          validateTransaction E crypto db.toChainView tx (some height) = true ∧
            Decimal.add prec s.totalFees tx.fee = .ok s'.totalFees ∧
              s'.coinbase = s.coinbase := by
  unfold scanTransaction at h
  split at h
  · next hcoinbase =>
    obtain ⟨hnone, h⟩ := Checked.ensure_bind_eq_ok.mp h
    exact .inl ⟨hcoinbase, hnone, (Except.ok.inj h).symm⟩
  · next hcoinbase =>
    rw [Bool.not_eq_true] at hcoinbase
    split at h
    · next hcontract => exact .inr (.inl ⟨hcoinbase, hcontract, (Except.ok.inj h).symm⟩)
    · next hcontract =>
      rw [Bool.not_eq_true] at hcontract
      obtain ⟨hvalid, h⟩ := Checked.ensure_bind_eq_ok.mp h
      obtain ⟨total, htotal, h⟩ := Checked.mapError_bind_eq_ok.mp h
      cases h
      refine .inr (.inr ⟨?_, hvalid, htotal, rfl⟩)
      simp [Transaction.paysFee, hcoinbase, hcontract]

/-- Each transaction that pays a fee passes the validator of transactions. -/
theorem scan_validates {height : ℤ} {txs : List Transaction} {s s' : BlockScan}
    (h : txs.foldlM (scanTransaction E crypto db height) s = .ok s') :
    ∀ tx ∈ txs, tx.paysFee = true →
      validateTransaction E crypto db.toChainView tx (some height) = true := by
  induction txs generalizing s with
  | nil => simp
  | cons tx txs ih =>
    rw [List.foldlM_cons] at h
    obtain ⟨s₁, hstep, h⟩ := Checked.bind_eq_ok.mp h
    refine List.forall_mem_cons.mpr ⟨?_, ih h⟩
    intro hpays
    unfold Transaction.paysFee at hpays
    obtain ⟨hcoinbase, -⟩ | ⟨-, hcontract, -⟩ | ⟨-, hvalid, -⟩ := scanTransaction_ok hstep
    · simp [hcoinbase] at hpays
    · simp [hcontract] at hpays
    · exact hvalid

/-- What the coinbase found so far creates. -/
def BlockScan.coinbaseCreated (s : BlockScan) : ℚ := s.coinbase.elim 0 Transaction.created

/-- The fees that a scan adds up. -/
theorem scan_totalFees {height : ℤ} {txs : List Transaction} {s s' : BlockScan}
    (h : txs.foldlM (scanTransaction E crypto db height) s = .ok s') :
    ((txs.filter Transaction.paysFee).map Transaction.fee).foldlM (Decimal.add prec) s.totalFees =
      .ok s'.totalFees := by
  induction txs generalizing s with
  | nil =>
    cases h
    rfl
  | cons tx txs ih =>
    rw [List.foldlM_cons] at h
    obtain ⟨s₁, hstep, h⟩ := Checked.bind_eq_ok.mp h
    have htail := ih h
    obtain ⟨hcoinbase, -, rfl⟩ | ⟨-, hcontract, rfl⟩ | ⟨hpays, -, hfee, -⟩ :=
      scanTransaction_ok hstep
    · have hpays : tx.paysFee = false := by simp [Transaction.paysFee, hcoinbase]
      rwa [List.filter_cons_of_neg (by simp [hpays])]
    · have hpays : tx.paysFee = false := by simp [Transaction.paysFee, hcontract]
      rwa [List.filter_cons_of_neg (by simp [hpays])]
    · rw [List.filter_cons_of_pos hpays, List.map_cons, List.foldlM_cons, hfee]
      exact htail

/-- The transactions that are checked create no more than the coinbase does. -/
theorem scan_checked {p : Payout rules db block} (hn : block.Numeric db.toChainView)
    (hx : p.Exact) {height : ℤ} {txs : List Transaction} {s s' : BlockScan}
    (hmem : ∀ tx ∈ txs, tx ∈ block.transactions)
    (h : txs.foldlM (scanTransaction E crypto db height) s = .ok s') :
    s.coinbaseCreated +
        ((txs.filter fun tx => !tx.unchecked).map (Transaction.net db.toChainView)).sum ≤
      s'.coinbaseCreated := by
  induction txs generalizing s with
  | nil =>
    cases h
    simp
  | cons tx txs ih =>
    rw [List.foldlM_cons] at h
    obtain ⟨s₁, hstep, h⟩ := Checked.bind_eq_ok.mp h
    have htail := ih (fun tx' hin => hmem tx' (List.mem_cons_of_mem _ hin)) h
    have hhead := hmem tx List.mem_cons_self
    refine le_trans ?_ htail
    obtain ⟨hcoinbase, hnone, rfl⟩ | ⟨hcoinbase, hcontract, rfl⟩ | ⟨hpays, hvalid, -, hsame⟩ :=
      scanTransaction_ok hstep
    · have hchecked : tx.unchecked = false := by simp [Transaction.unchecked, hcoinbase]
      have hinputs : tx.inputs = [] := by
        simp only [Transaction.isCoinbase, Bool.and_eq_true, List.isEmpty_iff] at hcoinbase
        exact hcoinbase.1
      have hnet : tx.net db.toChainView = tx.created := by
        simp [Transaction.net, Transaction.keys, hinputs, ChainView.total, Transaction.feePaid,
          Transaction.paysFee, hcoinbase]
      rw [List.filter_cons_of_pos (by simp [hchecked]), List.map_cons, List.sum_cons, hnet]
      simp [BlockScan.coinbaseCreated, hnone]
    · have hunchecked : tx.unchecked = true := by
        simp [Transaction.unchecked, hcoinbase, hcontract]
      rw [List.filter_cons_of_neg (by simp [hunchecked])]
    · have hcoinbase : s₁.coinbaseCreated = s.coinbaseCreated := by
        rw [BlockScan.coinbaseCreated, hsame, BlockScan.coinbaseCreated]
      rw [hcoinbase]
      cases hprivate : tx.isPrivate with
      | true =>
        have hunchecked : tx.unchecked = true := by
          simp_all [Transaction.unchecked, Transaction.paysFee]
        rw [List.filter_cons_of_neg (by simp [hunchecked])]
      | false =>
        have hplain : tx.isCoinbase = false := by simp_all [Transaction.paysFee]
        have hchecked : tx.unchecked = false := by
          simp_all [Transaction.unchecked, Transaction.paysFee]
        have hnet := net_nonpos hn hx hhead hplain hchecked
          (checkPublicTransaction_of_accepted hprivate hvalid)
        rw [List.filter_cons_of_pos (by simp [hchecked]), List.map_cons, List.sum_cons]
        linarith

/-- The coinbase of a scan is one of its transactions. -/
theorem scan_coinbase {height : ℤ} {txs : List Transaction} {s s' : BlockScan}
    (h : txs.foldlM (scanTransaction E crypto db height) s = .ok s') {tx : Transaction}
    (hfound : s'.coinbase = some tx) :
    s.coinbase = some tx ∨ tx ∈ txs ∧ tx.isCoinbase = true := by
  induction txs generalizing s with
  | nil =>
    cases h
    exact .inl hfound
  | cons tx' txs ih =>
    rw [List.foldlM_cons] at h
    obtain ⟨s₁, hstep, h⟩ := Checked.bind_eq_ok.mp h
    cases ih h with
    | inr hlater => exact .inr ⟨List.mem_cons_of_mem _ hlater.1, hlater.2⟩
    | inl hnow =>
      obtain ⟨hcoinbase, -, rfl⟩ | ⟨-, -, rfl⟩ | ⟨-, -, -, hsame⟩ := scanTransaction_ok hstep
      · cases hnow
        exact .inr ⟨List.mem_cons_self, hcoinbase⟩
      · exact .inl hnow
      · exact .inl (hsame ▸ hnow)

theorem finite_of_burnedFees {total : Decimal} {burned : ℚ}
    (h : burnedFees rules total = .ok (.finite burned)) : total = .finite total.value := by
  cases total with
  | finite q => rfl
  | infinity negative =>
    obtain ⟨product, hmul, hquantize⟩ := Checked.bind_eq_ok.mp h
    change (if rules.feeBurn = 0 then _ else _) = Except.ok product at hmul
    split at hmul
    · cases hmul
    · cases hmul
      cases hquantize
  | nan => cases h

/-- The bound on what the coinbase creates. -/
theorem coinbase_le {p : Payout rules db block} (hn : block.Numeric db.toChainView) (hx : p.Exact)
    {tx : Transaction} (hmem : tx ∈ block.transactions) (hcoinbase : tx.isCoinbase = true)
    (h : checkCoinbase rules db block.height p.totalFees tx = .ok ()) : tx.created ≤ p.limit := by
  have htotal := finite_of_burnedFees p.burned_eq
  have hamounts : tx.outputs.map TxOutput.decimal =
      ((tx.outputs.map TxOutput.value).map Decimal.finite).map some := by
    rw [List.map_map, List.map_map]
    apply List.map_congr_left
    intro out hout
    obtain ⟨q, hq⟩ := hn.outputs tx hmem out hout
    simp [TxOutput.value, hq, Decimal.value]
  unfold checkCoinbase at h
  obtain ⟨supply, hsupply, h⟩ := Checked.mapError_bind_eq_ok.mp h
  cases p.supply_eq.symm.trans hsupply
  obtain ⟨reward, hreward, h⟩ := Checked.mapError_bind_eq_ok.mp h
  cases p.reward_eq.symm.trans hreward
  obtain ⟨burned, hburned, h⟩ := Checked.mapError_bind_eq_ok.mp h
  cases p.burned_eq.symm.trans hburned
  obtain ⟨minerFees, hminer, h⟩ := Checked.mapError_bind_eq_ok.mp h
  obtain ⟨amounts, hdecimals, h⟩ := Checked.okOr_bind_eq_ok.mp h
  rw [Checked.mapM_eq_some.mpr hamounts] at hdecimals
  cases hdecimals
  obtain ⟨amount, hamount, h⟩ := Checked.mapError_bind_eq_ok.mp h
  rw [sumDecimals_finite, hx.coinbase tx hmem hcoinbase] at hamount
  cases hamount
  obtain ⟨expected, hexpected, h⟩ := Checked.mapError_bind_eq_ok.mp h
  obtain ⟨excessive, hexcessive, h⟩ := Checked.mapError_bind_eq_ok.mp h
  cases Checked.ensure_eq_ok.mp h
  have hlimit : expected = .finite p.limit := by
    rw [htotal] at hminer
    cases hminer
    unfold expectedCoinbase at hexpected
    unfold Payout.limit
    rw [← sub_eq_add_neg] at hexpected
    split_ifs at hexpected ⊢ <;> (cases hexpected; rfl)
  rw [hlimit] at hexcessive
  exact Decimal.finite_le_finite.mp (Decimal.of_lt?_false hexcessive)

/-- What the checks leave unclaimed is never negative. -/
theorem surplus_nonneg {prev : Option Block} {skipQvm skipPot : Bool}
    (h : validateBlock E crypto rules db block prev skipQvm skipPot = .ok ())
    {p : Payout rules db block} (hn : block.Numeric db.toChainView) (hx : p.Exact) :
    0 ≤ p.surplus := by
  unfold validateBlock at h
  obtain ⟨-, -, h⟩ := Checked.bind_eq_ok.mp h
  obtain ⟨s, hscan, h⟩ := Checked.bind_eq_ok.mp h
  obtain ⟨coinbase, hcoinbase, h⟩ := Checked.okOr_bind_eq_ok.mp h
  obtain ⟨⟨⟩, hcheck, -⟩ := Checked.bind_eq_ok.mp h
  have hfees : s.totalFees = p.totalFees := by
    have hsum := (scan_totalFees hscan).symm.trans p.totalFees_eq
    exact Except.ok.inj hsum
  rw [hfees] at hcheck
  obtain hstart | ⟨hmem, hkind⟩ := scan_coinbase hscan hcoinbase
  · cases hstart
  have hle := coinbase_le hn hx hmem hkind hcheck
  have hchecked := scan_checked hn hx (fun tx hin => hin) hscan
  have hcreated : s.coinbaseCreated = coinbase.created := by
    rw [BlockScan.coinbaseCreated, hcoinbase]
    rfl
  rw [hcreated] at hchecked
  rw [hx.limit] at hle
  unfold Payout.surplus
  change 0 + _ ≤ _ at hchecked
  linarith

/-- An accepted block conserves the coins if and only if it is honest. -/
theorem accepted_conserving_iff {prev : Option Block} {skipQvm skipPot : Bool}
    (h : validateBlock E crypto rules db block prev skipQvm skipPot = .ok ()) :
    (∃ p : Payout rules db block, p.Conserving) ↔ ∃ p : Payout rules db block, p.Honest := by
  constructor
  · rintro ⟨p, hp⟩
    refine ⟨p, hp.numeric, hp.apart, fun _ => ?_⟩
    exact (excess_le_surplus_iff p hp.apart).mpr hp.created_le
  · rintro ⟨p, hp⟩
    refine ⟨p, hp.numeric, hp.apart, (excess_le_surplus_iff p hp.apart).mp ?_⟩
    by_cases hneeded : 0 < block.excess db.toChainView ∨ ¬ p.Exact
    · exact hp.covered hneeded
    · rw [not_or, not_lt, not_not] at hneeded
      exact hneeded.1.trans (surplus_nonneg h hp.numeric hneeded.2)

end Accepted

end

section Sample

/-- The default settings, over an era with the initial reward. -/
def sampleRules : Rules where
  phiReward _ := 1527 / 100
  tailEmission := 1 / 10
  feeBurn := 1 / 2
  premine := 33000000
  latest := .finite 1700000100
  calculateHash _ := "b20"
  difficultyExpected _ := true
  proofValid _ := true
  stateRootsValid _ := true
  thoughtValid _ := true

def sampleBlockView : BlockView where
  toChainView := sampleView sampleAddress
  totalSupply := .ok (.finite 33000290)

/-- The sample transaction under another identifier, which no check reads. -/
def sampleSpend (txid : String) : Transaction := { sampleTransaction with txid }

def sampleCoinbase : Transaction where
  txid := "c0"
  inputs := []
  outputs :=
    [{ address := some "b2", oneTimeAddress := none,
       amount := some ⟨"15.77", some (.finite (1577 / 100))⟩, commitment := none,
       rangeProof := none }]
  fee := .finite 0
  feeText := "0"
  signature := ""
  publicKey := ""
  timestamp := "1700000001.0"
  txType := "transfer"
  isPrivate := false

def samplePrev : Block where
  height := 19
  prevHash := "b18"
  blockHash := some "b19"
  timestamp := .finite 1700000000
  difficulty := .finite 1
  proofData := "\x7b\x7d"
  transactions := []
  stateRoot := ""
  receiptsRoot := ""
  thoughtProof := none

def sampleBlock (txids : List String) : Block where
  height := 20
  prevHash := "b19"
  blockHash := some "b20"
  timestamp := .finite 1700000004
  difficulty := .finite 1
  proofData := "\x7b\x7d"
  transactions := sampleCoinbase :: txids.map sampleSpend
  stateRoot := ""
  receiptsRoot := ""
  thoughtProof := none

variable {E : Type} [Curve E] [DecidableEq E]

theorem validateTransaction_txid (crypto : Crypto) (db : ChainView) (tx : Transaction)
    (txid : String) (height : Option ℤ) :
    validateTransaction E crypto db { tx with txid } height =
      validateTransaction E crypto db tx height := rfl

theorem scan_sampleSpend (s : BlockScan) (txid : String) {fees : Decimal}
    (h : Decimal.add prec s.totalFees (.finite 1) = .ok fees) :
    scanTransaction E sampleCrypto sampleBlockView 20 s (sampleSpend txid) =
      .ok { s with totalFees := fees } := by
  have hvalid : validateTransaction E sampleCrypto sampleBlockView.toChainView (sampleSpend txid)
      (some 20) = true :=
    (validateTransaction_txid _ _ _ _ _).trans (sampleTransaction_accepted _ (by simp))
  have hkind : (sampleSpend txid).isCoinbase = false := rfl
  have hcontract : (sampleSpend txid).isContract = false := by
    change sampleTransaction.isContract = false
    decide
  have hfee : (sampleSpend txid).fee = .finite 1 := rfl
  simp [scanTransaction, hkind, hcontract, hvalid, ensure, hfee, h, ofDecimal]

theorem scan_sampleCoinbase :
    scanTransaction E sampleCrypto sampleBlockView 20 { totalFees := 0, coinbase := none }
      sampleCoinbase = .ok { totalFees := 0, coinbase := some sampleCoinbase } := rfl

theorem sampleBlock_valid {txids : List String} {fees : Decimal}
    (hscan : (sampleBlock txids).transactions.foldlM
      (scanTransaction E sampleCrypto sampleBlockView 20) { totalFees := 0, coinbase := none } =
        .ok { totalFees := fees, coinbase := some sampleCoinbase })
    (hcoinbase : checkCoinbase sampleRules sampleBlockView 20 fees sampleCoinbase = .ok ())
    (hsusy : validateBlockSusySwaps E (sampleBlock txids) = .ok ()) :
    validateBlock E sampleCrypto sampleRules sampleBlockView (sampleBlock txids)
      (some samplePrev) false false = .ok () := by
  have hheader : checkHeader sampleRules (sampleBlock txids) (some samplePrev) = .ok () := by
    have hfuture : ¬ sampleRules.latest < (sampleBlock txids).timestamp :=
      show ¬ Decimal.finite 1700000100 < .finite 1700000004 by decide +kernel
    have hlater : ¬ (sampleBlock txids).timestamp ≤ samplePrev.timestamp :=
      show ¬ Decimal.finite 1700000004 ≤ .finite 1700000000 by decide +kernel
    simp [checkHeader, hfuture, hlater, ensure, Option.okOr]
    simp [sampleBlock, samplePrev, sampleRules]
  unfold validateBlock
  rw [hheader]
  change (do
    let s ← (sampleBlock txids).transactions.foldlM
      (scanTransaction E sampleCrypto sampleBlockView 20) { totalFees := 0, coinbase := none }
    _) = _
  rw [hscan]
  change (do
    checkCoinbase sampleRules sampleBlockView 20 fees sampleCoinbase
    _) = _
  rw [hcoinbase]
  change (do
    validateBlockSusySwaps E (sampleBlock txids)
    _) = _
  rw [hsusy]
  rfl

def samplePayout : Payout sampleRules sampleBlockView (sampleBlock ["f1"]) where
  supply := .finite 33000290
  reward := 1527 / 100
  totalFees := .finite 1
  burned := 1 / 2
  supply_eq := rfl
  reward_eq := by decide +kernel
  totalFees_eq := by decide +kernel
  burned_eq := by decide +kernel

theorem sampleBlock_numeric (txids : List String) :
    (sampleBlock txids).Numeric sampleBlockView.toChainView := by
  have hspend : ∀ tx ∈ (sampleBlock txids).transactions,
      tx = sampleCoinbase ∨ ∃ txid, tx = sampleSpend txid := by
    intro tx hmem
    obtain rfl | hmem := List.mem_cons.mp hmem
    · exact .inl rfl
    · obtain ⟨txid, -, rfl⟩ := List.mem_map.mp hmem
      exact .inr ⟨txid, rfl⟩
  constructor
  · intro tx hmem out hout
    obtain rfl | ⟨txid, rfl⟩ := hspend tx hmem
    · cases List.mem_singleton.mp hout
      exact ⟨_, rfl⟩
    · simp only [sampleSpend, sampleTransaction, List.mem_cons, List.not_mem_nil, or_false] at hout
      obtain rfl | rfl := hout <;> exact ⟨_, rfl⟩
  · intro tx hmem
    obtain rfl | ⟨txid, rfl⟩ := hspend tx hmem <;> exact ⟨_, rfl⟩
  · intro tx hmem inp hinp utxo hcoin
    obtain rfl | ⟨txid, rfl⟩ := hspend tx hmem
    · cases hinp
    · cases List.mem_singleton.mp hinp
      cases hcoin
      exact ⟨5, rfl⟩

theorem accepted_conserving_sample :
    ∃ p : Payout sampleRules sampleBlockView (sampleBlock ["f1"]), p.Conserving := by
  let _ := Privacy.logarithms sampleCrypto.sha256
  have hfees : Decimal.add prec 0 (.finite 1) = .ok (.finite 1) := by decide +kernel
  have hscan : (sampleBlock ["f1"]).transactions.foldlM
      (scanTransaction (ZMod Privacy.order) sampleCrypto sampleBlockView 20)
        { totalFees := 0, coinbase := none } =
      .ok { totalFees := .finite 1, coinbase := some sampleCoinbase } := by
    have htransactions : (sampleBlock ["f1"]).transactions = [sampleCoinbase, sampleSpend "f1"] :=
      rfl
    rw [htransactions, List.foldlM_cons, scan_sampleCoinbase, Checked.ok_bind, List.foldlM_cons,
      scan_sampleSpend _ _ hfees]
    rfl
  have hvalid := sampleBlock_valid hscan (by decide +kernel) rfl
  apply (accepted_conserving_iff hvalid).mpr
  refine ⟨samplePayout, sampleBlock_numeric _, ?_, fun _ => ?_⟩
  · refine List.pairwise_cons.mpr ⟨?_, List.pairwise_singleton _ _⟩
    intro tx _
    exact Finset.disjoint_empty_left _
  · decide +kernel

/-- Two transactions of one block spend the same output. -/
theorem accepts_shared_coin :
    @validateBlock (ZMod Privacy.order) (Privacy.logarithms sampleCrypto.sha256) _ sampleCrypto
        sampleRules sampleBlockView (sampleBlock ["f1", "f2"]) (some samplePrev) false false =
          .ok () ∧
      ¬ ∃ p : Payout sampleRules sampleBlockView (sampleBlock ["f1", "f2"]), p.Conserving := by
  constructor
  · let _ := Privacy.logarithms sampleCrypto.sha256
    have hfirst : Decimal.add prec 0 (.finite 1) = .ok (.finite 1) := by decide +kernel
    have hsecond : Decimal.add prec (.finite 1) (.finite 1) = .ok (.finite 2) := by decide +kernel
    have hscan : (sampleBlock ["f1", "f2"]).transactions.foldlM
        (scanTransaction (ZMod Privacy.order) sampleCrypto sampleBlockView 20)
          { totalFees := 0, coinbase := none } =
        .ok { totalFees := .finite 2, coinbase := some sampleCoinbase } := by
      have htransactions : (sampleBlock ["f1", "f2"]).transactions =
          [sampleCoinbase, sampleSpend "f1", sampleSpend "f2"] := rfl
      rw [htransactions, List.foldlM_cons, scan_sampleCoinbase, Checked.ok_bind, List.foldlM_cons,
        scan_sampleSpend _ _ hfirst, Checked.ok_bind, List.foldlM_cons,
        scan_sampleSpend _ _ hsecond]
      rfl
    exact sampleBlock_valid hscan (by decide +kernel) rfl
  · rintro ⟨p, hp⟩
    have hpair := List.pairwise_cons.mp (List.pairwise_cons.mp hp.apart).2
    have hdisjoint := hpair.1 (sampleSpend "f2") (by simp)
    have hkey : ∀ txid, ("f0", 0) ∈ (sampleSpend txid).keys := fun txid =>
      Finset.mem_singleton_self (("f0", 0) : String × ℤ)
    exact Finset.disjoint_left.mp hdisjoint (hkey "f1") (hkey "f2")

end Sample

end Qubitcoin.Node
