import Qubitcoin.Exchange.Filing

/-! What the settlement of a fill does to the balances.  As long as no amount needs more digits
than the precision has, a fill moves what was traded between its two parties, and nothing is
made or lost.  There is no fee. -/

namespace Qubitcoin.Exchange

open Command

/-- What a fill adds to the balance of `address` in `asset`: the buyer gets the size in base and
gives price times size in quote. -/
def Trade.gain (config : MarketConfig) (trade : Trade) (taker maker address asset : String) : ℚ :=
  let bought := (if asset = config.base then trade.size.value else 0) -
    if asset = config.quote then trade.price.value * trade.size.value else 0
  match trade.side with
  | .buy => (if address = taker then bought else 0) - if address = maker then bought else 0
  | .sell => (if address = maker then bought else 0) - if address = taker then bought else 0

namespace Engine

def holders (e : Engine) : Finset String := e.balances.keys.image Prod.fst

/-- What all users hold of an asset; an infinity or a NaN adds nothing. -/
def total (e : Engine) (asset : String) : ℚ :=
  ∑ address ∈ e.holders, (e.balance address asset).value

/-- What an update adds to a balance. -/
def Update.change (u : Update) (address asset : String) : ℚ :=
  if (address, asset) = (u.address, u.asset) then
    if u.taken then -u.amount.value else u.amount.value
  else 0

/-- The update is between numbers and its result is not rounded. -/
def Update.Exact (u : Update) (e : Engine) : Prop :=
  match e.balance u.address u.asset, u.amount with
  | .finite balance, .finite amount =>
    Decimal.Fits prec (if u.taken then balance - amount else balance + amount)
  | _, _ => False

/-- Nothing is rounded in the settlement of the fill. -/
def FillExact (config : MarketConfig) (trade : Trade) (e : Engine) : Prop :=
  match trade.price, trade.size with
  | .finite price, .finite size =>
    Decimal.Fits prec (price * size) ∧
      ∀ maker ∈ e.findOrder trade.makerOrderId, ∀ taker ∈ e.findOrder trade.takerOrderId,
        Guarded Update.Exact Update.apply
          (fillUpdates config trade (.finite (price * size)) maker taker) e
  | _, _ => False

/-- The fill is between two orders of the book, the taker's one placed for `address`; and if
nothing is rounded, its settlement succeeds and moves what was traded between their owners. -/
def FillMoves (pair address : String) (config : MarketConfig) (trade : Trade) (e : Engine) :
    Prop :=
  ∃ b maker, e.book pair = some b ∧ b.config = config ∧
    b.owner trade.takerOrderId = some address ∧ b.owner trade.makerOrderId = some maker ∧
    (FillExact config trade e → ∃ e', settleFill config trade e = .ok () e' ∧
      ∀ holder asset, (e'.balance holder asset).value =
        (e.balance holder asset).value + trade.gain config address maker holder asset)

instance (u : Update) (e : Engine) : Decidable (u.Exact e) := by
  unfold Update.Exact
  split <;> infer_instance

instance (config : MarketConfig) (trade : Trade) (e : Engine) :
    Decidable (FillExact config trade e) := by
  unfold FillExact
  split <;> infer_instance

variable {e e' : Engine} {config : MarketConfig} {trade : Trade}

/-- An update that is not rounded adds to one balance. -/
theorem Update.Exact.apply_eq {u : Update} (h : u.Exact e) :
    ∃ e', u.apply e = .ok () e' ∧ ∀ address asset, (e'.balance address asset).value =
      (e.balance address asset).value + u.change address asset := by
  unfold Update.Exact at h
  split at h
  case h_2 => exact h.elim
  next balance amount hbalance hamount =>
  have hwrite : ∀ x : ℚ, x = balance + (if u.taken then -amount else amount) →
      ∀ address asset, ((e.setBalance u.address u.asset (.finite x)).balance address asset).value =
        (e.balance address asset).value + u.change address asset := by
    intro x hx address asset
    rw [balance_setBalance, Update.change, hamount]
    split
    · next heq =>
      cases heq
      rw [hbalance, hx]
      rfl
    · rw [add_zero]
  unfold Update.apply
  cases htaken : u.taken with
  | true =>
    rw [htaken, if_pos rfl] at h
    refine ⟨e.setBalance u.address u.asset (.finite (balance - amount)), ?_, hwrite _ ?_⟩
    · rw [if_pos rfl, debit_eq, hbalance, hamount, Decimal.sub, Decimal.opposite, Decimal.add,
        ← sub_eq_add_neg, h]
    · rw [htaken, if_pos rfl, sub_eq_add_neg]
  | false =>
    rw [htaken, if_neg Bool.false_ne_true] at h
    refine ⟨e.setBalance u.address u.asset (.finite (balance + amount)), ?_, hwrite _ ?_⟩
    · rw [if_neg Bool.false_ne_true, credit_eq, hbalance, hamount, Decimal.add, h]
    · rw [htaken, if_neg Bool.false_ne_true]

theorem updates_eq {us : List Update} (h : Guarded Update.Exact Update.apply us e) :
    ∃ e', us.forM Update.apply e = .ok () e' ∧ ∀ address asset,
      (e'.balance address asset).value =
        (e.balance address asset).value + (us.map fun u => u.change address asset).sum := by
  induction us generalizing e with
  | nil => exact ⟨e, rfl, fun address asset => by simp⟩
  | cons u us ih =>
    obtain ⟨hu, hus⟩ := h
    obtain ⟨r, happly, hr⟩ := hu.apply_eq
    obtain ⟨e', hrest, he'⟩ := ih (hus r happly)
    refine ⟨e', ?_, ?_⟩
    · rw [← hrest]
      exact bind_ok happly
    · intro address asset
      rw [he', hr, List.map_cons, List.sum_cons, add_assoc]

theorem change_swap {owner gives gets : String} {given got : Decimal} (howner : owner ≠ "")
    (address asset : String) :
    ((swap owner gives given gets got).map fun u => u.change address asset).sum =
      if address = owner then
        (if asset = gets then got.value else 0) - if asset = gives then given.value else 0
      else 0 := by
  rw [swap, if_neg howner]
  by_cases haddress : address = owner
  · simp only [haddress, List.map_cons, List.map_nil, List.sum_cons, List.sum_nil, Update.change,
      Prod.mk.injEq, true_and, if_true, Bool.false_eq_true, if_false]
    split_ifs <;> ring
  · simp [Update.change, haddress]

theorem change_fillUpdates {price size : ℚ} (hprice : trade.price = .finite price)
    (hsize : trade.size = .finite size) {maker taker : Order} (hmaker : maker.address ≠ "")
    (htaker : taker.address ≠ "") (address asset : String) :
    ((fillUpdates config trade (.finite (price * size)) maker taker).map
      fun u => u.change address asset).sum =
      trade.gain config taker.address maker.address address asset := by
  unfold fillUpdates Trade.gain
  cases trade.side with
  | buy =>
    simp only [List.map_append, List.sum_append, change_swap hmaker, change_swap htaker, hprice,
      hsize, Decimal.value]
    split_ifs <;> ring
  | sell =>
    simp only [List.map_append, List.sum_append, change_swap hmaker, change_swap htaker, hprice,
      hsize, Decimal.value]
    split_ifs <;> ring

theorem FillExact.settleFill_eq (h : FillExact config trade e) {maker taker : Order}
    (hfoundMaker : e.findOrder trade.makerOrderId = some maker)
    (hfoundTaker : e.findOrder trade.takerOrderId = some taker) (hmaker : maker.address ≠ "")
    (htaker : taker.address ≠ "") :
    ∃ e', settleFill config trade e = .ok () e' ∧ ∀ address asset,
      (e'.balance address asset).value = (e.balance address asset).value +
        trade.gain config taker.address maker.address address asset := by
  unfold FillExact at h
  split at h
  case h_2 => exact h.elim
  next price size hprice hsize =>
  obtain ⟨hfits, hupdates⟩ := h
  obtain ⟨e', hrun, he'⟩ := updates_eq (hupdates maker hfoundMaker taker hfoundTaker)
  refine ⟨e', ?_, ?_⟩
  · rw [Engine.settleFill_eq, hfoundMaker, hfoundTaker, hprice, hsize, Decimal.mul, hfits]
    exact hrun
  · intro address asset
    rw [he', change_fillUpdates hprice hsize hmaker htaker]

/-- Between orders that are on record, every fill is settled between their owners. -/
theorem Filed.fillMoves (h : e.Filed) {pair address : String} {trades : List Trade}
    (hbetween : Between pair address config trades e) (htrade : trade ∈ trades) :
    FillMoves pair address config trade e := by
  obtain ⟨b, hbook, hconfig, howners⟩ := hbetween
  obtain ⟨htaker, makerAddress, hmaker⟩ := howners trade htrade
  refine ⟨b, makerAddress, hbook, hconfig, htaker, hmaker, ?_⟩
  intro hexact
  obtain ⟨maker, hfoundMaker, rfl⟩ := h.findOrder hbook hmaker
  obtain ⟨taker, hfoundTaker, rfl⟩ := h.findOrder hbook htaker
  have haddressed : ∀ id, b.owner id ≠ some "" := h.addressed _ (mem_of_book hbook)
  apply hexact.settleFill_eq hfoundMaker hfoundTaker
  · intro hempty
    exact haddressed _ (hempty ▸ hmaker)
  · intro hempty
    exact haddressed _ (hempty ▸ htaker)

theorem total_eq_sum (e : Engine) (asset : String) {S : Finset String} (h : e.holders ⊆ S) :
    e.total asset = ∑ address ∈ S, (e.balance address asset).value := by
  apply Finset.sum_subset h
  intro address _ hout
  have hnone : e.balances.lookup (address, asset) = none := by
    rw [Finmap.lookup_eq_none, ← Finmap.mem_keys]
    intro hmem
    exact hout (Finset.mem_image_of_mem Prod.fst hmem)
  rw [balance, StorageMap.value, hnone]
  rfl

/-- What the buyer of a fill gains, the seller loses. -/
theorem sum_gain (config : MarketConfig) (trade : Trade) {taker maker : String} (asset : String)
    {S : Finset String} (htaker : taker ∈ S) (hmaker : maker ∈ S) :
    ∑ address ∈ S, trade.gain config taker maker address asset = 0 := by
  unfold Trade.gain
  cases trade.side with
  | buy => simp [Finset.sum_sub_distrib, htaker, hmaker]
  | sell => simp [Finset.sum_sub_distrib, htaker, hmaker]

theorem total_of_gain {taker maker : String}
    (h : ∀ address asset, (e'.balance address asset).value = (e.balance address asset).value +
      trade.gain config taker maker address asset) (asset : String) :
    e'.total asset = e.total asset := by
  let S : Finset String := e.holders ∪ e'.holders ∪ {taker, maker}
  have hbefore : e.holders ⊆ S := fun x hx => by simp [S, hx]
  have hafter : e'.holders ⊆ S := fun x hx => by simp [S, hx]
  calc
    e'.total asset = ∑ address ∈ S, (e'.balance address asset).value := total_eq_sum e' asset hafter
    _ = ∑ address ∈ S, (e.balance address asset).value +
          ∑ address ∈ S, trade.gain config taker maker address asset := by
        rw [← Finset.sum_add_distrib]
        exact Finset.sum_congr rfl fun address _ => h address asset
    _ = e.total asset := by
        rw [sum_gain config trade asset (by simp [S]) (by simp [S]), add_zero,
          total_eq_sum e asset hbefore]

theorem Between.of_filing {pair address : String} {trades : List Trade}
    (h : Between pair address config trades e) (hsame : e'.filing = e.filing) :
    Between pair address config trades e' := by
  obtain ⟨b, hbook, hrest⟩ := h
  refine ⟨b, ?_, hrest⟩
  have hbooks : e'.books = e.books := congrArg Prod.fst hsame
  rw [book, hbooks]
  exact hbook

/-- Each fill of a placed order is settled in a state in which its parties are still on
record. -/
theorem Filed.fillsMove (h : e.Filed) {pair address : String} {trades fills : List Trade}
    (hbetween : Between pair address config trades e) (hfills : fills ⊆ trades) :
    Guarded (FillMoves pair address config) (settleFill config) fills e := by
  induction fills generalizing e with
  | nil => trivial
  | cons trade fills ih =>
    obtain ⟨htrade, hrest⟩ := List.cons_subset.mp hfills
    refine ⟨h.fillMoves hbetween htrade, ?_⟩
    intro e' hrun
    have hsame := (keeps_settleFill config trade).of_ok hrun
    exact ih (h.of_filing hsame) (hbetween.of_filing hsame) hrest

theorem total_fills {pair address : String} {fills : List Trade}
    (hmoves : Guarded (FillMoves pair address config) (settleFill config) fills e)
    (hexact : Guarded (FillExact config) (settleFill config) fills e) (asset : String) :
    (left (fills.forM (settleFill config) e)).total asset = e.total asset := by
  induction fills generalizing e with
  | nil => rfl
  | cons trade fills ih =>
    obtain ⟨⟨_, _, _, _, _, _, hmove⟩, hmoves⟩ := hmoves
    obtain ⟨e', hrun, hgain⟩ := hmove hexact.1
    have hfirst := total_of_gain hgain asset
    change (left ((settleFill config trade >>= fun _ => fills.forM (settleFill config)) e)).total
      asset = _
    rw [bind_ok hrun, ih (hmoves e' hrun) (hexact.2 e' hrun), hfirst]

theorem total_of_balances (h : e'.balances = e.balances) (asset : String) :
    e'.total asset = e.total asset := by
  rw [total, holders, h]
  exact Finset.sum_congr rfl fun address _ => by rw [balance, h]; rfl

end Engine

namespace EngineOp

open Engine

/-- The operation neither deposits nor withdraws. -/
def Trades : EngineOp → Prop
  | .deposit _ _ _ _ | .withdraw _ _ _ _ => False
  | .placeOrder _ _ _ _ _ _ _ | .cancelOrder _ _ _ | .cancelOrderAnyPair _ _ => True

/-- Nothing is rounded when the fills of the operation are settled. -/
def Exact (fuel : ℕ) (e : Engine) : EngineOp → Prop
  | .placeOrder pair side orderType price size address now =>
    ∀ config fills e', acceptOrder fuel pair side orderType price size address now e =
      .ok (config, fills) e' → Guarded (FillExact config) (settleFill config) fills e'
  | .deposit _ _ _ _ | .withdraw _ _ _ _ | .cancelOrder _ _ _ | .cancelOrderAnyPair _ _ => True

/-- Each fill of a placed order moves what was traded, when its turn to be settled comes. -/
def Moves (fuel : ℕ) (e : Engine) : EngineOp → Prop
  | .placeOrder pair side orderType price size address now =>
    ∀ config fills e', acceptOrder fuel pair side orderType price size address now e =
      .ok (config, fills) e' →
        Guarded (FillMoves (normalizePair pair) address config) (settleFill config) fills e'
  | .deposit _ _ _ _ | .withdraw _ _ _ _ | .cancelOrder _ _ _ | .cancelOrderAnyPair _ _ => True

instance (fuel : ℕ) (e : Engine) (op : EngineOp) : Decidable (op.Exact fuel e) :=
  match op with
  | .placeOrder pair side orderType price size address now =>
    match h : acceptOrder fuel pair side orderType price size address now e with
    | .ok (config, fills) e' =>
      decidable_of_iff (Guarded (FillExact config) (settleFill config) fills e')
        ⟨fun hfills _ _ _ heq => by
          rw [h] at heq
          cases heq
          exact hfills, fun hall => hall config fills e' h⟩
    | .error _ _ => .isTrue fun _ _ _ heq => by rw [h] at heq; cases heq
  | .deposit _ _ _ _ | .withdraw _ _ _ _ | .cancelOrder _ _ _ | .cancelOrderAnyPair _ _ =>
    .isTrue trivial

theorem moves {fuel : ℕ} {e : Engine} (h : e.Filed) {op : EngineOp} (haddress : op.Addressed) :
    op.Moves fuel e := by
  cases op with
  | placeOrder pair side orderType price size address now =>
    intro config fills e' haccept
    obtain ⟨hfiled, hbetween⟩ := (ensures_acceptOrder fuel pair side orderType price size address
      now haddress).of_ok h haccept
    exact hfiled.fillsMove hbetween (List.Subset.refl _)
  | deposit address asset amount onChain => trivial
  | withdraw address asset amount transfer => trivial
  | cancelOrder pair orderId ownerAddress => trivial
  | cancelOrderAnyPair orderId ownerAddress => trivial

theorem total_step {fuel : ℕ} {e : Engine} (h : e.Filed) {op : EngineOp}
    (haddress : op.Addressed) (htrades : op.Trades) (hexact : op.Exact fuel e) (asset : String) :
    (op.step fuel e).total asset = e.total asset := by
  cases op with
  | deposit address asset amount onChain => exact htrades.elim
  | withdraw address asset amount transfer => exact htrades.elim
  | placeOrder pair side orderType price size address now =>
    have hkeeps := keeps_acceptOrder fuel pair side orderType price size address now
    change (left ((acceptOrder fuel pair side orderType price size address now >>=
      fun r => r.2.forM (settleFill r.1)) e)).total asset = _
    cases haccept : acceptOrder fuel pair side orderType price size address now e with
    | error err e' =>
      rw [bind_error haccept]
      exact total_of_balances (hkeeps.of_error haccept) asset
    | ok r e' =>
      obtain ⟨config, fills⟩ := r
      rw [bind_ok haccept, total_fills (moves h haddress config fills e' haccept)
        (hexact config fills e' haccept)]
      exact total_of_balances (hkeeps.of_ok haccept) asset
  | cancelOrder pair orderId ownerAddress =>
    exact total_of_balances ((keeps_cancelOrder pair orderId ownerAddress).map e) asset
  | cancelOrderAnyPair orderId ownerAddress =>
    exact total_of_balances ((keeps_cancelOrderAnyPair orderId ownerAddress).map e) asset

end EngineOp

namespace Engine

theorem filed_new : Filed .new := by
  have hempty : ∀ entry ∈ Engine.new.books, ∀ id, entry.2.allOrders.lookup id = none := by
    intro entry hentry id
    obtain ⟨config, _, rfl⟩ := List.mem_map.mp hentry
    exact Finmap.lookup_empty id
  have howner : ∀ entry ∈ Engine.new.books, ∀ id, entry.2.owner id = none := by
    intro entry hentry id
    rw [OrderBook.owner, hempty entry hentry id]
    rfl
  constructor
  · decide +kernel
  · intro entry hentry id o ho
    rw [hempty entry hentry id] at ho
    cases ho
  · intro entry hentry id
    rw [howner entry hentry id]
    intro h
    cases h
  · exact fun entry hentry id _ => howner entry hentry id
  · exact fun entry hentry _ _ id _ => .inl (howner entry hentry id)

/-- The engine after a sequence of calls, each of which leaves what it has changed if it
raises. -/
def reached (fuel : ℕ) (ops : List EngineOp) : Engine := Machine.run (EngineOp.step fuel) .new ops

theorem filed_reached (fuel : ℕ) {ops : List EngineOp} (haddressed : ∀ op ∈ ops, op.Addressed) :
    (reached fuel ops).Filed := by
  have hguard : ∀ early op, early ++ [op] <+: ops → op.Addressed := by
    intro early op hle
    exact haddressed op (hle.subset (by simp))
  exact Machine.run_guarded (P := Filed) (G := fun _ (op : EngineOp) => op.Addressed)
    (fun _ _ h hop => EngineOp.filed_step h hop) filed_new hguard (List.prefix_refl _)

/-- While orders are placed and cancelled, each fill moves what was traded between its two
parties, and the sum of all balances stays, as long as nothing is rounded. -/
theorem settlement_conserves (fuel : ℕ) (before trading : List EngineOp)
    (haddressed : ∀ op ∈ before ++ trading, op.Addressed) (htrades : ∀ op ∈ trading, op.Trades) :
    (∀ early op, early ++ [op] <+: trading → op.Moves fuel (reached fuel (before ++ early))) ∧
      ((∀ early op, early ++ [op] <+: trading →
          op.Exact fuel (reached fuel (before ++ early))) →
        ∀ early, early <+: trading → ∀ asset,
          (reached fuel (before ++ early)).total asset = (reached fuel before).total asset) := by
  have hbefore : ∀ op ∈ before, op.Addressed := fun op hop => haddressed op (by simp [hop])
  have htrading : ∀ op ∈ trading, op.Addressed := fun op hop => haddressed op (by simp [hop])
  have hmem : ∀ {early op}, early ++ [op] <+: trading → op ∈ trading :=
    fun hle => hle.subset (by simp)
  have hrun : ∀ early, reached fuel (before ++ early) =
      Machine.run (EngineOp.step fuel) (reached fuel before) early :=
    fun early => Machine.run_append _ before early
  have hfiled := filed_reached fuel hbefore
  constructor
  · intro early op hle
    rw [hrun]
    apply EngineOp.moves _ (htrading op (hmem hle))
    exact Machine.run_guarded (P := Filed) (G := fun _ (op : EngineOp) => op.Addressed)
      (fun _ _ h hop => EngineOp.filed_step h hop) hfiled
      (fun _ op hle => htrading op (hmem hle)) ((List.prefix_append _ _).trans hle)
  · intro hexact early hle asset
    rw [hrun]
    have hkeep := Machine.run_guarded
      (P := fun e : Engine => e.Filed ∧ e.total asset = (reached fuel before).total asset)
      (G := fun e (op : EngineOp) => op.Addressed ∧ op.Trades ∧ op.Exact fuel e)
      (fun e op h hop => ⟨EngineOp.filed_step h.1 hop.1,
        (EngineOp.total_step h.1 hop.1 hop.2.1 hop.2.2 asset).trans h.2⟩)
      ⟨hfiled, rfl⟩
      (fun early op hle => ⟨htrading op (hmem hle), htrades op (hmem hle),
        hrun early ▸ hexact early op hle⟩) hle
    exact hkeep.2

/-- The resting order is filled by two others, the last of which takes all of its rest. -/
theorem settlement_conserves_sample :
    (reached 3
      [.deposit "alice" "QUSD" (.finite 100) .noDatabase,
        .deposit "bob" "QBC" (.finite 60) .noDatabase,
        .placeOrder "QBC/QUSD" "sell" "limit" (.finite (3 / 2)) (.finite 60) "bob" 1,
        .placeOrder "QBC-QUSD" "buy" "limit" (.finite 2) (.finite 40) "alice" 2,
        .placeOrder "QBC/QUSD" "buy" "market" (.finite 0) (.finite 20) "alice" 3]).total
      "QUSD" =
    (reached 3
      [.deposit "alice" "QUSD" (.finite 100) .noDatabase,
        .deposit "bob" "QBC" (.finite 60) .noDatabase]).total "QUSD" := by
  have hconserves := settlement_conserves 3
    [.deposit "alice" "QUSD" (.finite 100) .noDatabase,
      .deposit "bob" "QBC" (.finite 60) .noDatabase]
    [.placeOrder "QBC/QUSD" "sell" "limit" (.finite (3 / 2)) (.finite 60) "bob" 1,
      .placeOrder "QBC-QUSD" "buy" "limit" (.finite 2) (.finite 40) "alice" 2,
      .placeOrder "QBC/QUSD" "buy" "market" (.finite 0) (.finite 20) "alice" 3]
    (by simp [EngineOp.Addressed]) (by simp [EngineOp.Trades])
  apply hconserves.2 _ _ (List.prefix_refl _)
  simp only [Machine.forall_before_cons, Machine.forall_before_nil]
  decide +kernel

/-- A price and a size of sixteen digits each: the buyer's balance cannot take all the digits
of their product. -/
theorem settlement_rounds :
    ¬ ∀ (fuel : ℕ) (before trading : List EngineOp), (∀ op ∈ before ++ trading, op.Addressed) →
      (∀ op ∈ trading, op.Trades) → ∀ asset,
        (reached fuel (before ++ trading)).total asset = (reached fuel before).total asset := by
  intro h
  have hsum := h 2
    [.deposit "alice" "QUSD" (.finite 1000) .noDatabase,
      .deposit "bob" "QBC" (.finite 10) .noDatabase]
    [.placeOrder "QBC/QUSD" "sell" "limit" (.finite (3333333333333333 / 10 ^ 16))
        (.finite (13333333333333333 / 10 ^ 16)) "bob" 1,
      .placeOrder "QBC/QUSD" "buy" "limit" (.finite (3333333333333333 / 10 ^ 16))
        (.finite (13333333333333333 / 10 ^ 16)) "alice" 2]
    (by simp [EngineOp.Addressed]) (by simp [EngineOp.Trades]) "QUSD"
  exact absurd hsum (by decide +kernel)

end Engine

end Qubitcoin.Exchange
