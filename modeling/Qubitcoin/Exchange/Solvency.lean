import Qubitcoin.Library.Machine
import Qubitcoin.Exchange.Engine

/-! When no balance falls below zero.  An order is checked against the balance once, when it
is placed, and settled against whatever is there when it is filled. -/

namespace Qubitcoin.Exchange

namespace Engine

/-- Every balance is a number that is not below zero. -/
def Solvent (e : Engine) : Prop := ∀ address asset, 0 ≤ e.balance address asset

/-- The balance holds what the update takes from it. -/
def Update.Covered (u : Update) (e : Engine) : Prop :=
  (if u.taken then u.amount else u.amount.opposite) ≤ e.balance u.address u.asset

/-- The updates of a settlement are covered, each when it is made. -/
def FillCovered (config : MarketConfig) (trade : Trade) (e : Engine) : Prop :=
  ∀ maker taker quoteAmount, e.findOrder trade.makerOrderId = some maker →
    e.findOrder trade.takerOrderId = some taker →
    Decimal.mul prec trade.price trade.size = .ok quoteAmount →
    Command.Guarded Update.Covered Update.apply
      (fillUpdates config trade quoteAmount maker taker) e

instance (u : Update) (e : Engine) : Decidable (u.Covered e) :=
  inferInstanceAs (Decidable (_ ≤ _))

instance (config : MarketConfig) (trade : Trade) (e : Engine) :
    Decidable (FillCovered config trade e) :=
  match hmaker : e.findOrder trade.makerOrderId, htaker : e.findOrder trade.takerOrderId,
    hquote : Decimal.mul prec trade.price trade.size with
  | some maker, some taker, .ok quoteAmount =>
    decidable_of_iff (Command.Guarded Update.Covered Update.apply
      (fillUpdates config trade quoteAmount maker taker) e)
      ⟨fun h _ _ _ hm ht hq => by
        rw [hmaker] at hm
        rw [htaker] at ht
        rw [hquote] at hq
        cases hm
        cases ht
        cases hq
        exact h, fun h => h maker taker quoteAmount hmaker htaker hquote⟩
  | none, _, _ => .isTrue fun _ _ _ hm => by rw [hmaker] at hm; cases hm
  | some _, none, _ => .isTrue fun _ _ _ _ ht => by rw [htaker] at ht; cases ht
  | some _, some _, .error _ => .isTrue fun _ _ _ _ _ hq => by rw [hquote] at hq; cases hq

variable {address asset : String} {amount : Decimal} {e e' : Engine}

theorem balance_setBalance (e : Engine) (address asset : String) (amount : Decimal)
    (address' asset' : String) :
    (e.setBalance address asset amount).balance address' asset' =
      if (address', asset') = (address, asset) then amount else e.balance address' asset' :=
  StorageMap.value_insert_eq 0 e.balances (address, asset) (address', asset') amount

theorem Solvent.setBalance (h : e.Solvent) (hamount : 0 ≤ amount) :
    (e.setBalance address asset amount).Solvent := by
  intro address' asset'
  rw [balance_setBalance]
  split
  · exact hamount
  · exact h address' asset'

theorem ofSignal_eq_ok {α : Type} {x : Except Decimal.Signal α} {a : α}
    (h : ofSignal x e = .ok a e') : x = .ok a ∧ e = e' := by
  cases x with
  | ok b =>
    cases h
    exact ⟨rfl, rfl⟩
  | error signal => cases h

theorem credit_eq (address asset : String) (amount : Decimal) (e : Engine) :
    credit address asset amount e =
      match Decimal.add prec (e.balance address asset) amount with
      | .ok sum => .ok () (e.setBalance address asset sum)
      | .error signal => .error (.signal signal) e := by
  change (ofSignal (Decimal.add prec (e.balance address asset) amount) >>= fun sum =>
    modify (setBalance · address asset sum)) e = _
  cases Decimal.add prec (e.balance address asset) amount with
  | ok sum => rfl
  | error signal => rfl

theorem debit_eq (address asset : String) (amount : Decimal) (e : Engine) :
    debit address asset amount e =
      match Decimal.sub prec (e.balance address asset) amount with
      | .ok rest => .ok () (e.setBalance address asset rest)
      | .error signal => .error (.signal signal) e := by
  change (ofSignal (Decimal.sub prec (e.balance address asset) amount) >>= fun rest =>
    modify (setBalance · address asset rest)) e = _
  cases Decimal.sub prec (e.balance address asset) amount with
  | ok rest => rfl
  | error signal => rfl

theorem Solvent.debit (h : e.Solvent) (hcovered : amount ≤ e.balance address asset)
    (hrun : debit address asset amount e = .ok () e') : e'.Solvent := by
  rw [debit_eq] at hrun
  split at hrun
  · next rest hrest =>
    cases hrun
    exact h.setBalance (Decimal.nonneg_of_sub hcovered hrest)
  · cases hrun

theorem Solvent.credit (h : e.Solvent) (hcovered : amount.opposite ≤ e.balance address asset)
    (hrun : credit address asset amount e = .ok () e') : e'.Solvent := by
  rw [credit_eq] at hrun
  split at hrun
  · next sum hsum =>
    cases hrun
    rw [Decimal.add_eq_sub] at hsum
    exact h.setBalance (Decimal.nonneg_of_sub hcovered hsum)
  · cases hrun

theorem Solvent.update {u : Update} (h : e.Solvent) (hcovered : u.Covered e)
    (hrun : u.apply e = .ok () e') : e'.Solvent := by
  unfold Update.Covered at hcovered
  unfold Update.apply at hrun
  split at hrun
  · next htaken =>
    rw [if_pos htaken] at hcovered
    exact h.debit hcovered hrun
  · next hgiven =>
    rw [if_neg hgiven] at hcovered
    exact h.credit hcovered hrun

theorem settleFill_eq (config : MarketConfig) (trade : Trade) (e : Engine) :
    settleFill config trade e =
      (match e.findOrder trade.makerOrderId, e.findOrder trade.takerOrderId with
        | some maker, some taker => ofSignal (Decimal.mul prec trade.price trade.size) >>=
            fun quoteAmount => (fillUpdates config trade quoteAmount maker taker).forM Update.apply
        | _, _ => pure ()) e := rfl

theorem Solvent.settleFill {config : MarketConfig} {trade : Trade} (h : e.Solvent)
    (hcovered : FillCovered config trade e) (hrun : settleFill config trade e = .ok () e') :
    e'.Solvent := by
  rw [settleFill_eq] at hrun
  cases hmaker : e.findOrder trade.makerOrderId with
  | none =>
    rw [hmaker] at hrun
    cases hrun
    exact h
  | some maker =>
    cases htaker : e.findOrder trade.takerOrderId with
    | none =>
      rw [hmaker, htaker] at hrun
      cases hrun
      exact h
    | some taker =>
      rw [hmaker, htaker] at hrun
      cases hquote : Decimal.mul prec trade.price trade.size with
      | error signal =>
        rw [hquote] at hrun
        cases hrun
      | ok quoteAmount =>
        rw [hquote] at hrun
        refine (hcovered maker taker quoteAmount hmaker htaker hquote).forM ?_ h hrun
        intro u s t hs hu happly
        exact hs.update hu happly

theorem throwIf_eq_ok {condition : Bool} {err : Error}
    (h : throwIf condition err e = .ok () e') : condition = false ∧ e = e' := by
  cases condition with
  | true => cases h
  | false =>
    cases h
    exact ⟨rfl, rfl⟩

theorem ofExcept_eq_ok {α : Type} {x : Except Error α} {a : α}
    (h : ofExcept x e = .ok a e') : x = .ok a ∧ e = e' := by
  cases x with
  | ok b =>
    cases h
    exact ⟨rfl, rfl⟩
  | error err => cases h

theorem Solvent.deposit {onChain : OnChain} (h : e.Solvent) (hnumber : amount ≠ .nan)
    (hrun : deposit address asset amount onChain e = .ok () e') : e'.Solvent := by
  obtain ⟨_, _, hthrow, hrun⟩ := Command.of_bind_ok hrun
  obtain ⟨hpositive, rfl⟩ := throwIf_eq_ok hthrow
  obtain ⟨_, _, hverified, hcredit⟩ := Command.of_bind_ok hrun
  obtain ⟨-, rfl⟩ := ofExcept_eq_ok hverified
  have hamount : 0 ≤ amount := Decimal.le_of_not_le nofun hnumber (of_decide_eq_false hpositive)
  exact h.credit (Decimal.opposite_le hamount (h address asset)) hcredit

theorem Solvent.withdraw {transfer : Transfer} (h : e.Solvent)
    (hrun : withdraw address asset amount transfer e = .ok () e') : e'.Solvent := by
  obtain ⟨_, _, hpositive, hrun⟩ := Command.of_bind_ok hrun
  obtain ⟨-, rfl⟩ := throwIf_eq_ok hpositive
  obtain ⟨_, _, hget, hrun⟩ := Command.of_bind_ok hrun
  cases hget
  obtain ⟨short, _, hcompare, hrun⟩ := Command.of_bind_ok hrun
  obtain ⟨hshort, rfl⟩ := ofSignal_eq_ok hcompare
  obtain ⟨_, _, hthrow, hrun⟩ := Command.of_bind_ok hrun
  obtain ⟨henough, rfl⟩ := throwIf_eq_ok hthrow
  rw [henough] at hshort
  obtain ⟨_, r, hdebit, hrest⟩ := Command.of_bind_ok hrun
  have hr := h.debit (Decimal.of_lt?_false hshort) hdebit
  split at hrest
  · obtain ⟨_, _, _, hraise⟩ := Command.of_bind_ok hrest
    cases hraise
  · cases hrest
    exact hr

/-- Matching does not touch the balances. -/
theorem keeps_onBook {α : Type} (pair : String) (method : Command Error OrderBook α)
    (b : OrderBook) : Command.Keeps (.fixing balances) (onBook pair method b) := by
  unfold onBook
  split
  · exact (Command.Keeps.modify fun _ => rfl).bind fun _ => .pure _
  · exact (Command.Keeps.modify fun _ => rfl).bind fun _ => .throw _

theorem keeps_ofSignal {G : Guarantee Engine} {α : Type} (x : Except Decimal.Signal α) :
    Command.Keeps G (ofSignal x) := by
  cases x with
  | ok a => exact .pure a
  | error signal => exact .throw _

theorem keeps_ofExcept {G : Guarantee Engine} {α : Type} (x : Except Error α) :
    Command.Keeps G (ofExcept x) := by
  cases x with
  | ok a => exact .pure a
  | error err => exact .throw err

theorem keeps_throwIf {G : Guarantee Engine} (condition : Bool) (err : Error) :
    Command.Keeps G (throwIf condition err) := .ite (.throw err) (.pure ())

theorem keeps_checkBalance {G : Guarantee Engine} (config : MarketConfig) (side : Side)
    (orderType : OrderType) (price size : Decimal) (address : String) :
    Command.Keeps G (checkBalance config side orderType price size address) := by
  apply Command.Keeps.ite (.pure ())
  apply (keeps_ofSignal _).bind
  rintro ⟨asset, amount⟩
  apply Command.Keeps.get.bind
  intro e
  exact (keeps_ofSignal _).bind fun short => keeps_throwIf _ _

theorem keeps_acceptOrder (fuel : ℕ) (pair side orderType : String) (price size : Decimal)
    (address : String) (now : ℚ) : Command.Keeps (.fixing balances)
      (acceptOrder fuel pair side orderType price size address now) := by
  apply Command.Keeps.get.bind
  intro e
  cases e.book (normalizePair pair) with
  | none => exact .throw _
  | some b =>
    apply (keeps_ofExcept _).bind
    intro side
    apply (keeps_ofExcept _).bind
    intro orderType
    apply (keeps_ofSignal _).bind
    intro small
    apply (keeps_throwIf _ _).bind
    intro _
    apply (keeps_checkBalance _ _ _ _ _ _).bind
    intro _
    apply (Command.Keeps.modify fun _ => rfl).bind
    intro _
    apply Command.Keeps.get.bind
    intro e'
    exact (keeps_onBook _ _ b).bind fun fills => .pure _

theorem Solvent.of_balances (h : e.Solvent) (hsame : e'.balances = e.balances) : e'.Solvent := by
  intro address asset
  rw [balance, hsame]
  exact h address asset

theorem keeps_cancelOrder (pair : String) (orderId : OrderId) (ownerAddress : String) :
    Command.Keeps (.fixing balances) (cancelOrder pair orderId ownerAddress) := by
  apply Command.Keeps.get.bind
  intro e
  cases e.book (normalizePair pair) with
  | none => exact .pure _
  | some b => exact keeps_onBook _ _ b

theorem keeps_cancelOrderAnyPair (orderId : OrderId) (ownerAddress : String) :
    Command.Keeps (.fixing balances) (cancelOrderAnyPair orderId ownerAddress) := by
  apply Command.Keeps.get.bind
  intro e
  split
  · exact .pure _
  · exact keeps_onBook _ _ _

end Engine

namespace EngineOp

open Engine

/-- A deposit is a number; and whenever the settlement of a fill takes an amount from a
balance, the balance holds it. -/
def Covered (fuel : ℕ) (e : Engine) : EngineOp → Prop
  | .deposit _ _ amount _ => amount ≠ .nan
  | .placeOrder pair side orderType price size address now =>
    ∀ config fills e', acceptOrder fuel pair side orderType price size address now e =
      .ok (config, fills) e' → Command.Guarded (FillCovered config) (settleFill config) fills e'
  | .withdraw _ _ _ _ | .cancelOrder _ _ _ | .cancelOrderAnyPair _ _ => True

instance (fuel : ℕ) (e : Engine) (op : EngineOp) : Decidable (op.Covered fuel e) :=
  match op with
  | .deposit _ _ amount _ => inferInstanceAs (Decidable (amount ≠ .nan))
  | .placeOrder pair side orderType price size address now =>
    match h : acceptOrder fuel pair side orderType price size address now e with
    | .ok (config, fills) e' =>
      decidable_of_iff (Command.Guarded (FillCovered config) (settleFill config) fills e')
        ⟨fun hfills _ _ _ heq => by
          rw [h] at heq
          cases heq
          exact hfills, fun hall => hall config fills e' h⟩
    | .error _ _ => .isTrue fun _ _ _ heq => by rw [h] at heq; cases heq
  | .withdraw _ _ _ _ | .cancelOrder _ _ _ | .cancelOrderAnyPair _ _ => .isTrue trivial

theorem solvent_call {fuel : ℕ} {e e' : Engine} (h : e.Solvent) {op : EngineOp}
    (hcovered : op.Covered fuel e) (hrun : op.call fuel e = .ok () e') : e'.Solvent := by
  cases op with
  | deposit address asset amount onChain => exact h.deposit hcovered hrun
  | withdraw address asset amount transfer => exact h.withdraw hrun
  | placeOrder pair side orderType price size address now =>
    obtain ⟨⟨config, fills⟩, r, haccept, hsettle⟩ := Command.of_bind_ok hrun
    have hr := h.of_balances ((keeps_acceptOrder fuel pair side orderType price size address
      now).of_ok haccept)
    refine (hcovered config fills r haccept).forM ?_ hr hsettle
    intro trade s t hs hfill hrun
    exact hs.settleFill hfill hrun
  | cancelOrder pair orderId ownerAddress =>
    exact h.of_balances ((keeps_cancelOrder pair orderId ownerAddress).map.of_ok hrun)
  | cancelOrderAnyPair orderId ownerAddress =>
    exact h.of_balances ((keeps_cancelOrderAnyPair orderId ownerAddress).map.of_ok hrun)

theorem solvent_apply {fuel : ℕ} {e : Engine} (h : e.Solvent) {op : EngineOp}
    (hcovered : op.Covered fuel e) : (op.apply fuel e).Solvent := by
  unfold EngineOp.apply
  split
  · next hrun => exact solvent_call h hcovered hrun
  · exact h.of_balances rfl

end EngineOp

namespace Engine

theorem solvent_new : Solvent .new := fun address asset => by
  rw [balance, new, StorageMap.value_empty]
  rfl

/-- The engine after a sequence of calls; `fuel` bounds the rounds of a matching loop. -/
def after (fuel : ℕ) (ops : List EngineOp) : Engine := Machine.run (EngineOp.apply fuel) .new ops

/-- In a run in which every call is covered no balance is ever below zero. -/
theorem solvent_after (fuel : ℕ) (ops : List EngineOp)
    (hcovered : ∀ early op, early ++ [op] <+: ops → op.Covered fuel (after fuel early))
    (early : List EngineOp) (hle : early <+: ops) : (after fuel early).Solvent :=
  Machine.run_guarded (P := Solvent) (G := fun e op => op.Covered fuel e)
    (fun _ _ h hop => EngineOp.solvent_apply h hop) solvent_new hcovered hle

/-- One order is filled while its owner still holds the amount, and a rest is withdrawn. -/
theorem solvent_after_sample :
    (after 2
      [.deposit "alice" "QUSD" (.finite 100) .noDatabase,
        .deposit "bob" "QBC" (.finite 60) .noDatabase,
        .placeOrder "QBC/QUSD" "buy" "limit" (.finite 1) (.finite 100) "alice" 1,
        .placeOrder "QBC-QUSD" "sell" "limit" (.finite 1) (.finite 60) "bob" 2,
        .withdraw "alice" "QUSD" (.finite 40) .noDatabase]).Solvent := by
  apply solvent_after _ _ _ _ (List.prefix_refl _)
  simp only [Machine.forall_before_cons, Machine.forall_before_nil]
  decide +kernel

/-- The maker withdraws what the order needs, then the order is filled. -/
theorem balance_below_zero :
    ¬ ∀ (fuel : ℕ) (ops : List EngineOp), (after fuel ops).Solvent := by
  intro h
  have hsolvent := h 2
    [.deposit "alice" "QUSD" (.finite 100) .noDatabase,
      .deposit "bob" "QBC" (.finite 100) .noDatabase,
      .placeOrder "QBC/QUSD" "buy" "limit" (.finite 1) (.finite 100) "alice" 1,
      .withdraw "alice" "QUSD" (.finite 100) .noDatabase,
      .placeOrder "QBC/QUSD" "sell" "limit" (.finite 1) (.finite 100) "bob" 2]
  exact absurd (hsolvent "alice" "QUSD") (by decide +kernel)

end Engine

end Qubitcoin.Exchange
