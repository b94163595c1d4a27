import Qubitcoin.Exchange.Engine

/-! Whom the orders of a book belong to.  Matching and cancelling change how much of an order
is filled and what its status is, but not under which identifier it is recorded, nor for which
address. -/

namespace Qubitcoin.Exchange

open Command

namespace OrderBook

/-- The address a recorded order was placed for. -/
def owner (b : OrderBook) (id : OrderId) : Option String :=
  (b.allOrders.lookup id).map Order.address

/-- The book records orders for these owners, each under its own identifier. -/
structure Registers (config : MarketConfig) (owners : OrderId → Option String)
    (b : OrderBook) : Prop where
  config_eq : b.config = config
  owner_eq : ∀ id, b.owner id = owners id
  id_eq : ∀ id o, b.allOrders.lookup id = some o → o.id = id

variable {config : MarketConfig} {owners : OrderId → Option String}

theorem owner_putOrder (b : OrderBook) (o : Order) (id : OrderId) :
    (b.putOrder o).owner id = if id = o.id then some o.address else b.owner id := by
  rw [owner, putOrder, StorageMap.lookup_insert_eq]
  split
  · rfl
  · rfl

/-- Recording an order settles whose it is. -/
theorem Registers.putOrder {b : OrderBook} (h : b.Registers config owners) (o : Order) :
    (b.putOrder o).Registers config (Function.update owners o.id (some o.address)) where
  config_eq := h.config_eq
  owner_eq id := by
    rw [owner_putOrder, Function.update_apply, h.owner_eq]
  id_eq id o' hlookup := by
    rw [OrderBook.putOrder, StorageMap.lookup_insert_eq] at hlookup
    split at hlookup
    · next heq =>
      cases hlookup
      exact heq.symm
    · exact h.id_eq id o' hlookup

/-- The two sides of the book do not matter. -/
theorem Registers.of_allOrders {b b' : OrderBook} (h : b.Registers config owners)
    (hconfig : b'.config = b.config) (hsame : b'.allOrders = b.allOrders) :
    b'.Registers config owners where
  config_eq := hconfig.trans h.config_eq
  owner_eq id := by
    rw [owner, hsame]
    exact h.owner_eq id
  id_eq id o hlookup := by
    rw [hsame] at hlookup
    exact h.id_eq id o hlookup

theorem Registers.setAgainst {b : OrderBook} (h : b.Registers config owners) (side : Side)
    (ids : List OrderId) : (b.setAgainst side ids).Registers config owners := by
  cases side with
  | buy => exact h.of_allOrders rfl rfl
  | sell => exact h.of_allOrders rfl rfl

theorem maintains_ofSignal {σ α : Type} {P : σ → Prop} (x : Except Decimal.Signal α) :
    Maintains P (ofSignal x) fun _ => True := by
  cases x with
  | ok a => exact .pure trivial
  | error signal => exact .throw _

/-- An order that may be written back to the place of `id`. -/
def OwnedAt (owners : OrderId → Option String) (id : OrderId) (o : Order) : Prop :=
  o.id = id ∧ owners id = some o.address

theorem OwnedAt.refilled {id : OrderId} {o : Order} (h : OwnedAt owners id o) (filled : Decimal)
    (status : OrderStatus) : OwnedAt owners id { o with filled := filled, status := status } := h

theorem Registers.putOwned {b : OrderBook} (h : b.Registers config owners) {id : OrderId}
    {o : Order} (ho : OwnedAt owners id o) : (b.putOrder o).Registers config owners := by
  have hput := h.putOrder o
  rwa [ho.1, ← ho.2, Function.update_eq_self] at hput

theorem maintains_getOrder (id : OrderId) :
    Maintains (Registers config owners) (getOrder id) (OwnedAt owners id) := by
  apply Maintains.get.bind
  intro b hb
  cases hlookup : b.allOrders.lookup id with
  | none => exact .throw _
  | some o =>
    apply Maintains.pure
    refine ⟨hb.id_eq id o hlookup, ?_⟩
    rw [← hb.owner_eq, owner, hlookup]
    rfl

theorem maintains_putOrder {id : OrderId} {o : Order} (ho : OwnedAt owners id o) :
    Maintains (Registers config owners)
      (modify fun b => b.putOrder o : Command Error OrderBook PUnit) fun _ => True :=
  .modify fun _ hb => hb.putOwned ho

/-- The trade is between recorded orders, the first of them `takerId`. -/
def Parties (owners : OrderId → Option String) (takerId : OrderId) (trade : Trade) : Prop :=
  trade.takerOrderId = takerId ∧ ∃ address, owners trade.makerOrderId = some address

theorem maintains_fill {takerId makerId : OrderId} {taker maker : Order}
    (htaker : OwnedAt owners takerId taker) (hmaker : OwnedAt owners makerId maker) :
    Maintains (Registers config owners) (fill taker maker) fun r =>
      OwnedAt owners makerId r.2.1 ∧ Parties owners takerId r.2.2 := by
  apply (maintains_ofSignal _).bind
  intro _ _
  apply (maintains_ofSignal _).bind
  intro _ _
  apply (maintains_ofSignal _).bind
  intro _ _
  apply (maintains_ofSignal _).bind
  intro _ _
  apply (maintains_putOrder (htaker.refilled _ _)).bind
  intro _ _
  apply (maintains_ofSignal _).bind
  intro _ _
  apply (maintains_putOrder (hmaker.refilled _ _)).bind
  intro _ _
  apply Maintains.pure
  exact ⟨hmaker.refilled _ _, htaker.1, maker.address, by rw [hmaker.1, hmaker.2]⟩

/-- Every fill of a matching loop is with a recorded order. -/
theorem maintains_matchLoop (limit : Bool) (fuel : ℕ) (takerId : OrderId) (i : ℕ) :
    Maintains (Registers config owners) (matchLoop limit fuel takerId i) fun fills =>
      ∀ trade ∈ fills, Parties owners takerId trade := by
  induction fuel generalizing i with
  | zero => exact .throw _
  | succ fuel ih =>
    apply (maintains_getOrder takerId).bind
    intro taker htaker
    apply Maintains.get.bind
    intro b _
    split
    · exact .pure nofun
    next makerId _ =>
    apply (maintains_ofSignal _).bind
    intro _ _
    apply (maintains_ofSignal _).bind
    intro positive _
    apply Maintains.ite (.pure nofun)
    apply (maintains_getOrder makerId).bind
    intro maker hmaker
    extract_lets rest
    have hrest : Maintains (Registers config owners) (rest ()) fun fills =>
        ∀ trade ∈ fills, Parties owners takerId trade := by
      apply (maintains_fill htaker hmaker).bind
      rintro ⟨_, maker', trade⟩ ⟨hmaker', htrade⟩
      have hcons : ∀ j, Maintains (Registers config owners)
          (do return trade :: (← matchLoop limit fuel takerId j)) fun fills =>
            ∀ trade ∈ fills, Parties owners takerId trade := by
        intro j
        apply (ih j).bind
        intro fills hfills
        exact .pure (List.forall_mem_cons.mpr ⟨htrade, hfills⟩)
      apply (maintains_ofSignal _).bind
      intro _ _
      apply (maintains_ofSignal _).bind
      intro _ _
      apply Maintains.ite
      · apply (maintains_putOrder (hmaker'.refilled _ _)).bind
        intro _ _
        apply (Maintains.modify fun b hb => hb.setAgainst _ _).bind
        intro _ _
        exact hcons i
      · apply (maintains_putOrder (hmaker'.refilled _ _)).bind
        intro _ _
        exact hcons _
    apply Maintains.ite _ hrest
    apply (maintains_ofSignal _).bind
    intro beyond _
    exact .ite (.pure nofun) hrest

theorem maintains_matchOrder (fuel : ℕ) (takerId : OrderId) (limit : Bool) :
    Maintains (Registers config owners) (matchOrder fuel takerId limit) fun fills =>
      ∀ trade ∈ fills, Parties owners takerId trade := by
  apply (maintains_matchLoop limit fuel takerId 0).bind
  intro fills hfills
  apply (maintains_getOrder takerId).bind
  intro taker htaker
  apply (maintains_ofSignal _).bind
  intro _ _
  apply (maintains_ofSignal _).bind
  intro _ _
  apply Maintains.ite _ (.pure hfills)
  apply (maintains_putOrder (htaker.refilled _ _)).bind
  intro _ _
  exact .pure hfills

theorem maintains_sortSide (side : Side) :
    Maintains (Registers config owners) (sortSide side) fun _ => True := by
  apply Maintains.get.bind
  intro b hb
  extract_lets orders sorted rest
  have hrest : Maintains (Registers config owners) (rest ()) fun _ => True := by
    cases side with
    | buy => exact .set (hb.of_allOrders rfl rfl)
    | sell => exact .set (hb.of_allOrders rfl rfl)
  exact .ite (Maintains.bind (Q := fun _ => True) (.throw _) fun _ _ => hrest) hrest

/-- A new order is recorded for its address, and filled against recorded orders. -/
theorem ensures_addOrder (fuel : ℕ) (order : Order) :
    let owners' := Function.update owners order.id (some order.address)
    Ensures (Registers config owners) (addOrder fuel order)
      (fun fills b => b.Registers config owners' ∧ ∀ trade ∈ fills, Parties owners' order.id trade)
      (Registers config owners') := by
  intro owners'
  have hput : Ensures (Registers config owners)
      (modify (putOrder · order) : Command Error OrderBook PUnit)
      (fun _ => Registers config owners') (Registers config owners') :=
    fun _ hb => hb.putOrder order
  apply hput.bind
  intro _
  apply (maintains_matchOrder fuel order.id _).bind
  intro fills hfills
  apply (maintains_getOrder order.id).bind
  intro order' horder'
  apply (maintains_ofSignal _).bind
  intro _ _
  apply (maintains_ofSignal _).bind
  intro _ _
  extract_lets finish rest
  have hfinish : Maintains (Registers config owners') (finish ()) fun fills =>
      ∀ trade ∈ fills, Parties owners' order.id trade := .pure hfills
  have hrest : Maintains (Registers config owners') (rest ()) fun fills =>
      ∀ trade ∈ fills, Parties owners' order.id trade := by
    apply (maintains_sortSide _).bind
    intro _ _
    apply (maintains_ofSignal _).bind
    intro _ _
    apply Maintains.ite _ hfinish
    apply (maintains_putOrder (horder'.refilled _ _)).bind
    exact fun _ _ => hfinish
  apply Maintains.ite _ hfinish
  cases order'.side with
  | buy =>
    apply (Maintains.modify fun b hb => hb.of_allOrders rfl rfl).bind
    exact fun _ _ => hrest
  | sell =>
    apply (Maintains.modify fun b hb => hb.of_allOrders rfl rfl).bind
    exact fun _ _ => hrest

theorem maintains_cancelOrder (orderId : OrderId) (ownerAddress : String) :
    Maintains (Registers config owners) (cancelOrder orderId ownerAddress) fun _ => True := by
  apply Maintains.get.bind
  intro b hb
  cases hlookup : b.allOrders.lookup orderId with
  | none => exact .pure trivial
  | some order =>
    have horder : OwnedAt owners orderId order := by
      refine ⟨hb.id_eq orderId order hlookup, ?_⟩
      rw [← hb.owner_eq, owner, hlookup]
      rfl
    apply Maintains.ite (.pure trivial)
    apply Maintains.ite (.pure trivial)
    apply Maintains.bind (Q := fun _ => True) _ fun _ _ => .pure trivial
    exact .set ((hb.putOwned (horder.refilled _ _)).of_allOrders rfl rfl)

end OrderBook

end Qubitcoin.Exchange
