import Qubitcoin.Library.StorageMap

/-! `qbc-exchange/src/orderbook.rs`: a book of one pair that matches by price and time.
Prices and sizes are rationals; an order is kept twice, on the book and in `allOrders`. -/

namespace Qubitcoin.QbcExchange

inductive Side
  | buy
  | sell
  deriving DecidableEq

inductive OrderType
  | limit
  | market
  deriving DecidableEq

inductive OrderStatus
  | opened
  | partialFill
  | filled
  | cancelled
  deriving DecidableEq

structure Order where
  id : String
  pair : String
  side : Side
  orderType : OrderType
  price : ℚ
  size : ℚ
  filled : ℚ
  address : String
  timestamp : ℕ
  status : OrderStatus
  deriving DecidableEq

structure Trade where
  pair : String
  price : ℚ
  size : ℚ
  side : Side
  makerOrderId : String
  takerOrderId : String
  deriving DecidableEq

/-- `1e-12`. -/
def epsilon : ℚ := 1 / 10 ^ 12

namespace Order

def remaining (o : Order) : ℚ := o.size - o.filled

def fill (o : Order) (fillSize : ℚ) : Order := { o with filled := o.filled + fillSize }

end Order

abbrev Orders := StorageMap String Order

namespace Orders

/-- `get_mut`: an order that is not there is not changed. -/
def update (all : Orders) (id : String) (change : Order → Order) : Orders :=
  match all.lookup id with
  | none => all
  | some stored => all.insert id (change stored)

def markFilled (all : Orders) (id : String) : Orders :=
  all.update id fun stored => { stored with filled := stored.size, status := .filled }

def markPartial (all : Orders) (id : String) (makerFilled : ℚ) : Orders :=
  all.update id fun stored => { stored with filled := makerFilled, status := .partialFill }

end Orders

/-- What a matching loop leaves. -/
structure Matched where
  taker : Order
  book : List Order
  allOrders : Orders
  fills : List Trade

def Matched.addFill (r : Matched) (trade : Trade) : Matched := { r with fills := trade :: r.fills }

def trade (taker maker : Order) (fillSize : ℚ) : Trade where
  pair := taker.pair
  price := maker.price
  size := fillSize
  side := taker.side
  makerOrderId := maker.id
  takerOrderId := taker.id

/-- The limit of `taker` excludes the price of `maker`. -/
def priceCheck (taker maker : Order) : Prop :=
  match taker.side with
  | .buy => taker.price < maker.price
  | .sell => maker.price < taker.price

instance (taker maker : Order) : Decidable (priceCheck taker maker) := by
  unfold priceCheck
  cases taker.side <;> infer_instance

/-- The loop of `match_limit` at an index: `front` is the book before it. -/
def limitLoop (taker : Order) (front : List Order) : List Order → Orders → Matched
  | [], all => ⟨taker, front, all, []⟩
  | maker :: rest, all =>
    if epsilon < taker.remaining ∧ ¬ priceCheck taker maker then
      let fillSize := min taker.remaining maker.remaining
      let maker' := maker.fill fillSize
      let result :=
        if maker'.remaining ≤ epsilon then
          limitLoop (taker.fill fillSize) front rest (all.markFilled maker.id)
        else
          limitLoop (taker.fill fillSize) (front ++ [maker']) rest
            (all.markPartial maker.id maker'.filled)
      result.addFill (trade taker maker fillSize)
    else ⟨taker, front ++ maker :: rest, all, []⟩

theorem remaining_fill (o : Order) (fillSize : ℚ) :
    (o.fill fillSize).remaining = o.remaining - fillSize := sub_add_eq_sub_sub _ _ _

/-- A maker that keeps a rest has taken all of the taker. -/
theorem remaining_fill_eq_zero {taker maker : Order}
    (h : ¬ (maker.fill (min taker.remaining maker.remaining)).remaining ≤ epsilon) :
    (taker.fill (min taker.remaining maker.remaining)).remaining = 0 := by
  rw [remaining_fill] at h ⊢
  cases min_cases taker.remaining maker.remaining with
  | inl hmin => rw [hmin.1, sub_self]
  | inr hmin =>
    rw [hmin.1, sub_self] at h
    exact absurd (by norm_num [epsilon]) h

/-- The loop of `match_market`, always at the first order of the book. -/
def marketLoop (taker : Order) (book : List Order) (all : Orders) : Matched :=
  match book with
  | [] => ⟨taker, [], all, []⟩
  | maker :: rest =>
    if epsilon < taker.remaining then
      let fillSize := min taker.remaining maker.remaining
      let maker' := maker.fill fillSize
      let result :=
        if maker'.remaining ≤ epsilon then
          marketLoop (taker.fill fillSize) rest (all.markFilled maker.id)
        else
          marketLoop (taker.fill fillSize) (maker' :: rest)
            (all.markPartial maker.id maker'.filled)
      result.addFill (trade taker maker fillSize)
    else ⟨taker, maker :: rest, all, []⟩
termination_by (book.length, if epsilon < taker.remaining then 1 else 0)
decreasing_by
  · exact Prod.Lex.left _ _ (Nat.lt_succ_self _)
  · next hmore hrest =>
    apply Prod.Lex.right
    have hzero : ¬ epsilon < (taker.fill fillSize).remaining := by
      rw [remaining_fill_eq_zero hrest]
      norm_num [epsilon]
    rw [if_pos hmore, if_neg hzero]
    exact Nat.zero_lt_one

structure OrderBook where
  bids : List Order
  asks : List Order
  trades : List Trade
  allOrders : Orders

namespace OrderBook

def new : OrderBook where
  bids := []
  asks := []
  trades := []
  allOrders := ∅

/-- Bids compare by falling price, asks by rising price, then by time. -/
def sortLe : Side → Order → Order → Bool
  | .buy, a, b => b.price < a.price || (a.price = b.price && a.timestamp ≤ b.timestamp)
  | .sell, a, b => a.price < b.price || (a.price = b.price && a.timestamp ≤ b.timestamp)

def sortBids (bids : List Order) : List Order := bids.mergeSort (sortLe .buy)

def sortAsks (asks : List Order) : List Order := asks.mergeSort (sortLe .sell)

/-- The side a taker is matched against. -/
def against (b : OrderBook) : Side → List Order
  | .buy => b.asks
  | .sell => b.bids

def setAgainst (b : OrderBook) (side : Side) (book : List Order) : OrderBook :=
  match side with
  | .buy => { b with asks := book }
  | .sell => { b with bids := book }

/-- The end of `match_limit` and `match_market`. -/
def matched (b : OrderBook) (r : Matched) : OrderBook × Order × List Trade :=
  let taker :=
    if r.taker.remaining ≤ epsilon then { r.taker with status := .filled } else r.taker
  let b := b.setAgainst r.taker.side r.book
  ({ b with allOrders := r.allOrders, trades := b.trades ++ r.fills }, taker, r.fills)

def matchLimit (b : OrderBook) (taker : Order) : OrderBook × Order × List Trade :=
  b.matched (limitLoop taker [] (b.against taker.side) b.allOrders)

def matchMarket (b : OrderBook) (taker : Order) : OrderBook × Order × List Trade :=
  b.matched (marketLoop taker (b.against taker.side) b.allOrders)

def matchOrder (b : OrderBook) (order : Order) : OrderBook × Order × List Trade :=
  match order.orderType with
  | .market => b.matchMarket order
  | .limit => b.matchLimit order

/-- The order joins its side of the book. -/
def rest (b : OrderBook) (order : Order) : OrderBook :=
  match order.side with
  | .buy => { b with bids := sortBids (b.bids ++ [order]) }
  | .sell => { b with asks := sortAsks (b.asks ++ [order]) }

def addOrder (b : OrderBook) (order : Order) : OrderBook × List Trade :=
  let (b, order, fills) := b.matchOrder order
  let (b, order) :=
    if epsilon < order.remaining ∧ order.orderType = .limit then
      let order := if 0 < order.filled then { order with status := .partialFill } else order
      (b.rest order, order)
    else (b, order)
  ({ b with allOrders := b.allOrders.insert order.id order }, fills)

def cancelOrder (b : OrderBook) (orderId owner : String) : OrderBook × Bool :=
  match b.allOrders.lookup orderId with
  | none => (b, false)
  | some order =>
    if order.status = .filled ∨ order.status = .cancelled then (b, false)
    else if owner ≠ "" ∧ order.address ≠ owner then (b, false)
    else
      ({ b with
          bids := b.bids.filter fun o => o.id ≠ orderId
          asks := b.asks.filter fun o => o.id ≠ orderId
          allOrders := b.allOrders.update orderId fun o => { o with status := .cancelled } },
        true)

end OrderBook

/-- The order that the service builds from a request. -/
def Order.new (id pair : String) (side : Side) (orderType : OrderType) (price size : ℚ)
    (address : String) (timestamp : ℕ) : Order where
  id := id
  pair := pair
  side := side
  orderType := orderType
  price := price
  size := size
  filled := 0
  address := address
  timestamp := timestamp
  status := .opened

inductive BookOp
  | addOrder (id pair : String) (side : Side) (orderType : OrderType) (price size : ℚ)
    (address : String) (timestamp : ℕ)
  | cancelOrder (orderId owner : String)

namespace BookOp

def added : BookOp → Option Order
  | .addOrder id pair side orderType price size address timestamp =>
    some (.new id pair side orderType price size address timestamp)
  | .cancelOrder _ _ => none

def apply (b : OrderBook) : BookOp → OrderBook
  | .addOrder id pair side orderType price size address timestamp =>
    (b.addOrder (.new id pair side orderType price size address timestamp)).1
  | .cancelOrder orderId owner => (b.cancelOrder orderId owner).1

end BookOp

end Qubitcoin.QbcExchange
