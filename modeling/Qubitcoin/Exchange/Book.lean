import Qubitcoin.Library.Commands
import Qubitcoin.Library.Decimal
import Qubitcoin.Library.StorageMap

/-! `OrderBook` of `qubitcoin/exchange/engine.py`: a book of one pair that matches by price
and time. -/

namespace Qubitcoin.Exchange

/-- The precision of the decimal context. -/
def prec : ℕ := 28

inductive Side
  | buy
  | sell
  deriving DecidableEq

inductive OrderType
  | limit
  | market
  deriving DecidableEq

inductive OrderStatus
  | opened
  | partialFill
  | filled
  | cancelled
  deriving DecidableEq

/-- The number `n` in the identifier `ord-{n:08d}`. -/
abbrev OrderId := ℕ

structure Order where
  id : OrderId
  pair : String
  side : Side
  orderType : OrderType
  price : Decimal
  size : Decimal
  filled : Decimal
  address : String
  timestamp : ℚ
  status : OrderStatus
  deriving DecidableEq

inductive Error
  | signal (signal : Decimal.Signal)
  | amountNotPositive
  | insufficientOnChain (onChain amount : Decimal)
  | databaseError
  | insufficientExchangeBalance (available need : Decimal)
  | onChainTransferFailed
  | unknownPair (pair : String)
  | invalidSide (side : String)
  | invalidOrderType (orderType : String)
  | minOrderSize (minOrder : Decimal) (base : String)
  | insufficient (asset : String) (available need : Decimal)
  | unknownOrder (id : OrderId)
  /-- The loop is still running. -/
  | diverges
  deriving DecidableEq

def Side.parse : String → Except Error Side
  | "buy" => .ok .buy
  | "sell" => .ok .sell
  | side => .error (.invalidSide side)

def OrderType.parse : String → Except Error OrderType
  | "limit" => .ok .limit
  | "market" => .ok .market
  | orderType => .error (.invalidOrderType orderType)

def Order.remaining (o : Order) : Except Decimal.Signal Decimal := Decimal.sub prec o.size o.filled

structure Trade where
  pair : String
  price : Decimal
  size : Decimal
  side : Side
  makerOrderId : OrderId
  takerOrderId : OrderId
  deriving DecidableEq

structure MarketConfig where
  pair : String
  base : String
  quote : String
  minOrder : Decimal
  deriving DecidableEq

/-- The lists refer to the orders of `allOrders`. -/
structure OrderBook where
  config : MarketConfig
  bids : List OrderId
  asks : List OrderId
  allOrders : StorageMap OrderId Order

def ofSignal {σ α : Type} : Except Decimal.Signal α → Command Error σ α
  | .ok a => pure a
  | .error signal => throw (.signal signal)

def ofExcept {σ α : Type} : Except Error α → Command Error σ α
  | .ok a => pure a
  | .error e => throw e

namespace OrderBook

def new (config : MarketConfig) : OrderBook where
  config := config
  bids := []
  asks := []
  allOrders := ∅

/-- The side a taker is matched against. -/
def against (b : OrderBook) : Side → List OrderId
  | .buy => b.asks
  | .sell => b.bids

def setAgainst (b : OrderBook) (side : Side) (ids : List OrderId) : OrderBook :=
  match side with
  | .buy => { b with asks := ids }
  | .sell => { b with bids := ids }

def putOrder (b : OrderBook) (o : Order) : OrderBook :=
  { b with allOrders := b.allOrders.insert o.id o }

def getOrder (id : OrderId) : Command Error OrderBook Order := do
  match (← get).allOrders.lookup id with
  | some o => return o
  | none => throw (.unknownOrder id)

/-- The price of `maker` is beyond the limit of `taker`. -/
def priceCheck (taker maker : Order) : Except Decimal.Signal Bool :=
  match taker.side with
  | .buy => Decimal.lt? taker.price maker.price
  | .sell => Decimal.lt? maker.price taker.price

/-- The trade between the two orders; both are filled by its size. -/
def fill (taker maker : Order) : Command Error OrderBook (Order × Order × Trade) := do
  let fillSize ← ofSignal (Decimal.min? (← ofSignal taker.remaining) (← ofSignal maker.remaining))
  let taker' := { taker with filled := ← ofSignal (Decimal.add prec taker.filled fillSize) }
  modify (putOrder · taker')
  let maker' := { maker with filled := ← ofSignal (Decimal.add prec maker.filled fillSize) }
  modify (putOrder · maker')
  let trade : Trade :=
    { pair := taker.pair
      price := maker.price
      size := fillSize
      side := taker.side
      makerOrderId := maker.id
      takerOrderId := taker.id }
  return (taker', maker', trade)

/-- The loops of `_match_limit` and `_match_market`: the first looks at the price and goes on
behind an order that keeps a rest, the second always takes the first order. -/
def matchLoop (limit : Bool) : ℕ → OrderId → ℕ → Command Error OrderBook (List Trade)
  | 0, _, _ => throw .diverges
  | fuel + 1, takerId, i => do
    let taker ← getOrder takerId
    match ((← get).against taker.side)[i]? with
    | none => return []
    | some makerId =>
      if !(← ofSignal (Decimal.lt? 0 (← ofSignal taker.remaining))) then
        return []
      let maker ← getOrder makerId
      if limit then
        if ← ofSignal (priceCheck taker maker) then
          return []
      let (_, maker, trade) ← fill taker maker
      if ← ofSignal (Decimal.le? (← ofSignal maker.remaining) 0) then
        modify fun b : OrderBook => b.putOrder { maker with status := .filled }
        modify fun b : OrderBook => b.setAgainst taker.side ((b.against taker.side).eraseIdx i)
        return trade :: (← matchLoop limit fuel takerId i)
      else
        modify fun b : OrderBook => b.putOrder { maker with status := .partialFill }
        return trade :: (← matchLoop limit fuel takerId (if limit then i + 1 else i))

/-- `_match_limit` and `_match_market`. -/
def matchOrder (fuel : ℕ) (takerId : OrderId) (limit : Bool) :
    Command Error OrderBook (List Trade) := do
  let fills ← matchLoop limit fuel takerId 0
  let taker ← getOrder takerId
  if ← ofSignal (Decimal.le? (← ofSignal taker.remaining) 0) then
    modify fun b : OrderBook => b.putOrder { taker with status := .filled }
  return fills

/-- The keys by which the two sides are sorted. -/
def sortKey (side : Side) (o : Order) : Decimal × ℚ :=
  match side with
  | .buy => (.neg prec o.price, o.timestamp)
  | .sell => (o.price, o.timestamp)

def keyLe (k k' : Decimal × ℚ) : Bool :=
  if k.1 = k'.1 then decide (k.2 ≤ k'.2) else decide (k.1 < k'.1)

/-- A sort compares each of two or more elements, so a price that is not a number makes it
raise. -/
def sortSide (side : Side) : Command Error OrderBook Unit := do
  let b ← get
  let orders := (match side with | .buy => b.bids | .sell => b.asks).filterMap b.allOrders.lookup
  if 1 < orders.length ∧ ∃ o ∈ orders, o.price = .nan then
    throw (.signal .invalidOperation)
  let sorted := (orders.mergeSort fun o o' => keyLe (sortKey side o) (sortKey side o')).map Order.id
  match side with
  | .buy => set { b with bids := sorted }
  | .sell => set { b with asks := sorted }

def addOrder (fuel : ℕ) (order : Order) : Command Error OrderBook (List Trade) := do
  modify (putOrder · order)
  let fills ← matchOrder fuel order.id (order.orderType = .limit)
  let order ← getOrder order.id
  if (← ofSignal (Decimal.lt? 0 (← ofSignal order.remaining))) && order.orderType = .limit then
    match order.side with
    | .buy => modify fun b => { b with bids := b.bids ++ [order.id] }
    | .sell => modify fun b => { b with asks := b.asks ++ [order.id] }
    sortSide order.side
    if ← ofSignal (Decimal.lt? 0 order.filled) then
      modify (putOrder · { order with status := .partialFill })
  return fills

def cancelOrder (orderId : OrderId) (ownerAddress : String) : Command Error OrderBook Bool := do
  let b ← get
  match b.allOrders.lookup orderId with
  | none => return false
  | some order =>
    if order.status = .filled ∨ order.status = .cancelled then
      return false
    if ownerAddress ≠ "" ∧ order.address ≠ ownerAddress then
      return false
    set
      { b.putOrder { order with status := .cancelled } with
        bids := b.bids.filter (· ≠ orderId)
        asks := b.asks.filter (· ≠ orderId) }
    return true

end OrderBook

end Qubitcoin.Exchange
