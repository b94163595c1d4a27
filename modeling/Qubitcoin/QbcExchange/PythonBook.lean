import Qubitcoin.QbcExchange.OrderBook

/-! `OrderBook` of `qubitcoin/exchange/engine.py`, read in rational arithmetic.  Orders are
objects, which the two sides of the book and `_all_orders` share. -/

namespace Qubitcoin.QbcExchange.Python

/-- The number of an object, in the order of their creation. -/
abbrev Ref := ℕ

abbrev Heap := Ref → Order

structure OrderBook where
  objects : Heap
  created : Ref
  bids : List Ref
  asks : List Ref
  trades : List Trade
  allOrders : StorageMap String Ref

/-- What a matching loop leaves. -/
structure Matched where
  taker : Order
  book : List Ref
  objects : Heap
  fills : List Trade

def Matched.addFill (r : Matched) (trade : Trade) : Matched := { r with fills := trade :: r.fills }

/-- The loop of `_match_limit` at an index: `front` is the book before it.  No list refers to the
taker, which is kept apart until the loop ends. -/
def limitLoop (taker : Order) (front : List Ref) : List Ref → Heap → Matched
  | [], objects => ⟨taker, front, objects, []⟩
  | ref :: rest, objects =>
    let maker := objects ref
    if 0 < taker.remaining ∧ ¬priceCheck taker maker then
      let fillSize := min taker.remaining maker.remaining
      let maker' := maker.fill fillSize
      let result :=
        if maker'.remaining ≤ 0 then
          limitLoop (taker.fill fillSize) front rest
            (Function.update objects ref { maker' with status := .filled })
        else
          limitLoop (taker.fill fillSize) (front ++ [ref]) rest
            (Function.update objects ref { maker' with status := .partialFill })
      result.addFill (trade taker maker fillSize)
    else ⟨taker, front ++ ref :: rest, objects, []⟩

/-- A maker that keeps a rest has taken all of the taker. -/
theorem remaining_fill_eq_zero {taker maker : Order}
    (h : ¬(maker.fill (min taker.remaining maker.remaining)).remaining ≤ 0) :
    (taker.fill (min taker.remaining maker.remaining)).remaining = 0 := by
  rw [remaining_fill] at h ⊢
  cases min_cases taker.remaining maker.remaining with
  | inl hmin => rw [hmin.1, sub_self]
  | inr hmin =>
    rw [hmin.1, sub_self] at h
    exact absurd (le_refl 0) h

/-- The loop of `_match_market`, always at the first order of the book. -/
def marketLoop (taker : Order) (book : List Ref) (objects : Heap) : Matched :=
  match book with
  | [] => ⟨taker, [], objects, []⟩
  | ref :: rest =>
    let maker := objects ref
    if 0 < taker.remaining then
      let fillSize := min taker.remaining maker.remaining
      let maker' := maker.fill fillSize
      let result :=
        if maker'.remaining ≤ 0 then
          marketLoop (taker.fill fillSize) rest
            (Function.update objects ref { maker' with status := .filled })
        else
          marketLoop (taker.fill fillSize) (ref :: rest)
            (Function.update objects ref { maker' with status := .partialFill })
      result.addFill (trade taker maker fillSize)
    else ⟨taker, ref :: rest, objects, []⟩
termination_by (book.length, if 0 < taker.remaining then 1 else 0)
decreasing_by
  · exact Prod.Lex.left _ _ (Nat.lt_succ_self _)
  · next hmore hrest =>
    apply Prod.Lex.right
    rw [if_pos hmore, remaining_fill_eq_zero hrest, if_neg (lt_irrefl 0)]
    exact Nat.zero_lt_one

namespace OrderBook

def new : OrderBook where
  objects _ := .new "" "" .buy .limit 0 0 "" 0
  created := 0
  bids := []
  asks := []
  trades := []
  allOrders := ∅

/-- The side a taker is matched against. -/
def against (b : OrderBook) : Side → List Ref
  | .buy => b.asks
  | .sell => b.bids

def setAgainst (b : OrderBook) (side : Side) (book : List Ref) : OrderBook :=
  match side with
  | .buy => { b with asks := book }
  | .sell => { b with bids := book }

/-- The keys `(-o.price, o.timestamp)` and `(o.price, o.timestamp)`. -/
def sortKey : Side → Order → ℚ × ℕ
  | .buy, o => (-o.price, o.timestamp)
  | .sell, o => (o.price, o.timestamp)

/-- The order of tuples. -/
def keyLe (k k' : ℚ × ℕ) : Bool := k.1 < k'.1 || (k.1 = k'.1 && k.2 ≤ k'.2)

def sortRefs (side : Side) (objects : Heap) (refs : List Ref) : List Ref :=
  refs.mergeSort fun r r' => keyLe (sortKey side (objects r)) (sortKey side (objects r'))

/-- The end of `_match_limit` and `_match_market`. -/
def matched (b : OrderBook) (ref : Ref) (r : Matched) : OrderBook × List Trade :=
  let taker := if r.taker.remaining ≤ 0 then { r.taker with status := .filled } else r.taker
  let b := b.setAgainst r.taker.side r.book
  ({ b with objects := Function.update r.objects ref taker, trades := b.trades ++ r.fills },
    r.fills)

def matchLimit (b : OrderBook) (ref : Ref) (taker : Order) : OrderBook × List Trade :=
  b.matched ref (limitLoop taker [] (b.against taker.side) b.objects)

def matchMarket (b : OrderBook) (ref : Ref) (taker : Order) : OrderBook × List Trade :=
  b.matched ref (marketLoop taker (b.against taker.side) b.objects)

def matchOrder (b : OrderBook) (ref : Ref) (order : Order) : OrderBook × List Trade :=
  match order.orderType with
  | .market => b.matchMarket ref order
  | .limit => b.matchLimit ref order

/-- The order joins its side of the book. -/
def rest (b : OrderBook) (ref : Ref) (order : Order) : OrderBook :=
  match order.side with
  | .buy => { b with bids := sortRefs .buy b.objects (b.bids ++ [ref]) }
  | .sell => { b with asks := sortRefs .sell b.objects (b.asks ++ [ref]) }

def addOrder (b : OrderBook) (order : Order) : OrderBook × List Trade :=
  let ref := b.created
  let b :=
    { b with
      created := ref + 1
      objects := Function.update b.objects ref order
      allOrders := b.allOrders.insert order.id ref }
  let (b, fills) := b.matchOrder ref order
  let order := b.objects ref
  if 0 < order.remaining ∧ order.orderType = .limit then
    let b := b.rest ref order
    if 0 < order.filled then
      ({ b with objects := Function.update b.objects ref { order with status := .partialFill } },
        fills)
    else (b, fills)
  else (b, fills)

def cancelOrder (b : OrderBook) (orderId ownerAddress : String) : OrderBook × Bool :=
  match b.allOrders.lookup orderId with
  | none => (b, false)
  | some ref =>
    let order := b.objects ref
    if order.status = .filled ∨ order.status = .cancelled then (b, false)
    else if ownerAddress ≠ "" ∧ order.address ≠ ownerAddress then (b, false)
    else
      let objects := Function.update b.objects ref { order with status := .cancelled }
      ({ b with
          objects := objects
          bids := b.bids.filter fun r => (objects r).id ≠ orderId
          asks := b.asks.filter fun r => (objects r).id ≠ orderId },
        true)

end OrderBook

end Qubitcoin.QbcExchange.Python
