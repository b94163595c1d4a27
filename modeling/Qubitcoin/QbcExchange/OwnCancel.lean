import Qubitcoin.QbcExchange.PriceTime

/-! `place_order` and `cancel_order` of `qbc-exchange/src/service.rs`.  Fills are not settled
here, and no other part of the service is modelled. -/

namespace Qubitcoin.QbcExchange

/-- The tick size and the fees are never read. -/
structure MarketConfig where
  pair : String
  base : String
  quote : String
  minOrder : ℚ

/-- A book with the fields that the matching does not use. -/
structure Market where
  config : MarketConfig
  book : OrderBook
  orderCounter : BitVec 64

/-- `ord-{:08}`. -/
def formatOrderId (n : ℕ) : String :=
  "ord-" ++ String.ofList (List.leftpad 8 '0' (Nat.toDigits 10 n))

namespace Market

def new (config : MarketConfig) : Market where
  config := config
  book := .new
  orderCounter := 0

/-- A counter at its end starts again, as the release profile does not check for overflow. -/
def nextOrderId (m : Market) : Market × String :=
  ({ m with orderCounter := m.orderCounter + 1 }, formatOrderId (m.orderCounter + 1).toNat)

end Market

structure ExchangeState where
  books : StorageMap String Market
  balances : StorageMap (String × String) ℚ

/-- The first `-` of a pair without `/` is taken for `/`. -/
def normalizePair (pair : String) : String :=
  if '/' ∉ pair.toList ∧ '-' ∈ pair.toList then
    String.ofList (pair.toList.takeWhile (· ≠ '-') ++ '/' :: (pair.toList.dropWhile (· ≠ '-')).tail)
  else pair

def Side.ofRequest (side : Int) : Side := if side = 0 then .buy else .sell

def OrderType.ofRequest (orderType : Int) : OrderType := if orderType = 0 then .limit else .market

inductive PlaceResponse
  /-- "Unknown pair: {}" -/
  | unknownPair (pair : String)
  /-- "Min order size is {} {}" -/
  | minOrderSize (minOrder : ℚ) (base : String)
  /-- "Insufficient {}: have {}, need {}" -/
  | insufficient (asset : String) (available required : ℚ)
  | success (order : Order) (fills : List Trade)

namespace ExchangeState

/-- The asset that a limit order pays in, and how much of it. -/
def required (config : MarketConfig) (side : Side) (price size : ℚ) : String × ℚ :=
  match side with
  | .buy => (config.quote, price * size)
  | .sell => (config.base, size)

def placeOrder (s : ExchangeState) (pair : String) (side orderType : Int) (price size : ℚ)
    (address : String) (now : ℕ) : ExchangeState × PlaceResponse :=
  let pair := normalizePair pair
  match s.books.lookup pair with
  | none => (s, .unknownPair pair)
  | some m =>
    let side := Side.ofRequest side
    let orderType := OrderType.ofRequest orderType
    if size < m.config.minOrder then (s, .minOrderSize m.config.minOrder m.config.base)
    else
      let need := required m.config side price size
      let available := s.balances.value 0 (address, need.1)
      if (address ≠ "" ∧ orderType = .limit) ∧ available < need.2 then
        (s, .insufficient need.1 available need.2)
      else
        let (m, orderId) := m.nextOrderId
        let order := Order.new orderId pair side orderType price size address now
        let (book, fills) := m.book.addOrder order
        let finalOrder := (book.allOrders.lookup order.id).getD order
        ({ s with books := s.books.insert pair { m with book := book } },
          .success finalOrder fills)

/-- The loop over the books, in the order in which the map yields them. -/
def scanBooks (orderId address : String) : List String → ExchangeState → ExchangeState × Bool
  | [], s => (s, false)
  | pair :: pairs, s =>
    match s.books.lookup pair with
    | none => scanBooks orderId address pairs s
    | some m =>
      let (book, found) := m.book.cancelOrder orderId address
      let s := { s with books := s.books.insert pair { m with book := book } }
      if found then (s, true) else scanBooks orderId address pairs s

/-- The pair that is given comes first; without a book of it, all books are tried. -/
def cancelOrder (s : ExchangeState) (pair orderId address : String) (scan : List String) :
    ExchangeState × Bool :=
  let pair := normalizePair pair
  match s.books.lookup pair with
  | some m =>
    let (book, success) := m.book.cancelOrder orderId address
    ({ s with books := s.books.insert pair { m with book := book } }, success)
  | none => scanBooks orderId address scan s

/-- A market for each pair and nothing ordered yet. -/
def start (configs : List (String × MarketConfig)) (balances : StorageMap (String × String) ℚ) :
    ExchangeState where
  books := configs.foldl (fun books c => books.insert c.1 (.new c.2)) ∅
  balances := balances

end ExchangeState

inductive Request
  | placeOrder (pair : String) (side orderType : Int) (price size : ℚ) (address : String) (now : ℕ)
  | cancelOrder (pair orderId address : String) (scan : List String)

def Request.apply (s : ExchangeState) : Request → ExchangeState
  | .placeOrder pair side orderType price size address now =>
    (s.placeOrder pair side orderType price size address now).1
  | .cancelOrder pair orderId address scan => (s.cancelOrder pair orderId address scan).1

end Qubitcoin.QbcExchange

/-! A cancellation takes one order, whose number its book has given out once. -/

namespace Qubitcoin.QbcExchange

theorem formatOrderId_injective : Function.Injective formatOrderId := by
  intro m n h
  have hchars : List.leftpad 8 '0' (Nat.toDigits 10 m) = List.leftpad 8 '0' (Nat.toDigits 10 n) := by
    have hlists := congrArg String.toList h
    simp only [formatOrderId, String.toList_append, String.toList_ofList] at hlists
    exact List.append_cancel_left hlists
  have hvalue (k : ℕ) : Nat.ofDigitChars 10 (List.leftpad 8 '0' (Nat.toDigits 10 k)) 0 = k := by
    rw [List.leftpad, Nat.ofDigitChars_append, Nat.ofDigitChars_replicate_zero, Nat.mul_zero,
      Nat.ofDigitChars_ten_toDigits]
  rw [← hvalue m, hchars, hvalue]

namespace OrderBook

/-- Resting orders have identifiers of their own and are on record with their addresses. -/
structure Consistent (b : OrderBook) : Prop where
  nodup : (b.resting.map Order.id).Nodup
  owned : ∀ o ∈ b.resting, (b.allOrders.lookup o.id).map Order.address = some o.address

variable {b : OrderBook} {order : Order}

theorem consistent_new : Consistent .new where
  nodup := .nil
  owned _ ho := absurd ho List.not_mem_nil

theorem addOrder_address (b : OrderBook) (order : Order) (id : String) :
    ((b.addOrder order).1.allOrders.lookup id).map Order.address =
      if id = order.id then some order.address else (b.allOrders.lookup id).map Order.address := by
  obtain ⟨taker, hadded⟩ := addOrder_added (b.matchOrder_eq order)
  obtain ⟨filled, status, hsame⟩ := hadded.ticket
  rw [hadded.record, StorageMap.lookup_insert_eq, hsame]
  split
  · rfl
  · exact map_lookup_swept Order.address (fun _ _ _ => rfl) b order id

theorem addOrder_consistent (h : b.Consistent) (hfresh : b.allOrders.lookup order.id = none) :
    (b.addOrder order).1.Consistent := by
  obtain ⟨taker, hadded⟩ := addOrder_added (b.matchOrder_eq order)
  obtain ⟨filled, status, hsame⟩ := hadded.ticket
  have htaker : taker.id = order.id ∧ taker.address = order.address := by
    rw [hsame]
    exact ⟨rfl, rfl⟩
  have hids : ((b.matched (b.swept order)).1.resting.map Order.id).Sublist
      (b.resting.map Order.id) := by
    have htickets : ((b.matched (b.swept order)).1.resting.map Order.ticket).Sublist
        (b.resting.map Order.ticket) := tickets_matched b order
    have hids := htickets.map Order.id
    rw [List.map_map, List.map_map] at hids
    exact hids
  have hnew : order.id ∉ b.resting.map Order.id := by
    intro hmem
    obtain ⟨o, ho, heq⟩ := List.mem_map.mp hmem
    have howned := h.owned o ho
    rw [heq, hfresh] at howned
    cases howned
  constructor
  · cases hadded.resting with
    | inl hperm => exact (hperm.map Order.id).nodup_iff.mpr (h.nodup.sublist hids)
    | inr hperm =>
      rw [(hperm.map Order.id).nodup_iff, List.map_cons, List.nodup_cons, htaker.1]
      exact ⟨fun hmem => hnew (hids.subset hmem), h.nodup.sublist hids⟩
  · intro o ho
    rw [addOrder_address]
    cases hadded.mem ho with
    | inl heq => rw [heq, if_pos htaker.1, htaker.2]
    | inr ho =>
      obtain ⟨o', ho', hticket⟩ := ticket_matched b order ho
      have hid : o'.id = o.id := (congrArg Order.id hticket : o'.ticket.id = o.ticket.id)
      have haddress : o'.address = o.address :=
        (congrArg Order.address hticket : o'.ticket.address = o.ticket.address)
      rw [← hid, ← haddress, if_neg]
      · exact h.owned o' ho'
      · intro heq
        exact hnew (heq ▸ List.mem_map_of_mem ho')

/-- What a cancellation that succeeds has done to its book. -/
structure Cancels (b after : OrderBook) (orderId owner : String) (stored : Order) : Prop where
  found : b.allOrders.lookup orderId = some stored
  live : stored.status ≠ .filled ∧ stored.status ≠ .cancelled
  address : owner ≠ "" → stored.address = owner
  record : ∀ id, after.allOrders.lookup id =
    if id = orderId then some { stored with status := .cancelled } else b.allOrders.lookup id
  resting : after.resting = b.resting.filter fun o => o.id ≠ orderId

/-- The order of the number, if it is open and, unless no owner is given, the owner's. -/
def cancellable (b : OrderBook) (orderId owner : String) : Option Order :=
  (b.allOrders.lookup orderId).filter fun stored =>
    (stored.status ≠ .filled ∧ stored.status ≠ .cancelled) ∧
      (owner ≠ "" → stored.address = owner)

theorem cancelOrder_cancels (b : OrderBook) (orderId owner : String) :
    match b.cancellable orderId owner with
    | none => b.cancelOrder orderId owner = (b, false)
    | some stored => (b.cancelOrder orderId owner).2 = true ∧
        Cancels b (b.cancelOrder orderId owner).1 orderId owner stored := by
  unfold cancellable cancelOrder
  cases hstored : b.allOrders.lookup orderId with
  | none => rfl
  | some stored =>
    rw [Option.filter_some]
    by_cases hlive : stored.status = .filled ∨ stored.status = .cancelled
    · rw [if_neg]
      · exact if_pos hlive
      · rw [decide_eq_true_iff]
        exact fun h => (not_or.mpr h.1) hlive
    · by_cases howner : owner ≠ "" ∧ stored.address ≠ owner
      · rw [if_neg]
        · exact (if_neg hlive).trans (if_pos howner)
        · rw [decide_eq_true_iff]
          exact fun h => howner.2 (h.2 howner.1)
      · have haddress : owner ≠ "" → stored.address = owner := by
          intro hne
          by_contra hother
          exact howner ⟨hne, hother⟩
        rw [if_pos (decide_eq_true ⟨not_or.mp hlive, haddress⟩)]
        dsimp only
        rw [if_neg hlive, if_neg howner]
        refine ⟨rfl, hstored, not_or.mp hlive, haddress, ?_, ?_⟩
        · intro id
          rw [Orders.lookup_update, hstored]
          rfl
        · exact (List.filter_append b.bids b.asks).symm

theorem cancelOrder_consistent (h : b.Consistent) (orderId owner : String) :
    (b.cancelOrder orderId owner).1.Consistent := by
  have hcancel := cancelOrder_cancels b orderId owner
  split at hcancel
  · rw [hcancel]
    exact h
  · obtain ⟨-, hcancel⟩ := hcancel
    constructor
    · rw [hcancel.resting]
      exact h.nodup.sublist (List.filter_sublist.map Order.id)
    · intro o ho
      rw [hcancel.resting, List.mem_filter, decide_eq_true_iff] at ho
      rw [hcancel.record, if_neg ho.2]
      exact h.owned o ho.1

theorem cancelOrder_address (b : OrderBook) (orderId owner id : String) :
    ((b.cancelOrder orderId owner).1.allOrders.lookup id).map Order.address =
      (b.allOrders.lookup id).map Order.address := by
  have hcancel := cancelOrder_cancels b orderId owner
  split at hcancel
  · rw [hcancel]
  · obtain ⟨-, hcancel⟩ := hcancel
    rw [hcancel.record]
    split
    · rename_i heq
      rw [heq, hcancel.found]
      rfl
    · rfl

end OrderBook

/-! ## Orders that are placed -/

theorem toNat_succ {c : BitVec 64} (h : c ≠ BitVec.allOnes 64) : (c + 1).toNat = c.toNat + 1 := by
  have hne : c.toNat ≠ 2 ^ 64 - 1 := by
    intro heq
    apply h
    apply BitVec.eq_of_toNat_eq
    rw [BitVec.toNat_allOnes, heq]
  have hlt := c.isLt
  rw [BitVec.toNat_add]
  exact Nat.mod_eq_of_lt (by change c.toNat + 1 < 2 ^ 64; omega)

/-- An order as it is returned to the one who placed it. -/
structure Placed where
  pair : String
  orderId : String
  address : String
  deriving DecidableEq

def Request.placed (s : ExchangeState) : Request → List Placed
  | .placeOrder pair side orderType price size address now =>
    match (s.placeOrder pair side orderType price size address now).2 with
    | .success order _ => [⟨normalizePair pair, order.id, address⟩]
    | _ => []
  | .cancelOrder _ _ _ _ => []

namespace ExchangeState

variable {s : ExchangeState} {pair orderId address owner : String} {m : Market}

/-- The market after an order has been placed. -/
def placedIn (m : Market) (order : Order) : Market :=
  { m with book := (m.book.addOrder order).1, orderCounter := m.orderCounter + 1 }

theorem id_of_addOrder (b : OrderBook) (order : Order) :
    (((b.addOrder order).1.allOrders.lookup order.id).getD order).id = order.id := by
  obtain ⟨taker, hadded⟩ := OrderBook.addOrder_added (b.matchOrder_eq order)
  obtain ⟨filled, status, hsame⟩ := hadded.ticket
  have hid : taker.id = order.id := by rw [hsame]
  rw [hadded.record, hid, Finmap.lookup_insert]
  exact hid

theorem placeOrder_spec (s : ExchangeState) (pair : String) (side orderType : Int) (price size : ℚ)
    (address : String) (now : ℕ) :
    ((s.placeOrder pair side orderType price size address now).1 = s ∧
      Request.placed s (.placeOrder pair side orderType price size address now) = []) ∨
    ∃ m order, s.books.lookup (normalizePair pair) = some m ∧
      order.id = formatOrderId (m.orderCounter + 1).toNat ∧ order.address = address ∧
      (s.placeOrder pair side orderType price size address now).1 =
        { s with books := s.books.insert (normalizePair pair) (placedIn m order) } ∧
      Request.placed s (.placeOrder pair side orderType price size address now) =
        [⟨normalizePair pair, order.id, address⟩] := by
  unfold Request.placed
  dsimp only
  unfold placeOrder
  dsimp only
  cases hm : s.books.lookup (normalizePair pair) with
  | none => exact .inl ⟨rfl, rfl⟩
  | some m =>
    dsimp only
    split
    · exact .inl ⟨rfl, rfl⟩
    · split
      · exact .inl ⟨rfl, rfl⟩
      · right
        refine ⟨m, _, rfl, rfl, rfl, rfl, ?_⟩
        dsimp only
        rw [id_of_addOrder]

/-- Every order on record has been placed, with its address, and no number given out twice. -/
structure Placement (s : ExchangeState) (placed : List Placed) : Prop where
  consistent : ∀ pair m, s.books.lookup pair = some m → m.book.Consistent
  recorded : ∀ pair m id address, s.books.lookup pair = some m →
    (m.book.allOrders.lookup id).map Order.address = some address → ⟨pair, id, address⟩ ∈ placed
  numbered : ∀ p ∈ placed, ∃ m, s.books.lookup p.pair = some m ∧
    ∃ n, n ≤ m.orderCounter.toNat ∧ p.orderId = formatOrderId n
  once : (placed.map fun p => (p.pair, p.orderId)).Nodup

variable {placed : List Placed} {order : Order}

theorem placement_start (configs : List (String × MarketConfig))
    (balances : StorageMap (String × String) ℚ) : Placement (start configs balances) [] := by
  have hnew : ∀ pair m, (start configs balances).books.lookup pair = some m →
      m.book = .new := by
    unfold start
    dsimp only
    induction configs using List.reverseRecOn with
    | nil =>
      intro pair m hm
      cases hm
    | append_singleton configs config ih =>
      intro pair m hm
      rw [List.foldl_append, List.foldl_cons, List.foldl_nil, StorageMap.lookup_insert_eq] at hm
      split at hm
      · cases hm
        rfl
      · exact ih pair m hm
  constructor
  · intro pair m hm
    rw [hnew pair m hm]
    exact OrderBook.consistent_new
  · intro pair m id address hm haddress
    rw [hnew pair m hm] at haddress
    cases haddress
  · intro p hp
    cases hp
  · exact .nil

/-- The number that comes next has not been given out. -/
theorem Placement.fresh (h : Placement s placed) (hm : s.books.lookup pair = some m)
    (hfits : m.orderCounter ≠ BitVec.allOnes 64) (address : String) :
    ⟨pair, formatOrderId (m.orderCounter + 1).toNat, address⟩ ∉ placed := by
  intro hmem
  obtain ⟨m', hm', n, hn, hid⟩ := h.numbered _ hmem
  have hsame : m' = m := Option.some.inj (hm'.symm.trans hm)
  have hnext := toNat_succ hfits
  rw [hsame] at hn
  rw [← formatOrderId_injective hid, hnext] at hn
  exact absurd hn (Nat.not_succ_le_self _)

theorem Placement.place (h : Placement s placed) (hm : s.books.lookup pair = some m)
    (hfits : m.orderCounter ≠ BitVec.allOnes 64)
    (hid : order.id = formatOrderId (m.orderCounter + 1).toNat) :
    Placement { s with books := s.books.insert pair (placedIn m order) }
      (placed ++ [⟨pair, order.id, order.address⟩]) := by
  have hfresh := h.fresh hm hfits
  rw [← hid] at hfresh
  have hrecord : m.book.allOrders.lookup order.id = none := by
    rw [Option.eq_none_iff_forall_not_mem]
    intro stored hstored
    exact hfresh stored.address (h.recorded pair m order.id stored.address hm
      (congrArg (Option.map Order.address) hstored))
  constructor
  · intro pair' m' hm'
    rw [StorageMap.lookup_insert_eq] at hm'
    split at hm'
    · cases hm'
      exact OrderBook.addOrder_consistent (h.consistent pair m hm) hrecord
    · exact h.consistent pair' m' hm'
  · intro pair' m' id address hm' haddress
    rw [StorageMap.lookup_insert_eq] at hm'
    rw [List.mem_append]
    split at hm'
    · rename_i heq
      cases hm'
      change ((m.book.addOrder order).1.allOrders.lookup id).map Order.address = _ at haddress
      rw [OrderBook.addOrder_address] at haddress
      rw [heq]
      split at haddress
      · rename_i hsame
        cases haddress
        exact .inr (List.mem_singleton.mpr (by rw [hsame]))
      · exact .inl (h.recorded pair m id address hm haddress)
    · exact .inl (h.recorded pair' m' id address hm' haddress)
  · intro p hp
    rw [StorageMap.lookup_insert_eq]
    cases List.mem_append.mp hp with
    | inl hp =>
      obtain ⟨m', hm', n, hn, hnumber⟩ := h.numbered p hp
      split
      · rename_i heq
        rw [heq, hm] at hm'
        cases hm'
        refine ⟨_, rfl, n, ?_, hnumber⟩
        rw [placedIn, toNat_succ hfits]
        exact hn.trans (Nat.le_succ _)
      · exact ⟨m', hm', n, hn, hnumber⟩
    | inr hp =>
      rw [List.mem_singleton.mp hp, if_pos rfl]
      exact ⟨_, rfl, _, le_refl _, hid⟩
  · rw [List.map_append, List.nodup_append']
    refine ⟨h.once, List.nodup_singleton _, ?_⟩
    intro key hold hnew
    obtain ⟨p, hp, rfl⟩ := List.mem_map.mp hold
    have hkey : (p.pair, p.orderId) = (pair, order.id) := List.mem_singleton.mp hnew
    apply hfresh p.address
    rw [← (Prod.mk.inj hkey).1, ← (Prod.mk.inj hkey).2]
    exact hp

theorem Placement.update (h : Placement s placed) (hm : s.books.lookup pair = some m)
    {book : OrderBook} (hbook : book.Consistent)
    (hsame : ∀ id, (book.allOrders.lookup id).map Order.address =
      (m.book.allOrders.lookup id).map Order.address) :
    Placement { s with books := s.books.insert pair { m with book := book } } placed where
  consistent pair' m' hm' := by
    rw [StorageMap.lookup_insert_eq] at hm'
    split at hm'
    · cases hm'
      exact hbook
    · exact h.consistent pair' m' hm'
  recorded pair' m' id address hm' haddress := by
    rw [StorageMap.lookup_insert_eq] at hm'
    split at hm'
    · rename_i heq
      cases hm'
      rw [hsame] at haddress
      rw [heq]
      exact h.recorded pair m id address hm haddress
    · exact h.recorded pair' m' id address hm' haddress
  numbered p hp := by
    obtain ⟨m', hm', n, hn, hnumber⟩ := h.numbered p hp
    rw [StorageMap.lookup_insert_eq]
    split
    · rename_i heq
      rw [heq, hm] at hm'
      cases hm'
      exact ⟨_, rfl, n, hn, hnumber⟩
    · exact ⟨m', hm', n, hn, hnumber⟩
  once := h.once

/-! ## Cancellations -/

/-- The market after a cancellation in its book. -/
def cancelledIn (m : Market) (orderId owner : String) : Market :=
  { m with book := (m.book.cancelOrder orderId owner).1 }

/-- The books that a cancellation tries. -/
def candidates (s : ExchangeState) (pair : String) (scan : List String) : List String :=
  if (s.books.lookup (normalizePair pair)).isSome then [normalizePair pair] else scan

theorem cancelOrder_eq (s : ExchangeState) (pair orderId owner : String) (scan : List String) :
    s.cancelOrder pair orderId owner scan = scanBooks orderId owner (s.candidates pair scan) s := by
  unfold cancelOrder candidates
  dsimp only
  cases hm : s.books.lookup (normalizePair pair) with
  | none => rfl
  | some m =>
    dsimp only [Option.isSome_some]
    rw [if_pos rfl, scanBooks, hm]
    dsimp only
    cases (m.book.cancelOrder orderId owner).2 <;> rfl

/-- The first order that a cancellation finds. -/
def hit (s : ExchangeState) (orderId owner : String) (pairs : List String) :
    Option (String × Order) :=
  pairs.findSome? fun pair =>
    (s.books.lookup pair).bind fun m => (m.book.cancellable orderId owner).map (pair, ·)

theorem insert_same {books : StorageMap String Market} (hm : books.lookup pair = some m) :
    books.insert pair m = books := by
  apply Finmap.ext_lookup
  intro pair'
  rw [StorageMap.lookup_insert_eq]
  split
  · rename_i heq
    rw [heq, hm]
  · rfl

theorem scanBooks_spec (s : ExchangeState) (orderId owner : String) (pairs : List String) :
    match s.hit orderId owner pairs with
    | none => scanBooks orderId owner pairs s = (s, false)
    | some (pair, stored) => ∃ m, s.books.lookup pair = some m ∧
        OrderBook.Cancels m.book (m.book.cancelOrder orderId owner).1 orderId owner stored ∧
        scanBooks orderId owner pairs s =
          ({ s with books := s.books.insert pair (cancelledIn m orderId owner) }, true) := by
  induction pairs with
  | nil => rfl
  | cons pair pairs ih =>
    unfold hit at ih ⊢
    rw [List.findSome?_cons, scanBooks]
    cases hm : s.books.lookup pair with
    | none => exact ih
    | some m =>
      have hcancel := m.book.cancelOrder_cancels orderId owner
      rw [Option.bind_some]
      cases hfound : m.book.cancellable orderId owner with
      | none =>
        rw [hfound] at hcancel
        dsimp only [Option.map_none]
        rw [hcancel]
        dsimp only
        rw [insert_same hm]
        exact ih
      | some stored =>
        rw [hfound] at hcancel
        refine ⟨m, hm, hcancel.2, ?_⟩
        dsimp only
        rw [hcancel.1]
        rfl

theorem Placement.cancel (h : Placement s placed) (pair orderId owner : String)
    (scan : List String) : Placement (s.cancelOrder pair orderId owner scan).1 placed := by
  have hscan := s.scanBooks_spec orderId owner (s.candidates pair scan)
  rw [cancelOrder_eq]
  split at hscan
  · rw [hscan]
    exact h
  · obtain ⟨m, hm, -, hscan⟩ := hscan
    rw [hscan]
    exact h.update hm (OrderBook.cancelOrder_consistent (h.consistent _ m hm) orderId owner)
      (m.book.cancelOrder_address orderId owner)

end ExchangeState

/-! ## Runs -/

/-- The book of the pair has a number left for the order. -/
def Request.Fits (s : ExchangeState) : Request → Prop
  | .placeOrder pair _ _ _ _ _ _ => ∀ m ∈ s.books.lookup (normalizePair pair),
      m.orderCounter ≠ BitVec.allOnes 64
  | .cancelOrder _ _ _ _ => True

instance (s : ExchangeState) : ∀ r : Request, Decidable (r.Fits s)
  | .placeOrder _ _ _ _ _ _ _ => inferInstanceAs (Decidable (∀ _ ∈ _, _ ≠ _))
  | .cancelOrder _ _ _ _ => .isTrue trivial

namespace ExchangeState

variable {s : ExchangeState} {placed : List Placed}

theorem Placement.step (h : Placement s placed) (r : Request) (hfits : r.Fits s) :
    Placement (r.apply s) (placed ++ r.placed s) := by
  cases r with
  | placeOrder pair side orderType price size address now =>
    rcases s.placeOrder_spec pair side orderType price size address now with
      ⟨hsame, hplaced⟩ | ⟨m, order, hm, hid, haddress, hplace, hplaced⟩
    · rw [hplaced, List.append_nil, Request.apply, hsame]
      exact h
    · rw [hplaced, Request.apply, hplace, ← haddress]
      exact h.place hm (hfits m hm) hid
  | cancelOrder pair orderId owner scan =>
    rw [Request.placed, List.append_nil]
    exact h.cancel pair orderId owner scan

section Runs

variable (configs : List (String × MarketConfig)) (balances : StorageMap (String × String) ℚ)

def after (requests : List Request) : ExchangeState :=
  Machine.run Request.apply (start configs balances) requests

/-- The orders that a run has returned. -/
def placedBy (requests : List Request) : List Placed :=
  Machine.history Request.apply Request.placed (start configs balances) requests

theorem placement_run (requests : List Request)
    (hfits : ∀ before r, before ++ [r] <+: requests → r.Fits (after configs balances before)) :
    Placement (after configs balances requests) (placedBy configs balances requests) := by
  induction requests using List.reverseRecOn with
  | nil => exact placement_start configs balances
  | append_singleton requests r ih =>
    have hbefore := ih fun before r' hle => hfits before r' (hle.trans (List.prefix_append _ _))
    unfold after placedBy at *
    rw [Machine.run_append, Machine.history_snoc]
    exact hbefore.step r (hfits requests r (List.prefix_refl _))

/-- One open order of the owner's is cancelled, which was returned under this number when the
owner placed it; nothing else changes. -/
def CancelsOwn (placed : List Placed) (s s' : ExchangeState) (orderId owner : String) : Prop :=
  ∃ pair m book stored, s.books.lookup pair = some m ∧
    s' = { s with books := s.books.insert pair { m with book := book } } ∧
    OrderBook.Cancels m.book book orderId owner stored ∧ stored.address = owner ∧
    ⟨pair, orderId, owner⟩ ∈ placed ∧
    (∀ p ∈ placed, p.pair = pair → p.orderId = orderId → p.address = owner) ∧
    (∀ o ∈ m.book.resting, o ∉ book.resting → o.id = orderId ∧ o.address = owner) ∧
    ∀ o ∈ m.book.resting, ∀ o' ∈ m.book.resting, o ∉ book.resting → o' ∉ book.resting → o = o'

end Runs

/-- The order that is found is the one order of its number. -/
theorem Placement.cancelsOwn {pair orderId owner : String} {m : Market} {book : OrderBook}
    {stored : Order} (h : Placement s placed) (hm : s.books.lookup pair = some m)
    (hcancels : OrderBook.Cancels m.book book orderId owner stored) (howner : stored.address = owner) :
    CancelsOwn placed s { s with books := s.books.insert pair { m with book := book } } orderId
      owner := by
  have hrecord : (m.book.allOrders.lookup orderId).map Order.address = some owner := by
    rw [hcancels.found, Option.map_some, howner]
  have hplaced := h.recorded pair m orderId owner hm hrecord
  have hbook := h.consistent pair m hm
  have hremoved : ∀ o ∈ m.book.resting, o ∉ book.resting → o.id = orderId := by
    intro o ho hgone
    by_contra hne
    apply hgone
    rw [hcancels.resting, List.mem_filter]
    exact ⟨ho, decide_eq_true hne⟩
  refine ⟨pair, m, book, stored, hm, rfl, hcancels, howner, hplaced, ?_, ?_, ?_⟩
  · intro p hp hpair hid
    have hkey := List.inj_on_of_nodup_map h.once hp hplaced (Prod.ext hpair hid)
    rw [hkey]
  · intro o ho hgone
    have hid := hremoved o ho hgone
    have haddress := hbook.owned o ho
    rw [hid, hrecord] at haddress
    exact ⟨hid, (Option.some.inj haddress).symm⟩
  · intro o ho o' ho' hgone hgone'
    exact List.inj_on_of_nodup_map hbook.nodup ho ho'
      ((hremoved o ho hgone).trans (hremoved o' ho' hgone').symm)

theorem Placement.cancelsOwn_iff {pair orderId owner : String} {m : Market} {stored : Order}
    (h : Placement s placed) (hm : s.books.lookup pair = some m)
    (hcancels : OrderBook.Cancels m.book (m.book.cancelOrder orderId owner).1 orderId owner stored) :
    CancelsOwn placed s { s with books := s.books.insert pair (cancelledIn m orderId owner) } orderId
      owner ↔ owner ≠ "" ∨ stored.address = "" := by
  constructor
  · rintro ⟨pair', m', book', stored', hm', hstate, hcancels', haddress, -⟩
    by_cases howner : owner = ""
    · right
      have hbooks := congrArg (fun s : ExchangeState => s.books.lookup pair) hstate
      dsimp only at hbooks
      rw [Finmap.lookup_insert, StorageMap.lookup_insert_eq] at hbooks
      split at hbooks
      · rename_i heq
        rw [← heq, hm] at hm'
        cases hm'
        have hsame := Option.some.inj (hcancels.found.symm.trans hcancels'.found)
        rw [hsame, haddress, howner]
      · -- the status in the other book has changed
        rw [hm] at hbooks
        have hbook := congrArg Market.book (Option.some.inj hbooks)
        have hrecord := hcancels.record orderId
        rw [if_pos rfl] at hrecord
        change (cancelledIn m orderId owner).book.allOrders.lookup orderId = _ at hrecord
        rw [hbook, hcancels.found] at hrecord
        exact absurd (congrArg Order.status (Option.some.inj hrecord)) hcancels.live.2
    · exact .inl howner
  · intro hcondition
    apply h.cancelsOwn hm hcancels
    rcases hcondition with hne | hempty
    · exact hcancels.address hne
    · by_cases howner : owner = ""
      · rw [hempty, howner]
      · exact hcancels.address howner

theorem cancels_own_iff (configs : List (String × MarketConfig))
    (balances : StorageMap (String × String) ℚ) (requests : List Request)
    (hfits : ∀ before r, before ++ [r] <+: requests → r.Fits (after configs balances before))
    (before : List Request) (pair orderId owner : String) (scan : List String)
    (hle : before ++ [.cancelOrder pair orderId owner scan] <+: requests)
    (hsuccess : ((after configs balances before).cancelOrder pair orderId owner scan).2 = true) :
    CancelsOwn (placedBy configs balances before) (after configs balances before)
        ((after configs balances before).cancelOrder pair orderId owner scan).1 orderId owner ↔
      owner ≠ "" ∨ ∀ found ∈ (after configs balances before).hit orderId owner
        ((after configs balances before).candidates pair scan), found.2.address = "" := by
  have hplacement := placement_run configs balances before
    (fun earlier r hearlier => hfits earlier r (hearlier.trans ((List.prefix_append _ _).trans hle)))
  have hscan := (after configs balances before).scanBooks_spec orderId owner
    ((after configs balances before).candidates pair scan)
  rw [cancelOrder_eq] at hsuccess ⊢
  cases hfound : (after configs balances before).hit orderId owner
      ((after configs balances before).candidates pair scan) with
  | none =>
    rw [hfound] at hscan
    rw [hscan] at hsuccess
    cases hsuccess
  | some found =>
    rw [hfound] at hscan
    obtain ⟨m, hm, hcancels, hscan⟩ := hscan
    rw [hscan, hplacement.cancelsOwn_iff hm hcancels]
    apply or_congr_right
    constructor
    · intro haddress found' hmem
      cases hmem
      exact haddress
    · intro h
      exact h found rfl

def sampleMarket : List (String × MarketConfig) := [("QBC/QUSD", ⟨"QBC/QUSD", "QBC", "QUSD", 1⟩)]

def sampleBalances : StorageMap (String × String) ℚ := (∅ : StorageMap _ _).insert ("alice", "QBC") 10

def sampleSale : Request := .placeOrder "QBC/QUSD" 1 0 2 5 "alice" 7

theorem cancels_own_iff_sample :
    CancelsOwn (placedBy sampleMarket sampleBalances [sampleSale])
        (after sampleMarket sampleBalances [sampleSale])
        ((after sampleMarket sampleBalances [sampleSale]).cancelOrder "" "ord-00000001" "alice"
          ["QBC/QUSD"]).1 "ord-00000001" "alice" ↔
      "alice" ≠ "" ∨ ∀ found ∈ (after sampleMarket sampleBalances [sampleSale]).hit "ord-00000001"
        "alice" ((after sampleMarket sampleBalances [sampleSale]).candidates "" ["QBC/QUSD"]),
          found.2.address = "" := by
  apply cancels_own_iff sampleMarket sampleBalances
    [sampleSale, .cancelOrder "" "ord-00000001" "alice" ["QBC/QUSD"]]
  · simp only [Machine.forall_before_cons, Machine.forall_before_nil, and_true]
    decide +kernel
  · exact List.prefix_refl _
  · decide +kernel

theorem placedBy_sample : placedBy sampleMarket sampleBalances [sampleSale] =
    [⟨"QBC/QUSD", "ord-00000001", "alice"⟩] := by
  decide +kernel

/-- Whoever gives no address cancels alice's order. -/
theorem cancels_without_owner :
    ((after sampleMarket sampleBalances [sampleSale]).cancelOrder "QBC/QUSD" "ord-00000001" "" []).2 =
        true ∧
      ¬CancelsOwn (placedBy sampleMarket sampleBalances [sampleSale])
        (after sampleMarket sampleBalances [sampleSale])
        ((after sampleMarket sampleBalances [sampleSale]).cancelOrder "QBC/QUSD" "ord-00000001" ""
          []).1 "ord-00000001" "" := by
  refine ⟨by decide +kernel, ?_⟩
  rintro ⟨pair, m, book, stored, -, -, -, -, hplaced, -⟩
  rw [placedBy_sample, List.mem_singleton] at hplaced
  have haddress : "" = "alice" := congrArg Placed.address hplaced
  exact absurd haddress (by decide)

end ExchangeState

end Qubitcoin.QbcExchange
