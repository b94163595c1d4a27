import Qubitcoin.Exchange.Book

/-! `ExchangeEngine` of `qubitcoin/exchange/engine.py`: the books of all pairs, and the
balances that fills are settled against. -/

namespace Qubitcoin.Exchange

structure Engine where
  books : List (String × OrderBook)
  balances : StorageMap (String × String) Decimal
  orderCount : ℕ

namespace Engine

/-- The fees and the tick size are never read. -/
def markets : List MarketConfig :=
  [{ pair := "QBC/QUSD", base := "QBC", quote := "QUSD", minOrder := .finite 1 },
    { pair := "wQBC/QUSD", base := "wQBC", quote := "QUSD", minOrder := .finite 1 }]

/-- The symbols of `SYNTHETIC_ASSETS`. -/
def syntheticAssets : List String :=
   ["sBTC", "sETH", "sBNB", "sSOL", "sXRP", "sADA", "sDOGE", "sAVAX", "sDOT", "sTRX", "sLINK",
    "sMATIC", "sSHIB", "sTON", "sLTC", "sBCH", "sUNI", "sATOM", "sXLM", "sNEAR", "sAPT", "sICP",
    "sFIL", "sETC", "sARB", "sOP", "sIMX", "sINJ", "sVET", "sHBAR", "sSUI", "sMKR", "sAAVE",
    "sRENDER", "sGRT", "sFTM", "sALGO", "sTHETA", "sFLOW", "sSAND", "sAXS", "sMANA", "sSEI",
    "sSTX", "sEGLD", "sQNT", "sPEPE", "sWLD"]

def syntheticMarket (symbol : String) : MarketConfig where
  pair := symbol ++ "/QUSD"
  base := symbol
  quote := "QUSD"
  minOrder := .finite (1 / 1000)

def new : Engine where
  books := (markets ++ syntheticAssets.map syntheticMarket).map fun mc => (mc.pair, .new mc)
  balances := ∅
  orderCount := 0

def balance (e : Engine) (address asset : String) : Decimal :=
  e.balances.value 0 (address, asset)

def setBalance (e : Engine) (address asset : String) (amount : Decimal) : Engine :=
  { e with balances := e.balances.insert (address, asset) amount }

def book (e : Engine) (pair : String) : Option OrderBook := e.books.lookup pair

def setBook (e : Engine) (pair : String) (b : OrderBook) : Engine :=
  { e with books := e.books.map fun entry => if entry.1 = pair then (pair, b) else entry }

def throwIf (condition : Bool) (e : Error) : Command Error Engine Unit :=
  if condition then throw e else return ()

/-- `balances[address][asset] += amount`. -/
def credit (address asset : String) (amount : Decimal) : Command Error Engine Unit := do
  let sum ← ofSignal (Decimal.add prec ((← get).balance address asset) amount)
  modify (setBalance · address asset sum)

/-- `balances[address][asset] -= amount`. -/
def debit (address asset : String) (amount : Decimal) : Command Error Engine Unit := do
  let rest ← ofSignal (Decimal.sub prec ((← get).balance address asset) amount)
  modify (setBalance · address asset rest)

/-- Runs a method of the book of `pair`, which keeps what it has changed if it raises. -/
def onBook {α : Type} (pair : String) (method : Command Error OrderBook α) (b : OrderBook) :
    Command Error Engine α := do
  match method b with
  | .ok a b' =>
    modify (setBook · pair b')
    return a
  | .error e b' =>
    modify (setBook · pair b')
    throw e

/-- The first `-` of a pair without `/` is taken for `/`. -/
def normalizePair (pair : String) : String :=
  if '/' ∉ pair.toList ∧ '-' ∈ pair.toList then
    String.ofList (pair.toList.takeWhile (· ≠ '-') ++ '/' :: (pair.toList.dropWhile (· ≠ '-')).tail)
  else pair

/-- What the database answers to `get_balance`. -/
inductive OnChain
  | noDatabase
  | balance (amount : Decimal)
  | valueError
  | otherError

/-- The check of a deposit; any error but a `ValueError` is logged and passed over. -/
def verifyOnChain (asset : String) (amount : Decimal) (onChain : OnChain) : Except Error Unit :=
  if asset ≠ "QBC" then .ok ()
  else
    match onChain with
    | .noDatabase | .otherError => .ok ()
    | .valueError => .error .databaseError
    | .balance available =>
      match Decimal.lt? available amount with
      | .ok true => .error (.insufficientOnChain available amount)
      | .ok false | .error _ => .ok ()

/-- The amount is a float: a NaN is not at most zero. -/
def deposit (address asset : String) (amount : Decimal) (onChain : OnChain) :
    Command Error Engine Unit := do
  throwIf (amount ≤ 0) .amountNotPositive
  ofExcept (verifyOnChain asset amount onChain)
  credit address asset amount

/-- How `_send_qbc_on_chain` ends; there is no transfer without a database. -/
inductive Transfer
  | noDatabase
  | sent (txHash : String)
  | failed

def withdraw (address asset : String) (amount : Decimal) (transfer : Transfer) :
    Command Error Engine Unit := do
  throwIf (amount ≤ 0) .amountNotPositive
  let available := (← get).balance address asset
  let short ← ofSignal (Decimal.lt? available amount)
  throwIf short (.insufficientExchangeBalance available amount)
  debit address asset amount
  match asset, transfer with
  | "QBC", .failed =>
    credit address asset amount
    throw .onChainTransferFailed
  | _, _ => return ()

/-- The last book that has the order. -/
def findOrder (e : Engine) (id : OrderId) : Option Order :=
  e.books.foldl (fun found entry => (entry.2.allOrders.lookup id).or found) none

/-- A change of one balance. -/
structure Update where
  address : String
  asset : String
  taken : Bool
  amount : Decimal

def Update.apply (u : Update) : Command Error Engine Unit :=
  if u.taken then debit u.address u.asset u.amount else credit u.address u.asset u.amount

/-- What a party gives and what it gets; an order without an address has no balances. -/
def swap (address gives : String) (given : Decimal) (gets : String) (got : Decimal) :
    List Update :=
  if address = "" then []
  else [⟨address, gives, true, given⟩, ⟨address, gets, false, got⟩]

def fillUpdates (config : MarketConfig) (trade : Trade) (quoteAmount : Decimal)
    (maker taker : Order) : List Update :=
  match trade.side with
  | .buy =>
    swap taker.address config.quote quoteAmount config.base trade.size ++
      swap maker.address config.base trade.size config.quote quoteAmount
  | .sell =>
    swap taker.address config.base trade.size config.quote quoteAmount ++
      swap maker.address config.quote quoteAmount config.base trade.size

def settleFill (config : MarketConfig) (trade : Trade) : Command Error Engine Unit := do
  let e ← get
  match e.findOrder trade.makerOrderId, e.findOrder trade.takerOrderId with
  | some maker, some taker =>
    let quoteAmount ← ofSignal (Decimal.mul prec trade.price trade.size)
    (fillUpdates config trade quoteAmount maker taker).forM Update.apply
  | _, _ => return ()

/-- The asset that an order pays in, and how much of it a limit order needs. -/
def required (config : MarketConfig) (side : Side) (orderType : OrderType) (price size : Decimal) :
    Except Decimal.Signal (String × Decimal) :=
  match side, orderType with
  | .buy, .limit => do return (config.quote, ← Decimal.mul prec price size)
  | .buy, .market => do return (config.quote, ← Decimal.mul prec size (.finite 999999))
  | .sell, _ => .ok (config.base, size)

/-- The balance check of an order; an order without an address passes. -/
def checkBalance (config : MarketConfig) (side : Side) (orderType : OrderType)
    (price size : Decimal) (address : String) : Command Error Engine Unit :=
  if address = "" then
    return ()
  else do
    let (asset, amount) ← ofSignal (required config side orderType price size)
    let available := (← get).balance address asset
    let short ← ofSignal (Decimal.lt? available amount)
    throwIf (short && orderType = .limit) (.insufficient asset available amount)

/-- `place_order` up to the settlement: the checks, and the order matched in its book. -/
def acceptOrder (fuel : ℕ) (pair side orderType : String) (price size : Decimal)
    (address : String) (now : ℚ) : Command Error Engine (MarketConfig × List Trade) := do
  let pair := normalizePair pair
  match (← get).book pair with
  | none => throw (.unknownPair pair)
  | some b =>
    let side ← ofExcept (Side.parse side)
    let orderType ← ofExcept (OrderType.parse orderType)
    let small ← ofSignal (Decimal.lt? size b.config.minOrder)
    throwIf small (.minOrderSize b.config.minOrder b.config.base)
    checkBalance b.config side orderType price size address
    modify fun e => { e with orderCount := e.orderCount + 1 }
    let order : Order :=
      { id := (← get).orderCount
        pair := pair
        side := side
        orderType := orderType
        price := price
        size := size
        filled := 0
        address := address
        timestamp := now
        status := .opened }
    let fills ← onBook pair (OrderBook.addOrder fuel order) b
    return (b.config, fills)

def placeOrder (fuel : ℕ) (pair side orderType : String) (price size : Decimal)
    (address : String) (now : ℚ) : Command Error Engine Unit := do
  let (config, fills) ← acceptOrder fuel pair side orderType price size address now
  fills.forM (settleFill config)

def cancelOrder (pair : String) (orderId : OrderId) (ownerAddress : String) :
    Command Error Engine Bool := do
  let pair := normalizePair pair
  match (← get).book pair with
  | none => return false
  | some b => onBook pair (OrderBook.cancelOrder orderId ownerAddress) b

/-- The first book that has the order cancels it. -/
def cancelOrderAnyPair (orderId : OrderId) (ownerAddress : String) :
    Command Error Engine Bool := do
  match (← get).books.find? fun entry => (entry.2.allOrders.lookup orderId).isSome with
  | none => return false
  | some (pair, b) => onBook pair (OrderBook.cancelOrder orderId ownerAddress) b

end Engine

/-- A call of one of the methods, with what the environment answers. -/
inductive EngineOp
  | deposit (address asset : String) (amount : Decimal) (onChain : Engine.OnChain)
  | withdraw (address asset : String) (amount : Decimal) (transfer : Engine.Transfer)
  | placeOrder (pair side orderType : String) (price size : Decimal) (address : String) (now : ℚ)
  | cancelOrder (pair : String) (orderId : OrderId) (ownerAddress : String)
  | cancelOrderAnyPair (orderId : OrderId) (ownerAddress : String)

namespace EngineOp

def call (fuel : ℕ) : EngineOp → Command Error Engine Unit
  | .deposit address asset amount onChain => Engine.deposit address asset amount onChain
  | .withdraw address asset amount transfer => Engine.withdraw address asset amount transfer
  | .placeOrder pair side orderType price size address now =>
    Engine.placeOrder fuel pair side orderType price size address now
  | .cancelOrder pair orderId ownerAddress =>
    discard (Engine.cancelOrder pair orderId ownerAddress)
  | .cancelOrderAnyPair orderId ownerAddress =>
    discard (Engine.cancelOrderAnyPair orderId ownerAddress)

/-- A call that raises leaves the balances as they were. -/
def apply (fuel : ℕ) (e : Engine) (op : EngineOp) : Engine :=
  match op.call fuel e with
  | .ok _ e' => e'
  | .error _ e' => { e' with balances := e.balances }

end EngineOp

end Qubitcoin.Exchange
