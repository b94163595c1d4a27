import Qubitcoin.Exchange.Parties
import Qubitcoin.Exchange.Solvency

/-! The orders on record in an engine.  An identifier is given out once, so the order that a
settlement finds is the one of the book in which it was matched. -/

namespace Qubitcoin.Exchange

open Command OrderBook

namespace Engine

/-- An identifier names an order of one book only, and every order on record has an address. -/
structure Filed (e : Engine) : Prop where
  pairs : (e.books.map Prod.fst).Nodup
  id_eq : ∀ entry ∈ e.books, ∀ id o, entry.2.allOrders.lookup id = some o → o.id = id
  addressed : ∀ entry ∈ e.books, ∀ id, entry.2.owner id ≠ some ""
  counted : ∀ entry ∈ e.books, ∀ id, e.orderCount < id → entry.2.owner id = none
  apart : ∀ entry ∈ e.books, ∀ entry' ∈ e.books, ∀ id, entry.1 ≠ entry'.1 →
    entry.2.owner id = none ∨ entry'.2.owner id = none

variable {e : Engine} {pair : String} {b b' : OrderBook}

theorem mem_of_book (h : e.book pair = some b) : (pair, b) ∈ e.books := by
  obtain ⟨l₁, l₂, heq, _⟩ := List.lookup_eq_some_iff.mp h
  rw [heq]
  simp

theorem mem_setBook {entry : String × OrderBook} (h : entry ∈ (e.setBook pair b').books) :
    entry = (pair, b') ∨ entry ∈ e.books ∧ entry.1 ≠ pair := by
  obtain ⟨entry', hmem, rfl⟩ := List.mem_map.mp h
  split
  · exact .inl rfl
  · next hne => exact .inr ⟨hmem, hne⟩

theorem book_setBook (h : e.book pair = some b) : (e.setBook pair b').book pair = some b' := by
  obtain ⟨l₁, l₂, heq, hbefore⟩ := List.lookup_eq_some_iff.mp h
  rw [book, setBook, List.lookup_eq_some_iff]
  refine ⟨l₁.map fun entry => if entry.1 = pair then (pair, b') else entry, l₂.map fun entry =>
    if entry.1 = pair then (pair, b') else entry, ?_, ?_⟩
  · simp [heq]
  · intro entry hentry
    obtain ⟨entry', hmem, rfl⟩ := List.mem_map.mp hentry
    have hne := hbefore entry' hmem
    grind

theorem Filed.registers (h : e.Filed) (hmem : (pair, b) ∈ e.books) :
    b.Registers b.config b.owner :=
  ⟨rfl, fun _ => rfl, h.id_eq _ hmem⟩

/-- A book may be replaced by one that records what no other book records. -/
theorem Filed.setBook (h : e.Filed) {config : MarketConfig} {owners : OrderId → Option String}
    (hb' : b'.Registers config owners) (haddressed : ∀ id, owners id ≠ some "")
    (hcounted : ∀ id, e.orderCount < id → owners id = none)
    (hapart : ∀ entry ∈ e.books, entry.1 ≠ pair → ∀ id,
      entry.2.owner id = none ∨ owners id = none) : (e.setBook pair b').Filed where
  pairs := by
    have hkeys : (e.setBook pair b').books.map Prod.fst = e.books.map Prod.fst := by
      rw [Engine.setBook, List.map_map]
      apply List.map_congr_left
      intro entry _
      grind
    rw [hkeys]
    exact h.pairs
  id_eq entry hentry := by
    obtain rfl | ⟨hmem, -⟩ := mem_setBook hentry
    · exact hb'.id_eq
    · exact h.id_eq entry hmem
  addressed entry hentry := by
    obtain rfl | ⟨hmem, -⟩ := mem_setBook hentry
    · intro id
      rw [hb'.owner_eq]
      exact haddressed id
    · exact h.addressed entry hmem
  counted entry hentry := by
    obtain rfl | ⟨hmem, -⟩ := mem_setBook hentry
    · intro id hid
      rw [hb'.owner_eq]
      exact hcounted id hid
    · exact h.counted entry hmem
  apart entry hentry entry' hentry' id hne := by
    obtain rfl | ⟨hmem, hpair⟩ := mem_setBook hentry
    · obtain rfl | ⟨hmem', hpair'⟩ := mem_setBook hentry'
      · exact absurd rfl hne
      · rw [hb'.owner_eq]
        exact (hapart entry' hmem' hpair' id).symm
    · obtain rfl | ⟨hmem', -⟩ := mem_setBook hentry'
      · rw [hb'.owner_eq]
        exact hapart entry hmem hpair id
      · exact h.apart entry hmem entry' hmem' id hne

theorem foldl_or {α β : Type} {f : α → Option β} {l : List α} {o : β} {found : Option β}
    (hsame : ∀ x ∈ l, ∀ o', f x = some o' → o' = o)
    (hfound : found = some o ∨ ∃ x ∈ l, f x = some o) :
    l.foldl (fun found x => (f x).or found) found = some o := by
  induction l generalizing found with
  | nil => simpa using hfound
  | cons x l ih =>
    rw [List.foldl_cons]
    apply ih fun y hy => hsame y (List.mem_cons_of_mem x hy)
    cases hx : f x with
    | none => simpa [hx] using hfound
    | some o' => exact .inl (by rw [hsame x List.mem_cons_self o' hx, Option.some_or])

/-- The order found is the one of the book that records the identifier. -/
theorem Filed.findOrder (h : e.Filed) (hbook : e.book pair = some b) {id : OrderId}
    {address : String} (howner : b.owner id = some address) :
    ∃ o, e.findOrder id = some o ∧ o.address = address := by
  obtain ⟨o, hlookup, rfl⟩ := Option.map_eq_some_iff.mp howner
  have hmem := mem_of_book hbook
  refine ⟨o, foldl_or ?_ (.inr ⟨(pair, b), hmem, hlookup⟩), rfl⟩
  intro entry hentry o' ho'
  have hpair : entry.1 = pair := by
    by_contra hne
    cases h.apart entry hentry (pair, b) hmem id hne with
    | inl hnone => simp [owner, ho'] at hnone
    | inr hnone => simp [owner, hlookup] at hnone
  have heq : entry = (pair, b) := List.inj_on_of_nodup_map h.pairs hentry hmem hpair
  rw [heq, hlookup] at ho'
  exact (Option.some.inj ho').symm

/-- The fills are between orders on record in the book of `pair`, and the taker's order was
placed for `address`. -/
def Between (pair address : String) (config : MarketConfig) (fills : List Trade) (e : Engine) :
    Prop :=
  ∃ b, e.book pair = some b ∧ b.config = config ∧ ∀ trade ∈ fills,
    b.owner trade.takerOrderId = some address ∧ ∃ maker, b.owner trade.makerOrderId = some maker

/-- What the method of a book ensures, the engine ensures with the book put back. -/
theorem ensures_onBook {α : Type} {method : Command Error OrderBook α}
    {Q : α → OrderBook → Prop} {E : OrderBook → Prop} {R : α → Engine → Prop}
    {F : Engine → Prop} (hmethod : Ensures (· = b) method Q E)
    (hok : ∀ a b', Q a b' → R a (e.setBook pair b'))
    (herror : ∀ b', E b' → F (e.setBook pair b')) :
    Ensures (· = e) (onBook pair method b) R F := by
  rintro s rfl
  unfold onBook
  cases hrun : method b with
  | ok a b' => exact hok a b' (hmethod.of_ok rfl hrun)
  | error err b' => exact herror b' (hmethod.of_error rfl hrun)

theorem Filed.setNewOrder (h : e.Filed) (hbook : e.book pair = some b) {order : Order}
    (haddress : order.address ≠ "") (hid : order.id = e.orderCount)
    (hnew : ∀ entry ∈ e.books, entry.2.owner order.id = none)
    (hb' : b'.Registers b.config (Function.update b.owner order.id (some order.address))) :
    (e.setBook pair b').Filed := by
  have hmem := mem_of_book hbook
  apply h.setBook hb'
  · intro id
    rw [Function.update_apply]
    split
    · simpa using haddress
    · exact h.addressed _ hmem id
  · intro id hlt
    rw [Function.update_of_ne (hid.trans_lt hlt).ne']
    exact h.counted _ hmem id hlt
  · intro entry hentry hne id
    rw [Function.update_apply]
    split
    · next heq => exact .inl (heq ▸ hnew entry hentry)
    · exact h.apart entry hentry _ hmem id hne

theorem ensures_addToBook (fuel : ℕ) {order : Order} (h : e.Filed) (hbook : e.book pair = some b)
    (haddress : order.address ≠ "") (hid : order.id = e.orderCount)
    (hnew : ∀ entry ∈ e.books, entry.2.owner order.id = none) :
    Ensures (· = e) (onBook pair (addOrder fuel order) b)
      (fun fills e' => e'.Filed ∧ Between pair order.address b.config fills e') Filed := by
  have hstart : ∀ s, s = b → s.Registers b.config b.owner := by
    intro s hs
    rw [hs]
    exact h.registers (mem_of_book hbook)
  have hadd := (ensures_addOrder fuel order).mono hstart (fun _ _ hb' => hb') fun _ hb' => hb'
  refine ensures_onBook hadd ?_ fun b' hb' => h.setNewOrder hbook haddress hid hnew hb'
  rintro fills b' ⟨hb', hfills⟩
  refine ⟨h.setNewOrder hbook haddress hid hnew hb', b', book_setBook hbook, hb'.config_eq, ?_⟩
  intro trade htrade
  obtain ⟨htaker, hmaker⟩ := hfills trade htrade
  simp only [hb'.owner_eq, htaker, Function.update_self, true_and]
  exact hmaker

theorem maintains_check {α : Type} {P : Engine → Prop} (x : Except Error α) :
    Maintains P (ofExcept x) fun _ => True := .of_keeps (keeps_ofExcept x)

theorem Filed.count (h : e.Filed) : Filed { e with orderCount := e.orderCount + 1 } where
  pairs := h.pairs
  id_eq := h.id_eq
  addressed := h.addressed
  counted entry hentry id hlt := h.counted entry hentry id (Nat.lt_of_succ_lt hlt)
  apart := h.apart

theorem ensures_acceptOrder (fuel : ℕ) (pair side orderType : String) (price size : Decimal)
    (address : String) (now : ℚ) (haddress : address ≠ "") :
    Ensures Filed (acceptOrder fuel pair side orderType price size address now)
      (fun r e => e.Filed ∧ Between (normalizePair pair) address r.1 r.2 e) Filed := by
  apply Ensures.get_bind
  intro e he
  have hcheck : ∀ {α : Type} {x : Command Error Engine α}, (∀ {G}, Keeps G x) →
      Ensures (· = e) x (fun _ => (· = e)) Filed :=
    fun hx => (Ensures.of_keeps hx).mono (fun _ hs => hs) (fun _ _ hs => hs) fun _ hs => hs ▸ he
  cases hbook : e.book (normalizePair pair) with
  | none => exact fun _ hs => hs ▸ he
  | some b =>
    apply (hcheck (keeps_ofExcept _)).bind
    intro side
    apply (hcheck (keeps_ofExcept _)).bind
    intro orderType
    apply (hcheck (keeps_ofSignal _)).bind
    intro small
    apply (hcheck (keeps_throwIf _ _)).bind
    intro _
    apply (hcheck (keeps_checkBalance _ _ _ _ _ _)).bind
    intro _
    apply Ensures.modify_bind
    rintro _ rfl
    apply Ensures.get_bind
    rintro e' rfl
    apply (ensures_addToBook fuel he.count hbook haddress rfl _).bind
    · intro fills
      exact Ensures.pure fun _ hs => hs
    · intro entry hentry
      exact he.counted entry hentry _ (Nat.lt_succ_self _)

theorem ensures_cancelInBook (h : e.Filed) (hmem : (pair, b) ∈ e.books) (orderId : OrderId)
    (ownerAddress : String) :
    Ensures (· = e) (onBook pair (OrderBook.cancelOrder orderId ownerAddress) b)
      (fun _ => Filed) Filed := by
  have hstart : ∀ s, s = b → s.Registers b.config b.owner := by
    intro s hs
    rw [hs]
    exact h.registers hmem
  have hcancel := (maintains_cancelOrder orderId ownerAddress).mono hstart
    (fun _ _ hb' => hb'.1) fun _ hb' => hb'
  have hset : ∀ b', b'.Registers b.config b.owner → (e.setBook pair b').Filed := by
    intro b' hb'
    apply h.setBook hb' (h.addressed _ hmem) (h.counted _ hmem)
    exact fun entry hentry hne id => h.apart entry hentry _ hmem id hne
  exact ensures_onBook hcancel (fun _ => hset) hset

theorem ensures_cancelOrder (pair : String) (orderId : OrderId) (ownerAddress : String) :
    Ensures Filed (cancelOrder pair orderId ownerAddress) (fun _ => Filed) Filed := by
  apply Ensures.get_bind
  intro e he
  cases hbook : e.book (normalizePair pair) with
  | none => exact fun _ hs => hs ▸ he
  | some b => exact ensures_cancelInBook he (mem_of_book hbook) orderId ownerAddress

theorem ensures_cancelOrderAnyPair (orderId : OrderId) (ownerAddress : String) :
    Ensures Filed (cancelOrderAnyPair orderId ownerAddress) (fun _ => Filed) Filed := by
  apply Ensures.get_bind
  intro e he
  split
  · exact fun _ hs => hs ▸ he
  · next pair b hfind =>
    exact ensures_cancelInBook he (List.mem_of_find?_eq_some hfind) orderId ownerAddress

/-- The orders on record, and how many identifiers were given out. -/
def filing (e : Engine) : List (String × OrderBook) × ℕ := (e.books, e.orderCount)

theorem Filed.of_filing {e' : Engine} (h : e.Filed) (hsame : e'.filing = e.filing) : e'.Filed := by
  obtain ⟨hbooks, hcount⟩ := Prod.ext_iff.mp hsame
  change e'.books = e.books at hbooks
  change e'.orderCount = e.orderCount at hcount
  constructor
  · rw [hbooks]
    exact h.pairs
  · rw [hbooks]
    exact h.id_eq
  · rw [hbooks]
    exact h.addressed
  · rw [hbooks, hcount]
    exact h.counted
  · rw [hbooks]
    exact h.apart

theorem keeps_credit (address asset : String) (amount : Decimal) :
    Keeps (.fixing filing) (credit address asset amount) := by
  apply Keeps.get.bind
  intro e
  exact (keeps_ofSignal _).bind fun sum => .modify fun _ => rfl

theorem keeps_debit (address asset : String) (amount : Decimal) :
    Keeps (.fixing filing) (debit address asset amount) := by
  apply Keeps.get.bind
  intro e
  exact (keeps_ofSignal _).bind fun rest => .modify fun _ => rfl

theorem keeps_deposit (address asset : String) (amount : Decimal) (onChain : OnChain) :
    Keeps (.fixing filing) (deposit address asset amount onChain) := by
  apply (keeps_throwIf _ _).bind
  intro _
  exact (keeps_ofExcept _).bind fun _ => keeps_credit address asset amount

theorem keeps_withdraw (address asset : String) (amount : Decimal) (transfer : Transfer) :
    Keeps (.fixing filing) (withdraw address asset amount transfer) := by
  apply (keeps_throwIf _ _).bind
  intro _
  apply Keeps.get.bind
  intro e
  apply (keeps_ofSignal _).bind
  intro short
  apply (keeps_throwIf _ _).bind
  intro _
  apply (keeps_debit address asset amount).bind
  intro _
  split
  · exact (keeps_credit address _ amount).bind fun _ => .throw _
  · exact .pure _

theorem keeps_update (u : Update) : Keeps (.fixing filing) u.apply :=
  .ite (keeps_debit _ _ _) (keeps_credit _ _ _)

theorem keeps_settleFill (config : MarketConfig) (trade : Trade) :
    Keeps (.fixing filing) (settleFill config trade) := by
  apply Keeps.get.bind
  intro e
  split
  · exact (keeps_ofSignal _).bind fun quoteAmount => .forM keeps_update _
  · exact .pure _

end Engine

namespace EngineOp

open Engine

/-- An order is placed for an address. -/
def Addressed : EngineOp → Prop
  | .placeOrder _ _ _ _ _ address _ => address ≠ ""
  | .deposit _ _ _ _ | .withdraw _ _ _ _ | .cancelOrder _ _ _ | .cancelOrderAnyPair _ _ => True

/-- The state that a call leaves, whether or not it raises. -/
def step (fuel : ℕ) (e : Engine) (op : EngineOp) : Engine := left (op.call fuel e)

theorem filed_step {fuel : ℕ} {e : Engine} (h : e.Filed) {op : EngineOp} (haddress : op.Addressed) :
    (op.step fuel e).Filed := by
  cases op with
  | deposit address asset amount onChain =>
    exact h.of_filing (keeps_deposit address asset amount onChain e)
  | withdraw address asset amount transfer =>
    exact h.of_filing (keeps_withdraw address asset amount transfer e)
  | placeOrder pair side orderType price size address now =>
    have haccept := (ensures_acceptOrder fuel pair side orderType price size address now
      haddress).mono (fun _ hs => hs) (fun _ _ hs => hs.1) fun _ hs => hs
    apply haccept.keeps.bind _ e h
    rintro ⟨config, fills⟩
    apply (Keeps.forM (keeps_settleFill config) fills).imp
    exact fun s t hsame hs => Filed.of_filing hs hsame
  | cancelOrder pair orderId ownerAddress =>
    exact (ensures_cancelOrder pair orderId ownerAddress).keeps.map e h
  | cancelOrderAnyPair orderId ownerAddress =>
    exact (ensures_cancelOrderAnyPair orderId ownerAddress).keeps.map e h

end EngineOp

end Qubitcoin.Exchange
