import Qubitcoin.Library.Machine
import Qubitcoin.QbcExchange.Matching

/-! The representation invariant of an order book, over every run of additions and
cancellations. -/

namespace Qubitcoin.QbcExchange

namespace Orders

theorem lookup_update (all : Orders) (id : String) (change : Order → Order) (id' : String) :
    (all.update id change).lookup id' =
      if id' = id then (all.lookup id).map change else all.lookup id' := by
  cases hid : all.lookup id with
  | none =>
    simp only [update, hid, Option.map_none]
    split
    · next heq => rw [heq, hid]
    · rfl
  | some stored =>
    simp only [update, hid, Option.map_some]
    exact StorageMap.lookup_insert_eq all id id' (change stored)

end Orders

/-- A limit order that is neither filled nor cancelled. -/
def Order.Live (o : Order) : Prop :=
  o.orderType = .limit ∧ o.status ≠ .filled ∧ o.status ≠ .cancelled

/-- The orders on the book are the live ones of the record, with the same filled amount. -/
structure Mirrors (book : List Order) (all : Orders) : Prop where
  recorded : ∀ o ∈ book, ∃ stored, all.lookup o.id = some stored ∧ stored.Live ∧
    stored.filled = o.filled
  onBook : ∀ id stored, all.lookup id = some stored → stored.Live → ∃ o ∈ book, o.id = id

namespace Mirrors

variable {book book' other : List Order} {all : Orders} {maker : Order}

theorem of_mem_iff (h : Mirrors book all) (hmem : ∀ o, o ∈ book' ↔ o ∈ book) :
    Mirrors book' all where
  recorded o ho := h.recorded o ((hmem o).mp ho)
  onBook id stored hstored hlive := by
    obtain ⟨o, ho, hid⟩ := h.onBook id stored hstored hlive
    exact ⟨o, (hmem o).mpr ho, hid⟩

/-- An order that is on the book no more and not live any more. -/
theorem drop (h : Mirrors (maker :: book) all) (hnodup : maker.id ∉ book.map Order.id)
    {change : Order → Order} (hchange : ∀ o, ¬ (change o).Live) :
    Mirrors book (all.update maker.id change) where
  recorded o ho := by
    have hne : o.id ≠ maker.id := fun heq => hnodup (heq ▸ List.mem_map_of_mem ho)
    rw [Orders.lookup_update, if_neg hne]
    exact h.recorded o (List.mem_cons_of_mem maker ho)
  onBook id stored hstored hlive := by
    rw [Orders.lookup_update] at hstored
    split at hstored
    · obtain ⟨old, -, rfl⟩ := Option.map_eq_some_iff.mp hstored
      exact absurd hlive (hchange old)
    · next hne =>
      obtain ⟨o, ho, hid⟩ := h.onBook id stored hstored hlive
      cases ho with
      | head => exact absurd hid.symm hne
      | tail _ ho => exact ⟨o, ho, hid⟩

theorem markPartial (h : Mirrors (maker :: book) all) (hnodup : maker.id ∉ book.map Order.id)
    (fillSize : ℚ) :
    Mirrors (maker.fill fillSize :: book) (all.markPartial maker.id (maker.fill fillSize).filled)
    where
  recorded o ho := by
    unfold Orders.markPartial
    rw [Orders.lookup_update]
    cases ho with
    | head =>
      obtain ⟨stored, hstored, hlive, -⟩ := h.recorded maker List.mem_cons_self
      have hid : (maker.fill fillSize).id = maker.id := rfl
      rw [if_pos hid, hstored]
      exact ⟨_, rfl, ⟨hlive.1, nofun, nofun⟩, rfl⟩
    | tail _ ho =>
      have hne : o.id ≠ maker.id := fun heq => hnodup (heq ▸ List.mem_map_of_mem ho)
      rw [if_neg hne]
      exact h.recorded o (List.mem_cons_of_mem maker ho)
  onBook id stored hstored hlive := by
    unfold Orders.markPartial at hstored
    rw [Orders.lookup_update] at hstored
    split at hstored
    · next heq => exact ⟨_, List.mem_cons_self, heq.symm⟩
    · next hne =>
      obtain ⟨o, ho, hid⟩ := h.onBook id stored hstored hlive
      cases ho with
      | head => exact absurd hid.symm hne
      | tail _ ho => exact ⟨o, List.mem_cons_of_mem _ ho, hid⟩

theorem sweep {stop : Order → Order → Prop} [∀ taker maker, Decidable (stop taker maker)]
    {taker : Order} (h : Mirrors (book ++ other) all)
    (hnodup : ((book ++ other).map Order.id).Nodup) :
    Mirrors ((sweep stop taker book all).book ++ other) (sweep stop taker book all).allOrders := by
  induction book generalizing taker all with
  | nil => exact h
  | cons maker rest ih =>
    obtain ⟨hfresh, hrest⟩ := List.nodup_cons.mp hnodup
    rw [QbcExchange.sweep]
    split
    · dsimp only
      split
      · exact ih (h.drop hfresh fun _ hlive => hlive.2.1 rfl) hrest
      · exact h.markPartial hfresh _
    · exact h

/-- The order `id`, if it is there, leaves the book and is live no more. -/
theorem cancel (h : Mirrors book all) (id : String) :
    Mirrors (book.filter fun o => o.id ≠ id)
      (all.update id fun o => { o with status := .cancelled }) where
  recorded o ho := by
    obtain ⟨ho, hne⟩ := List.mem_filter.mp ho
    rw [Orders.lookup_update, if_neg (of_decide_eq_true hne)]
    exact h.recorded o ho
  onBook id' stored hstored hlive := by
    rw [Orders.lookup_update] at hstored
    split at hstored
    · obtain ⟨old, -, rfl⟩ := Option.map_eq_some_iff.mp hstored
      exact absurd rfl hlive.2.2
    · next hne =>
      obtain ⟨o, ho, hid⟩ := h.onBook id' stored hstored hlive
      exact ⟨o, List.mem_filter.mpr ⟨ho, decide_eq_true (hid ▸ hne)⟩, hid⟩

/-- An order is recorded that is not on the book. -/
theorem insert {order : Order} (h : Mirrors book all) (hnew : all.lookup order.id = none)
    (hdead : ¬ order.Live) : Mirrors book (all.insert order.id order) where
  recorded o ho := by
    obtain ⟨stored, hstored, hlive⟩ := h.recorded o ho
    have hne : o.id ≠ order.id := fun heq => by rw [heq, hnew] at hstored; cases hstored
    rw [StorageMap.lookup_insert_eq, if_neg hne]
    exact ⟨stored, hstored, hlive⟩
  onBook id stored hstored hlive := by
    rw [StorageMap.lookup_insert_eq] at hstored
    split at hstored
    · cases hstored
      exact absurd hlive hdead
    · exact h.onBook id stored hstored hlive

/-- An order joins the book and the record. -/
theorem insert_cons {order : Order} (h : Mirrors book all) (hnew : all.lookup order.id = none)
    (hlive : order.Live) : Mirrors (order :: book) (all.insert order.id order) where
  recorded o ho := by
    rw [StorageMap.lookup_insert_eq]
    cases ho with
    | head => exact ⟨order, if_pos rfl, hlive, rfl⟩
    | tail _ ho =>
      obtain ⟨stored, hstored, hstoredLive⟩ := h.recorded o ho
      have hne : o.id ≠ order.id := fun heq => by rw [heq, hnew] at hstored; cases hstored
      exact ⟨stored, by rw [if_neg hne, hstored], hstoredLive⟩
  onBook id stored hstored hstoredLive := by
    rw [StorageMap.lookup_insert_eq] at hstored
    split at hstored
    · next heq => exact ⟨order, List.mem_cons_self, heq.symm⟩
    · obtain ⟨o, ho, hid⟩ := h.onBook id stored hstored hstoredLive
      exact ⟨o, List.mem_cons_of_mem order ho, hid⟩

end Mirrors

/-- The identifiers of the orders added by a run, in the order of their arrival. -/
def ids (arrived : List Order) : List String := arrived.map Order.id

/-- The order of a side: by price, and at one price by time and arrival. -/
def Precedes (side : Side) (arrived : List Order) (a b : Order) : Prop :=
  OrderBook.sortLe side a b = true ∧ (a.price = b.price → [a.id, b.id].Sublist (ids arrived))

theorem sortLe_trans (side : Side) (a b c : Order) (hab : OrderBook.sortLe side a b = true)
    (hbc : OrderBook.sortLe side b c = true) : OrderBook.sortLe side a c = true := by
  cases side with
  | buy => simp only [OrderBook.sortLe, Bool.or_eq_true, Bool.and_eq_true, decide_eq_true_eq] at *; grind
  | sell => simp only [OrderBook.sortLe, Bool.or_eq_true, Bool.and_eq_true, decide_eq_true_eq] at *; grind

theorem sortLe_total (side : Side) (a b : Order) :
    (OrderBook.sortLe side a b || OrderBook.sortLe side b a) = true := by
  cases side with
  | buy => simp only [OrderBook.sortLe, Bool.or_eq_true, Bool.and_eq_true, decide_eq_true_eq]; grind
  | sell => simp only [OrderBook.sortLe, Bool.or_eq_true, Bool.and_eq_true, decide_eq_true_eq]; grind

/-- At one price, an earlier time and no later time. -/
theorem sortLe_of_price_eq {side : Side} {a b : Order} (h : a.price = b.price) :
    OrderBook.sortLe side a b = true ↔ a.timestamp ≤ b.timestamp := by
  cases side with
  | buy => simp [OrderBook.sortLe, h]
  | sell => simp [OrderBook.sortLe, h]

theorem Precedes.mono {side : Side} {arrived : List Order} {a b : Order} (order : Order)
    (h : Precedes side arrived a b) : Precedes side (arrived ++ [order]) a b := by
  refine ⟨h.1, fun hprice => (h.2 hprice).trans ?_⟩
  unfold ids
  rw [List.map_append]
  exact List.sublist_append_left _ _

/-- A part of a side is sorted, up to what is filled. -/
theorem Precedes.of_tickets {side : Side} {arrived book book' : List Order}
    (hsub : (book'.map Order.ticket).Sublist (book.map Order.ticket))
    (h : book.Pairwise (Precedes side arrived)) : book'.Pairwise (Precedes side arrived) := by
  have hticket (a b : Order) : Precedes side arrived a.ticket b.ticket ↔
      Precedes side arrived a b := by
    cases side <;> rfl
  have hpairs : (book.map Order.ticket).Pairwise (Precedes side arrived) :=
    List.pairwise_map.mpr (h.imp (hticket _ _).mpr)
  exact (List.pairwise_map.mp (hpairs.sublist hsub)).imp (hticket _ _).mp

/-- Two elements stand in a list without repetition in one order only. -/
theorem not_pair_sublist_swap {α : Type} {l : List α} (hnodup : l.Nodup) {a b : α}
    (h : [a, b].Sublist l) : ¬ [b, a].Sublist l := by
  induction l with
  | nil => cases h
  | cons x l ih =>
    obtain ⟨hx, hnodup⟩ := List.nodup_cons.mp hnodup
    intro hswap
    cases h with
    | cons _ h =>
      cases hswap with
      | cons _ hswap => exact ih hnodup h hswap
      | cons_cons _ hswap => exact hx (h.subset (by simp))
    | cons_cons _ h =>
      cases hswap with
      | cons _ hswap => exact hx (hswap.subset (by simp))
      | cons_cons _ hswap => exact hx (h.subset (by simp))

theorem pair_sublist_or_swap {α : Type} {l : List α} {a b : α} (ha : a ∈ l) (hb : b ∈ l)
    (hne : a ≠ b) : [a, b].Sublist l ∨ [b, a].Sublist l := by
  induction l with
  | nil => cases ha
  | cons x l ih =>
    cases ha with
    | head =>
      cases hb with
      | head => exact absurd rfl hne
      | tail _ hb => exact .inl ((List.singleton_sublist.mpr hb).cons_cons a)
    | tail _ ha =>
      cases hb with
      | head => exact .inr ((List.singleton_sublist.mpr ha).cons_cons b)
      | tail _ hb => exact (ih ha hb).imp (.cons x) (.cons x)

/-- The side sorted again after an order has arrived. -/
theorem pairwise_mergeSort_snoc {side : Side} {arrived book : List Order} {placed order : Order}
    (hid : placed.id = order.id) (hbook : book.Pairwise (Precedes side arrived))
    (harrived : ∀ o ∈ book, o.id ∈ ids arrived) (hnew : order.id ∉ ids arrived)
    (hnodup : (book.map Order.id).Nodup) (htime : ∀ o ∈ book, o.timestamp ≤ order.timestamp) :
    ((book ++ [order]).mergeSort (OrderBook.sortLe side)).Pairwise
      (Precedes side (arrived ++ [placed])) := by
  have hids : ((book ++ [order]).map Order.id).Nodup := by
    rw [List.map_append, List.nodup_append']
    refine ⟨hnodup, List.nodup_singleton _, ?_⟩
    rintro id hold hmem
    obtain ⟨o, ho, rfl⟩ := List.mem_map.mp hold
    have heq : o.id = order.id := List.mem_singleton.mp hmem
    exact hnew (heq ▸ harrived o ho)
  have hsorted := List.pairwise_mergeSort (sortLe_trans side) (sortLe_total side) (book ++ [order])
  have hperm := List.mergeSort_perm (book ++ [order]) (OrderBook.sortLe side)
  have hresult : ((book ++ [order]).mergeSort (OrderBook.sortLe side)).Nodup :=
    hperm.nodup_iff.mpr (List.Nodup.of_map _ hids)
  -- the sort is stable: what stands the other way round has not come from a sorted pair
  have hstable : ∀ a b, [a, b].Sublist ((book ++ [order]).mergeSort (OrderBook.sortLe side)) →
      OrderBook.sortLe side b a = true → ¬ [b, a].Sublist (book ++ [order]) := by
    intro a b hab hle hba
    exact not_pair_sublist_swap hresult hab
      (List.pair_sublist_mergeSort (sortLe_trans side) (sortLe_total side) hle hba)
  have hpairs : ∀ a ∈ book, ∀ b ∈ book, a ≠ b →
      (Precedes side arrived a b ∧ [a, b].Sublist book) ∨
        (Precedes side arrived b a ∧ [b, a].Sublist book) := by
    intro a ha b hb hne
    cases pair_sublist_or_swap ha hb hne with
    | inl h => exact .inl ⟨List.pairwise_iff_forall_sublist.mp hbook h, h⟩
    | inr h => exact .inr ⟨List.pairwise_iff_forall_sublist.mp hbook h, h⟩
  rw [List.pairwise_iff_forall_sublist]
  intro a b hab
  have hle := List.pairwise_iff_forall_sublist.mp hsorted hab
  refine ⟨hle, fun hprice => ?_⟩
  have ha : a ∈ book ++ [order] := List.mem_mergeSort.mp (hab.subset (by simp))
  have hb : b ∈ book ++ [order] := List.mem_mergeSort.mp (hab.subset (by simp))
  cases List.mem_append.mp ha with
  | inl ha =>
    cases List.mem_append.mp hb with
    | inl hb =>
      have hne : a ≠ b := fun heq => List.nodup_iff_sublist.mp hresult b (heq ▸ hab)
      cases hpairs a ha b hb hne with
      | inl h => exact (h.1.mono placed).2 hprice
      | inr h => exact absurd (h.2.trans (List.sublist_append_left _ _)) (hstable a b hab h.1.1)
    | inr hb =>
      cases List.mem_singleton.mp hb
      unfold ids
      rw [List.map_append]
      rw [← hid]
      exact (List.singleton_sublist.mpr (harrived a ha)).append (List.Sublist.refl [placed.id])
  | inr ha =>
    cases List.mem_singleton.mp ha
    cases List.mem_append.mp hb with
    | inl hb =>
      have hba : OrderBook.sortLe side b order = true :=
        (sortLe_of_price_eq hprice.symm).mpr (htime b hb)
      exact absurd ((List.singleton_sublist.mpr hb).append (List.Sublist.refl [order]))
        (hstable order b hab hba)
    | inr hb =>
      cases List.mem_singleton.mp hb
      exact absurd hab (List.nodup_iff_sublist.mp hresult order)

namespace OrderBook

def resting (b : OrderBook) : List Order := b.bids ++ b.asks

/-- The book is in order: each side is sorted by price and arrival, every bid is below every
ask, the resting orders are open and listed once, and the record shows the same. -/
structure WellFormed (arrived : List Order) (b : OrderBook) : Prop where
  bids : b.bids.Pairwise (Precedes .buy arrived)
  asks : b.asks.Pairwise (Precedes .sell arrived)
  uncrossed : ∀ bid ∈ b.bids, ∀ ask ∈ b.asks, bid.price < ask.price
  remaining : ∀ o ∈ b.resting, epsilon < o.remaining
  status : ∀ o ∈ b.resting, o.status = .opened ∨ o.status = .partialFill
  nodup : (b.resting.map Order.id).Nodup
  mirrors : Mirrors b.resting b.allOrders

/-- Every order on record has arrived, and a resting order with the time it shows. -/
structure Traced (arrived : List Order) (b : OrderBook) : Prop where
  recorded : ∀ id stored, b.allOrders.lookup id = some stored → id ∈ ids arrived
  resting : ∀ o ∈ b.resting, ∃ placed ∈ arrived, placed.id = o.id ∧
    placed.timestamp = o.timestamp

theorem wellFormed_new : WellFormed [] .new where
  bids := .nil
  asks := .nil
  uncrossed _ h := absurd h List.not_mem_nil
  remaining _ h := absurd h List.not_mem_nil
  status _ h := absurd h List.not_mem_nil
  nodup := .nil
  mirrors := ⟨fun _ h => absurd h List.not_mem_nil, fun _ _ h => by cases h⟩

theorem traced_new : Traced [] .new where
  recorded _ _ h := by cases h
  resting _ h := absurd h List.not_mem_nil

variable {arrived : List Order} {b : OrderBook}

/-- A book whose sides are parts of `b`'s, up to what is filled, and whose record mirrors it. -/
theorem WellFormed.of_tickets (h : b.WellFormed arrived) {bids asks : List Order}
    {all : Orders} {trades : List Trade}
    (hbids : (bids.map Order.ticket).Sublist (b.bids.map Order.ticket))
    (hasks : (asks.map Order.ticket).Sublist (b.asks.map Order.ticket))
    (hremaining : ∀ o ∈ bids ++ asks, epsilon < o.remaining)
    (hmirrors : Mirrors (bids ++ asks) all) : WellFormed arrived ⟨bids, asks, trades, all⟩ where
  bids := Precedes.of_tickets hbids h.bids
  asks := Precedes.of_tickets hasks h.asks
  uncrossed bid hbid ask hask := by
    obtain ⟨bid', hbid', heq⟩ := List.mem_map.mp (hbids.subset (List.mem_map_of_mem hbid))
    obtain ⟨ask', hask', heq'⟩ := List.mem_map.mp (hasks.subset (List.mem_map_of_mem hask))
    have hlt := h.uncrossed bid' hbid' ask' hask'
    change bid'.ticket.price < ask'.ticket.price at hlt
    rw [heq, heq'] at hlt
    exact hlt
  remaining := hremaining
  status o ho := by
    have hsub : ((bids ++ asks).map Order.ticket).Sublist (b.resting.map Order.ticket) := by
      unfold resting
      rw [List.map_append, List.map_append]
      exact hbids.append hasks
    obtain ⟨o', ho', heq⟩ := List.mem_map.mp (hsub.subset (List.mem_map_of_mem ho))
    have hstatus := h.status o' ho'
    change o'.ticket.status = _ ∨ o'.ticket.status = _ at hstatus
    rw [heq] at hstatus
    exact hstatus
  nodup := by
    have hsub : ((bids ++ asks).map Order.ticket).Sublist (b.resting.map Order.ticket) := by
      unfold resting
      rw [List.map_append, List.map_append]
      exact hbids.append hasks
    have hids := hsub.map Order.id
    rw [List.map_map, List.map_map] at hids
    exact h.nodup.sublist hids
  mirrors := hmirrors

theorem map_lookup_update {α : Type} (f : Order → α) (change : Order → Order)
    (hchange : ∀ o, f (change o) = f o) (all : Orders) (id id' : String) :
    ((all.update id change).lookup id').map f = (all.lookup id').map f := by
  rw [Orders.lookup_update]
  split
  · next heq =>
    rw [heq, Option.map_map]
    exact congrArg (Option.map · (all.lookup id)) (funext hchange)
  · rfl

/-- Matching records no order and forgets none, and changes what is filled and the status only. -/
theorem map_lookup_sweep {α : Type} (f : Order → α)
    (hf : ∀ o filled status, f { o with filled := filled, status := status } = f o)
    (stop : Order → Order → Prop) [∀ taker maker, Decidable (stop taker maker)] (taker : Order)
    (book : List Order) (all : Orders) (id : String) :
    ((sweep stop taker book all).allOrders.lookup id).map f = (all.lookup id).map f := by
  induction book generalizing taker all with
  | nil => rfl
  | cons maker rest ih =>
    rw [sweep]
    split
    · dsimp only
      split
      · exact (ih _ _).trans (map_lookup_update f _ (fun o => hf o _ _) all maker.id id)
      · exact map_lookup_update f _ (fun o => hf o _ _) all maker.id id
    · rfl

section Matching

variable {stop : Order → Order → Prop} [∀ taker maker, Decidable (stop taker maker)]

/-- The book after a sweep of the side the taker is matched against. -/
theorem WellFormed.matched (h : b.WellFormed arrived) (taker : Order) :
    (b.matched (sweep stop taker (b.against taker.side) b.allOrders)).1.WellFormed arrived := by
  have hside : (sweep stop taker (b.against taker.side) b.allOrders).taker.side = taker.side :=
    (congrArg Order.side (ticket_sweep stop taker _ _) : Order.side (Order.ticket _) = _)
  have htickets := (tickets_sweep stop taker (b.against taker.side) b.allOrders).sublist
  simp only [OrderBook.matched, hside]
  cases hbuy : taker.side with
  | buy =>
    rw [hbuy] at htickets
    apply h.of_tickets (List.Sublist.refl _) htickets
    · intro o ho
      cases List.mem_append.mp ho with
      | inl ho => exact h.remaining o (List.mem_append_left _ ho)
      | inr ho =>
        exact remaining_sweep (fun o ho => h.remaining o (List.mem_append_right _ ho)) o ho
    · have hswap : Mirrors (b.asks ++ b.bids) b.allOrders :=
        h.mirrors.of_mem_iff fun o => List.perm_append_comm.mem_iff
      have hnodup : ((b.asks ++ b.bids).map Order.id).Nodup :=
        (List.perm_append_comm.map Order.id).nodup_iff.mpr h.nodup
      exact (hswap.sweep hnodup).of_mem_iff fun o => List.perm_append_comm.mem_iff
  | sell =>
    rw [hbuy] at htickets
    apply h.of_tickets htickets (List.Sublist.refl _)
    · intro o ho
      cases List.mem_append.mp ho with
      | inl ho =>
        exact remaining_sweep (fun o ho => h.remaining o (List.mem_append_left _ ho)) o ho
      | inr ho => exact h.remaining o (List.mem_append_right _ ho)
    · exact h.mirrors.sweep h.nodup

theorem tickets_matched (b : OrderBook) (taker : Order) :
    ((b.matched (sweep stop taker (b.against taker.side) b.allOrders)).1.resting.map
      Order.ticket).Sublist (b.resting.map Order.ticket) := by
  have hside : (sweep stop taker (b.against taker.side) b.allOrders).taker.side = taker.side :=
    (congrArg Order.side (ticket_sweep stop taker _ _) : Order.side (Order.ticket _) = _)
  have htickets := (tickets_sweep stop taker (b.against taker.side) b.allOrders).sublist
  simp only [OrderBook.matched, hside, OrderBook.resting, List.map_append]
  cases hbuy : taker.side with
  | buy =>
    rw [hbuy] at htickets
    exact htickets.append_left _
  | sell =>
    rw [hbuy] at htickets
    exact htickets.append_right _

/-- An order that rests after a sweep rested before, with less filled perhaps. -/
theorem ticket_matched (b : OrderBook) (taker : Order) {o : Order}
    (ho : o ∈ (b.matched (sweep stop taker (b.against taker.side) b.allOrders)).1.resting) :
    ∃ o' ∈ b.resting, o'.ticket = o.ticket :=
  List.mem_map.mp ((tickets_matched b taker).subset (List.mem_map_of_mem ho))

theorem Traced.matched (h : b.Traced arrived) (taker : Order) :
    (b.matched (sweep stop taker (b.against taker.side) b.allOrders)).1.Traced arrived where
  recorded id stored hstored := by
    have hsame := map_lookup_sweep (fun _ => ()) (fun _ _ _ => rfl) stop taker
      (b.against taker.side) b.allOrders id
    change (sweep stop taker (b.against taker.side) b.allOrders).allOrders.lookup id = _ at hstored
    rw [hstored] at hsame
    obtain ⟨old, hold, -⟩ := Option.map_eq_some_iff.mp hsame.symm
    exact h.recorded id old hold
  resting o ho := by
    obtain ⟨o', ho', heq⟩ := ticket_matched b taker ho
    obtain ⟨placed, hplaced, hid, htime⟩ := h.resting o' ho'
    refine ⟨placed, hplaced, hid.trans ?_, htime.trans ?_⟩
    · exact (congrArg Order.id heq : o'.ticket.id = o.ticket.id)
    · exact (congrArg Order.timestamp heq : o'.ticket.timestamp = o.ticket.timestamp)

end Matching

/-- All of a side is beyond the limit if its first order is. -/
theorem priceCheck_of_head (h : b.WellFormed arrived) {taker : Order}
    (hhead : ∀ o ∈ (b.against taker.side).head?, priceCheck taker o) :
    ∀ o ∈ b.against taker.side, priceCheck taker o := by
  unfold priceCheck at *
  cases hside : taker.side with
  | buy =>
    rw [hside] at hhead
    intro o ho
    dsimp only [against] at *
    cases hasks : b.asks with
    | nil => rw [hasks] at ho; cases ho
    | cons first rest =>
      rw [hasks] at ho hhead
      have hsorted := h.asks
      rw [hasks] at hsorted
      have hfirst := hhead first rfl
      cases ho with
      | head => exact hfirst
      | tail _ ho =>
        have hle := (List.rel_of_pairwise_cons hsorted ho).1
        simp only [sortLe, Bool.or_eq_true, Bool.and_eq_true, decide_eq_true_eq] at hle
        cases hle with
        | inl hlt => exact hfirst.trans hlt
        | inr heq => rw [← heq.1]; exact hfirst
  | sell =>
    rw [hside] at hhead
    intro o ho
    dsimp only [against] at *
    cases hbids : b.bids with
    | nil => rw [hbids] at ho; cases ho
    | cons first rest =>
      rw [hbids] at ho hhead
      have hsorted := h.bids
      rw [hbids] at hsorted
      have hfirst := hhead first rfl
      cases ho with
      | head => exact hfirst
      | tail _ ho =>
        have hle := (List.rel_of_pairwise_cons hsorted ho).1
        simp only [sortLe, Bool.or_eq_true, Bool.and_eq_true, decide_eq_true_eq] at hle
        cases hle with
        | inl hlt => exact hlt.trans hfirst
        | inr heq => rw [← heq.1]; exact hfirst

theorem rest_perm (b : OrderBook) (order : Order) :
    (b.rest order).resting.Perm (order :: b.resting) := by
  unfold rest resting
  cases order.side with
  | buy =>
    have hsort := (List.mergeSort_perm (b.bids ++ [order]) (sortLe .buy)).trans
      (List.perm_append_singleton order b.bids)
    exact hsort.append_right b.asks
  | sell =>
    have hsort := (List.mergeSort_perm (b.asks ++ [order]) (sortLe .sell)).trans
      (List.perm_append_singleton order b.asks)
    exact (hsort.append_left b.bids).trans List.perm_middle

/-- An order that has not arrived before. -/
structure Arrives (arrived : List Order) (placed : Order) : Prop where
  fresh : placed.id ∉ ids arrived
  time : ∀ earlier ∈ arrived, earlier.timestamp ≤ placed.timestamp

theorem Traced.lookup_eq_none (h : b.Traced arrived) {placed : Order}
    (harrives : Arrives arrived placed) : b.allOrders.lookup placed.id = none := by
  cases hstored : b.allOrders.lookup placed.id with
  | none => rfl
  | some stored => exact absurd (h.recorded _ stored hstored) harrives.fresh

theorem Traced.mem_ids (h : b.Traced arrived) {o : Order} (ho : o ∈ b.resting) :
    o.id ∈ ids arrived := by
  obtain ⟨placed, hplaced, hid, -⟩ := h.resting o ho
  exact hid ▸ List.mem_map_of_mem hplaced

theorem Traced.time (h : b.Traced arrived) {placed : Order} (harrives : Arrives arrived placed)
    {o : Order} (ho : o ∈ b.resting) : o.timestamp ≤ placed.timestamp := by
  obtain ⟨earlier, hearlier, -, htime⟩ := h.resting o ho
  exact htime ▸ harrives.time earlier hearlier

/-- A live order joins its side, which it does not cross, and the record. -/
theorem WellFormed.rest (h : b.WellFormed arrived) (ht : b.Traced arrived) {placed order : Order}
    (harrives : Arrives arrived placed) (hid : placed.id = order.id)
    (htime : placed.timestamp = order.timestamp) (hlive : order.Live)
    (hstatus : order.status = .opened ∨ order.status = .partialFill)
    (hremaining : epsilon < order.remaining)
    (hcheck : ∀ o ∈ b.against order.side, priceCheck order o) :
    WellFormed (arrived ++ [placed])
      { b.rest order with allOrders := b.allOrders.insert order.id order } := by
  have hperm := b.rest_perm order
  have hnodup : ((order :: b.resting).map Order.id).Nodup := by
    apply List.nodup_cons.mpr ⟨_, h.nodup⟩
    intro hmem
    obtain ⟨o, ho, heq⟩ := List.mem_map.mp hmem
    exact harrives.fresh (hid ▸ heq ▸ ht.mem_ids ho)
  have hnew : b.allOrders.lookup order.id = none := hid ▸ ht.lookup_eq_none harrives
  have hsorted : ∀ (side : Side) (book : List Order), book.Pairwise (Precedes side arrived) →
      book.Sublist b.resting → ((book ++ [order]).mergeSort (sortLe side)).Pairwise
        (Precedes side (arrived ++ [placed])) := by
    intro side book hbook hsub
    refine pairwise_mergeSort_snoc hid hbook ?_ (hid ▸ harrives.fresh) ?_ ?_
    · exact fun o ho => ht.mem_ids (hsub.subset ho)
    · exact h.nodup.sublist (hsub.map Order.id)
    · exact fun o ho => htime ▸ ht.time harrives (hsub.subset ho)
  have hbids := hsorted .buy b.bids h.bids (List.sublist_append_left _ _)
  have hasks := hsorted .sell b.asks h.asks (List.sublist_append_right _ _)
  have hside : ∀ bid ∈ (b.rest order).bids, ∀ ask ∈ (b.rest order).asks,
      bid.price < ask.price := by
    unfold priceCheck at hcheck
    unfold OrderBook.rest
    cases hbuy : order.side with
    | buy =>
      rw [hbuy] at hcheck
      intro bid hbid ask hask
      cases List.mem_append.mp (List.mem_mergeSort.mp hbid) with
      | inl hbid => exact h.uncrossed bid hbid ask hask
      | inr hbid =>
        cases List.mem_singleton.mp hbid
        exact hcheck ask hask
    | sell =>
      rw [hbuy] at hcheck
      intro bid hbid ask hask
      cases List.mem_append.mp (List.mem_mergeSort.mp hask) with
      | inl hask => exact h.uncrossed bid hbid ask hask
      | inr hask =>
        cases List.mem_singleton.mp hask
        exact hcheck bid hbid
  constructor
  · unfold OrderBook.rest
    cases order.side with
    | buy => exact hbids
    | sell => exact h.bids.imp fun hab => hab.mono placed
  · unfold OrderBook.rest
    cases order.side with
    | buy => exact h.asks.imp fun hab => hab.mono placed
    | sell => exact hasks
  · exact hside
  · intro o ho
    cases hperm.mem_iff.mp ho with
    | head => exact hremaining
    | tail _ ho => exact h.remaining o ho
  · intro o ho
    cases hperm.mem_iff.mp ho with
    | head => exact hstatus
    | tail _ ho => exact h.status o ho
  · exact (hperm.map Order.id).nodup_iff.mpr hnodup
  · exact (h.mirrors.insert_cons hnew hlive).of_mem_iff fun o => hperm.mem_iff

/-- An order that does not rest is recorded. -/
theorem WellFormed.record (h : b.WellFormed arrived) (ht : b.Traced arrived)
    {placed order : Order} (harrives : Arrives arrived placed) (hid : placed.id = order.id)
    (hdead : ¬ order.Live) :
    WellFormed (arrived ++ [placed]) { b with allOrders := b.allOrders.insert order.id order } where
  bids := h.bids.imp fun hab => hab.mono placed
  asks := h.asks.imp fun hab => hab.mono placed
  uncrossed := h.uncrossed
  remaining := h.remaining
  status := h.status
  nodup := h.nodup
  mirrors := h.mirrors.insert (hid ▸ ht.lookup_eq_none harrives) hdead

/-- An order is recorded, and it may rest. -/
theorem Traced.arrive (h : b.Traced arrived) {placed order : Order} (hid : placed.id = order.id)
    (htime : placed.timestamp = order.timestamp) {b' : OrderBook}
    (hresting : ∀ o ∈ b'.resting, o = order ∨ o ∈ b.resting) :
    Traced (arrived ++ [placed]) { b' with allOrders := b.allOrders.insert order.id order } where
  recorded id stored hstored := by
    change (b.allOrders.insert order.id order).lookup id = some stored at hstored
    rw [StorageMap.lookup_insert_eq] at hstored
    unfold ids
    rw [List.map_append, List.mem_append]
    split at hstored
    · next heq => exact .inr (List.mem_singleton.mpr (heq.trans hid.symm))
    · exact .inl (h.recorded id stored hstored)
  resting o ho := by
    cases hresting o ho with
    | inl heq => exact ⟨placed, by simp, heq ▸ hid, heq ▸ htime⟩
    | inr ho =>
      obtain ⟨earlier, hearlier, htraced⟩ := h.resting o ho
      exact ⟨earlier, List.mem_append_left _ hearlier, htraced⟩

/-- The order as it rests: partly filled if there was a fill. -/
def asResting (order : Order) : Order :=
  if 0 < order.filled then { order with status := .partialFill } else order

theorem asResting_eq (order : Order) : ∃ status, asResting order = { order with status := status } ∧
    (status = order.status ∨ status = .partialFill) := by
  unfold asResting
  split
  · exact ⟨.partialFill, rfl, .inr rfl⟩
  · exact ⟨order.status, rfl, .inl rfl⟩

theorem allOrders_rest (b : OrderBook) (order : Order) :
    (b.rest order).allOrders = b.allOrders := by
  unfold rest
  cases order.side <;> rfl

theorem addOrder_eq {b : OrderBook} {order : Order} {r : Matched}
    (h : b.matchOrder order = b.matched r) :
    (b.addOrder order).1 =
      if epsilon < (b.matched r).2.1.remaining ∧ (b.matched r).2.1.orderType = .limit then
        { (b.matched r).1.rest (asResting (b.matched r).2.1) with
          allOrders := (b.matched r).1.allOrders.insert (asResting (b.matched r).2.1).id
            (asResting (b.matched r).2.1) }
      else
        { (b.matched r).1 with
          allOrders := (b.matched r).1.allOrders.insert (b.matched r).2.1.id (b.matched r).2.1 } := by
  unfold addOrder
  rw [h]
  dsimp only
  split
  · dsimp only
    rw [allOrders_rest]
    rfl
  · rfl

section Arrival

variable {stop : Order → Order → Prop} [∀ taker maker, Decidable (stop taker maker)]

/-- An order is added by a sweep that, for a limit order, stops only beyond its price. -/
theorem addOrder_of_sweep (h : b.WellFormed arrived) (ht : b.Traced arrived) {order : Order}
    (harrives : Arrives arrived order) (hopened : order.status = .opened)
    (hmatch : b.matchOrder order =
      b.matched (sweep stop order (b.against order.side) b.allOrders))
    (hstop : order.orderType = .limit →
      epsilon < (sweep stop order (b.against order.side) b.allOrders).taker.remaining →
        ∀ o ∈ (sweep stop order (b.against order.side) b.allOrders).book.head?,
          priceCheck (sweep stop order (b.against order.side) b.allOrders).taker o) :
    (b.addOrder order).1.WellFormed (arrived ++ [order]) ∧
      (b.addOrder order).1.Traced (arrived ++ [order]) := by
  rw [addOrder_eq hmatch]
  have hwell : (b.matched (sweep stop order (b.against order.side) b.allOrders)).1.WellFormed
    arrived := h.matched order
  have htraced : (b.matched (sweep stop order (b.against order.side) b.allOrders)).1.Traced
    arrived := ht.matched order
  have hticket := ticket_sweep stop order (b.against order.side) b.allOrders
  generalize sweep stop order (b.against order.side) b.allOrders = r at *
  have hid : order.id = r.taker.id := (congrArg Order.id hticket.symm : order.ticket.id = _)
  have htime : order.timestamp = r.taker.timestamp :=
    (congrArg Order.timestamp hticket.symm : order.ticket.timestamp = _)
  have hstatus : r.taker.status = .opened :=
    (congrArg Order.status hticket : r.taker.ticket.status = _).trans hopened
  by_cases hdone : r.taker.remaining ≤ epsilon
  · obtain ⟨taker, htaker, hid, htime, hdead, hdone⟩ : ∃ taker, (b.matched r).2.1 = taker ∧
        order.id = taker.id ∧ order.timestamp = taker.timestamp ∧ ¬ taker.Live ∧
          taker.remaining ≤ epsilon :=
      ⟨{ r.taker with status := .filled }, if_pos hdone, hid, htime, fun hlive => hlive.2.1 rfl,
        hdone⟩
    rw [htaker, if_neg fun hrests => absurd hrests.1 (not_lt.mpr hdone)]
    exact ⟨hwell.record htraced harrives hid hdead,
      htraced.arrive hid htime fun o ho => .inr ho⟩
  · have htaker : (b.matched r).2.1 = r.taker := if_neg hdone
    have hleft := not_le.mp hdone
    rw [htaker]
    by_cases hlimit : r.taker.orderType = .limit
    · rw [if_pos ⟨hleft, hlimit⟩]
      have htype : order.orderType = .limit :=
        (congrArg Order.orderType hticket.symm : order.ticket.orderType = _).trans hlimit
      have hbook : (b.matched r).1.against r.taker.side = r.book := by
        unfold matched
        cases r.taker.side <;> rfl
      have hcheck : ∀ o ∈ (b.matched r).1.against r.taker.side, priceCheck r.taker o := by
        apply priceCheck_of_head hwell
        rw [hbook]
        exact hstop htype hleft
      obtain ⟨resting, hresting, hid, htime, hlive, hopened, hleft, hcheck⟩ : ∃ resting,
          asResting r.taker = resting ∧ order.id = resting.id ∧
            order.timestamp = resting.timestamp ∧ resting.Live ∧
              (resting.status = .opened ∨ resting.status = .partialFill) ∧
                epsilon < resting.remaining ∧
                  ∀ o ∈ (b.matched r).1.against resting.side, priceCheck resting o := by
        obtain ⟨status, heq, hpartial⟩ := asResting_eq r.taker
        rw [hstatus] at hpartial
        refine ⟨_, heq, hid, htime, ⟨hlimit, ?_⟩, hpartial, hleft, hcheck⟩
        cases hpartial with
        | inl hsame => rw [hsame]; exact ⟨nofun, nofun⟩
        | inr hsame => rw [hsame]; exact ⟨nofun, nofun⟩
      rw [hresting]
      refine ⟨hwell.rest htraced harrives hid htime hlive hopened hleft hcheck, ?_⟩
      apply htraced.arrive hid htime
      intro o ho
      cases (rest_perm _ _).mem_iff.mp ho with
      | head => exact .inl rfl
      | tail _ ho => exact .inr ho
    · rw [if_neg fun hrests => hlimit hrests.2]
      exact ⟨hwell.record htraced harrives hid fun hlive => hlimit hlive.1,
        htraced.arrive hid htime fun o ho => .inr ho⟩

end Arrival

theorem addOrder_wellFormed (h : b.WellFormed arrived) (ht : b.Traced arrived) {order : Order}
    (harrives : Arrives arrived order) (hopened : order.status = .opened) :
    (b.addOrder order).1.WellFormed (arrived ++ [order]) ∧
      (b.addOrder order).1.Traced (arrived ++ [order]) := by
  cases htype : order.orderType with
  | market =>
    have hmatch : b.matchOrder order =
        b.matched (sweep (fun _ _ => False) order (b.against order.side) b.allOrders) := by
      rw [matchOrder, htype]
      exact congrArg b.matched (marketLoop_eq order _ _)
    exact addOrder_of_sweep h ht harrives hopened hmatch fun hlimit => by
      rw [htype] at hlimit
      cases hlimit
  | limit =>
    have hmatch : b.matchOrder order =
        b.matched (sweep priceCheck order (b.against order.side) b.allOrders) := by
      rw [matchOrder, htype]
      exact congrArg b.matched (limitLoop_eq order [] _ _)
    refine addOrder_of_sweep h ht harrives hopened hmatch fun _ hleft o ho => ?_
    have hstop : priceCheck order o := stop_sweep (fun _ _ _ => Iff.rfl) hleft o ho
    have hticket := ticket_sweep priceCheck order (b.against order.side) b.allOrders
    generalize sweep priceCheck order (b.against order.side) b.allOrders = r at *
    have hprice : r.taker.price = order.price :=
      (congrArg Order.price hticket : r.taker.ticket.price = _)
    have hside : r.taker.side = order.side :=
      (congrArg Order.side hticket : r.taker.ticket.side = _)
    unfold priceCheck at hstop ⊢
    rw [hprice, hside]
    exact hstop

theorem cancelOrder_wellFormed (h : b.WellFormed arrived) (orderId owner : String) :
    (b.cancelOrder orderId owner).1.WellFormed arrived := by
  unfold cancelOrder
  split
  · exact h
  · next order hstored =>
    split
    · exact h
    · split
      · exact h
      · have hbids : (b.bids.filter fun o => o.id ≠ orderId).Sublist b.bids :=
          List.filter_sublist
        have hasks : (b.asks.filter fun o => o.id ≠ orderId).Sublist b.asks :=
          List.filter_sublist
        have hfilter : (b.bids.filter fun o => o.id ≠ orderId) ++
            (b.asks.filter fun o => o.id ≠ orderId) = b.resting.filter fun o => o.id ≠ orderId :=
          (List.filter_append b.bids b.asks).symm
        apply h.of_tickets (hbids.map _) (hasks.map _)
        · intro o ho
          exact h.remaining o ((hbids.append hasks).subset ho)
        · rw [hfilter]
          exact h.mirrors.cancel orderId

theorem cancelOrder_traced (h : b.Traced arrived) (orderId owner : String) :
    (b.cancelOrder orderId owner).1.Traced arrived := by
  unfold cancelOrder
  split
  · exact h
  · split
    · exact h
    · split
      · exact h
      · constructor
        · intro id stored hstored
          have hsame := map_lookup_update (fun _ => ()) (fun o => { o with status := .cancelled })
            (fun _ => rfl) b.allOrders orderId id
          change (b.allOrders.update orderId _).lookup id = some stored at hstored
          rw [hstored] at hsame
          obtain ⟨old, hold, -⟩ := Option.map_eq_some_iff.mp hsame.symm
          exact h.recorded id old hold
        · intro o ho
          have hbids : (b.bids.filter fun o => o.id ≠ orderId).Sublist b.bids :=
            List.filter_sublist
          have hasks : (b.asks.filter fun o => o.id ≠ orderId).Sublist b.asks :=
            List.filter_sublist
          exact h.resting o ((hbids.append hasks).subset ho)

/-- The orders added by a run, in the order of their arrival. -/
def arrivals (ops : List BookOp) : List Order := ops.filterMap BookOp.added

/-- The book after a run. -/
def after (ops : List BookOp) : OrderBook := Machine.run BookOp.apply .new ops

theorem arrives_of_snoc {placed : Order} (hids : (ids (arrived ++ [placed])).Nodup)
    (htimes : (arrived ++ [placed]).Pairwise fun a b => a.timestamp ≤ b.timestamp) :
    Arrives arrived placed where
  fresh hmem := by
    unfold ids at hids
    rw [List.map_append] at hids
    exact (List.nodup_append'.mp hids).2.2 hmem (List.mem_singleton_self placed.id)
  time earlier hearlier :=
    (List.pairwise_append.mp htimes).2.2 earlier hearlier placed (List.mem_singleton_self placed)

theorem wellFormed_run (ops : List BookOp) (hids : (ids (arrivals ops)).Nodup)
    (htimes : (arrivals ops).Pairwise fun a b => a.timestamp ≤ b.timestamp) :
    (after ops).WellFormed (arrivals ops) ∧ (after ops).Traced (arrivals ops) := by
  induction ops using List.reverseRecOn with
  | nil => exact ⟨wellFormed_new, traced_new⟩
  | append_singleton ops op ih =>
    have hsnoc : arrivals (ops ++ [op]) = arrivals ops ++ op.added.toList := by
      unfold arrivals
      rw [List.filterMap_append]
      cases op <;> rfl
    have hrun : after (ops ++ [op]) = op.apply (after ops) := Machine.run_append _ _ _
    rw [hsnoc] at hids htimes
    have hbefore := ih (by
      unfold ids at hids ⊢
      rw [List.map_append] at hids
      exact hids.of_append_left) (List.pairwise_append.mp htimes).1
    rw [hsnoc, hrun]
    cases op with
    | addOrder id pair side orderType price size address timestamp =>
      exact addOrder_wellFormed hbefore.1 hbefore.2 (arrives_of_snoc hids htimes) rfl
    | cancelOrder orderId owner =>
      rw [show arrivals ops ++ (BookOp.cancelOrder orderId owner).added.toList = arrivals ops from
        List.append_nil _]
      exact ⟨cancelOrder_wellFormed hbefore.1 orderId owner,
        cancelOrder_traced hbefore.2 orderId owner⟩

/-- In every run whose orders have identifiers of their own and times that do not fall, the
book is in order after every operation. -/
theorem wellFormed_after (ops : List BookOp) (hids : (ids (arrivals ops)).Nodup)
    (htimes : (arrivals ops).Pairwise fun a b => a.timestamp ≤ b.timestamp)
    (before : List BookOp) (hle : before <+: ops) :
    (after before).WellFormed (arrivals before) := by
  have hsub : (arrivals before).Sublist (arrivals ops) := hle.sublist.filterMap _
  exact (wellFormed_run before (hids.sublist (hsub.map Order.id)) (htimes.sublist hsub)).1

/-- An ask that two bids fill, the second of them in part, and a cancellation. -/
theorem wellFormed_after_sample :
    (after
      [.addOrder "ord-1" "QBC/QUSD" .sell .limit 2 10 "alice" 5,
        .addOrder "ord-2" "QBC/QUSD" .buy .limit 3 4 "bob" 6,
        .addOrder "ord-3" "QBC/QUSD" .buy .limit 2 8 "carol" 6,
        .cancelOrder "ord-3" "carol"]).WellFormed
      (arrivals
        [.addOrder "ord-1" "QBC/QUSD" .sell .limit 2 10 "alice" 5,
          .addOrder "ord-2" "QBC/QUSD" .buy .limit 3 4 "bob" 6,
          .addOrder "ord-3" "QBC/QUSD" .buy .limit 2 8 "carol" 6,
          .cancelOrder "ord-3" "carol"]) :=
  wellFormed_after _ (by decide) (by decide) _ (List.prefix_refl _)

end OrderBook

end Qubitcoin.QbcExchange
