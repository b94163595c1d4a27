import Qubitcoin.QbcExchange.BookInvariant

/-! Price-time priority: an incoming order takes from the orders in front of the other side, and
from the next one only when it has taken all of those before. -/

namespace Qubitcoin.QbcExchange

namespace Orders

/-- The record of a maker after a fill. -/
def afterFill (all : Orders) (maker : Order) (fillSize : ℚ) : Orders :=
  if (maker.fill fillSize).remaining ≤ epsilon then all.markFilled maker.id
  else all.markPartial maker.id (maker.fill fillSize).filled

def afterFills (all : Orders) (taken : List (Order × ℚ)) : Orders :=
  taken.foldl (fun all t => all.afterFill t.1 t.2) all

end Orders

/-- A sweep takes from the front of the book, all but the last order in full. -/
structure Sweeps (stop : Order → Order → Prop) (taker : Order) (book : List Order) (all : Orders)
    (r : Matched) (taken : List (Order × ℚ)) (rest : List Order) : Prop where
  book : book = taken.map Prod.fst ++ rest
  fills : r.fills = taken.map fun t => trade taker t.1 t.2
  positive : ∀ t ∈ taken, 0 < t.2
  covered : ∀ t ∈ taken, t.2 ≤ t.1.remaining
  consumed : ∀ t ∈ taken.dropLast, t.2 = t.1.remaining
  within : ∀ t ∈ taken, ¬stop taker t.1
  filled : r.taker = taker.fill (taken.map Prod.snd).sum
  bounded : 0 ≤ taker.remaining → (taken.map Prod.snd).sum ≤ taker.remaining
  resting : r.book =
    (taken.map fun t => t.1.fill t.2).filter (fun o => epsilon < o.remaining) ++ rest
  record : r.allOrders = all.afterFills taken

variable {stop : Order → Order → Prop} {taker maker : Order} {book rest : List Order} {all : Orders} {taken : List (Order × ℚ)}

theorem epsilon_pos : 0 < epsilon := by norm_num [epsilon]

theorem Order.fill_fill (o : Order) (x y : ℚ) : (o.fill x).fill y = o.fill (x + y) := by
  unfold Order.fill
  rw [add_assoc]

theorem Order.fill_zero (o : Order) : o.fill 0 = o := by
  unfold Order.fill
  rw [add_zero]

theorem Sweeps.refl (stop : Order → Order → Prop) (taker : Order) (book : List Order)
    (all : Orders) : Sweeps stop taker book all ⟨taker, book, all, []⟩ [] book where
  book := rfl
  fills := rfl
  positive := by simp
  covered := by simp
  consumed := by simp
  within := by simp
  filled := taker.fill_zero.symm
  bounded h := h
  resting := rfl
  record := rfl

/-- A maker in front that is filled and leaves the book. -/
theorem Sweeps.cons {r : Matched}
    (h : Sweeps stop (taker.fill (min taker.remaining maker.remaining)) book
      (all.markFilled maker.id) r taken rest)
    (hstop : ∀ taker maker fillSize, stop (Order.fill taker fillSize) maker ↔ stop taker maker)
    (hleft : epsilon < taker.remaining) (hwithin : ¬stop taker maker)
    (hmaker : epsilon < maker.remaining)
    (hdone : (maker.fill (min taker.remaining maker.remaining)).remaining ≤ epsilon)
    (hmore : taken ≠ [] →
      epsilon < (taker.fill (min taker.remaining maker.remaining)).remaining) :
    Sweeps stop taker (maker :: book) all
      (r.addFill (trade taker maker (min taker.remaining maker.remaining)))
      ((maker, min taker.remaining maker.remaining) :: taken) rest where
  book := congrArg (maker :: ·) h.book
  fills := congrArg (trade taker maker (min taker.remaining maker.remaining) :: ·) h.fills
  positive := by
    apply List.forall_mem_cons.mpr ⟨_, h.positive⟩
    exact lt_min (epsilon_pos.trans hleft) (epsilon_pos.trans hmaker)
  covered := List.forall_mem_cons.mpr ⟨min_le_right _ _, h.covered⟩
  consumed := by
    cases htaken : taken with
    | nil => simp
    | cons next others =>
      rw [htaken] at hmore
      have hconsumed := h.consumed
      rw [htaken] at hconsumed
      rw [List.dropLast_cons_of_ne_nil (List.cons_ne_nil _ _)]
      apply List.forall_mem_cons.mpr ⟨_, hconsumed⟩
      -- otherwise the taker has nothing left
      have hpositive := epsilon_pos.trans (hmore (List.cons_ne_nil _ _))
      rw [remaining_fill] at hpositive
      apply min_eq_right
      by_contra hlt
      rw [min_eq_left (not_le.mp hlt).le, sub_self] at hpositive
      exact lt_irrefl _ hpositive
  within := by
    rw [List.forall_mem_cons]
    refine ⟨hwithin, ?_⟩
    intro t ht
    exact fun hstops => h.within t ht ((hstop _ _ _).mpr hstops)
  filled := h.filled.trans (taker.fill_fill _ _)
  bounded hnonneg := by
    have hrest := h.bounded
    rw [remaining_fill] at hrest
    rw [List.map_cons, List.sum_cons]
    linarith [hrest (sub_nonneg.mpr (min_le_left _ _))]
  resting := by
    rw [List.map_cons, List.filter_cons_of_neg]
    · exact h.resting
    · simpa using hdone
  record := by
    have hafter : all.afterFill maker (min taker.remaining maker.remaining) =
      all.markFilled maker.id := if_pos hdone
    rw [Orders.afterFills, List.foldl_cons, hafter]
    exact h.record

/-- A maker that keeps a rest; the taker is filled. -/
theorem Sweeps.last (hleft : epsilon < taker.remaining) (hwithin : ¬stop taker maker)
    (hmaker : epsilon < maker.remaining)
    (hkept : ¬(maker.fill (min taker.remaining maker.remaining)).remaining ≤ epsilon) :
    Sweeps stop taker (maker :: rest) all
      ⟨taker.fill (min taker.remaining maker.remaining),
        maker.fill (min taker.remaining maker.remaining) :: rest,
        all.markPartial maker.id (maker.fill (min taker.remaining maker.remaining)).filled,
        [trade taker maker (min taker.remaining maker.remaining)]⟩
      [(maker, min taker.remaining maker.remaining)] rest where
  book := rfl
  fills := rfl
  positive := List.forall_mem_singleton.mpr (lt_min (epsilon_pos.trans hleft)
    (epsilon_pos.trans hmaker))
  covered := List.forall_mem_singleton.mpr (min_le_right _ _)
  consumed := by simp
  within := List.forall_mem_singleton.mpr hwithin
  filled := by simp
  bounded _ := by simp
  resting := by
    rw [List.map_singleton, List.filter_cons_of_pos]
    · rfl
    · simpa using hkept
  record := (if_neg hkept).symm

theorem sweep_sweeps [∀ taker maker, Decidable (stop taker maker)] (taker : Order) (all : Orders)
    (hstop : ∀ taker maker fillSize, stop (Order.fill taker fillSize) maker ↔ stop taker maker)
    (hbook : ∀ o ∈ book, epsilon < o.remaining) :
    ∃ taken rest, Sweeps stop taker book all (sweep stop taker book all) taken rest ∧
      (taken ≠ [] → epsilon < taker.remaining) := by
  induction book generalizing taker all with
  | nil => exact ⟨[], [], .refl stop taker [] all, fun h => absurd rfl h⟩
  | cons maker book ih =>
    obtain ⟨hmaker, hbook⟩ := List.forall_mem_cons.mp hbook
    rw [sweep]
    split
    · rename_i hfill
      dsimp only
      split
      · rename_i hdone
        obtain ⟨taken, rest, hsweeps, hmore⟩ :=
          ih (taker.fill (min taker.remaining maker.remaining)) (all.markFilled maker.id) hbook
        exact ⟨_, rest, hsweeps.cons hstop hfill.1 hfill.2 hmaker hdone hmore, fun _ => hfill.1⟩
      · rename_i hkept
        exact ⟨_, book, .last hfill.1 hfill.2 hmaker hkept, fun _ => hfill.1⟩
    · exact ⟨[], _, .refl stop taker _ all, fun h => absurd rfl h⟩

/-! ## The record of the makers -/

namespace Orders

def marked (maker : Order) (fillSize : ℚ) (stored : Order) : Order :=
  if (maker.fill fillSize).remaining ≤ epsilon then
    { stored with filled := stored.size, status := .filled }
  else { stored with filled := (maker.fill fillSize).filled, status := .partialFill }

theorem size_marked (maker : Order) (fillSize : ℚ) (stored : Order) :
    (marked maker fillSize stored).size = stored.size := by
  unfold marked
  split <;> rfl

theorem filled_marked (maker : Order) (fillSize : ℚ) (stored : Order) :
    (marked maker fillSize stored).filled =
      if epsilon < maker.size - (maker.filled + fillSize) then maker.filled + fillSize
      else stored.size := by
  unfold marked
  change (if maker.size - (maker.filled + fillSize) ≤ epsilon then _ else _ : Order).filled = _
  split
  · rename_i hdone
    rw [if_neg (not_lt.mpr hdone)]
  · rename_i hkept
    rw [if_pos (not_le.mp hkept)]
    rfl

theorem lookup_afterFill (all : Orders) (maker : Order) (fillSize : ℚ) (id : String) :
    (all.afterFill maker fillSize).lookup id =
      if id = maker.id then (all.lookup maker.id).map (marked maker fillSize)
      else all.lookup id := by
  unfold afterFill
  split
  · rename_i hdone
    have hmarked : marked maker fillSize = fun stored =>
        { stored with filled := stored.size, status := .filled } :=
      funext fun stored => if_pos hdone
    rw [hmarked]
    exact lookup_update all maker.id _ id
  · rename_i hkept
    have hmarked : marked maker fillSize = fun stored =>
        { stored with filled := (maker.fill fillSize).filled, status := .partialFill } :=
      funext fun stored => if_neg hkept
    rw [hmarked]
    exact lookup_update all maker.id _ id

theorem lookup_afterFills_of_notMem {id : String} (h : id ∉ taken.map fun t => t.1.id) :
    (all.afterFills taken).lookup id = all.lookup id := by
  induction taken generalizing all with
  | nil => rfl
  | cons t taken ih =>
    rw [List.map_cons, List.mem_cons, not_or] at h
    rw [afterFills, List.foldl_cons]
    exact (ih h.2).trans ((lookup_afterFill all t.1 t.2 id).trans (if_neg h.1))

/-- The record of each maker is the one of its own fill. -/
theorem lookup_afterFills {t : Order × ℚ} (hnodup : (taken.map fun t => t.1.id).Nodup)
    (ht : t ∈ taken) :
    (all.afterFills taken).lookup t.1.id = (all.lookup t.1.id).map (marked t.1 t.2) := by
  induction taken generalizing all with
  | nil => cases ht
  | cons first taken ih =>
    obtain ⟨hfirst, hnodup⟩ := List.nodup_cons.mp hnodup
    rw [afterFills, List.foldl_cons]
    cases ht with
    | head =>
      refine (lookup_afterFills_of_notMem hfirst).trans ?_
      rw [lookup_afterFill, if_pos rfl]
    | tail _ ht =>
      have hne : t.1.id ≠ first.1.id := by
        intro heq
        exact hfirst (List.mem_map.mpr ⟨t, ht, heq⟩)
      refine (ih hnodup ht).trans ?_
      rw [lookup_afterFill, if_neg hne]

end Orders

namespace OrderBook

variable {arrived : List Order} {b : OrderBook} {order : Order} {r : Matched}

/-! ## An order that is added -/

/-- What the end of `add_order` makes of a match. -/
structure Added (b : OrderBook) (order : Order) (r : Matched) (taker : Order) : Prop where
  same : ∃ status, taker = { r.taker with status := status }
  fills : (b.addOrder order).2 = r.fills
  record : (b.addOrder order).1.allOrders = r.allOrders.insert taker.id taker
  against : (b.addOrder order).1.against r.taker.side = r.book
  resting : (b.addOrder order).1.resting.Perm (b.matched r).1.resting ∨
    (b.addOrder order).1.resting.Perm (taker :: (b.matched r).1.resting)

theorem against_matched (b : OrderBook) (r : Matched) :
    (b.matched r).1.against r.taker.side = r.book := by
  unfold matched
  cases r.taker.side <;> rfl

theorem against_rest (b : OrderBook) (order : Order) :
    (b.rest order).against order.side = b.against order.side := by
  unfold rest
  cases order.side <;> rfl

theorem taker_matched (b : OrderBook) (r : Matched) :
    ∃ status, (b.matched r).2.1 = { r.taker with status := status } := by
  change ∃ status, (if r.taker.remaining ≤ epsilon then _ else r.taker) = _
  split
  · exact ⟨.filled, rfl⟩
  · exact ⟨r.taker.status, rfl⟩

theorem addOrder_added (h : b.matchOrder order = b.matched r) :
    ∃ taker, Added b order r taker := by
  have hfills : (b.addOrder order).2 = r.fills := by
    unfold addOrder
    rw [h]
    rfl
  obtain ⟨status, htaker⟩ := taker_matched b r
  have hadd := addOrder_eq h
  split at hadd
  · obtain ⟨status', hresting, -⟩ := asResting_eq (b.matched r).2.1
    rw [hresting, htaker] at hadd
    refine ⟨{ r.taker with status := status' }, ⟨status', rfl⟩, hfills, ?_, ?_, ?_⟩
    · rw [hadd]
      rfl
    · rw [hadd]
      exact (against_rest (b.matched r).1 { r.taker with status := status' }).trans
        (against_matched b r)
    · rw [hadd]
      exact .inr (rest_perm _ _)
  · rw [htaker] at hadd
    refine ⟨{ r.taker with status := status }, ⟨status, rfl⟩, hfills, ?_, ?_, ?_⟩
    · rw [hadd]
      rfl
    · rw [hadd]
      exact against_matched b r
    · rw [hadd]
      exact .inl (.refl _)

theorem Added.mem {taker : Order} (h : Added b order r taker) {o : Order}
    (ho : o ∈ (b.addOrder order).1.resting) : o = taker ∨ o ∈ (b.matched r).1.resting := by
  cases h.resting with
  | inl hperm => exact .inr (hperm.mem_iff.mp ho)
  | inr hperm => exact List.mem_cons.mp (hperm.mem_iff.mp ho)

/-- The prices that an order does not take: a market order takes all. -/
def Beyond : OrderType → Order → Order → Prop
  | .market, _, _ => False
  | .limit, taker, maker => priceCheck taker maker

instance : ∀ type taker maker, Decidable (Beyond type taker maker)
  | .market, _, _ => inferInstanceAs (Decidable False)
  | .limit, taker, maker => inferInstanceAs (Decidable (priceCheck taker maker))

/-- Both loops of the source. -/
def swept (b : OrderBook) (order : Order) : Matched :=
  sweep (Beyond order.orderType) order (b.against order.side) b.allOrders

theorem beyond_fill (type : OrderType) (taker maker : Order) (fillSize : ℚ) :
    Beyond type (taker.fill fillSize) maker ↔ Beyond type taker maker := by
  cases type <;> rfl

theorem matchOrder_eq (b : OrderBook) (order : Order) :
    b.matchOrder order = b.matched (b.swept order) := by
  unfold matchOrder swept
  cases order.orderType with
  | market => exact congrArg b.matched (marketLoop_eq order _ _)
  | limit => exact congrArg b.matched (limitLoop_eq order [] _ _)

theorem side_swept (b : OrderBook) (order : Order) : (b.swept order).taker.side = order.side :=
  (congrArg Order.side (ticket_sweep _ order _ _) : Order.side (Order.ticket _) = _)

theorem against_sublist (b : OrderBook) (side : Side) : (b.against side).Sublist b.resting := by
  cases side with
  | buy => exact List.sublist_append_right _ _
  | sell => exact List.sublist_append_left _ _

/-- A taker with a rest has come to the limit of its price or to the end of the book. -/
theorem beyond_of_left (h : b.WellFormed arrived)
    (hleft : epsilon < (b.swept order).taker.remaining) :
    ∀ o ∈ (b.swept order).book, Beyond order.orderType order o := by
  have hhead := stop_sweep (beyond_fill order.orderType) hleft
  have hmatched : (b.matched (b.swept order)).1.WellFormed arrived := h.matched order
  have hagainst := against_matched b (b.swept order)
  rw [side_swept] at hagainst
  change ∀ o ∈ (b.swept order).book.head?, Beyond order.orderType order o at hhead
  cases htype : order.orderType with
  | market =>
    rw [htype] at hhead
    intro o ho
    cases hbook : (b.swept order).book with
    | nil =>
      rw [hbook] at ho
      cases ho
    | cons first rest =>
      rw [hbook] at hhead
      exact absurd (hhead first rfl) not_false
  | limit =>
    rw [htype] at hhead
    rw [← hagainst] at hhead ⊢
    exact priceCheck_of_head hmatched hhead

/-- A resting order has its own size on record. -/
def Sized (b : OrderBook) : Prop :=
  ∀ o ∈ b.resting, ∀ stored, b.allOrders.lookup o.id = some stored → stored.size = o.size

/-- An order has taken from the front of the other side. -/
structure PriceTime (b : OrderBook) (order : Order) (taken : List (Order × ℚ))
    (rest : List Order) (taker : Order) : Prop where
  makers : b.against order.side = taken.map Prod.fst ++ rest
  fills : (b.addOrder order).2 = taken.map fun t => trade order t.1 t.2
  positive : ∀ t ∈ taken, 0 < t.2
  covered : ∀ t ∈ taken, t.1.filled + t.2 ≤ t.1.size
  consumed : ∀ t ∈ taken.dropLast, t.1.filled + t.2 = t.1.size
  within : ∀ t ∈ taken, ¬Beyond order.orderType order t.1
  recorded : (b.addOrder order).1.allOrders.lookup order.id = some taker
  size : taker.size = order.size
  filled : taker.filled = order.filled + ((b.addOrder order).2.map Trade.size).sum
  bounded : order.filled ≤ order.size → taker.filled ≤ order.size
  resting : (b.addOrder order).1.against order.side =
    (taken.map fun t => t.1.fill t.2).filter (fun o => epsilon < o.remaining) ++ rest
  record : ∀ t ∈ taken, t.1.id ≠ order.id → ∃ stored,
    (b.addOrder order).1.allOrders.lookup t.1.id = some stored ∧ stored.size = t.1.size ∧
      stored.filled = if epsilon < t.1.size - (t.1.filled + t.2) then t.1.filled + t.2
        else t.1.size
  untouched : ∀ id ≠ order.id, id ∉ (taken.map fun t => t.1.id) →
    (b.addOrder order).1.allOrders.lookup id = b.allOrders.lookup id
  stops : epsilon < order.size - taker.filled → ∀ o ∈ rest, Beyond order.orderType order o

theorem price_time_priority (h : b.WellFormed arrived) (hsized : b.Sized) (order : Order) :
    ∃ taken rest taker, b.PriceTime order taken rest taker := by
  have hmakers : ∀ o ∈ b.against order.side, epsilon < o.remaining :=
    fun o ho => h.remaining o ((against_sublist b order.side).subset ho)
  obtain ⟨taken, rest, hsweeps, -⟩ :=
    sweep_sweeps order b.allOrders (beyond_fill order.orderType) hmakers
  change Sweeps _ order (b.against order.side) b.allOrders (b.swept order) taken rest at hsweeps
  obtain ⟨taker, hadded⟩ := addOrder_added (b.matchOrder_eq order)
  have htaker : taker.id = order.id ∧ taker.size = order.size ∧
      taker.filled = order.filled + (taken.map Prod.snd).sum := by
    obtain ⟨status, hsame⟩ := hadded.same
    rw [hsame, hsweeps.filled]
    exact ⟨rfl, rfl, rfl⟩
  have hrecord := hadded.record
  rw [htaker.1, hsweeps.record] at hrecord
  have hnodup : (taken.map fun t => t.1.id).Nodup := by
    have hall := h.nodup.sublist ((against_sublist b order.side).map Order.id)
    rw [hsweeps.book, List.map_append, List.map_map] at hall
    exact hall.of_append_left
  refine ⟨taken, rest, taker, ?_⟩
  constructor
  · exact hsweeps.book
  · exact hadded.fills.trans hsweeps.fills
  · exact hsweeps.positive
  · intro t ht
    exact le_sub_iff_add_le'.mp (hsweeps.covered t ht)
  · intro t ht
    rw [hsweeps.consumed t ht]
    exact add_sub_cancel _ _
  · exact hsweeps.within
  · rw [hrecord]
    exact Finmap.lookup_insert _
  · exact htaker.2.1
  · rw [htaker.2.2, hadded.fills, hsweeps.fills, List.map_map]
    rfl
  · intro hle
    have hbounded := hsweeps.bounded (sub_nonneg.mpr hle)
    rw [htaker.2.2]
    exact le_sub_iff_add_le'.mp hbounded
  · rw [← side_swept b order, hadded.against]
    exact hsweeps.resting
  · intro t ht hne
    have hmaker : t.1 ∈ b.resting := by
      apply (against_sublist b order.side).subset
      rw [hsweeps.book]
      exact List.mem_append_left _ (List.mem_map_of_mem ht)
    obtain ⟨stored, hstored, -⟩ := h.mirrors.recorded t.1 hmaker
    have hsize := hsized t.1 hmaker stored hstored
    refine ⟨Orders.marked t.1 t.2 stored, ?_, ?_, ?_⟩
    · rw [hrecord, StorageMap.lookup_insert_eq, if_neg hne, Orders.lookup_afterFills hnodup ht,
        hstored]
      rfl
    · exact (Orders.size_marked t.1 t.2 stored).trans hsize
    · exact hsize ▸ Orders.filled_marked t.1 t.2 stored
  · intro id hne hid
    rw [hrecord, StorageMap.lookup_insert_eq, if_neg hne]
    exact Orders.lookup_afterFills_of_notMem hid
  · intro hleft o ho
    apply beyond_of_left h
    · have hsame : (b.swept order).taker.remaining = order.size - taker.filled := by
        rw [hsweeps.filled, htaker.2.2]
        rfl
      rw [hsame]
      exact hleft
    · rw [hsweeps.resting]
      exact List.mem_append_right _ ho

/-! ## Sizes on record, over every run -/

theorem sized_new : Sized .new := by
  intro o ho
  cases ho

/-- The taker that is recorded is the order that came. -/
theorem Added.ticket {taker : Order} (h : Added b order (b.swept order) taker) :
    ∃ filled status, taker = { order with filled := filled, status := status } := by
  obtain ⟨status, hsame⟩ := h.same
  have hticket := ticket_sweep (Beyond order.orderType) order (b.against order.side) b.allOrders
  change (b.swept order).taker.ticket = order.ticket at hticket
  refine ⟨(b.swept order).taker.filled, status, ?_⟩
  rw [hsame]
  exact congrArg (fun o : Order =>
    { o with filled := (b.swept order).taker.filled, status := status }) hticket

/-- A record but for what is filled and the status does not change. -/
theorem map_lookup_swept {α : Type} (f : Order → α)
    (hf : ∀ o filled status, f { o with filled := filled, status := status } = f o)
    (b : OrderBook) (order : Order) (id : String) :
    ((b.swept order).allOrders.lookup id).map f = (b.allOrders.lookup id).map f :=
  map_lookup_sweep f hf (Beyond order.orderType) order (b.against order.side) b.allOrders id

theorem addOrder_sized (h : b.WellFormed arrived) (ht : b.Traced arrived) (hsized : b.Sized)
    (harrives : Arrives arrived order) : (b.addOrder order).1.Sized := by
  obtain ⟨taker, hadded⟩ := addOrder_added (b.matchOrder_eq order)
  have htaker : taker.id = order.id := by
    obtain ⟨filled, status, hsame⟩ := hadded.ticket
    rw [hsame]
  intro o ho stored hstored
  rw [hadded.record, StorageMap.lookup_insert_eq] at hstored
  cases hadded.mem ho with
  | inl heq =>
    rw [heq, if_pos rfl] at hstored
    cases hstored
    rw [heq]
  | inr ho =>
    obtain ⟨o', ho', hticket⟩ := ticket_matched b order ho
    have hid : o'.id = o.id := (congrArg Order.id hticket : o'.ticket.id = o.ticket.id)
    have hsize : o'.size = o.size := (congrArg Order.size hticket : o'.ticket.size = o.ticket.size)
    have hne : o.id ≠ taker.id := by
      intro heq
      apply harrives.fresh
      rw [← htaker, ← heq, ← hid]
      exact ht.mem_ids ho'
    rw [if_neg hne] at hstored
    have hsizes := map_lookup_swept Order.size (fun _ _ _ => rfl) b order o.id
    obtain ⟨old, hold, -⟩ := h.mirrors.recorded o' ho'
    have hbefore := hsized o' ho' old hold
    rw [hid] at hold
    rw [hstored, hold] at hsizes
    rw [← hsize, ← hbefore]
    exact Option.some.inj hsizes

theorem cancelOrder_sized (hsized : b.Sized) (orderId owner : String) :
    (b.cancelOrder orderId owner).1.Sized := by
  unfold cancelOrder
  split
  · exact hsized
  · split
    · exact hsized
    · split
      · exact hsized
      · intro o ho stored hstored
        have ho : o ∈ b.resting := by
          apply List.Sublist.subset _ ho
          exact List.filter_sublist.append List.filter_sublist
        change (b.allOrders.update orderId _).lookup o.id = some stored at hstored
        rw [Orders.lookup_update] at hstored
        split at hstored
        · rename_i hid
          obtain ⟨old, hold, rfl⟩ := Option.map_eq_some_iff.mp hstored
          rw [← hid] at hold
          exact hsized o ho old hold
        · exact hsized o ho stored hstored

theorem sized_after (ops : List BookOp) (hids : (ids (arrivals ops)).Nodup)
    (htimes : (arrivals ops).Pairwise fun a b => a.timestamp ≤ b.timestamp) :
    (after ops).Sized := by
  induction ops using List.reverseRecOn with
  | nil => exact sized_new
  | append_singleton ops op ih =>
    have hsub : (arrivals ops).Sublist (arrivals (ops ++ [op])) :=
      (List.sublist_append_left ops [op]).filterMap _
    have hids' := hids.sublist (hsub.map Order.id)
    have htimes' := htimes.sublist hsub
    obtain ⟨hwell, htraced⟩ := wellFormed_run ops hids' htimes'
    have hrun : after (ops ++ [op]) = op.apply (after ops) := Machine.run_append _ _ _
    rw [hrun]
    cases op with
    | addOrder id pair side orderType price size address timestamp =>
      have hsnoc : arrivals (ops ++ [.addOrder id pair side orderType price size address timestamp]) =
        arrivals ops ++ [.new id pair side orderType price size address timestamp] :=
        List.filterMap_append
      rw [hsnoc] at hids htimes
      exact addOrder_sized hwell htraced (ih hids' htimes') (arrives_of_snoc hids htimes)
    | cancelOrder orderId owner => exact cancelOrder_sized (ih hids' htimes') orderId owner

/-- Two asks at two prices; a bid takes all of the better one and a part of the other. -/
def twoAsks : List BookOp :=
  [.addOrder "ord-1" "QBC/QUSD" .sell .limit 3 10 "alice" 5,
    .addOrder "ord-2" "QBC/QUSD" .sell .limit 2 4 "bob" 6]

theorem price_time_priority_two_asks : ∃ taken rest taker, (after twoAsks).PriceTime
    (.new "ord-3" "QBC/QUSD" .buy .limit 3 9 "carol" 7) taken rest taker :=
  price_time_priority (wellFormed_after twoAsks (by decide) (by decide) _ (List.prefix_refl _))
    (sized_after twoAsks (by decide) (by decide)) _

/-! ## Dust -/

/-- The filled amount on record rises by the fills alone. -/
def RecordsFills (b : OrderBook) (order : Order) : Prop :=
  ∀ maker ∈ b.against order.side, ∀ stored ∈ (b.addOrder order).1.allOrders.lookup maker.id,
    stored.filled = maker.filled +
      (((b.addOrder order).2.filter fun t => t.makerOrderId = maker.id).map Trade.size).sum

/-- A taker that is not filled has taken all that it could. -/
def TakesAll (b : OrderBook) (order : Order) : Prop :=
  ∀ taker ∈ (b.addOrder order).1.allOrders.lookup order.id, taker.filled < taker.size →
    ∀ maker ∈ (b.addOrder order).1.against order.side, Beyond order.orderType order maker

instance (b : OrderBook) (order : Order) : Decidable (b.RecordsFills order) :=
  inferInstanceAs (Decidable (∀ _ ∈ _, ∀ _ ∈ _, _ = _))

instance (b : OrderBook) (order : Order) : Decidable (b.TakesAll order) :=
  inferInstanceAs (Decidable (∀ _ ∈ _, _ < _ → ∀ _ ∈ _, Beyond _ _ _))

def oneAsk : List BookOp := [.addOrder "ord-1" "QBC/QUSD" .sell .limit 2 1 "alice" 5]

/-- An ask with a rest of `1e-13` is put down as filled; a bid of `1e-13` takes nothing. -/
theorem dust_not_filled :
    (after oneAsk).WellFormed (arrivals oneAsk) ∧ (after oneAsk).Sized ∧
      ¬(after oneAsk).RecordsFills
        (.new "ord-2" "QBC/QUSD" .buy .limit 2 (1 - 1 / 10 ^ 13) "bob" 6) ∧
      ¬(after oneAsk).TakesAll (.new "ord-2" "QBC/QUSD" .buy .limit 2 (1 / 10 ^ 13) "bob" 6) := by
  refine ⟨wellFormed_after oneAsk (by decide) (by decide) _ (List.prefix_refl _),
    sized_after oneAsk (by decide) (by decide), ?_, ?_⟩
  · decide +kernel
  · decide +kernel

end OrderBook

end Qubitcoin.QbcExchange
