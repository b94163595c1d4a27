import Qubitcoin.QbcExchange.PriceTime
import Qubitcoin.QbcExchange.PythonBook

/-! The two books agree wherever no order is left with dust. -/

namespace Qubitcoin.QbcExchange

/-- The order as it rests; the status of a resting order is not kept up. -/
def Order.shown (o : Order) : Order := { o with status := .opened }

theorem Order.shown_eq {a b : Order} (h : a.shown = b.shown) : a = { b with status := a.status } :=
  congrArg (fun o : Order => { o with status := a.status }) h

/-- Neither the taker nor a maker is ever left with dust: what the orders in front leave of the
taker, or of the last of them, is nothing or more than dust. -/
def Clear (stop : Order → Order → Prop) (taker : Order) (book : List Order) : Prop :=
  ∀ front, front <+: book → (∀ o ∈ front, ¬stop taker o) →
    taker.remaining = (front.map Order.remaining).sum ∨
      epsilon < |taker.remaining - (front.map Order.remaining).sum|

instance (stop : Order → Order → Prop) [∀ taker maker, Decidable (stop taker maker)]
    (taker : Order) (book : List Order) : Decidable (Clear stop taker book) :=
  decidable_of_iff
    (∀ front ∈ book.inits, (∀ o ∈ front, ¬stop taker o) →
      taker.remaining = (front.map Order.remaining).sum ∨
        epsilon < |taker.remaining - (front.map Order.remaining).sum|)
    (forall_congr' fun front => by rw [List.mem_inits])

section Clear

variable {stop : Order → Order → Prop} {taker maker : Order} {book : List Order}

theorem Clear.taker_left (h : Clear stop taker book) : 0 < taker.remaining ↔ epsilon < taker.remaining := by
  have hnone := h [] (List.nil_prefix) (by simp)
  rw [List.map_nil, List.sum_nil, sub_zero] at hnone
  constructor
  · intro hpos
    rw [abs_of_pos hpos] at hnone
    exact hnone.resolve_left hpos.ne'
  · exact epsilon_pos.trans

theorem Clear.maker_done (h : Clear stop taker (maker :: book)) (hgo : ¬stop taker maker) :
    (maker.fill (min taker.remaining maker.remaining)).remaining ≤ 0 ↔
      (maker.fill (min taker.remaining maker.remaining)).remaining ≤ epsilon := by
  have hfirst := h [maker] (by simp) (by simpa using hgo)
  rw [List.map_singleton, List.sum_singleton] at hfirst
  rw [remaining_fill]
  constructor
  · intro hle
    exact hle.trans epsilon_pos.le
  · intro hle
    rw [sub_le_iff_le_add] at hle ⊢
    rcases min_cases taker.remaining maker.remaining with ⟨hmin, -⟩ | ⟨hmin, -⟩
    · rw [hmin] at hle ⊢
      rcases hfirst with heq | hfar
      · linarith
      · rcases lt_abs.mp hfar with hlt | hlt
        · linarith [epsilon_pos]
        · linarith
    · rw [hmin, zero_add]

theorem Clear.next (h : Clear stop taker (maker :: book)) (hgo : ¬stop taker maker)
    (hstop : ∀ taker maker fillSize, stop (Order.fill taker fillSize) maker ↔ stop taker maker) :
    Clear stop (taker.fill maker.remaining) book := by
  intro front hfront hwithin
  have hcons := h (maker :: front) (List.cons_prefix_cons.mpr ⟨rfl, hfront⟩) (by
    rw [List.forall_mem_cons]
    exact ⟨hgo, fun o ho hbeyond => hwithin o ho ((hstop _ _ _).mpr hbeyond)⟩)
  rw [List.map_cons, List.sum_cons] at hcons
  rw [remaining_fill, sub_sub]
  exact hcons.imp_left sub_eq_iff_eq_add'.mpr

end Clear

namespace Python

/-! ## One sweep in place of both loops -/

section Sweep

variable (stop : Order → Order → Prop) [∀ taker maker, Decidable (stop taker maker)]

def sweep (taker : Order) : List Ref → Heap → Matched
  | [], objects => ⟨taker, [], objects, []⟩
  | ref :: rest, objects =>
    let maker := objects ref
    if 0 < taker.remaining ∧ ¬stop taker maker then
      let fillSize := min taker.remaining maker.remaining
      let maker' := maker.fill fillSize
      if maker'.remaining ≤ 0 then
        (sweep (taker.fill fillSize) rest
          (Function.update objects ref { maker' with status := .filled })).addFill
            (trade taker maker fillSize)
      else
        ⟨taker.fill fillSize, ref :: rest,
          Function.update objects ref { maker' with status := .partialFill },
          [trade taker maker fillSize]⟩
    else ⟨taker, ref :: rest, objects, []⟩

end Sweep

theorem limitLoop_of_done {taker : Order} (h : taker.remaining = 0) (front rest : List Ref)
    (objects : Heap) : limitLoop taker front rest objects = ⟨taker, front ++ rest, objects, []⟩ := by
  cases rest with
  | nil => rw [limitLoop, List.append_nil]
  | cons ref rest => rw [limitLoop, h, if_neg fun hmore => lt_irrefl 0 hmore.1]

theorem marketLoop_of_done {taker : Order} (h : taker.remaining = 0) (book : List Ref)
    (objects : Heap) : marketLoop taker book objects = ⟨taker, book, objects, []⟩ := by
  cases book with
  | nil => rw [marketLoop]
  | cons ref rest => rw [marketLoop, h, if_neg (lt_irrefl 0)]

theorem limitLoop_eq (taker : Order) (front rest : List Ref) (objects : Heap) :
    limitLoop taker front rest objects =
      { sweep priceCheck taker rest objects with
        book := front ++ (sweep priceCheck taker rest objects).book } := by
  induction rest generalizing taker objects with
  | nil => rw [limitLoop, sweep, List.append_nil]
  | cons ref rest ih =>
    rw [limitLoop, sweep]
    split
    · dsimp only
      split
      · rw [ih]
        rfl
      · next hrest =>
        rw [limitLoop_of_done (remaining_fill_eq_zero hrest), List.append_assoc]
        rfl
    · rfl

theorem marketLoop_eq (taker : Order) (book : List Ref) (objects : Heap) :
    marketLoop taker book objects = sweep (fun _ _ => False) taker book objects := by
  induction book generalizing taker objects with
  | nil => rw [marketLoop, sweep]
  | cons ref rest ih =>
    rw [marketLoop, sweep]
    simp only [not_false_eq_true, and_true]
    split
    · split
      · rw [ih]
      · next hrest =>
        rw [marketLoop_of_done (remaining_fill_eq_zero hrest)]
        rfl
    · rfl

end Python

/-! ## The objects seen from the other book -/

open Python (Ref Heap)

/-- The record of the one book shows the objects that the dictionary of the other refers to. -/
structure View (dict : StorageMap String Ref) (objects : Heap) (all : Orders) : Prop where
  record : ∀ id, (dict.lookup id).map objects = all.lookup id
  named : ∀ id ref, dict.lookup id = some ref → (objects ref).id = id

/-- A side of the one book shows the objects on a side of the other. -/
structure Lists (dict : StorageMap String Ref) (objects : Heap) (refs : List Ref)
    (book : List Order) : Prop where
  recorded : ∀ ref ∈ refs, dict.lookup (objects ref).id = some ref
  shown : refs.map (fun ref => (objects ref).shown) = book.map Order.shown

variable {dict : StorageMap String Ref} {objects objects' : Heap} {all : Orders} {ref : Ref}
  {refs : List Ref} {book : List Order} {taker maker order : Order}

theorem View.update (h : View dict objects all) (hid : order.id = (objects ref).id)
    (hrecorded : dict.lookup (objects ref).id = some ref) {change : Order → Order}
    (hchange : change (objects ref) = order) :
    View dict (Function.update objects ref order) (all.update (objects ref).id change) where
  record id := by
    rw [Orders.lookup_update]
    split
    · rename_i heq
      rw [heq, ← h.record, hrecorded]
      simp [hchange]
    · rename_i hne
      rw [← h.record]
      cases hlookup : dict.lookup id with
      | none => rfl
      | some ref' =>
        have hother : ref' ≠ ref := by
          rintro rfl
          exact hne (h.named id ref' hlookup).symm
        simp [hother]
  named id ref' hlookup := by
    have hname := h.named id ref' hlookup
    by_cases heq : ref' = ref
    · rw [heq, Function.update_self, hid, ← heq, hname]
    · rw [Function.update_of_ne heq, hname]

theorem View.markPartial (h : View dict objects all)
    (hrecorded : dict.lookup (objects ref).id = some ref)
    (hfilled : (objects ref).filled = maker.filled) (x : ℚ) :
    View dict
      (Function.update objects ref { (objects ref).fill x with status := .partialFill })
      (all.markPartial (objects ref).id (maker.fill x).filled) := by
  have hid : ({ (objects ref).fill x with status := .partialFill } : Order).id = (objects ref).id :=
    rfl
  apply h.update hid hrecorded
  unfold Order.fill
  rw [hfilled]

theorem View.markFilled (h : View dict objects all)
    (hrecorded : dict.lookup (objects ref).id = some ref) {x : ℚ}
    (hall : x = (objects ref).remaining) :
    View dict (Function.update objects ref { (objects ref).fill x with status := .filled })
      (all.markFilled (objects ref).id) := by
  have hid : ({ (objects ref).fill x with status := .filled } : Order).id = (objects ref).id := rfl
  apply h.update hid hrecorded
  unfold Order.fill
  rw [hall, Order.remaining, add_sub_cancel]

theorem View.cancel (h : View dict objects all)
    (hrecorded : dict.lookup (objects ref).id = some ref) :
    View dict (Function.update objects ref { objects ref with status := .cancelled })
      (all.update (objects ref).id fun o => { o with status := .cancelled }) := by
  have hid : ({ objects ref with status := .cancelled } : Order).id = (objects ref).id := rfl
  exact h.update hid hrecorded rfl

theorem Lists.cons (hrecorded : dict.lookup (objects ref).id = some ref)
    (hshown : (objects ref).shown = maker.shown) (h : Lists dict objects refs book) :
    Lists dict objects (ref :: refs) (maker :: book) where
  recorded := List.forall_mem_cons.mpr ⟨hrecorded, h.recorded⟩
  shown := by rw [List.map_cons, List.map_cons, hshown, h.shown]

/-- What is listed depends on the objects of the list alone, and not on their status. -/
theorem Lists.congr (h : Lists dict objects refs book)
    (hsame : ∀ ref ∈ refs, (objects' ref).shown = (objects ref).shown) :
    Lists dict objects' refs book where
  recorded ref hmem := by
    have hid : (objects' ref).id = (objects ref).id :=
      (congrArg Order.id (hsame ref hmem) : (objects' ref).shown.id = _)
    rw [hid]
    exact h.recorded ref hmem
  shown := by
    rw [← h.shown]
    exact List.map_congr_left hsame

theorem Lists.ids (h : Lists dict objects refs book) :
    refs.map (fun ref => (objects ref).id) = book.map Order.id := by
  have hids := congrArg (List.map Order.id) h.shown
  rw [List.map_map, List.map_map] at hids
  exact hids

/-- An object that is not on the side may change. -/
theorem Lists.update (h : Lists dict objects refs book)
    (hfresh : (objects ref).id ∉ book.map Order.id) (order : Order) :
    Lists dict (Function.update objects ref order) refs book := by
  apply h.congr
  intro ref' hmem
  apply congrArg Order.shown
  apply Function.update_of_ne
  rintro rfl
  apply hfresh
  rw [← h.ids]
  exact List.mem_map_of_mem hmem

theorem eq_of_done {x : ℚ} (hle : x ≤ maker.remaining) (hdone : (maker.fill x).remaining ≤ 0) :
    x = maker.remaining := by
  rw [remaining_fill, sub_nonpos] at hdone
  exact le_antisymm hle hdone

/-! ## The sweeps agree -/

structure Agrees (dict : StorageMap String Ref) (objects : Heap) (refs : List Ref)
    (p : Python.Matched) (r : Matched) : Prop where
  taker : p.taker = r.taker
  fills : p.fills = r.fills
  view : View dict p.objects r.allOrders
  lists : Lists dict p.objects p.book r.book
  apart : ∀ ref ∉ refs, p.objects ref = objects ref
  left : 0 < r.taker.remaining ↔ epsilon < r.taker.remaining

theorem sweep_agrees {stop : Order → Order → Prop} [∀ taker maker, Decidable (stop taker maker)]
    (hstop : ∀ taker maker fillSize, stop (Order.fill taker fillSize) maker ↔ stop taker maker)
    (hstatus : ∀ taker maker, stop taker (Order.shown maker) ↔ stop taker maker)
    (hview : View dict objects all) (hlists : Lists dict objects refs book)
    (hnodup : (book.map Order.id).Nodup) (hclear : Clear stop taker book) :
    Agrees dict objects refs (Python.sweep stop taker refs objects) (sweep stop taker book all) := by
  induction refs generalizing taker book objects all with
  | nil =>
    cases book with
    | nil => exact ⟨rfl, rfl, hview, hlists, fun _ _ => rfl, hclear.taker_left⟩
    | cons maker book => cases hlists.shown
  | cons ref refs ih =>
    cases book with
    | nil => cases hlists.shown
    | cons maker book =>
      obtain ⟨hrecorded, hrest⟩ := List.forall_mem_cons.mp hlists.recorded
      obtain ⟨hshown, htail⟩ := List.cons.inj hlists.shown
      change (objects ref).shown = maker.shown at hshown
      obtain ⟨hfresh, hnodup⟩ := List.nodup_cons.mp hnodup
      have htail : Lists dict objects refs book := ⟨hrest, htail⟩
      have hid : (objects ref).id = maker.id :=
        (congrArg Order.id hshown : (objects ref).shown.id = _)
      have hremaining : (objects ref).remaining = maker.remaining :=
        (congrArg Order.remaining hshown : (objects ref).shown.remaining = _)
      have htrade (x : ℚ) : trade taker (objects ref) x = trade taker maker x :=
        (congrArg (trade taker · x) hshown : trade taker (objects ref).shown x = _)
      have hbeyond : stop taker (objects ref) ↔ stop taker maker := by
        rw [← hstatus, hshown, hstatus]
      have hfresh : (objects ref).id ∉ book.map Order.id := hid ▸ hfresh
      rw [Python.sweep, sweep]
      simp only [hremaining, htrade, hclear.taker_left, hbeyond]
      by_cases hgo : epsilon < taker.remaining ∧ ¬stop taker maker
      · have hrest : ((objects ref).fill (min taker.remaining maker.remaining)).remaining =
            (maker.fill (min taker.remaining maker.remaining)).remaining := by
          rw [remaining_fill, remaining_fill, hremaining]
        rw [if_pos hgo, if_pos hgo, hrest]
        simp only [hclear.maker_done hgo.2]
        by_cases hdone : (maker.fill (min taker.remaining maker.remaining)).remaining ≤ epsilon
        · rw [if_pos hdone, if_pos hdone]
          have hall := eq_of_done (min_le_right _ _) ((hclear.maker_done hgo.2).mpr hdone)
          rw [hall, ← hid]
          have hrun := ih (hview.markFilled hrecorded hremaining.symm) (htail.update hfresh _)
            hnodup (hclear.next hgo.2 hstop)
          constructor
          · exact hrun.taker
          · exact congrArg (trade taker maker maker.remaining :: ·) hrun.fills
          · exact hrun.view
          · exact hrun.lists
          · intro ref' hmem
            exact (hrun.apart ref' (List.not_mem_of_not_mem_cons hmem)).trans
              (Function.update_of_ne (List.ne_of_not_mem_cons hmem) _ _)
          · exact hrun.left
        · rw [if_neg hdone, if_neg hdone]
          have hleft := remaining_fill_eq_zero hdone
          generalize min taker.remaining maker.remaining = x at *
          constructor
          · rfl
          · rfl
          · have hfilled : (objects ref).filled = maker.filled :=
              (congrArg Order.filled hshown : (objects ref).shown.filled = _)
            rw [← hid]
            exact hview.markPartial hrecorded hfilled x
          · dsimp only
            apply Lists.cons
            · rw [Function.update_self]
              exact hrecorded
            · rw [Function.update_self]
              exact (congrArg (fun o => (Order.fill o x).shown) hshown :
                ((objects ref).shown.fill x).shown = _)
            · exact htail.update hfresh _
          · intro ref' hmem
            exact Function.update_of_ne (List.ne_of_not_mem_cons hmem) _ _
          · rw [hleft]
            exact ⟨fun h => absurd h (lt_irrefl 0), epsilon_pos.trans⟩
      · rw [if_neg hgo, if_neg hgo]
        exact ⟨rfl, rfl, hview, hlists, fun _ _ => rfl, hclear.taker_left⟩

theorem Lists.filter (h : Lists dict objects refs book) (id : String) :
    Lists dict objects (refs.filter fun ref => (objects ref).id ≠ id)
      (book.filter fun o => o.id ≠ id) where
  recorded ref hmem := h.recorded ref (List.mem_filter.mp hmem).1
  shown := by
    have hleft := List.filter_map (p := fun o : Order => decide (o.id ≠ id))
      (f := fun ref => (objects ref).shown) (l := refs)
    have hright := List.filter_map (p := fun o : Order => decide (o.id ≠ id)) (f := Order.shown)
      (l := book)
    rw [h.shown] at hleft
    exact hleft.symm.trans hright

/-! ## The books -/

theorem View.insert (h : View dict objects all)
    (hnew : ∀ id ref', dict.lookup id = some ref' → ref' ≠ ref) (order : Order) :
    View (dict.insert order.id ref) (Function.update objects ref order)
      (all.insert order.id order) where
  record id := by
    rw [StorageMap.lookup_insert_eq, StorageMap.lookup_insert_eq]
    split
    · simp
    · rw [← h.record]
      cases hlookup : dict.lookup id with
      | none => rfl
      | some ref' => simp [hnew id ref' hlookup]
  named id ref' hlookup := by
    rw [StorageMap.lookup_insert_eq] at hlookup
    split at hlookup
    · rename_i hid
      cases hlookup
      rw [Function.update_self, hid]
    · rw [Function.update_of_ne (hnew id ref' hlookup)]
      exact h.named id ref' hlookup

theorem View.congr (h : View dict objects all)
    (hsame : ∀ id ref, dict.lookup id = some ref → objects' ref = objects ref) :
    View dict objects' all where
  record id := by
    rw [← h.record]
    cases hlookup : dict.lookup id with
    | none => rfl
    | some ref => simp [hsame id ref hlookup]
  named id ref hlookup := by
    rw [hsame id ref hlookup]
    exact h.named id ref hlookup

theorem Lists.insert (h : Lists dict objects refs book)
    (hnew : ∀ id ref', dict.lookup id = some ref' → ref' ≠ ref)
    (hfresh : dict.lookup order.id = none) :
    Lists (dict.insert order.id ref) (Function.update objects ref order) refs book := by
  have hdict : Lists (dict.insert order.id ref) objects refs book := by
    refine ⟨?_, h.shown⟩
    intro ref' hmem
    rw [StorageMap.lookup_insert_eq, if_neg]
    · exact h.recorded ref' hmem
    · intro heq
      have hlookup := h.recorded ref' hmem
      rw [heq, hfresh] at hlookup
      cases hlookup
  apply hdict.congr
  intro ref' hmem
  exact congrArg Order.shown (Function.update_of_ne (hnew _ ref' (h.recorded ref' hmem)) _ _)

/-- The order takes its place behind the others of its side. -/
theorem Lists.snoc (h : Lists dict objects refs book)
    (hnew : ∀ id ref', dict.lookup id = some ref' → ref' ≠ ref)
    (hfresh : dict.lookup order.id = none) :
    Lists (dict.insert order.id ref) (Function.update objects ref order) (refs ++ [ref])
      (book ++ [order]) := by
  have hold := h.insert hnew hfresh
  constructor
  · intro ref' hmem
    rcases List.mem_append.mp hmem with hmem | hmem
    · exact hold.recorded ref' hmem
    · rw [List.mem_singleton.mp hmem, Function.update_self, Finmap.lookup_insert]
  · rw [List.map_append, List.map_append, hold.shown]
    simp

theorem keyLe_iff (k k' : ℚ × ℕ) :
    Python.OrderBook.keyLe k k' = true ↔ k.1 < k'.1 ∨ (k.1 = k'.1 ∧ k.2 ≤ k'.2) := by
  simp only [Python.OrderBook.keyLe, Bool.or_eq_true, Bool.and_eq_true, decide_eq_true_eq]

theorem keyLe_sortKey (side : Side) (a b : Order) :
    Python.OrderBook.keyLe (Python.OrderBook.sortKey side a) (Python.OrderBook.sortKey side b) =
      OrderBook.sortLe side a b := by
  cases side with
  | buy =>
    rw [Bool.eq_iff_iff, keyLe_iff]
    simp only [Python.OrderBook.sortKey, OrderBook.sortLe, neg_lt_neg_iff, neg_inj,
      Bool.or_eq_true, Bool.and_eq_true, decide_eq_true_eq]
  | sell => rfl

theorem sortLe_shown (side : Side) (a b : Order) :
    OrderBook.sortLe side a.shown b.shown = OrderBook.sortLe side a b := by
  cases side <;> rfl

theorem Lists.sort (h : Lists dict objects refs book) (side : Side) :
    Lists dict objects (Python.OrderBook.sortRefs side objects refs)
      (book.mergeSort (OrderBook.sortLe side)) where
  recorded ref hmem := h.recorded ref (List.mem_mergeSort.mp hmem)
  shown := by
    unfold Python.OrderBook.sortRefs
    rw [List.map_mergeSort (s := OrderBook.sortLe side), List.map_mergeSort (s := OrderBook.sortLe side),
      h.shown]
    · intro a _ b _
      exact (sortLe_shown side a b).symm
    · intro r _ r' _
      rw [sortLe_shown, keyLe_sortKey]

/-- The two books show the same orders, on both sides and on record. -/
structure Same (b : OrderBook) (p : Python.OrderBook) : Prop where
  view : View p.allOrders p.objects b.allOrders
  bids : Lists p.allOrders p.objects p.bids b.bids
  asks : Lists p.allOrders p.objects p.asks b.asks
  created : ∀ id ref, p.allOrders.lookup id = some ref → ref < p.created

namespace Python.OrderBook

def start (p : OrderBook) (order : Order) : OrderBook :=
  { p with
    created := p.created + 1
    objects := Function.update p.objects p.created order
    allOrders := p.allOrders.insert order.id p.created }

/-- Both loops of the source. -/
def swept (p : OrderBook) (order : Order) : Matched :=
  Python.sweep (QbcExchange.OrderBook.Beyond order.orderType) order (p.against order.side)
    (Function.update p.objects p.created order)

theorem matchOrder_eq (p : OrderBook) (order : Order) :
    (p.start order).matchOrder p.created order = (p.start order).matched p.created (p.swept order) := by
  have hagainst : (p.start order).against order.side = p.against order.side := by
    cases order.side <;> rfl
  unfold matchOrder matchMarket matchLimit swept
  rw [hagainst]
  cases order.orderType with
  | market => exact congrArg ((p.start order).matched p.created) (marketLoop_eq order _ _)
  | limit => exact congrArg ((p.start order).matched p.created) (limitLoop_eq order [] _ _)

/-- The taker as the matching leaves it. -/
def done (taker : Order) : Order :=
  if taker.remaining ≤ 0 then { taker with status := .filled } else taker

/-- The end of `add_order`: what is left of a limit order rests. -/
def finish (ref : Ref) (q : OrderBook × List Trade) : OrderBook × List Trade :=
  let order := q.1.objects ref
  if 0 < order.remaining ∧ order.orderType = .limit then
    if 0 < order.filled then
      ({ q.1.rest ref order with
          objects := Function.update (q.1.rest ref order).objects ref
            { order with status := .partialFill } },
        q.2)
    else (q.1.rest ref order, q.2)
  else q

theorem objects_rest (p : OrderBook) (ref : Ref) (o : Order) :
    (p.rest ref o).objects = p.objects := by
  unfold rest
  cases o.side <;> rfl

theorem addOrder_eq (p : OrderBook) (order : Order) :
    p.addOrder order =
      (if 0 < (done (p.swept order).taker).remaining ∧
          (done (p.swept order).taker).orderType = .limit then
        { ((p.start order).matched p.created (p.swept order)).1.rest p.created
            (done (p.swept order).taker) with
          objects := Function.update (p.swept order).objects p.created
            (QbcExchange.OrderBook.asResting (done (p.swept order).taker)) }
      else ((p.start order).matched p.created (p.swept order)).1,
      (p.swept order).fills) := by
  have hobjects : ((p.start order).matched p.created (p.swept order)).1.objects =
      Function.update (p.swept order).objects p.created (done (p.swept order).taker) := rfl
  change finish p.created ((p.start order).matchOrder p.created order) = _
  rw [matchOrder_eq, finish, objects_rest, hobjects, Function.update_self]
  split
  · unfold QbcExchange.OrderBook.asResting
    split
    · rw [Function.update_idem]
      rfl
    · rw [← hobjects, ← objects_rest _ p.created (done (p.swept order).taker)]
      rfl
  · rfl

end Python.OrderBook

theorem Same.against {b : OrderBook} {p : Python.OrderBook} (h : Same b p) (side : Side) :
    Lists p.allOrders p.objects (p.against side) (b.against side) := by
  cases side with
  | buy => exact h.asks
  | sell => exact h.bids

def Side.other : Side → Side
  | .buy => .sell
  | .sell => .buy

theorem Same.of_sides {b : OrderBook} {p : Python.OrderBook} (side : Side)
    (view : View p.allOrders p.objects b.allOrders)
    (against : Lists p.allOrders p.objects (p.against side) (b.against side))
    (own : Lists p.allOrders p.objects (p.against side.other) (b.against side.other))
    (created : ∀ id ref, p.allOrders.lookup id = some ref → ref < p.created) : Same b p := by
  cases side with
  | buy => exact ⟨view, own, against, created⟩
  | sell => exact ⟨view, against, own, created⟩

theorem beyond_shown (type : OrderType) (taker maker : Order) :
    OrderBook.Beyond type taker maker.shown ↔ OrderBook.Beyond type taker maker := by
  cases type <;> rfl

namespace OrderBook

variable {arrived : List Order} {b : OrderBook} {p : Python.OrderBook}

theorem swept_agrees (h : Same b p) (hwell : b.WellFormed arrived)
    (hclear : Clear (Beyond order.orderType) order (b.against order.side)) :
    Agrees p.allOrders p.objects (p.created :: p.against order.side) (p.swept order) (b.swept order) := by
  have hold : ∀ id ref, p.allOrders.lookup id = some ref →
      Function.update p.objects p.created order ref = p.objects ref := by
    intro id ref hlookup
    exact Function.update_of_ne (h.created id ref hlookup).ne _ _
  have hlists := h.against order.side
  have hagrees : Agrees p.allOrders (Function.update p.objects p.created order)
      (p.against order.side) (p.swept order) (b.swept order) := by
    apply sweep_agrees (beyond_fill _) (beyond_shown _) (h.view.congr hold)
    · apply hlists.congr
      intro ref hmem
      exact congrArg Order.shown (hold _ ref (hlists.recorded ref hmem))
    · exact hwell.nodup.sublist ((against_sublist b order.side).map Order.id)
    · exact hclear
  refine ⟨hagrees.taker, hagrees.fills, hagrees.view, hagrees.lists, ?_, hagrees.left⟩
  intro ref hmem
  rw [hagrees.apart ref (List.not_mem_of_not_mem_cons hmem)]
  exact Function.update_of_ne (List.ne_of_not_mem_cons hmem) _ _

/-- The taker after a match, the same in both. -/
theorem done_eq (hagrees : Agrees dict objects refs (p.swept order) (b.swept order)) :
    Python.OrderBook.done (p.swept order).taker = (b.matched (b.swept order)).2.1 := by
  have hiff : (b.swept order).taker.remaining ≤ 0 ↔ (b.swept order).taker.remaining ≤ epsilon := by
    rw [← not_lt, hagrees.left, not_lt]
  change _ = if (b.swept order).taker.remaining ≤ epsilon then _ else _
  unfold Python.OrderBook.done
  rw [hagrees.taker]
  simp only [hiff]

theorem own_matched (b : OrderBook) (r : Matched) :
    (b.matched r).1.against r.taker.side.other = b.against r.taker.side.other := by
  unfold matched
  cases r.taker.side <;> rfl

theorem own_rest (b : OrderBook) (o : Order) :
    (b.rest o).against o.side.other = (b.against o.side.other ++ [o]).mergeSort (sortLe o.side) := by
  unfold rest
  cases o.side <;> rfl

/-- An object on one side of the book is on no other. -/
theorem apart_of_own (h : Same b p) (hwell : b.WellFormed arrived) {side : Side}
    (hmem : ref ∈ p.against side.other) : ref ∉ p.against side := by
  intro hagainst
  have hown : (p.objects ref).id ∈ (b.against side.other).map Order.id := by
    rw [← (h.against side.other).ids]
    exact List.mem_map_of_mem hmem
  have hother : (p.objects ref).id ∈ (b.against side).map Order.id := by
    rw [← (h.against side).ids]
    exact List.mem_map_of_mem hagainst
  have hnodup := hwell.nodup
  unfold resting at hnodup
  rw [List.map_append, List.nodup_append'] at hnodup
  cases side with
  | buy => exact hnodup.2.2 hown hother
  | sell => exact hnodup.2.2 hother hown

end OrderBook

namespace Python.OrderBook

theorem against_matched (p : OrderBook) (ref : Ref) (r : Matched) :
    (p.matched ref r).1.against r.taker.side = r.book := by
  unfold matched
  cases r.taker.side <;> rfl

theorem own_matched (p : OrderBook) (ref : Ref) (r : Matched) :
    (p.matched ref r).1.against r.taker.side.other = p.against r.taker.side.other := by
  unfold matched
  cases r.taker.side <;> rfl

theorem allOrders_matched (p : OrderBook) (ref : Ref) (r : Matched) :
    (p.matched ref r).1.allOrders = p.allOrders := by
  unfold matched setAgainst
  cases r.taker.side <;> rfl

theorem created_matched (p : OrderBook) (ref : Ref) (r : Matched) :
    (p.matched ref r).1.created = p.created := by
  unfold matched setAgainst
  cases r.taker.side <;> rfl

theorem allOrders_rest (p : OrderBook) (ref : Ref) (o : Order) :
    (p.rest ref o).allOrders = p.allOrders := by
  unfold rest
  cases o.side <;> rfl

theorem created_rest (p : OrderBook) (ref : Ref) (o : Order) :
    (p.rest ref o).created = p.created := by
  unfold rest
  cases o.side <;> rfl

theorem against_rest (p : OrderBook) (ref : Ref) (o : Order) (objects : Heap) :
    ({ p.rest ref o with objects := objects } : OrderBook).against o.side = p.against o.side := by
  unfold rest
  cases o.side <;> rfl

theorem own_rest (p : OrderBook) (ref : Ref) (o : Order) (objects : Heap) :
    ({ p.rest ref o with objects := objects } : OrderBook).against o.side.other =
      sortRefs o.side p.objects (p.against o.side.other ++ [ref]) := by
  unfold rest
  cases o.side <;> rfl

/-- The sort does not look at the status. -/
theorem sortRefs_congr {side : Side} {objects objects' : Heap} {refs : List Ref}
    (h : ∀ ref ∈ refs, (objects ref).shown = (objects' ref).shown) :
    sortRefs side objects refs = sortRefs side objects' refs := by
  have hkeys : ∀ r ∈ refs, ∀ r' ∈ refs,
      keyLe (sortKey side (objects r)) (sortKey side (objects r')) =
        keyLe (sortKey side (objects' r)) (sortKey side (objects' r')) := by
    intro r hr r' hr'
    rw [keyLe_sortKey, keyLe_sortKey, ← sortLe_shown, h r hr, h r' hr', sortLe_shown]
  have hsorted := List.map_mergeSort
    (r := fun r r' => keyLe (sortKey side (objects r)) (sortKey side (objects r')))
    (s := fun r r' => keyLe (sortKey side (objects' r)) (sortKey side (objects' r'))) (f := id) hkeys
  rw [List.map_id, List.map_id] at hsorted
  exact hsorted

end Python.OrderBook

/-- The books after a match: the taker is an object already, but on record in one book only. -/
structure Matches (dict : StorageMap String Ref) (objects : Heap) (ref : Ref) (taker : Order)
    (b : OrderBook) (p : Python.OrderBook) : Prop where
  view : View dict objects b.allOrders
  against : Lists dict objects (p.against taker.side) (b.against taker.side)
  own : Lists dict objects (p.against taker.side.other) (b.against taker.side.other)
  fresh : dict.lookup taker.id = none
  new : ∀ id ref', dict.lookup id = some ref' → ref' < ref
  dict : p.allOrders = dict.insert taker.id ref
  objects : p.objects = Function.update objects ref taker
  created : p.created = ref + 1

namespace Matches

variable {b : OrderBook} {p : Python.OrderBook}

theorem created_lt (h : Matches dict objects ref taker b p) (id : String) (ref' : Ref)
    (hlookup : p.allOrders.lookup id = some ref') : ref' < p.created := by
  rw [h.created]
  rw [h.dict, StorageMap.lookup_insert_eq] at hlookup
  split at hlookup
  · cases hlookup
    exact Nat.lt_succ_self _
  · exact (h.new id ref' hlookup).trans (Nat.lt_succ_self _)

theorem ne (h : Matches dict objects ref taker b p) (id : String) (ref' : Ref)
    (hlookup : dict.lookup id = some ref') : ref' ≠ ref :=
  (h.new id ref' hlookup).ne

theorem record (h : Matches dict objects ref taker b p) :
    Same { b with allOrders := b.allOrders.insert taker.id taker } p := by
  apply Same.of_sides taker.side
  · rw [h.dict, h.objects]
    exact h.view.insert h.ne taker
  · rw [h.dict, h.objects]
    exact h.against.insert h.ne h.fresh
  · rw [h.dict, h.objects]
    exact h.own.insert h.ne h.fresh
  · exact h.created_lt

theorem rest (h : Matches dict objects ref taker b p) {resting : Order}
    (hresting : resting.shown = taker.shown) :
    Same { b.rest resting with allOrders := b.allOrders.insert resting.id resting }
      { p.rest ref taker with objects := Function.update objects ref resting } := by
  have hid : resting.id = taker.id := (congrArg Order.id hresting : resting.shown.id = _)
  have hside : resting.side = taker.side := (congrArg Order.side hresting : resting.shown.side = _)
  have hfresh := h.fresh
  have hdict := h.dict
  have hown := h.own
  have hagainst := h.against
  rw [← hid] at hfresh hdict
  rw [← hside] at hown hagainst
  have hsort : Python.OrderBook.sortRefs taker.side p.objects (p.against taker.side.other ++ [ref]) =
      Python.OrderBook.sortRefs resting.side (Function.update objects ref resting)
        (p.against resting.side.other ++ [ref]) := by
    rw [← hside]
    apply Python.OrderBook.sortRefs_congr
    intro ref' _
    rw [h.objects]
    by_cases heq : ref' = ref
    · rw [heq, Function.update_self, Function.update_self, hresting]
    · rw [Function.update_of_ne heq, Function.update_of_ne heq]
  apply Same.of_sides resting.side
  · change View (p.rest ref taker).allOrders _ _
    rw [Python.OrderBook.allOrders_rest, hdict]
    exact h.view.insert h.ne resting
  · change Lists (p.rest ref taker).allOrders _ _ ((b.rest resting).against resting.side)
    rw [hside, Python.OrderBook.against_rest, ← hside, OrderBook.against_rest,
      Python.OrderBook.allOrders_rest, hdict]
    exact hagainst.insert h.ne hfresh
  · change Lists (p.rest ref taker).allOrders _ _ ((b.rest resting).against resting.side.other)
    rw [hside, Python.OrderBook.own_rest, hsort, ← hside, OrderBook.own_rest,
      Python.OrderBook.allOrders_rest, hdict]
    exact (hown.snoc h.ne hfresh).sort resting.side
  · intro id ref' hlookup
    change (p.rest ref taker).allOrders.lookup id = some ref' at hlookup
    rw [Python.OrderBook.allOrders_rest] at hlookup
    exact (h.created_lt id ref' hlookup).trans_eq (Python.OrderBook.created_rest p ref taker).symm

end Matches

namespace OrderBook

variable {arrived : List Order} {b : OrderBook} {p : Python.OrderBook}

theorem matched_matches (h : Same b p) (hwell : b.WellFormed arrived) (ht : b.Traced arrived)
    (harrives : Arrives arrived order)
    (hclear : Clear (Beyond order.orderType) order (b.against order.side)) :
    Matches p.allOrders (p.swept order).objects p.created (b.matched (b.swept order)).2.1
      (b.matched (b.swept order)).1 ((p.start order).matched p.created (p.swept order)).1 := by
  have hagrees := swept_agrees h hwell hclear
  have hfresh : p.allOrders.lookup order.id = none := by
    have hrecord := h.view.record order.id
    rw [ht.lookup_eq_none harrives] at hrecord
    exact Option.map_eq_none_iff.mp hrecord
  have hown : Lists p.allOrders (p.swept order).objects (p.against order.side.other)
      (b.against order.side.other) := by
    apply (h.against order.side.other).congr
    intro ref hmem
    apply congrArg Order.shown
    apply hagrees.apart
    rw [List.mem_cons, not_or]
    exact ⟨(h.created _ ref ((h.against order.side.other).recorded ref hmem)).ne,
      apart_of_own h hwell hmem⟩
  have htaker : (b.matched (b.swept order)).2.1.id = order.id ∧
      (b.matched (b.swept order)).2.1.side = order.side := by
    obtain ⟨status, htaker⟩ := taker_matched b (b.swept order)
    have hticket := ticket_sweep (Beyond order.orderType) order (b.against order.side) b.allOrders
    rw [htaker]
    exact ⟨(congrArg Order.id hticket : (b.swept order).taker.ticket.id = _), side_swept b order⟩
  have hside : (p.swept order).taker.side = order.side := by
    rw [hagrees.taker]
    exact side_swept b order
  constructor
  · exact hagrees.view
  · have hbook := against_matched b (b.swept order)
    have hrefs := Python.OrderBook.against_matched (p.start order) p.created (p.swept order)
    rw [side_swept] at hbook
    rw [hside] at hrefs
    rw [htaker.2, hbook, hrefs]
    exact hagrees.lists
  · have hbook := own_matched b (b.swept order)
    have hrefs := Python.OrderBook.own_matched (p.start order) p.created (p.swept order)
    rw [side_swept] at hbook
    rw [hside] at hrefs
    rw [htaker.2, hbook, hrefs]
    have hstart : (p.start order).against order.side.other = p.against order.side.other := by
      cases order.side <;> rfl
    rw [hstart]
    exact hown
  · rw [htaker.1]
    exact hfresh
  · exact h.created
  · rw [htaker.1]
    exact Python.OrderBook.allOrders_matched _ _ _
  · rw [← done_eq hagrees]
    rfl
  · exact Python.OrderBook.created_matched _ _ _

theorem addOrder_same (h : Same b p) (hwell : b.WellFormed arrived) (ht : b.Traced arrived)
    (harrives : Arrives arrived order)
    (hclear : Clear (Beyond order.orderType) order (b.against order.side)) :
    (b.addOrder order).2 = (p.addOrder order).2 ∧ Same (b.addOrder order).1 (p.addOrder order).1 := by
  have hagrees := swept_agrees h hwell hclear
  have hmatches := matched_matches h hwell ht harrives hclear
  constructor
  · obtain ⟨taker, hadded⟩ := addOrder_added (b.matchOrder_eq order)
    rw [hadded.fills, Python.OrderBook.addOrder_eq, hagrees.fills]
  · have hleft : 0 < (b.matched (b.swept order)).2.1.remaining ↔
        epsilon < (b.matched (b.swept order)).2.1.remaining := by
      obtain ⟨status, htaker⟩ := taker_matched b (b.swept order)
      rw [htaker]
      exact hagrees.left
    rw [addOrder_eq (b.matchOrder_eq order), Python.OrderBook.addOrder_eq, done_eq hagrees]
    simp only [hleft]
    split
    · apply hmatches.rest
      obtain ⟨status, hresting, -⟩ := asResting_eq (b.matched (b.swept order)).2.1
      rw [hresting]
      rfl
    · exact hmatches.record

theorem cancelOrder_same (h : Same b p) (orderId owner : String) :
    (b.cancelOrder orderId owner).2 = (p.cancelOrder orderId owner).2 ∧
      Same (b.cancelOrder orderId owner).1 (p.cancelOrder orderId owner).1 := by
  have hrecord := h.view.record orderId
  unfold cancelOrder Python.OrderBook.cancelOrder
  cases hlookup : p.allOrders.lookup orderId with
  | none =>
    rw [hlookup] at hrecord
    rw [← hrecord]
    exact ⟨rfl, h⟩
  | some ref =>
    rw [hlookup] at hrecord
    have hid := h.view.named orderId ref hlookup
    have hself : p.allOrders.lookup (p.objects ref).id = some ref := by
      rw [hid]
      exact hlookup
    rw [← hrecord]
    dsimp only [Option.map_some]
    split
    · exact ⟨rfl, h⟩
    · split
      · exact ⟨rfl, h⟩
      · have hlists {refs : List Ref} {book : List Order}
            (hside : Lists p.allOrders p.objects refs book) :
            Lists p.allOrders
              (Function.update p.objects ref { p.objects ref with status := .cancelled }) refs book := by
          apply hside.congr
          intro ref' _
          by_cases heq : ref' = ref
          · rw [heq, Function.update_self]
            rfl
          · rw [Function.update_of_ne heq]
        refine ⟨rfl, ?_, (hlists h.bids).filter orderId, (hlists h.asks).filter orderId, h.created⟩
        have hview := h.view.cancel hself
        rw [hid] at hview
        exact hview

end OrderBook

/-! ## Runs -/

namespace BookOp

/-- What a call returns: the fills of an order, or whether a cancellation has succeeded. -/
def answer (b : OrderBook) : BookOp → List Trade ⊕ Bool
  | .addOrder id pair side orderType price size address timestamp =>
    .inl (b.addOrder (.new id pair side orderType price size address timestamp)).2
  | .cancelOrder orderId owner => .inr (b.cancelOrder orderId owner).2

def applyPython (p : Python.OrderBook) : BookOp → Python.OrderBook
  | .addOrder id pair side orderType price size address timestamp =>
    (p.addOrder (.new id pair side orderType price size address timestamp)).1
  | .cancelOrder orderId owner => (p.cancelOrder orderId owner).1

def answerPython (p : Python.OrderBook) : BookOp → List Trade ⊕ Bool
  | .addOrder id pair side orderType price size address timestamp =>
    .inl (p.addOrder (.new id pair side orderType price size address timestamp)).2
  | .cancelOrder orderId owner => .inr (p.cancelOrder orderId owner).2

/-- The call leaves no order with dust. -/
def Clear (b : OrderBook) (op : BookOp) : Prop :=
  ∀ order ∈ op.added,
    QbcExchange.Clear (OrderBook.Beyond order.orderType) order (b.against order.side)

instance (b : OrderBook) (op : BookOp) : Decidable (op.Clear b) :=
  inferInstanceAs (Decidable (∀ _ ∈ _, QbcExchange.Clear _ _ _))

end BookOp

namespace OrderBook

variable {arrived : List Order} {b : OrderBook} {p : Python.OrderBook}

theorem step_same (h : Same b p) (hwell : b.WellFormed arrived) (ht : b.Traced arrived)
    {op : BookOp} (harrives : ∀ order ∈ op.added, Arrives arrived order) (hclear : op.Clear b) :
    op.answer b = op.answerPython p ∧ Same (op.apply b) (op.applyPython p) := by
  cases op with
  | addOrder id pair side orderType price size address timestamp =>
    have hadd := addOrder_same h hwell ht (harrives _ rfl) (hclear _ rfl)
    exact ⟨congrArg Sum.inl hadd.1, hadd.2⟩
  | cancelOrder orderId owner =>
    have hcancel := cancelOrder_same h orderId owner
    exact ⟨congrArg Sum.inr hcancel.1, hcancel.2⟩

/-- The Python book after a run. -/
def afterPython (ops : List BookOp) : Python.OrderBook :=
  Machine.run BookOp.applyPython .new ops

theorem same_new : Same .new .new where
  view := ⟨fun _ => rfl, fun _ _ hlookup => by cases hlookup⟩
  bids := ⟨fun _ hmem => absurd hmem List.not_mem_nil, rfl⟩
  asks := ⟨fun _ hmem => absurd hmem List.not_mem_nil, rfl⟩
  created _ _ hlookup := by cases hlookup

/-- The orders of a run have identifiers of their own and rising times, and none is left with
dust. -/
structure Regular (ops : List BookOp) : Prop where
  ids : (ids (arrivals ops)).Nodup
  times : (arrivals ops).Pairwise fun a b => a.timestamp < b.timestamp
  clear : ∀ before op, before ++ [op] <+: ops → op.Clear (after before)

theorem Regular.of_prefix {before ops : List BookOp} (h : Regular ops) (hle : before <+: ops) :
    Regular before where
  ids := h.ids.sublist ((hle.sublist.filterMap _).map Order.id)
  times := h.times.sublist (hle.sublist.filterMap _)
  clear earlier op hearlier := h.clear earlier op (hearlier.trans hle)

theorem Regular.wellFormed {ops : List BookOp} (h : Regular ops) :
    (after ops).WellFormed (arrivals ops) ∧ (after ops).Traced (arrivals ops) :=
  wellFormed_run ops h.ids (h.times.imp le_of_lt)

theorem Regular.arrives {before : List BookOp} {op : BookOp} (h : Regular (before ++ [op])) :
    ∀ order ∈ op.added, Arrives (arrivals before) order := by
  intro order horder
  have hsnoc : arrivals (before ++ [op]) = arrivals before ++ [order] := by
    unfold arrivals
    rw [List.filterMap_append, List.filterMap_cons_some (Option.mem_def.mp horder),
      List.filterMap_nil]
  have hids := h.ids
  have htimes := h.times.imp le_of_lt
  rw [hsnoc] at hids htimes
  exact arrives_of_snoc hids htimes

theorem same_after (ops : List BookOp) (h : Regular ops) : Same (after ops) (afterPython ops) := by
  induction ops using List.reverseRecOn with
  | nil => exact same_new
  | append_singleton ops op ih =>
    have hbefore := h.of_prefix (List.prefix_append ops [op])
    obtain ⟨hwell, htraced⟩ := hbefore.wellFormed
    have hrun : after (ops ++ [op]) = op.apply (after ops) := Machine.run_append _ _ _
    have hrunPython : afterPython (ops ++ [op]) = op.applyPython (afterPython ops) :=
      Machine.run_append _ _ _
    rw [hrun, hrunPython]
    exact (step_same (ih hbefore) hwell htraced h.arrives
      (h.clear ops op (List.prefix_refl _))).2

theorem engines_agree (ops : List BookOp) (h : Regular ops) (before : List BookOp) (op : BookOp)
    (hle : before ++ [op] <+: ops) :
    op.answer (after before) = op.answerPython (afterPython before) ∧
      Same (after (before ++ [op])) (afterPython (before ++ [op])) := by
  have hstep := h.of_prefix hle
  have hbefore := hstep.of_prefix (List.prefix_append before [op])
  obtain ⟨hwell, htraced⟩ := hbefore.wellFormed
  refine ⟨?_, same_after _ hstep⟩
  exact (step_same (same_after before hbefore) hwell htraced hstep.arrives
    (h.clear before op hle)).1

/-- An ask that a bid takes in part, a market order and a cancellation. -/
def smallRun : List BookOp :=
  [.addOrder "ord-1" "QBC/QUSD" .sell .limit 2 10 "alice" 5,
    .addOrder "ord-2" "QBC/QUSD" .buy .limit 3 4 "bob" 6,
    .addOrder "ord-3" "QBC/QUSD" .buy .market 0 1 "carol" 7,
    .cancelOrder "ord-1" "alice"]

theorem regular_smallRun : Regular smallRun where
  ids := by decide
  times := by decide
  clear := by
    unfold smallRun
    simp only [Machine.forall_before_cons, Machine.forall_before_nil, and_true]
    decide +kernel

theorem engines_agree_smallRun :
    (BookOp.cancelOrder "ord-1" "alice").answer (after (smallRun.take 3)) =
        (BookOp.cancelOrder "ord-1" "alice").answerPython (afterPython (smallRun.take 3)) ∧
      Same (after smallRun) (afterPython smallRun) :=
  engines_agree smallRun regular_smallRun (smallRun.take 3) _ (List.prefix_refl _)

/-! ## Dust, and identifiers that are used twice -/

/-- The bid leaves `1e-13` of the ask. -/
def dustyRun : List BookOp :=
  [.addOrder "ord-1" "QBC/QUSD" .sell .limit 2 1 "alice" 5,
    .addOrder "ord-2" "QBC/QUSD" .buy .limit 2 (1 - 1 / 10 ^ 13) "bob" 6]

/-- Of an ask and a bid with one identifier, the ask is taken. -/
def renumberedRun : List BookOp :=
  [.addOrder "ord-1" "QBC/QUSD" .sell .limit 2 1 "alice" 5,
    .addOrder "ord-1" "QBC/QUSD" .buy .limit 1 1 "alice" 6,
    .addOrder "ord-2" "QBC/QUSD" .buy .limit 2 1 "bob" 7]

/-- The asks differ after the first run; after the second, a cancellation succeeds in one book
and fails in the other. -/
theorem engines_differ :
    ((ids (arrivals dustyRun)).Nodup ∧
      ((arrivals dustyRun).Pairwise fun a b => a.timestamp < b.timestamp) ∧
      (after dustyRun).asks.map Order.shown ≠
        (afterPython dustyRun).asks.map fun ref => ((afterPython dustyRun).objects ref).shown) ∧
    (((arrivals renumberedRun).Pairwise fun a b => a.timestamp < b.timestamp) ∧
      (BookOp.cancelOrder "ord-1" "alice").answer (after renumberedRun) ≠
        (BookOp.cancelOrder "ord-1" "alice").answerPython (afterPython renumberedRun)) := by
  refine ⟨⟨by decide, by decide, ?_⟩, by decide, ?_⟩
  · decide +kernel
  · decide +kernel

end OrderBook

end Qubitcoin.QbcExchange
