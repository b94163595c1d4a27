import Qubitcoin.QbcExchange.OrderBook

/-! Matching as one sweep over the other side of the book.  Both loops of the source are this
sweep, since a maker that keeps a rest has taken all of the taker. -/

namespace Qubitcoin.QbcExchange

variable {stop : Order → Order → Prop} [∀ taker maker, Decidable (stop taker maker)]

/-- The orders are filled from the front, the last of them perhaps in part. -/
def sweep (stop : Order → Order → Prop) [∀ taker maker, Decidable (stop taker maker)]
    (taker : Order) : List Order → Orders → Matched
  | [], all => ⟨taker, [], all, []⟩
  | maker :: rest, all =>
    if epsilon < taker.remaining ∧ ¬ stop taker maker then
      let fillSize := min taker.remaining maker.remaining
      let maker' := maker.fill fillSize
      if maker'.remaining ≤ epsilon then
        (sweep stop (taker.fill fillSize) rest (all.markFilled maker.id)).addFill
          (trade taker maker fillSize)
      else
        ⟨taker.fill fillSize, maker' :: rest, all.markPartial maker.id maker'.filled,
          [trade taker maker fillSize]⟩
    else ⟨taker, maker :: rest, all, []⟩

theorem limitLoop_of_done {taker : Order} (h : taker.remaining = 0) (front rest : List Order)
    (all : Orders) : limitLoop taker front rest all = ⟨taker, front ++ rest, all, []⟩ := by
  cases rest with
  | nil => rw [limitLoop, List.append_nil]
  | cons maker rest =>
    rw [limitLoop, if_neg]
    rw [h]
    norm_num [epsilon]

theorem marketLoop_of_done {taker : Order} (h : taker.remaining = 0) (book : List Order)
    (all : Orders) : marketLoop taker book all = ⟨taker, book, all, []⟩ := by
  cases book with
  | nil => rw [marketLoop]
  | cons maker rest =>
    rw [marketLoop, if_neg]
    rw [h]
    norm_num [epsilon]

theorem limitLoop_eq (taker : Order) (front rest : List Order) (all : Orders) :
    limitLoop taker front rest all =
      { sweep priceCheck taker rest all with
        book := front ++ (sweep priceCheck taker rest all).book } := by
  induction rest generalizing taker all with
  | nil => rw [limitLoop, sweep, List.append_nil]
  | cons maker rest ih =>
    rw [limitLoop, sweep]
    split
    · dsimp only
      split
      · rw [ih]
        rfl
      · next hrest =>
        rw [limitLoop_of_done (remaining_fill_eq_zero hrest), List.append_assoc]
        rfl
    · rfl

theorem marketLoop_eq (taker : Order) (book : List Order) (all : Orders) :
    marketLoop taker book all = sweep (fun _ _ => False) taker book all := by
  induction book generalizing taker all with
  | nil => rw [marketLoop, sweep]
  | cons maker rest ih =>
    rw [marketLoop, sweep]
    simp only [not_false_eq_true, and_true]
    split
    · split
      · rw [ih]
      · next hrest =>
        rw [marketLoop_of_done (remaining_fill_eq_zero hrest)]
        rfl
    · rfl

/-- The order as it was placed: what matching never changes on the book. -/
def Order.ticket (o : Order) : Order := { o with filled := 0 }

theorem ticket_fill (o : Order) (fillSize : ℚ) : (o.fill fillSize).ticket = o.ticket := rfl

variable (stop) in
theorem ticket_sweep (taker : Order) (book : List Order) (all : Orders) :
    (sweep stop taker book all).taker.ticket = taker.ticket := by
  induction book generalizing taker all with
  | nil => rfl
  | cons maker rest ih =>
    rw [sweep]
    split
    · dsimp only
      split
      · exact ih (taker.fill _) _
      · rfl
    · rfl

variable (stop) in
/-- What is left of the book is an end of it. -/
theorem tickets_sweep (taker : Order) (book : List Order) (all : Orders) :
    ((sweep stop taker book all).book.map Order.ticket) <:+ book.map Order.ticket := by
  induction book generalizing taker all with
  | nil => exact List.suffix_refl _
  | cons maker rest ih =>
    rw [sweep]
    split
    · dsimp only
      split
      · exact (ih _ _).trans (List.suffix_cons _ _)
      · exact List.suffix_refl _
    · exact List.suffix_refl _

theorem remaining_sweep {taker : Order} {book : List Order} {all : Orders}
    (h : ∀ o ∈ book, epsilon < o.remaining) :
    ∀ o ∈ (sweep stop taker book all).book, epsilon < o.remaining := by
  induction book generalizing taker all with
  | nil => exact h
  | cons maker rest ih =>
    obtain ⟨hmaker, hrest⟩ := List.forall_mem_cons.mp h
    rw [sweep]
    split
    · dsimp only
      split
      · exact ih hrest
      · next hkept => exact List.forall_mem_cons.mpr ⟨not_le.mp hkept, hrest⟩
    · exact h

/-- The stopping condition: a taker that is left over has come to the end of the book or to an
order it stops at. -/
theorem stop_sweep (hstop : ∀ taker maker fillSize, stop (Order.fill taker fillSize) maker ↔
      stop taker maker) {taker : Order} {book : List Order} {all : Orders}
    (hleft : epsilon < (sweep stop taker book all).taker.remaining) :
    ∀ o ∈ (sweep stop taker book all).book.head?, stop taker o := by
  induction book generalizing taker all with
  | nil => exact fun _ h => absurd h (by simp [sweep])
  | cons maker rest ih =>
    rw [sweep] at hleft ⊢
    split
    · next hfill =>
      rw [if_pos hfill] at hleft
      dsimp only at hleft ⊢
      split
      · next hdone =>
        rw [if_pos hdone] at hleft
        intro o ho
        exact (hstop taker o _).mp (ih hleft o ho)
      · next hkept =>
        rw [if_neg hkept] at hleft
        dsimp only at hleft
        rw [remaining_fill_eq_zero hkept] at hleft
        exact absurd hleft (by norm_num [epsilon])
    · next hfill =>
      rw [if_neg hfill] at hleft
      intro o ho
      cases ho
      by_contra hgo
      exact hfill ⟨hleft, hgo⟩

end Qubitcoin.QbcExchange
