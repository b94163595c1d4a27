import Qubitcoin.Library.StorageMap
import Qubitcoin.Node.Transaction

/-! `order_transactions_with_commit_reveal` of `consensus/engine.py`: revealed transactions
in the order of their commitments, before all others. -/

namespace Qubitcoin.Node

/-- The commit times of the transactions that were revealed. -/
abbrev CommittedTxids := StorageMap String ℚ

namespace CommittedTxids

variable (committed : CommittedTxids)

def has (tx : Transaction) : Bool := (committed.lookup tx.txid).isSome

def time (tx : Transaction) : ℚ := committed.value 0 tx.txid

end CommittedTxids

/-- Highest fee first; equal fees keep their order.  `float` is the conversion of the fee. -/
def sortByFee (float : Decimal → ℚ) (txs : List Transaction) : List Transaction :=
  txs.mergeSort fun a b => float b.fee ≤ float a.fee

def sortByTime (committed : CommittedTxids) (txs : List Transaction) : List Transaction :=
  txs.mergeSort fun a b => committed.time a ≤ committed.time b

/-- `enabled` is `MEV_COMMIT_REVEAL_ENABLED`. -/
def orderTransactionsWithCommitReveal (enabled : Bool) (float : Decimal → ℚ)
    (pending : List Transaction) (committed : CommittedTxids) : List Transaction :=
  if enabled = false ∨ committed = ∅ then sortByFee float pending
  else
    let (revealed, direct) := pending.partition committed.has
    sortByTime committed revealed ++ sortByFee float direct

/-- Nothing is lost, the committed come first, and they come in the order of their
commit times. -/
structure FairOrder (committed : CommittedTxids) (pending ordered : List Transaction) : Prop where
  perm : ordered.Perm pending
  first : ordered.Pairwise fun a b => committed.has b = true → committed.has a = true
  fifo : (ordered.filter committed.has).Pairwise fun a b => committed.time a ≤ committed.time b

theorem sortByFee_perm (float : Decimal → ℚ) (txs : List Transaction) :
    (sortByFee float txs).Perm txs := List.mergeSort_perm _ _

theorem sortByTime_perm (committed : CommittedTxids) (txs : List Transaction) :
    (sortByTime committed txs).Perm txs := List.mergeSort_perm _ _

theorem sortByTime_pairwise (committed : CommittedTxids) (txs : List Transaction) :
    (sortByTime committed txs).Pairwise fun a b => committed.time a ≤ committed.time b := by
  have hsorted := @List.pairwise_mergeSort _
    (fun a b => decide (committed.time a ≤ committed.time b))
    (fun a b c hab hbc => decide_eq_true ((of_decide_eq_true hab).trans (of_decide_eq_true hbc)))
    (fun a b => by
      simp only [Bool.or_eq_true, decide_eq_true_eq]
      exact le_total _ _) txs
  exact hsorted.imp of_decide_eq_true

/-- Transactions of different times have one order by time. -/
theorem sortByTime_eq {committed : CommittedTxids} {txs txs' : List Transaction}
    (h : txs'.Perm txs) (hne : txs.Pairwise fun a b => committed.time a ≠ committed.time b) :
    sortByTime committed txs' = sortByTime committed txs := by
  have hperm : (sortByTime committed txs').Perm (sortByTime committed txs) :=
    (sortByTime_perm committed txs').trans (h.trans (sortByTime_perm committed txs).symm)
  apply hperm.eq_of_pairwise
  · intro a b ha hb hab hba
    have ha' : a ∈ txs := h.mem_iff.mp ((sortByTime_perm committed txs').mem_iff.mp ha)
    have hb' : b ∈ txs := (sortByTime_perm committed txs).mem_iff.mp hb
    by_contra hab'
    have hsymm : Std.Symm fun a b => committed.time a ≠ committed.time b := ⟨fun a b => Ne.symm⟩
    exact hne.forall ha' hb' hab' (le_antisymm hab hba)
  · exact sortByTime_pairwise committed txs'
  · exact sortByTime_pairwise committed txs

section Enabled

variable (float : Decimal → ℚ) (pending : List Transaction) (committed : CommittedTxids)

variable {pending committed} in
theorem has_of_revealed {tx : Transaction}
    (h : tx ∈ sortByTime committed (pending.filter committed.has)) : committed.has tx = true :=
  (List.mem_filter.mp ((sortByTime_perm committed _).mem_iff.mp h)).2

variable {float pending committed} in
theorem has_of_direct {tx : Transaction}
    (h : tx ∈ sortByFee float (pending.filter fun tx => !committed.has tx)) :
    committed.has tx = false := by
  simpa using (List.mem_filter.mp ((sortByFee_perm float _).mem_iff.mp h)).2

theorem order_eq :
    orderTransactionsWithCommitReveal true float pending committed =
      sortByTime committed (pending.filter committed.has) ++
        sortByFee float (pending.filter fun tx => !committed.has tx) := by
  unfold orderTransactionsWithCommitReveal
  split
  · rename_i h
    have hhas : committed.has = fun _ => false := by
      funext tx
      rw [h.resolve_left nofun]
      rfl
    simp [hhas, sortByTime]
  · rw [List.partition_eq_filter_filter]
    rfl

theorem filter_order :
    (orderTransactionsWithCommitReveal true float pending committed).filter committed.has =
      sortByTime committed (pending.filter committed.has) := by
  have hrevealed : (sortByTime committed (pending.filter committed.has)).filter committed.has =
      sortByTime committed (pending.filter committed.has) := by
    rw [List.filter_eq_self]
    intro tx htx
    exact has_of_revealed htx
  have hdirect : (sortByFee float (pending.filter fun tx => !committed.has tx)).filter
      committed.has = [] := by
    rw [List.filter_eq_nil_iff]
    intro tx htx
    rw [has_of_direct htx]
    exact Bool.false_ne_true
  rw [order_eq, List.filter_append, hrevealed, hdirect, List.append_nil]

theorem order_perm (enabled : Bool) :
    (orderTransactionsWithCommitReveal enabled float pending committed).Perm pending := by
  cases enabled with
  | false => exact sortByFee_perm float pending
  | true =>
    rw [order_eq]
    exact ((sortByTime_perm committed _).append (sortByFee_perm float _)).trans
      (List.filter_append_perm _ pending)

theorem order_fair :
    FairOrder committed pending
      (orderTransactionsWithCommitReveal true float pending committed) where
  perm := order_perm float pending committed true
  first := by
    rw [order_eq, List.pairwise_append]
    refine ⟨?_, ?_, ?_⟩
    · apply List.pairwise_of_forall_mem_list
      intro a ha b hb hcommitted
      exact has_of_revealed ha
    · apply List.pairwise_of_forall_mem_list
      intro a ha b hb hcommitted
      rw [has_of_direct hb] at hcommitted
      cases hcommitted
    · intro a ha b hb hcommitted
      exact has_of_revealed ha
  fifo := by
    rw [filter_order]
    exact sortByTime_pairwise committed _

end Enabled

/-- With the ordering enabled the result is fair, and its committed part does not depend
on the order of the input where the commit times differ; without it nothing is lost. -/
theorem commit_reveal_fair (float : Decimal → ℚ) (pending : List Transaction)
    (committed : CommittedTxids) :
    (∀ enabled,
      (orderTransactionsWithCommitReveal enabled float pending committed).Perm pending) ∧
    FairOrder committed pending
      (orderTransactionsWithCommitReveal true float pending committed) ∧
    ∀ pending' : List Transaction, pending'.Perm pending →
      ((pending.filter committed.has).Pairwise fun a b => committed.time a ≠ committed.time b) →
        (orderTransactionsWithCommitReveal true float pending' committed).filter committed.has =
          (orderTransactionsWithCommitReveal true float pending committed).filter
            committed.has := by
  refine ⟨order_perm float pending committed, order_fair float pending committed, ?_⟩
  intro pending' hperm hne
  rw [filter_order, filter_order]
  exact sortByTime_eq (hperm.filter _) hne

namespace Sample

def transfer (txid : String) (fee : ℚ) : Transaction where
  txid := txid
  inputs := []
  outputs := []
  fee := .finite fee
  feeText := ""
  signature := ""
  publicKey := ""
  timestamp := ""
  txType := "transfer"
  isPrivate := false

def revealedOnly : CommittedTxids := Finmap.singleton "revealed" 1

/-- `float` of a finite fee. -/
def floatFee : Decimal → ℚ
  | .finite fee => fee
  | _ => 0

end Sample

/-- With the ordering switched off a higher fee comes first, committed or not. -/
theorem fee_before_commitment :
    ¬∀ (enabled : Bool) (float : Decimal → ℚ) (pending : List Transaction)
      (committed : CommittedTxids), FairOrder committed pending
        (orderTransactionsWithCommitReveal enabled float pending committed) := by
  intro h
  have hfair := (h false Sample.floatFee
    [Sample.transfer "direct" 2, Sample.transfer "revealed" 1] Sample.revealedOnly).first
  have horder : orderTransactionsWithCommitReveal false Sample.floatFee
      [Sample.transfer "direct" 2, Sample.transfer "revealed" 1] Sample.revealedOnly =
        [Sample.transfer "direct" 2, Sample.transfer "revealed" 1] := by
    apply List.mergeSort_of_pairwise
    decide
  rw [horder] at hfair
  revert hfair
  decide

end Qubitcoin.Node
