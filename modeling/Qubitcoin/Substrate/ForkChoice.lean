import Qubitcoin.Substrate.WeightedChain

/-! What the weighted fork choice selects: cumulative work, whatever earlier calls have
left in the auxiliary store, and a finality target on the chosen chain. -/

namespace Qubitcoin.Substrate.WeightedChain

open Command ParentTree

namespace BlockTree

variable (t : BlockTree)

def Known (hash : H256) : Prop := ∃ head, t.header hash = some head

/-- The tree of the parent pointers; the genesis block has none. -/
def tree : ParentTree H256 where
  parent hash := (t.header hash).bind fun head =>
    if head.number = 0 then none else some head.parentHash
  rank hash := (t.header hash).elim 0 fun head => head.number.toNat
  rank_parent {hash parent} h := by
    obtain ⟨head, hhead, hparent⟩ := Option.bind_eq_some_iff.mp h
    split at hparent
    · cases hparent
    · rename_i hnumber
      cases hparent
      obtain ⟨above, habove, hlink⟩ := t.linked hhead hnumber
      rw [hhead, habove]
      exact hlink

def blockWeight (hash : H256) : Nat := 10 ^ 12 / max 1 (t.difficulty hash).toNat

/-- The work of a block and its ancestors. -/
def totalWeight (hash : H256) : Nat := t.tree.total t.blockWeight hash

/-- `a` has more work than `b`, or as much and no greater hash. -/
def Ahead (a b : H256) : Prop :=
  t.totalWeight b < t.totalWeight a ∨ (t.totalWeight b = t.totalWeight a ∧ a ≤ b)

structure Best (leaves : List H256) (best : H256) : Prop where
  mem : best ∈ leaves
  ahead : ∀ leaf ∈ leaves, t.Ahead best leaf

end BlockTree

variable {t : BlockTree} {hash parent a b c : H256} {leaves : List H256} {head : Header} {weights : Weights} {aux : Aux}

section Tree

theorem parent_of_genesis (h : t.header hash = some head) (hnumber : head.number = 0) :
    t.tree.parent hash = none := by
  simp [BlockTree.tree, h, hnumber]

theorem parent_of_linked (h : t.header hash = some head) (hnumber : head.number ≠ 0) :
    t.tree.parent hash = some head.parentHash := by
  simpa [BlockTree.tree, h] using hnumber

theorem totalWeight_of_genesis (h : t.header hash = some head) (hnumber : head.number = 0) :
    t.totalWeight hash = t.blockWeight hash := total_of_root (parent_of_genesis h hnumber)

theorem totalWeight_of_linked (h : t.header hash = some head) (hnumber : head.number ≠ 0) :
    t.totalWeight hash = t.blockWeight hash + t.totalWeight head.parentHash :=
  total_of_child (parent_of_linked h hnumber)

/-- Numbers of 32 bits keep the sum far below the end of its word. -/
theorem totalWeight_lt (t : BlockTree) (hash : H256) : t.totalWeight hash < 2 ^ 128 - 1 := by
  have hrank : t.tree.rank hash < 2 ^ 32 := by
    unfold BlockTree.tree
    dsimp only
    cases t.header hash with
    | none => exact Nat.two_pow_pos 32
    | some head => exact head.number.isLt
  have hblock (b : H256) : t.blockWeight b ≤ 10 ^ 12 := Nat.div_le_self _ _
  have hle := total_le (t := t.tree) hblock hash
  unfold BlockTree.totalWeight
  omega

theorem BlockTree.Ahead.refl (a : H256) : t.Ahead a a := .inr ⟨rfl, BitVec.le_refl a⟩

theorem BlockTree.Ahead.trans (hab : t.Ahead a b) (hbc : t.Ahead b c) : t.Ahead a c := by
  unfold BlockTree.Ahead at *
  simp only [BitVec.le_def] at *
  omega

theorem BlockTree.Ahead.antisymm (hab : t.Ahead a b) (hba : t.Ahead b a) : a = b := by
  apply BitVec.eq_of_toNat_eq
  unfold BlockTree.Ahead at *
  simp only [BitVec.le_def] at *
  omega

theorem BlockTree.Best.perm {leaves' : List H256} (h : t.Best leaves a) (hperm : leaves.Perm leaves') :
    t.Best leaves' a where
  mem := hperm.mem_iff.mp h.mem
  ahead leaf hleaf := h.ahead leaf (hperm.mem_iff.mpr hleaf)

theorem BlockTree.Best.unique (ha : t.Best leaves a) (hb : t.Best leaves b) : a = b :=
  (ha.ahead b hb.mem).antisymm (hb.ahead a ha.mem)

theorem BlockTree.Best.singleton (a : H256) : t.Best [a] a where
  mem := List.mem_singleton_self a
  ahead leaf hleaf := by
    rw [List.mem_singleton.mp hleaf]
    exact BlockTree.Ahead.refl a

/-- A leaf that another one is ahead of may be added. -/
theorem BlockTree.Best.add (h : t.Best (a :: leaves) c) (hab : t.Ahead a b) :
    t.Best (a :: b :: leaves) c where
  mem := by
    apply List.Sublist.mem h.mem
    exact (List.sublist_cons_self b leaves).cons_cons a
  ahead leaf hleaf := by
    rcases List.mem_cons.mp hleaf with rfl | hleaf
    · exact h.ahead leaf List.mem_cons_self
    · rcases List.mem_cons.mp hleaf with rfl | hleaf
      · exact (h.ahead a List.mem_cons_self).trans hab
      · exact h.ahead leaf (List.mem_cons_of_mem a hleaf)

end Tree

/-! ## The auxiliary store -/

/-- Every stored weight is the work of its block. -/
def Correct (t : BlockTree) (weights : Weights) : Prop :=
  ∀ hash w, weights.lookup hash = some w → w.toNat = t.totalWeight hash

theorem correct_empty : Correct t ∅ := by
  intro hash w h
  cases h

theorem Correct.readWeight (h : Correct t weights) {w : U128}
    (hread : aux.readWeight weights hash = some w) : w.toNat = t.totalWeight hash := by
  unfold Aux.readWeight at hread
  split at hread
  · exact h hash w hread
  · cases hread

theorem Correct.writeWeight (h : Correct t weights) {w : U128}
    (hw : w.toNat = t.totalWeight hash) : Correct t (aux.writeWeight weights hash w) := by
  unfold Aux.writeWeight
  split
  · intro hash' w' hlookup
    rw [StorageMap.lookup_insert_eq] at hlookup
    split at hlookup
    · rename_i heq
      cases hlookup
      rw [heq]
      exact hw
    · exact h hash' w' hlookup
  · exact h

/-! ## One call -/

theorem toNat_scale (d : Difficulty) :
    (difficultyScale / (if d = 0 then 1 else d.setWidth 128)).toNat =
      10 ^ 12 / max 1 d.toNat := by
  have hscale : difficultyScale.toNat = 10 ^ 12 := rfl
  rw [BitVec.toNat_udiv, hscale]
  by_cases h : d = 0
  · rw [if_pos h, h]
    rfl
  · have hpos : 0 < d.toNat := by
      apply Nat.pos_of_ne_zero
      intro hzero
      exact h (BitVec.eq_of_toNat_eq hzero)
    have hlt := d.isLt
    rw [if_neg h, BitVec.toNat_setWidth, Nat.mod_eq_of_lt (by omega), Nat.max_eq_right hpos]

/-- A block of the walk forward whose parent's work has been reached. -/
theorem addBlock_correct {s : U128 × Weights} (hc : Correct t s.2)
    (hs : t.totalWeight hash = t.blockWeight hash + s.1.toNat) :
    (addBlock aux s (hash, t.difficulty hash)).1.toNat = t.totalWeight hash ∧
      Correct t (addBlock aux s (hash, t.difficulty hash)).2 := by
  have hweight : (addBlock aux s (hash, t.difficulty hash)).1.toNat = t.totalWeight hash := by
    have hlt := totalWeight_lt t hash
    have hscale := toNat_scale (t.difficulty hash)
    unfold addBlock
    dsimp only
    rw [BitVec.toNat_saturatingAdd, hscale]
    change min (s.1.toNat + t.blockWeight hash) _ = _
    omega
  exact ⟨hweight, hc.writeWeight hweight⟩

theorem walkBack_ok (readWeight : H256 → Option U128) {fuel : Nat}
    (h : t.header hash = some head) (hfuel : head.number.toNat < fuel) :
    ∃ r, walkBack t readWeight fuel hash = .ok r := by
  induction fuel generalizing hash head with
  | zero => exact absurd hfuel (Nat.not_lt_zero _)
  | succ fuel ih =>
    rw [walkBack, h]
    dsimp only
    split
    · exact ⟨_, rfl⟩
    · rename_i hnumber
      split
      · exact ⟨_, rfl⟩
      · obtain ⟨above, habove, hlink⟩ := t.linked h hnumber
        obtain ⟨r, hr⟩ := ih habove (by omega)
        rw [hr]
        exact ⟨_, rfl⟩

theorem walkBack_error {readWeight : H256 → Option U128} {e : Error}
    (h : walkBack t readWeight turns hash = .error e) :
    ¬t.Known hash ∧ e = .unknownBlock hash := by
  have hunknown : ¬t.Known hash := by
    rintro ⟨head, hhead⟩
    obtain ⟨r, hr⟩ := walkBack_ok readWeight hhead head.number.isLt
    rw [turns, hr] at h
    cases h
  have hhead : t.header hash = none := by
    rw [Option.eq_none_iff_forall_not_mem]
    intro head hhead
    exact hunknown ⟨head, hhead⟩
  have hturns : turns = turns.pred + 1 := rfl
  rw [hturns, walkBack, hhead] at h
  cases h
  exact ⟨hunknown, rfl⟩

/-- The walk back and forward again comes to the work of the block. -/
theorem fill_correct (hc : Correct t weights) {fuel : Nat} {chain : List (H256 × Difficulty)}
    {baseWeight : U128}
    (h : walkBack t (aux.readWeight weights) fuel hash = .ok (chain, baseWeight)) :
    (chain.reverse.foldl (addBlock aux) (baseWeight, weights)).1.toNat = t.totalWeight hash ∧
      Correct t (chain.reverse.foldl (addBlock aux) (baseWeight, weights)).2 := by
  induction fuel generalizing hash chain baseWeight with
  | zero => cases h
  | succ fuel ih =>
    rw [walkBack] at h
    cases hhead : t.header hash with
    | none =>
      rw [hhead] at h
      cases h
    | some head =>
      rw [hhead] at h
      dsimp only at h
      split at h
      · rename_i hnumber
        cases h
        exact addBlock_correct hc (totalWeight_of_genesis hhead hnumber)
      · rename_i hnumber
        split at h
        · rename_i w hread
          cases h
          apply addBlock_correct hc
          rw [totalWeight_of_linked hhead hnumber, hc.readWeight hread]
        · cases hwalk : walkBack t (aux.readWeight weights) fuel head.parentHash with
          | error e =>
            rw [hwalk] at h
            cases h
          | ok r =>
            rw [hwalk] at h
            cases h
            obtain ⟨hweight, hcorrect⟩ := ih hwalk
            rw [List.reverse_cons, List.foldl_append]
            apply addBlock_correct hcorrect
            rw [totalWeight_of_linked hhead hnumber, hweight]

theorem cumulativeWeight_run (t : BlockTree) (aux : Aux) (hash : H256) (weights : Weights) :
    cumulativeWeight t aux hash weights =
      match aux.readWeight weights hash with
      | some w => .ok w weights
      | none =>
        match walkBack t (aux.readWeight weights) turns hash with
        | .error e => .error e weights
        | .ok (chain, baseWeight) =>
          let s := chain.reverse.foldl (addBlock aux) (baseWeight, weights)
          .ok s.1 s.2 := by
  change (match aux.readWeight weights hash with
    | some w => pure w
    | none =>
      match walkBack t (aux.readWeight weights) turns hash with
      | .error e => throw e
      | .ok (chain, baseWeight) => _ : Command Error Weights U128) weights = _
  cases aux.readWeight weights hash with
  | some w => rfl
  | none =>
    cases walkBack t (aux.readWeight weights) turns hash with
    | error e => rfl
    | ok r => rfl

theorem cumulativeWeight_correct (aux : Aux) (hash : H256) (hc : Correct t weights) :
    match cumulativeWeight t aux hash weights with
    | .ok w weights' => w.toNat = t.totalWeight hash ∧ Correct t weights'
    | .error e weights' => (¬t.Known hash ∧ e = .unknownBlock hash) ∧ weights' = weights := by
  rw [cumulativeWeight_run]
  cases hread : aux.readWeight weights hash with
  | some w => exact ⟨hc.readWeight hread, hc⟩
  | none =>
    cases hwalk : walkBack t (aux.readWeight weights) turns hash with
    | error e => exact ⟨walkBack_error hwalk, rfl⟩
    | ok r => exact fill_correct hc hwalk

theorem cumulativeWeight_ok (aux : Aux) (hc : Correct t weights) (hknown : t.Known hash) :
    ∃ w weights', cumulativeWeight t aux hash weights = .ok w weights' ∧
      w.toNat = t.totalWeight hash ∧ Correct t weights' := by
  have h := cumulativeWeight_correct aux hash hc
  cases hrun : cumulativeWeight t aux hash weights with
  | ok w weights' =>
    rw [hrun] at h
    exact ⟨w, weights', rfl, h⟩
  | error e weights' =>
    rw [hrun] at h
    exact absurd hknown h.1.1

theorem cumulativeWeight_keeps (hash : H256) :
    Command.Keeps (.preserving (Correct t)) (cumulativeWeight t aux hash) := by
  intro weights hc
  have h := cumulativeWeight_correct aux hash hc
  cases hrun : cumulativeWeight t aux hash weights with
  | ok w weights' =>
    rw [hrun] at h
    exact h.2
  | error e weights' =>
    rw [hrun] at h
    rw [left, h.2]
    exact hc

/-! ## The best leaf -/

/-- The test of the loop tells which of two leaves is ahead. -/
theorem ahead_of_test {w v : U128} (hw : w.toNat = t.totalWeight a) (hv : v.toNat = t.totalWeight b) :
    if v < w ∨ (w = v ∧ a < b) then t.Ahead a b else t.Ahead b a := by
  unfold BlockTree.Ahead
  simp only [BitVec.lt_def, BitVec.le_def, ← BitVec.toNat_inj]
  split
  · omega
  · omega

theorem bestLeaf_ok (aux : Aux) {best : H256} {bestWeight : U128} (hc : Correct t weights)
    (hknown : ∀ leaf ∈ leaves, t.Known leaf) (hweight : bestWeight.toNat = t.totalWeight best) :
    ∃ result weights', bestLeaf t aux leaves best bestWeight weights = .ok result weights' ∧
      t.Best (best :: leaves) result ∧ Correct t weights' := by
  induction leaves generalizing best bestWeight weights with
  | nil => exact ⟨best, weights, rfl, .singleton best, hc⟩
  | cons leaf leaves ih =>
    obtain ⟨w, weights₁, hrun, hw, hc₁⟩ :=
      cumulativeWeight_ok aux hc (hknown leaf List.mem_cons_self)
    have hrest : ∀ leaf ∈ leaves, t.Known leaf := by
      intro leaf hleaf
      exact hknown leaf (List.mem_cons_of_mem _ hleaf)
    have htest := ahead_of_test hw hweight
    rw [bestLeaf, bind_ok hrun]
    split at htest
    · rename_i hbetter
      obtain ⟨result, weights₂, hloop, hbest, hc₂⟩ := ih hc₁ hrest hw
      rw [if_pos hbetter]
      exact ⟨result, weights₂, hloop, (hbest.add htest).perm (.swap _ _ _), hc₂⟩
    · rename_i hbetter
      obtain ⟨result, weights₂, hloop, hbest, hc₂⟩ := ih hc₁ hrest hweight
      rw [if_neg hbetter]
      exact ⟨result, weights₂, hloop, hbest.add htest, hc₂⟩

theorem headerOf_ok (h : t.header hash = some head) :
    headerOf t hash weights = .ok (hash, head) weights := by
  rw [headerOf, h]
  rfl

theorem bestHeaderWeighted_ok (aux : Aux) (infoBest : H256) (hc : Correct t weights) (hleaves : leaves ≠ [])
    (hknown : ∀ leaf ∈ leaves, t.Known leaf) :
    ∃ best head weights', bestHeaderWeighted t aux leaves infoBest weights =
      .ok (best, head) weights' ∧ t.Best leaves best ∧ t.header best = some head ∧
      Correct t weights' := by
  cases leaves with
  | nil => exact absurd rfl hleaves
  | cons first leaves =>
    obtain ⟨w, weights₁, hrun, hw, hc₁⟩ :=
      cumulativeWeight_ok aux hc (hknown first List.mem_cons_self)
    have hrest : ∀ leaf ∈ leaves, t.Known leaf := by
      intro leaf hleaf
      exact hknown leaf (List.mem_cons_of_mem _ hleaf)
    obtain ⟨best, weights₂, hloop, hbest, hc₂⟩ := bestLeaf_ok aux hc₁ hrest hw
    obtain ⟨head, hhead⟩ := hknown best hbest.mem
    refine ⟨best, head, weights₂, ?_, hbest, hhead, hc₂⟩
    rw [bestHeaderWeighted, bind_ok hrun, bind_ok hloop, headerOf_ok hhead]

/-! ## Runs -/

/-- The auxiliary store after calls of `cumulative_weight`. -/
def afterCalls (t : BlockTree) (calls : List (Aux × H256)) : Weights :=
  Machine.run (fun weights call => left (cumulativeWeight t call.1 call.2 weights)) ∅ calls

theorem correct_afterCalls (t : BlockTree) (calls : List (Aux × H256)) :
    Correct t (afterCalls t calls) := by
  apply Machine.run_induction
  · intro weights call hc
    exact cumulativeWeight_keeps call.2 weights hc
  · exact correct_empty

theorem weighted_fork_choice (t : BlockTree) (calls : List (Aux × H256)) (aux : Aux) :
    (∀ hash, t.Known hash → ∃ w weights',
      cumulativeWeight t aux hash (afterCalls t calls) = .ok w weights' ∧
        w.toNat = t.totalWeight hash) ∧
    (∀ child head, t.header child = some head → head.number ≠ 0 → 0 < t.blockWeight child →
      ∃ v w before after, cumulativeWeight t aux head.parentHash (afterCalls t calls) =
        .ok v before ∧ cumulativeWeight t aux child (afterCalls t calls) = .ok w after ∧ v < w) ∧
    ∀ leaves, leaves ≠ [] → (∀ leaf ∈ leaves, t.Known leaf) →
      ∃ best head, t.Best leaves best ∧ t.header best = some head ∧
        ∀ leaves' infoBest, leaves.Perm leaves' → ∃ weights',
          bestHeaderWeighted t aux leaves' infoBest (afterCalls t calls) =
            .ok (best, head) weights' := by
  have hc := correct_afterCalls t calls
  refine ⟨?_, ?_, ?_⟩
  · intro hash hknown
    obtain ⟨w, weights', hrun, hw, -⟩ := cumulativeWeight_ok aux hc hknown
    exact ⟨w, weights', hrun, hw⟩
  · intro child head hhead hnumber hpositive
    obtain ⟨above, habove, -⟩ := t.linked hhead hnumber
    obtain ⟨v, before, hparent, hv, -⟩ := cumulativeWeight_ok aux hc ⟨above, habove⟩
    obtain ⟨w, after, hchild, hw, -⟩ := cumulativeWeight_ok aux hc ⟨head, hhead⟩
    refine ⟨v, w, before, after, hparent, hchild, ?_⟩
    rw [BitVec.lt_def, hv, hw, totalWeight_of_linked hhead hnumber]
    exact Nat.lt_add_of_pos_left hpositive
  · intro leaves hleaves hknown
    obtain ⟨best, head, -, -, hbest, hhead, -⟩ :=
      bestHeaderWeighted_ok aux t.genesis hc hleaves hknown
    refine ⟨best, head, hbest, hhead, ?_⟩
    intro leaves' infoBest hperm
    have hleaves' : leaves' ≠ [] := by
      rintro rfl
      exact hleaves hperm.eq_nil
    have hknown' : ∀ leaf ∈ leaves', t.Known leaf := by
      intro leaf hleaf
      exact hknown leaf (hperm.mem_iff.mpr hleaf)
    obtain ⟨best', head', weights', hrun, hbest', hhead', -⟩ :=
      bestHeaderWeighted_ok aux infoBest hc hleaves' hknown'
    obtain rfl : best = best' := (hbest.perm hperm).unique hbest'
    obtain rfl : head = head' := Option.some.inj (hhead.symm.trans hhead')
    exact ⟨weights', hrun⟩

/-- Two blocks over the genesis block, the second one of the lower difficulty. -/
def fork : BlockTree where
  header hash := if hash = 0 then some ⟨0, 0⟩ else if hash = 1 ∨ hash = 2 then some ⟨1, 0⟩ else none
  difficulty hash := if hash = 1 then 10 else 5
  genesis := 0
  root h hnumber := by
    split at h
    · assumption
    · split at h
      · cases h
        cases hnumber
      · cases h
  linked h hnumber := by
    split at h
    · cases h
      exact absurd rfl hnumber
    · split at h
      · cases h
        exact ⟨⟨0, 0⟩, rfl, rfl⟩
      · cases h

example : (match bestHeaderWeighted fork ⟨fun _ => true, fun _ => true⟩ [1, 2] 0 ∅ with
    | .ok tip _ => tip.1
    | .error _ _ => 0) = 2 := by
  decide +kernel

end Qubitcoin.Substrate.WeightedChain
