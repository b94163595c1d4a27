import Qubitcoin.Substrate.ForkChoice

/-! The finality target lies between its base and the best tip. -/

namespace Qubitcoin.Substrate.WeightedChain

open Command ParentTree

variable {t : BlockTree} {hash base tip : H256} {head : Header} {leaves : List H256}
  {weights : Weights} {aux : Aux}

/-- The loop ends within the number of the head that it starts from. -/
theorem boundHead_spec (maxNumber : U32) {fuel : Nat} (h : t.header hash = some head)
    (hfuel : head.number.toNat < fuel) :
    ∃ target below, boundHead t maxNumber fuel hash head = .ok (target, below) ∧
      t.header target = some below ∧ below.number ≤ maxNumber ∧ t.tree.Ancestor target hash := by
  induction fuel generalizing hash head with
  | zero => exact absurd hfuel (Nat.not_lt_zero _)
  | succ fuel ih =>
    rw [boundHead]
    split
    · rename_i hmax
      have hnumber : head.number ≠ 0 := by
        intro hzero
        rw [hzero] at hmax
        exact absurd hmax (BitVec.not_lt_zero)
      obtain ⟨above, habove, hlink⟩ := t.linked h hnumber
      obtain ⟨target, below, hrun, hbelow, hle, hancestor⟩ := ih habove (by omega)
      rw [habove]
      exact ⟨target, below, hrun, hbelow, hle, hancestor.of_parent (parent_of_linked h hnumber)⟩
    · rename_i hmax
      exact ⟨hash, head, rfl, h, BitVec.not_lt.mp hmax, .refl hash⟩

/-- The loop meets the base or passes below its number; at genesis it does one or the other. -/
theorem findBase_spec (best : H256) {baseHead : Header} {fuel : Nat} (hbase : t.header base = some baseHead)
    (h : t.header hash = some head) (hfuel : head.number.toNat < fuel) :
    (findBase t base baseHead.number best fuel hash head = .ok () ∧ t.tree.Ancestor base hash) ∨
      findBase t base baseHead.number best fuel hash head =
        .error (.baseNotInBestChain base best) := by
  induction fuel generalizing hash head with
  | zero => exact absurd hfuel (Nat.not_lt_zero _)
  | succ fuel ih =>
    rw [findBase]
    split
    · rename_i heq
      exact .inl ⟨rfl, heq ▸ .refl hash⟩
    · rename_i hne
      split
      · exact .inr rfl
      · rename_i hbelow
        have hnumber : head.number ≠ 0 := by
          intro hzero
          have hroot : baseHead.number = 0 := by
            rw [hzero] at hbelow
            simpa using hbelow
          exact hne ((t.root h hzero).trans (t.root hbase hroot).symm)
        obtain ⟨above, habove, hlink⟩ := t.linked h hnumber
        rw [habove]
        apply (ih habove (by omega)).imp_left
        intro hfound
        exact ⟨hfound.1, hfound.2.of_parent (parent_of_linked h hnumber)⟩

theorem targetHead_spec (baseNumber : U32) (maybeMaxNumber : Option U32)
    (h : t.header hash = some head) :
    match targetHead t baseNumber maybeMaxNumber (hash, head) with
    | .ok (target, below) => t.header target = some below ∧ t.tree.Ancestor target hash ∧
        ∀ maxNumber, maybeMaxNumber = some maxNumber → below.number ≤ maxNumber
    | .error e => ∃ maxNumber, e = .maxBelowBase maxNumber baseNumber := by
  cases maybeMaxNumber with
  | none =>
    refine ⟨h, .refl hash, ?_⟩
    intro maxNumber hmax
    cases hmax
  | some maxNumber =>
    by_cases hmax : maxNumber < baseNumber
    · have hrun : targetHead t baseNumber (some maxNumber) (hash, head) =
        .error (.maxBelowBase maxNumber baseNumber) := if_pos hmax
      rw [hrun]
      exact ⟨maxNumber, rfl⟩
    · obtain ⟨target, below, hrun, hbelow, hle, hancestor⟩ :=
        boundHead_spec maxNumber h head.number.isLt
      have hbound : targetHead t baseNumber (some maxNumber) (hash, head) =
        .ok (target, below) := (if_neg hmax).trans hrun
      rw [hbound]
      refine ⟨hbelow, hancestor, ?_⟩
      intro m hm
      cases hm
      exact hle

/-! ## The best tip from any weights -/

def Unknown (e : Error) : Prop := ∃ hash, e = .unknownBlock hash

theorem cumulativeWeight_failsOnly (hash : H256) :
    FailsOnly Unknown (cumulativeWeight t aux hash) := by
  intro weights e weights' hrun
  rw [cumulativeWeight_run] at hrun
  split at hrun
  · cases hrun
  · split at hrun
    · rename_i hwalk
      cases hrun
      exact ⟨hash, (walkBack_error hwalk).2⟩
    · cases hrun

theorem headerOf_failsOnly (hash : H256) : FailsOnly Unknown (headerOf t hash) := by
  intro weights e weights' hrun
  cases hhead : t.header hash with
  | none =>
    rw [headerOf, hhead] at hrun
    cases hrun
    exact ⟨hash, rfl⟩
  | some head =>
    rw [headerOf_ok hhead] at hrun
    cases hrun

theorem bestLeaf_failsOnly (leaves : List H256) (best : H256) (bestWeight : U128) :
    FailsOnly Unknown (bestLeaf t aux leaves best bestWeight) := by
  induction leaves generalizing best bestWeight with
  | nil => exact .pure best
  | cons leaf leaves ih =>
    apply FailsOnly.bind (cumulativeWeight_failsOnly leaf)
    intro w
    exact .ite (ih leaf w) (ih best bestWeight)

theorem bestHeaderWeighted_failsOnly (leaves : List H256) (infoBest : H256) :
    FailsOnly Unknown (bestHeaderWeighted t aux leaves infoBest) := by
  cases leaves with
  | nil => exact headerOf_failsOnly infoBest
  | cons first leaves =>
    apply FailsOnly.bind (cumulativeWeight_failsOnly first)
    intro bestWeight
    apply FailsOnly.bind (bestLeaf_failsOnly leaves first bestWeight)
    exact headerOf_failsOnly

theorem header_of_headerOf {weights' : Weights} {r : H256 × Header}
    (h : headerOf t hash weights = .ok r weights') : t.header r.1 = some r.2 := by
  cases hhead : t.header hash with
  | none =>
    rw [headerOf, hhead] at h
    cases h
  | some head =>
    rw [headerOf_ok hhead] at h
    cases h
    exact hhead

theorem header_of_bestHeaderWeighted {infoBest : H256} {weights' : Weights} {r : H256 × Header}
    (h : bestHeaderWeighted t aux leaves infoBest weights = .ok r weights') :
    t.header r.1 = some r.2 := by
  cases leaves with
  | nil => exact header_of_headerOf h
  | cons first leaves =>
    obtain ⟨bestWeight, weights₁, -, h⟩ := of_bind_ok h
    obtain ⟨best, weights₂, -, h⟩ := of_bind_ok h
    exact header_of_headerOf h

/-! ## The target -/

/-- What follows the choice of the tip. -/
theorem finalityTarget_of_tip {infoBest : H256} {maybeMaxNumber : Option U32} {weights' : Weights}
    {baseHead : Header}
    (htip : bestHeaderWeighted t aux leaves infoBest weights = .ok (tip, head) weights')
    (hbase : t.header base = some baseHead) :
    finalityTarget t aux leaves infoBest base maybeMaxNumber weights =
      match targetHead t baseHead.number maybeMaxNumber (tip, head) with
      | .error e => .error e weights'
      | .ok (target, below) =>
        match findBase t base baseHead.number target turns target below with
        | .error e => .error e weights'
        | .ok () => .ok target weights' := by
  rw [finalityTarget, bind_ok htip]
  simp only [hbase]
  cases targetHead t baseHead.number maybeMaxNumber (tip, head) with
  | error e => rfl
  | ok r =>
    change (ofExcept (findBase t base baseHead.number r.1 turns r.1 r.2) >>= fun _ => pure r.1)
      weights' = match findBase t base baseHead.number r.1 turns r.1 r.2 with
        | .error e => .error e weights'
        | .ok () => .ok r.1 weights'
    cases findBase t base baseHead.number r.1 turns r.1 r.2 with
    | error e => rfl
    | ok u => rfl

theorem finality_target_on_best_chain (t : BlockTree) (aux : Aux) (weights : Weights)
    (leaves : List H256) (infoBest base : H256) (maybeMaxNumber : Option U32) :
    match finalityTarget t aux leaves infoBest base maybeMaxNumber weights with
    | .ok target weights' => ∃ tip head targetHead,
        bestHeaderWeighted t aux leaves infoBest weights = .ok (tip, head) weights' ∧
        (Correct t weights → leaves ≠ [] → (∀ leaf ∈ leaves, t.Known leaf) →
          t.Best leaves tip) ∧
        t.tree.Ancestor base target ∧ t.tree.Ancestor target tip ∧
        t.header target = some targetHead ∧
        ∀ maxNumber, maybeMaxNumber = some maxNumber → targetHead.number ≤ maxNumber
    | .error e _ => e ≠ .unfinished := by
  cases htip : bestHeaderWeighted t aux leaves infoBest weights with
  | error e weights' =>
    rw [finalityTarget, bind_error htip]
    obtain ⟨hash, rfl⟩ := bestHeaderWeighted_failsOnly leaves infoBest weights e weights' htip
    exact Error.noConfusion
  | ok r weights' =>
    obtain ⟨tip, head⟩ := r
    cases hbase : t.header base with
    | none =>
      rw [finalityTarget, bind_ok htip]
      simp only [hbase]
      exact Error.noConfusion
    | some baseHead =>
      have hspec := targetHead_spec baseHead.number maybeMaxNumber
        (header_of_bestHeaderWeighted htip)
      rw [finalityTarget_of_tip htip hbase]
      cases hrun : targetHead t baseHead.number maybeMaxNumber (tip, head) with
      | error e =>
        rw [hrun] at hspec
        obtain ⟨maxNumber, rfl⟩ := hspec
        exact Error.noConfusion
      | ok r =>
        obtain ⟨target, targetHead⟩ := r
        rw [hrun] at hspec
        obtain ⟨htarget, hancestor, hmax⟩ := hspec
        rcases findBase_spec target hbase htarget targetHead.number.isLt with
          ⟨hfound, hdescends⟩ | hmissing
        · dsimp only
          rw [turns, hfound]
          refine ⟨tip, head, targetHead, rfl, ?_, hdescends, hancestor, htarget, hmax⟩
          intro hc hleaves hknown
          obtain ⟨best, _, _, hbest, hgreatest, -⟩ :=
            bestHeaderWeighted_ok aux infoBest hc hleaves hknown
          rw [htip] at hbest
          cases hbest
          exact hgreatest
        · dsimp only
          rw [turns, hmissing]
          exact Error.noConfusion

end Qubitcoin.Substrate.WeightedChain
