import Mathlib
import Qubitcoin.Privacy.Poseidon2

/-! What a root of `poseidon2_merkle_root` binds: the zero-padded leaves modulo the prime,
for trees of one depth; and that the path of every leaf verifies against it. -/

namespace Qubitcoin.Privacy.Poseidon2

open Merkle

def depth (leaves : List U64) : Nat := Nat.clog 2 leaves.length

/-- The pairs that a root combines. -/
def hashed (leaves : List U64) : List (U64 × U64) := combined hashTwo (depth leaves) (padded leaves)

/-- The pairs that a proof combines. -/
def proofHashed (leaf : U64) (proof : List U64) (index : U64) : List (U64 × U64) :=
  climbed hashTwo leaf index.toNat proof

theorem length_padded (leaves : List U64) : (padded leaves).length = 2 ^ depth leaves := by
  have hle : leaves.length ≤ 2 ^ depth leaves := Nat.le_pow_clog (by decide) _
  rw [padded, List.length_append, List.length_replicate, nextPowerOfTwo]
  exact Nat.add_sub_cancel' hle

theorem padded_getElem? {leaves : List U64} {i : Nat} (h : i < leaves.length) :
    (padded leaves)[i]? = leaves[i]? := List.getElem?_append_left h

theorem buildUp_eq_levels {d : Nat} {xs : List U64} (h : xs.length = 2 ^ d) :
    buildUp xs = levels hashTwo d xs := by
  induction d generalizing xs with
  | zero =>
    rw [buildUp, dif_neg (by rw [h, Nat.pow_zero]; exact Nat.lt_irrefl 1)]
    rfl
  | succ d ih =>
    have hlong : 1 < xs.length := by
      rw [h]
      exact Nat.one_lt_two_pow (Nat.succ_ne_zero d)
    rw [Nat.pow_succ, Nat.mul_comm] at h
    rw [buildUp, dif_pos hlong, ih (length_level h)]
    rfl

/-- The root is what the levels over the padded leaves end in, the two early returns included. -/
theorem levels_padded (leaves : List U64) :
    levels hashTwo (depth leaves) (padded leaves) = [merkleRoot leaves] := by
  have hshort (leaf : U64) (h : depth leaves = 0) (hpad : padded leaves = [leaf]) :
      levels hashTwo (depth leaves) (padded leaves) = [leaf] := by
    rw [h, hpad]
    rfl
  match leaves with
  | [] => exact hshort 0 (Nat.clog_zero_right 2) (by simp [padded, nextPowerOfTwo])
  | [leaf] => exact hshort leaf (Nat.clog_one_right 2) (by simp [padded, nextPowerOfTwo])
  | a :: b :: rest =>
    have hlength := length_padded (a :: b :: rest)
    obtain ⟨root, hroot⟩ := List.length_eq_one_iff.mp (length_levels (f := hashTwo) hlength)
    change _ = [(buildUp (padded (a :: b :: rest))).headD 0]
    rw [buildUp_eq_levels hlength, hroot]
    rfl

theorem verifyLoop_eq_climb (current idx : U64) (proof : List U64) :
    verifyLoop current idx proof = climb hashTwo current idx.toNat proof := by
  induction proof generalizing current idx with
  | nil => rfl
  | cons sib proof ih =>
    have hbit : idx &&& 1 = 0 ↔ idx.toNat % 2 = 0 := by
      rw [← BitVec.toNat_inj, BitVec.toNat_and]
      change idx.toNat &&& 1 = 0 ↔ _
      rw [Nat.and_one_is_mod]
    rw [verifyLoop, climb, ih, BitVec.toNat_ushiftRight, Nat.shiftRight_eq_div_pow, Nat.pow_one]
    simp only [hbit]

theorem eq_of_padded {a b : List U64} (hlength : a.length = b.length)
    (hcanon : ∀ x ∈ a ++ b, canon x = x)
    (h : (padded a).map canon = (padded b).map canon) : a = b := by
  have hself (xs : List U64) (hxs : xs ⊆ a ++ b) : xs.map canon = xs :=
    List.map_congr_left (fun x hx => hcanon x (hxs hx)) |>.trans (List.map_id xs)
  rw [padded, padded, List.map_append, List.map_append, hself a (List.subset_append_left a b),
    hself b (List.subset_append_right a b)] at h
  exact (List.append_inj h hlength).1

/-- Equal roots bind the padded leaves, and an accepted proof opens the padded list at the
index modulo the number of its places; both exactly where leaves are canonical. -/
theorem merkleRoot_binding :
    (∀ a b : List U64, depth a = depth b →
      CollisionFree hashTwo canon (hashed a ++ hashed b) → merkleRoot a = merkleRoot b →
      (padded a).map canon = (padded b).map canon ∧
        (a.length = b.length → (∀ x ∈ a ++ b, canon x = x) → a = b)) ∧
    ∀ (leaves : List U64) (leaf index : U64) (proof : List U64),
      proof.length = depth leaves →
      CollisionFree hashTwo canon (hashed leaves ++ proofHashed leaf proof index) →
      merkleVerify leaf proof index (merkleRoot leaves) = true →
      (∃ x, (padded leaves)[index.toNat % 2 ^ depth leaves]? = some x ∧ canon x = canon leaf) ∧
        (index.toNat < leaves.length → (∀ x ∈ leaf :: leaves, canon x = x) →
          leaves[index.toNat]? = some leaf) := by
  constructor
  · intro a b hdepth hfree hroot
    have hlevels : levels hashTwo (depth a) (padded a) = levels hashTwo (depth a) (padded b) := by
      rw [levels_padded, hdepth, levels_padded, hroot]
    have hsame : (padded a).map canon = (padded b).map canon := by
      apply binding canon_hashTwo (length_padded a) _ _ hlevels
      · rw [length_padded, hdepth]
      · rw [hashed, hashed, ← hdepth] at hfree
        exact hfree
    exact ⟨hsame, fun hlength hcanon => eq_of_padded hlength hcanon hsame⟩
  · intro leaves leaf index proof hproof hfree hverify
    have hclimb : levels hashTwo (depth leaves) (padded leaves) =
        [climb hashTwo leaf index.toNat proof] := by
      rw [levels_padded, ← verifyLoop_eq_climb]
      simpa [merkleVerify, eq_comm] using hverify
    obtain ⟨x, hx, hsame⟩ := opening canon_hashTwo (length_padded leaves) hproof hfree hclimb
    refine ⟨⟨x, hx, hsame⟩, fun hindex hcanon => ?_⟩
    have hsmall : index.toNat < 2 ^ depth leaves :=
      hindex.trans_le (Nat.le_pow_clog (by decide) _)
    rw [Nat.mod_eq_of_lt hsmall, padded_getElem? hindex] at hx
    rw [hx, ← hcanon x (List.mem_cons_of_mem _ (List.mem_of_getElem? hx)), hsame,
      hcanon leaf List.mem_cons_self]

section Pairs

variable (x y : U64)

theorem depth_pair : depth [x, y] = 1 := Nat.clog_pow 2 1 (by decide)

theorem padded_pair : padded [x, y] = [x, y] := by
  have hsize : nextPowerOfTwo 2 = 2 := congrArg (2 ^ ·) (depth_pair 0 0)
  simp [padded, hsize]

theorem hashed_pair : hashed [x, y] = [(x, y)] := by
  simp [hashed, depth_pair, padded_pair, combined, pairs]

theorem merkleRoot_pair : merkleRoot [x, y] = hashTwo x y := by
  have h := levels_padded [x, y]
  simpa [depth_pair, padded_pair, levels, level, eq_comm] using h

end Pairs

theorem merkleRoot_binding_pair :
    (padded [BitVec.ofNat 64 (5 + goldilocksP), 6]).map canon = (padded [5, 6]).map canon ∧
      [5, 6][(0 : U64).toNat]? = some (5 : U64) := by
  have hsame : canon (BitVec.ofNat 64 (5 + goldilocksP)) = canon 5 := by decide
  constructor
  · have hdepth := (depth_pair (BitVec.ofNat 64 (5 + goldilocksP)) 6).trans (depth_pair 5 6).symm
    apply (merkleRoot_binding.1 _ _ hdepth _ _).1
    · apply CollisionFree.of_same (a := canon 5) (b := canon 6)
      simp [hashed_pair, hsame]
    · rw [merkleRoot_pair, merkleRoot_pair]
      exact hashTwo_congr hsame rfl
  · have hproof : proofHashed 5 [6] 0 = [(5, 6)] := rfl
    apply (merkleRoot_binding.2 [5, 6] 5 0 [6] (depth_pair 5 6).symm _ _).2 (by decide) _
    · apply CollisionFree.of_same (a := canon 5) (b := canon 6)
      rw [hashed_pair, hproof]
      simp
    · rw [merkleRoot_pair]
      simp [merkleVerify, verifyLoop]
    · intro x hx
      simp only [List.mem_cons, List.not_mem_nil, or_false] at hx
      rcases hx with rfl | rfl | rfl <;> rfl

/-- Without collisions among the pairs hashed: an unreduced leaf, an inner node taken as a
leaf, padding of the empty list, and an index bit above the depth. -/
theorem merkleRoot_not_injective :
    (∀ p ∈ [([BitVec.ofNat 64 (1 + goldilocksP), 2], [1, 2]), ([hashTwo 1 2], [1, 2]), ([], [0])],
      CollisionFree hashTwo canon (hashed p.1 ++ hashed p.2) ∧
        merkleRoot p.1 = merkleRoot p.2 ∧ p.1 ≠ p.2) ∧
    CollisionFree hashTwo canon (hashed [1, 2] ++ proofHashed 1 [2] 2) ∧
    [(2 : U64)].length = depth [1, 2] ∧
    merkleVerify 1 [2] 2 (merkleRoot [1, 2]) = true ∧ ¬ (2 : U64).toNat < [(1 : U64), 2].length := by
  have hsame : canon (BitVec.ofNat 64 (1 + goldilocksP)) = canon 1 := by decide
  have hsingle (leaf : U64) : hashed [leaf] = [] := by
    rw [hashed, depth, List.length_singleton, Nat.clog_one_right]
    rfl
  have hempty : hashed [] = [] := by
    rw [hashed, depth, List.length_nil, Nat.clog_zero_right]
    rfl
  have hproof : proofHashed 1 [2] 2 = [(1, 2)] := rfl
  refine ⟨?_, ?_, (depth_pair 1 2).symm, ?_, by decide⟩
  · intro p hp
    simp only [List.mem_cons, List.not_mem_nil, or_false] at hp
    rcases hp with rfl | rfl | rfl
    · refine ⟨?_, ?_, by decide⟩
      · apply CollisionFree.of_same (a := canon 1) (b := canon 2)
        simp [hashed_pair, hsame]
      · rw [merkleRoot_pair, merkleRoot_pair]
        exact hashTwo_congr hsame rfl
    · refine ⟨?_, ?_, by simp⟩
      · apply CollisionFree.of_same (a := canon 1) (b := canon 2)
        simp [hashed_pair, hsingle]
      · rw [merkleRoot_pair]
        rfl
    · refine ⟨?_, rfl, by simp⟩
      apply CollisionFree.of_same (a := canon 0) (b := canon 0)
      simp [hsingle, hempty]
  · apply CollisionFree.of_same (a := canon 1) (b := canon 2)
    rw [hashed_pair, hproof]
    simp
  · rw [merkleRoot_pair]
    simp [merkleVerify, verifyLoop]

/-- No two-to-one function on `n` elements is injective on pairs of them. -/
theorem exists_collision {n : Nat} {hash : U64 → U64 → U64} (hn : 1 < n) (hword : n < 2 ^ 64)
    (hlt : ∀ l r, (hash l r).toNat < n) :
    ∃ l r l' r' : U64, (l, r) ≠ (l', r') ∧ hash l r = hash l' r' ∧
      ∀ x ∈ [l, r, l', r'], x.toNat < n := by
  let word (i : Fin n) : U64 := BitVec.ofNat 64 i
  have htoNat (i : Fin n) : (word i).toNat = i := by
    rw [BitVec.toNat_ofNat, Nat.mod_eq_of_lt (i.isLt.trans hword)]
  let onFin (p : Fin n × Fin n) : Fin n := ⟨(hash (word p.1) (word p.2)).toNat, hlt _ _⟩
  have hcard : Fintype.card (Fin n) < Fintype.card (Fin n × Fin n) := by
    rw [Fintype.card_prod, Fintype.card_fin]
    exact (Nat.lt_mul_iff_one_lt_right (by omega)).mpr hn
  obtain ⟨p, q, hne, hpq⟩ := Fintype.exists_ne_map_eq_of_card_lt onFin hcard
  refine ⟨word p.1, word p.2, word q.1, word q.2, ?_, ?_, by simp [htoNat]⟩
  · intro h
    simp only [Prod.mk.injEq] at h
    apply hne
    apply Prod.ext <;> apply Fin.ext
    · rw [← htoNat p.1, h.1, htoNat]
    · rw [← htoNat p.2, h.2, htoNat]
  · have hnat := congrArg Fin.val hpq
    exact BitVec.eq_of_toNat_eq hnat

/-- Why freedom from collisions is asked of the pairs a computation hashes only. -/
theorem hashTwo_collides :
    ∃ l r l' r' : U64, (l, r) ≠ (l', r') ∧ hashTwo l r = hashTwo l' r' ∧
      ∀ x ∈ [l, r, l', r'], x.toNat < goldilocksP :=
  exists_collision (by decide) goldilocksP_lt fun _ _ => State.permute_lt _ 0

/-! ## Paths -/

/-- The siblings of a leaf in the tree that `merkleRoot` builds. -/
def merklePath (leaves : List U64) (index : Nat) : List U64 :=
  siblings hashTwo (depth leaves) index (padded leaves)

/-- The path of every leaf verifies. -/
theorem merkleVerify_merklePath (leaves : List U64) (index : U64)
    (h : index.toNat < leaves.length) :
    merkleVerify leaves[index.toNat] (merklePath leaves index.toNat) index
      (merkleRoot leaves) = true := by
  have hleaf : (padded leaves)[index.toNat]? = some leaves[index.toNat] := by
    rw [padded_getElem? h, List.getElem?_eq_getElem h]
  have hroot := completeness (f := hashTwo) (length_padded leaves) hleaf
  rw [levels_padded] at hroot
  rw [merkleVerify, verifyLoop_eq_climb, decide_eq_true_eq]
  exact (List.cons.inj hroot).1.symm

theorem merkleVerify_merklePath_third :
    merkleVerify 3 (merklePath [1, 2, 3] 2) 2 (merkleRoot [1, 2, 3]) = true :=
  merkleVerify_merklePath [1, 2, 3] 2 (by decide)

end Qubitcoin.Privacy.Poseidon2
