import Qubitcoin.Contracts.ZKBridgeVerifier
import Qubitcoin.Privacy.Poseidon2

/-! The Poseidon2 library of the contracts computes the hashes and checks the Merkle proofs of the
node's `poseidon2.rs`. -/

namespace Qubitcoin.Contracts.Poseidon2

section RoundConstants

open Privacy.Poseidon2

/-- `extendWords` on the words in reverse, the newest first. -/
def scheduleBack : Nat → List (BitVec 32) → List (BitVec 32)
  | 0, w => w
  | n + 1, w =>
    let w15 := w.getD 14 0
    let w2 := w.getD 1 0
    let s0 := rotr32 w15 7 ^^^ rotr32 w15 18 ^^^ w15 >>> 3
    let s1 := rotr32 w2 17 ^^^ rotr32 w2 19 ^^^ w2 >>> 10
    scheduleBack n ((w.getD 15 0 + s0 + w.getD 6 0 + s1) :: w)

theorem getD_reverse {w : List (BitVec 32)} {i j : Nat} (h : i + j + 1 = w.length) :
    w.reverse.getD i 0 = w.getD j 0 := by
  rw [List.getD_eq_getElem?_getD, List.getD_eq_getElem?_getD, List.getElem?_reverse (by omega)]
  congr 2
  omega

theorem scheduleBack_reverse {n : Nat} {w : List (BitVec 32)} (h : 16 ≤ w.length) :
    scheduleBack n w.reverse = (extendWords n w).reverse := by
  induction n generalizing w with
  | zero => rfl
  | succ n ih =>
    have h14 : w.reverse.getD 14 0 = w.getD (w.length - 15) 0 := getD_reverse (by omega)
    have h1 : w.reverse.getD 1 0 = w.getD (w.length - 2) 0 := getD_reverse (by omega)
    have h15 : w.reverse.getD 15 0 = w.getD (w.length - 16) 0 := getD_reverse (by omega)
    have h6 : w.reverse.getD 6 0 = w.getD (w.length - 7) 0 := getD_reverse (by omega)
    rw [scheduleBack, extendWords, ← ih]
    · simp only [h14, h1, h15, h6, List.reverse_append, List.reverse_singleton,
        List.singleton_append]
    · simp only [List.length_append, List.length_singleton]
      omega

theorem length_parseWords (bs : Bytes) : (parseWords bs).length = bs.length / 4 := by
  induction bs using parseWords.induct with
  | case1 a b c d rest ih =>
    rw [parseWords, List.length_cons, ih]
    simp only [List.length_cons]
    omega
  | case2 bs hshort =>
    rcases bs with _ | ⟨a, _ | ⟨b, _ | ⟨c, _ | ⟨d, rest⟩⟩⟩⟩
    · rfl
    · simp [parseWords]
    · simp [parseWords]
    · simp [parseWords]
    · exact absurd rfl (hshort a b c d rest)

/-- `sha256Block` with the schedule of `scheduleBack`. -/
def sha256Fast (input : Bytes) : Bytes :=
  let block := input ++ [0x80] ++ List.replicate (55 - input.length) 0 ++
    (Bytes.le 8 (input.length * 8)).reverse
  let w := (scheduleBack 48 (parseWords block).reverse).reverse
  let out := compress (sha256K.zip w) 0x6a09e667 0xbb67ae85 0x3c6ef372 0xa54ff53a
    0x510e527f 0x9b05688c 0x1f83d9ab 0x5be0cd19
  (List.zipWith (· + ·) [0x6a09e667, 0xbb67ae85, 0x3c6ef372, 0xa54ff53a,
    0x510e527f, 0x9b05688c, 0x1f83d9ab, 0x5be0cd19] out).flatMap bigEndian32

theorem sha256Fast_eq (input : Bytes) : sha256Fast input = sha256Block input := by
  have hlength : 16 ≤ (parseWords (input ++ [0x80] ++ List.replicate (55 - input.length) 0 ++
      (Bytes.le 8 (input.length * 8)).reverse)).length := by
    rw [length_parseWords]
    simp only [List.length_append, List.length_singleton, List.length_replicate,
      List.length_reverse, Bytes.length_le]
    omega
  have hschedule := scheduleBack_reverse (n := 48) hlength
  simp only [sha256Fast, sha256Block, hschedule, List.reverse_reverse]

def constantChainFast : Nat → Bytes → List U64
  | 0, _ => []
  | n + 1, state =>
    let state := sha256Fast state
    constantOf state :: constantChainFast n state

theorem constantChainFast_eq (n : Nat) (state : Bytes) :
    constantChainFast n state = constantChain n state := by
  induction n generalizing state with
  | zero => rfl
  | succ n ih => rw [constantChainFast, constantChain, ih, sha256Fast_eq]

theorem constantChainFast_seed : constantChainFast 80 (sha256Fast seed) = roundConstants := by
  decide +kernel

/-- The literal constants are those of the hash chain. -/
theorem generateRoundConstants_eq : generateRoundConstants = roundConstants := by
  rw [generateRoundConstants, ← sha256Fast_eq, ← constantChainFast_eq, constantChainFast_seed]

end RoundConstants

section Field

open Privacy.Poseidon2 (fieldAdd fieldMul fieldPow goldilocksP goldilocksP_pos goldilocksP_lt
  toNat_fieldAdd_lt toNat_fieldMul toNat_fieldPow)

theorem goldilocksP_eq : goldilocksP = 0xFFFFFFFF00000001 := rfl

theorem toNat_fadd (a b : U64) :
    (fadd a b).toNat =
      (if goldilocksP ≤ a.toNat + b.toNat then a.toNat + b.toNat - goldilocksP
        else a.toNat + b.toNat) % 2 ^ 64 :=
  rfl

/-- The sum in 128 bits and the sum that wraps around differ by nothing, reduced or not. -/
theorem fadd_eq (a b : U64) : fadd a b = fieldAdd a b := by
  have ha := a.isLt
  have hb := b.isLt
  have hP := goldilocksP_eq
  apply BitVec.eq_of_toNat_eq
  rw [toNat_fadd, fieldAdd]
  by_cases hle : goldilocksP ≤ a.toNat + b.toNat
  · have hover : 2 ^ 64 ≤ a.toNat + b.toNat ∨ goldilocksP ≤ (a + b).toNat := by
      rw [BitVec.toNat_add]
      omega
    rw [if_pos hle, if_pos hover, BitVec.toNat_sub, BitVec.toNat_add, BitVec.toNat_ofNat]
    omega
  · have hnone : ¬(2 ^ 64 ≤ a.toNat + b.toNat ∨ goldilocksP ≤ (a + b).toNat) := by
      rw [BitVec.toNat_add]
      omega
    rw [if_neg hle, if_neg hnone, BitVec.toNat_add]

theorem fmul_eq (a b : U64) : fmul a b = fieldMul a b := rfl

theorem sbox_eq (x : U64) : sbox x = fieldPow x Privacy.Poseidon2.sboxExp := by
  apply BitVec.eq_of_toNat_eq
  simp only [sbox, fmul_eq, toNat_fieldMul, toNat_fieldPow]
  change _ = x.toNat ^ 5 % goldilocksP
  have hsquare : x.toNat * x.toNat % goldilocksP ≡ x.toNat ^ 2 [MOD goldilocksP] := by
    rw [Nat.pow_two]
    exact Nat.mod_modEq _ _
  have hfourth := (Nat.mod_modEq _ goldilocksP).trans (hsquare.mul hsquare)
  have hfifth := hfourth.mul_right x.toNat
  rw [show x.toNat ^ 5 = x.toNat ^ 2 * x.toNat ^ 2 * x.toNat by ring]
  exact hfifth

theorem toNat_sbox_lt (x : U64) : (sbox x).toNat < goldilocksP := by
  rw [sbox_eq, toNat_fieldPow]
  exact Nat.mod_lt _ goldilocksP_pos

variable {x : U64} (hx : x.toNat < goldilocksP)

include hx

theorem fieldMul_one : fieldMul 1#64 x = x := by
  apply BitVec.eq_of_toNat_eq
  rw [toNat_fieldMul]
  change 1 * x.toNat % goldilocksP = x.toNat
  rw [Nat.one_mul, Nat.mod_eq_of_lt hx]

theorem fieldAdd_zero : fieldAdd 0#64 x = x := by
  apply BitVec.eq_of_toNat_eq
  have hlt : ¬goldilocksP ≤ (0#64).toNat + x.toNat := by
    change ¬goldilocksP ≤ 0 + x.toNat
    omega
  rw [← fadd_eq, toNat_fadd, if_neg hlt]
  change (0 + x.toNat) % 2 ^ 64 = x.toNat
  rw [Nat.zero_add, Nat.mod_eq_of_lt x.isLt]

theorem fieldMul_two : fieldMul 2#64 x = fieldAdd x x := by
  apply BitVec.eq_of_toNat_eq
  rw [toNat_fieldMul, ← fadd_eq, toNat_fadd, ← Nat.two_mul]
  change 2 * x.toNat % goldilocksP = _
  have hword := goldilocksP_lt
  split
  · next hle =>
    rw [Nat.mod_eq_sub_mod hle, Nat.mod_eq_of_lt (by omega), Nat.mod_eq_of_lt (by omega)]
  · next hlt => rw [Nat.mod_eq_of_lt (by omega), Nat.mod_eq_of_lt (by omega)]

end Field

section Permutation

open Privacy.Poseidon2 (fieldAdd fieldMul fieldPow goldilocksP toNat_fieldAdd_lt)

-- of the indices of the three elements
local instance neZeroThree : NeZero 3 := ⟨by decide⟩

/-- The state of the node under the names of the contract. -/
def ofNode (s : Privacy.Poseidon2.State) : State :=
  ⟨s.elements.get 0, s.elements.get 1, s.elements.get 2⟩

theorem roundConstant_eq (idx : Nat) :
    Privacy.Poseidon2.State.roundConstant idx = State.roundConstant idx := by
  rw [Privacy.Poseidon2.State.roundConstant, generateRoundConstants_eq, State.roundConstant]

structure Canonical (s : State) : Prop where
  s0 : s.s0.toNat < goldilocksP
  s1 : s.s1.toNat < goldilocksP
  s2 : s.s2.toNat < goldilocksP

theorem toNat_fadd_lt {a b : U64} (ha : a.toNat < goldilocksP) (hb : b.toNat < goldilocksP) :
    (fadd a b).toNat < goldilocksP := by
  rw [fadd_eq]
  exact toNat_fieldAdd_lt ha hb

theorem canonical_fullRound (idx : Nat) (s : State) : Canonical (s.fullRound idx) where
  s0 := toNat_sbox_lt _
  s1 := toNat_sbox_lt _
  s2 := toNat_sbox_lt _

theorem canonical_mds {s : State} (h : Canonical s) : Canonical s.mds where
  s0 := toNat_fadd_lt (toNat_fadd_lt (toNat_fadd_lt h.s0 h.s0) h.s1) h.s2
  s1 := toNat_fadd_lt (toNat_fadd_lt h.s0 (toNat_fadd_lt h.s1 h.s1)) h.s2
  s2 := toNat_fadd_lt (toNat_fadd_lt h.s0 h.s1) (toNat_fadd_lt h.s2 h.s2)

theorem canonical_partialRound (idx : Nat) {s : State} (h : Canonical s) :
    Canonical (s.partialRound idx) where
  s0 := toNat_sbox_lt _
  s1 := h.s1
  s2 := h.s2

theorem ofNode_fullRound (idx : Nat) (s : Privacy.Poseidon2.State) :
    ofNode (s.addRoundConstants idx).fullSbox = (ofNode s).fullRound idx := by
  simp [ofNode, Vector.get_eq_getElem, State.fullRound, Privacy.Poseidon2.State.addRoundConstants,
    Privacy.Poseidon2.State.fullSbox, roundConstant_eq, sbox_eq, fadd_eq]

theorem ofNode_partialRound (idx : Nat) (s : Privacy.Poseidon2.State) :
    ofNode (s.addRoundConstantsPartial idx).partialSbox = (ofNode s).partialRound idx := by
  simp [ofNode, Vector.get_eq_getElem, State.partialRound,
    Privacy.Poseidon2.State.addRoundConstantsPartial, Privacy.Poseidon2.State.partialSbox,
    roundConstant_eq, sbox_eq, fadd_eq]

/-- On canonical elements the products by 1 and 2 are the element and its double. -/
theorem ofNode_mdsMix {s : Privacy.Poseidon2.State} (h : Canonical (ofNode s)) :
    ofNode s.mdsMix = (ofNode s).mds := by
  have h0 : s.elements[0].toNat < goldilocksP := h.s0
  have h1 : s.elements[1].toNat < goldilocksP := h.s1
  have h2 : s.elements[2].toNat < goldilocksP := h.s2
  simp [ofNode, Vector.get_eq_getElem, State.mds, Privacy.Poseidon2.State.mdsMix,
    Privacy.Poseidon2.mds, Privacy.Poseidon2.State.mixRow, List.finRange, fieldMul_one, fieldMul_two,
    fieldAdd_zero, toNat_fieldAdd_lt, h0, h1, h2, fadd_eq]

theorem ofNode_fullRounds (n idx : Nat) (s : Privacy.Poseidon2.State) :
    ofNode (s.fullRounds n idx) = (ofNode s).fullRounds n idx := by
  induction n generalizing idx s with
  | zero => rfl
  | succ n ih =>
    rw [Privacy.Poseidon2.State.fullRounds, ih, ofNode_mdsMix, ofNode_fullRound]
    · rfl
    · rw [ofNode_fullRound]
      exact canonical_fullRound idx _

theorem canonical_fullRounds (n idx : Nat) {s : State} (h : Canonical s) :
    Canonical (s.fullRounds n idx) := by
  induction n generalizing idx s with
  | zero => exact h
  | succ n ih => exact ih (idx + 3) (canonical_mds (canonical_fullRound idx s))

theorem ofNode_partialRoundsFrom (n idx : Nat) {s : Privacy.Poseidon2.State}
    (h : Canonical (ofNode s)) :
    ofNode (s.partialRoundsFrom n idx) = (ofNode s).partialRoundsFrom n idx := by
  induction n generalizing idx s with
  | zero => rfl
  | succ n ih =>
    have hround : Canonical (ofNode (s.addRoundConstantsPartial idx).partialSbox) := by
      rw [ofNode_partialRound]
      exact canonical_partialRound idx h
    have hmix := ofNode_mdsMix hround
    rw [Privacy.Poseidon2.State.partialRoundsFrom, ih, hmix, ofNode_partialRound]
    · rfl
    · rw [hmix]
      exact canonical_mds hround

/-- The first S-box layer reduces what the inputs left unreduced. -/
theorem ofNode_permute (s : Privacy.Poseidon2.State) : ofNode s.permute = (ofNode s).permute := by
  have hfirst : Canonical (ofNode (s.fullRounds Privacy.Poseidon2.fullRoundsBegin 0)) := by
    rw [ofNode_fullRounds, Privacy.Poseidon2.fullRoundsBegin, State.fullRounds]
    exact canonical_fullRounds _ _ (canonical_mds (canonical_fullRound _ _))
  rw [Privacy.Poseidon2.State.permute, ofNode_fullRounds, ofNode_partialRoundsFrom _ _ hfirst,
    ofNode_fullRounds, State.permute]
  simp only [Privacy.Poseidon2.fullRoundsEnd, Privacy.Poseidon2.fullRoundsBegin, fullRoundsHalf,
    Privacy.Poseidon2.partialRounds, partialRounds]

theorem hashTwo_eq (l r : U64) :
    hashTwo l r = (Privacy.Poseidon2.hashTwo l r).setWidth 256 := by
  have hstart : ofNode ⟨#v[l, r, 0]⟩ = ⟨l, r, 0⟩ := rfl
  rw [hashTwo, Privacy.Poseidon2.hashTwo, ← hstart, ← ofNode_permute]
  rfl

end Permutation

section MerkleProofs

open Evm (bigEndian ofBigEndian ofBigEndian_bigEndian)

/-- The packed siblings: a direction byte and eight bytes a level. -/
def packProof (index : U64) : List U64 → Bytes
  | [] => []
  | sibling :: siblings =>
    (if index &&& 1 = 0 then 0 else 1) :: bigEndian 8 sibling.toNat ++
      packProof (index >>> 1) siblings

theorem setWidth_hashTwo (l r : U64) :
    (hashTwo l r).setWidth 64 = Privacy.Poseidon2.hashTwo l r := by
  rw [hashTwo_eq, BitVec.setWidth_setWidth_of_le _ (by decide), BitVec.setWidth_eq]

theorem climb_cons (current : U64) (dir : UInt8) (sibling : U64) (rest : Bytes) :
    climb current (dir :: bigEndian 8 sibling.toNat ++ rest) =
      climb (if dir = 0 then Privacy.Poseidon2.hashTwo current sibling
        else Privacy.Poseidon2.hashTwo sibling current) rest := by
  have hbytes : ofBigEndian (bigEndian 8 sibling.toNat) = sibling.toNat := by
    rw [ofBigEndian_bigEndian]
    exact Nat.mod_eq_of_lt sibling.isLt
  have hlength := Evm.length_bigEndian 8 sibling.toNat
  generalize bigEndian 8 sibling.toNat = bytes at hbytes hlength
  match bytes, hlength with
  | [b0, b1, b2, b3, b4, b5, b6, b7], _ =>
    simp only [List.cons_append, List.nil_append, climb, hbytes, setWidth_hashTwo,
      BitVec.ofNat_toNat, BitVec.setWidth_eq]
    split <;> rfl

theorem climb_packProof (current index : U64) (siblings : List U64) :
    climb current (packProof index siblings) =
      Privacy.Poseidon2.verifyLoop current index siblings := by
  induction siblings generalizing current index with
  | nil => rfl
  | cons sibling siblings ih =>
    rw [packProof, climb_cons, ih, Privacy.Poseidon2.verifyLoop]
    simp

theorem verifyMerkleProof_packProof (leaf index root : U64) (siblings : List U64) :
    verifyMerkleProof (packProof index siblings) (root.setWidth 256) (leaf.setWidth 256) =
      Privacy.Poseidon2.merkleVerify leaf siblings index root := by
  have hback (x : U64) : (x.setWidth 256).setWidth 64 = x := by
    rw [BitVec.setWidth_setWidth_of_le _ (by decide), BitVec.setWidth_eq]
  rw [verifyMerkleProof, hback, climb_packProof, Privacy.Poseidon2.merkleVerify, decide_eq_decide]
  constructor
  · intro h
    rw [← hback root, ← h, hback]
  · exact congrArg _

/-- Contract and node agree on the constants, on every hash of two words and on every packed
Merkle proof. -/
theorem hash_agreement :
    Privacy.Poseidon2.generateRoundConstants = roundConstants ∧
      (∀ l r, hashTwo l r = (Privacy.Poseidon2.hashTwo l r).setWidth 256) ∧
      ∀ leaf index root siblings,
        verifyMerkleProof (packProof index siblings) (root.setWidth 256) (leaf.setWidth 256) =
          Privacy.Poseidon2.merkleVerify leaf siblings index root :=
  ⟨generateRoundConstants_eq, hashTwo_eq, verifyMerkleProof_packProof⟩

end MerkleProofs

end Qubitcoin.Contracts.Poseidon2
