import Mathlib
import Qubitcoin.Library.Bytes
import Qubitcoin.Library.Merkle
import Qubitcoin.Library.Noting

/-! The Poseidon2 hash and its Merkle tree, from `primitives/src/poseidon2.rs`. -/

namespace Qubitcoin.Privacy.Poseidon2

abbrev U64 := BitVec 64

/-- `GOLDILOCKS_P`. -/
def goldilocksP : Nat := 0xFFFFFFFF00000001

theorem goldilocksP_pos : 0 < goldilocksP := by decide

theorem goldilocksP_lt : goldilocksP < 2 ^ 64 := by decide

def fullRoundsBegin : Nat := 4
def fullRoundsEnd : Nat := 4
def partialRounds : Nat := 56
def sboxExp : U64 := 5

/-- `MDS`. -/
def mds : Vector (Vector U64 3) 3 := #v[#v[2, 1, 1], #v[1, 2, 1], #v[1, 1, 2]]

section RoundConstants

/-- `K` of `generate_round_constants`. -/
def sha256K : List (BitVec 32) := [
  0x428a2f98, 0x71374491, 0xb5c0fbcf, 0xe9b5dba5, 0x3956c25b, 0x59f111f1, 0x923f82a4, 0xab1c5ed5,
  0xd807aa98, 0x12835b01, 0x243185be, 0x550c7dc3, 0x72be5d74, 0x80deb1fe, 0x9bdc06a7, 0xc19bf174,
  0xe49b69c1, 0xefbe4786, 0x0fc19dc6, 0x240ca1cc, 0x2de92c6f, 0x4a7484aa, 0x5cb0a9dc, 0x76f988da,
  0x983e5152, 0xa831c66d, 0xb00327c8, 0xbf597fc7, 0xc6e00bf3, 0xd5a79147, 0x06ca6351, 0x14292967,
  0x27b70a85, 0x2e1b2138, 0x4d2c6dfc, 0x53380d13, 0x650a7354, 0x766a0abb, 0x81c2c92e, 0x92722c85,
  0xa2bfe8a1, 0xa81a664b, 0xc24b8b70, 0xc76c51a3, 0xd192e819, 0xd6990624, 0xf40e3585, 0x106aa070,
  0x19a4c116, 0x1e376c08, 0x2748774c, 0x34b0bcb5, 0x391c0cb3, 0x4ed8aa4a, 0x5b9cca4f, 0x682e6ff3,
  0x748f82ee, 0x78a5636f, 0x84c87814, 0x8cc70208, 0x90befffa, 0xa4506ceb, 0xbef9a3f7, 0xc67178f2]

def rotr32 (x : BitVec 32) (n : Nat) : BitVec 32 := x >>> n ||| x <<< (32 - n)

def bigEndian32 (x : BitVec 32) : Bytes :=
  [(x >>> 24).toNat.toUInt8, (x >>> 16).toNat.toUInt8, (x >>> 8).toNat.toUInt8, x.toNat.toUInt8]

def parseWords : Bytes → List (BitVec 32)
  | a :: b :: c :: d :: rest =>
    (BitVec.ofNat 32 a.toNat <<< 24 ||| BitVec.ofNat 32 b.toNat <<< 16 |||
      BitVec.ofNat 32 c.toNat <<< 8 ||| BitVec.ofNat 32 d.toNat) :: parseWords rest
  | _ => []

/-- The next `n` words of the schedule. -/
def extendWords : Nat → List (BitVec 32) → List (BitVec 32)
  | 0, w => w
  | n + 1, w =>
    let j := w.length
    let w15 := w.getD (j - 15) 0
    let w2 := w.getD (j - 2) 0
    let s0 := rotr32 w15 7 ^^^ rotr32 w15 18 ^^^ w15 >>> 3
    let s1 := rotr32 w2 17 ^^^ rotr32 w2 19 ^^^ w2 >>> 10
    extendWords n (w ++ [w.getD (j - 16) 0 + s0 + w.getD (j - 7) 0 + s1])

def compress : List (BitVec 32 × BitVec 32) → (a b c d e f g h : BitVec 32) → List (BitVec 32)
  | [], a, b, c, d, e, f, g, h => [a, b, c, d, e, f, g, h]
  | (k, w) :: rest, a, b, c, d, e, f, g, h =>
    let s1 := rotr32 e 6 ^^^ rotr32 e 11 ^^^ rotr32 e 25
    let ch := (e &&& f) ^^^ (~~~e &&& g)
    let temp1 := h + s1 + ch + k + w
    let s0 := rotr32 a 2 ^^^ rotr32 a 13 ^^^ rotr32 a 22
    let maj := (a &&& b) ^^^ (a &&& c) ^^^ (b &&& c)
    let temp2 := s0 + maj
    compress rest (temp1 + temp2) a b c (d + temp1) e f g

/-- SHA-256 of a message of fewer than 56 bytes. -/
def sha256Block (input : Bytes) : Bytes :=
  let block := input ++ [0x80] ++ List.replicate (55 - input.length) 0 ++
    (Bytes.le 8 (input.length * 8)).reverse
  let w := extendWords 48 (parseWords block)
  let out := compress (sha256K.zip w) 0x6a09e667 0xbb67ae85 0x3c6ef372 0xa54ff53a
    0x510e527f 0x9b05688c 0x1f83d9ab 0x5be0cd19
  (List.zipWith (· + ·) [0x6a09e667, 0xbb67ae85, 0x3c6ef372, 0xa54ff53a,
    0x510e527f, 0x9b05688c, 0x1f83d9ab, 0x5be0cd19] out).flatMap bigEndian32

def constantOf (state : Bytes) : U64 :=
  let reduced := Bytes.ofLe (state.take 8) % goldilocksP
  BitVec.ofNat 64 (if reduced = 0 then 1 else reduced)

def constantChain : Nat → Bytes → List U64
  | 0, _ => []
  | n + 1, state =>
    let state := sha256Block state
    constantOf state :: constantChain n state

/-- The bytes of `QBC-Poseidon2-RC-v1`. -/
def seed : Bytes :=
  [0x51, 0x42, 0x43, 0x2D, 0x50, 0x6F, 0x73, 0x65, 0x69, 0x64, 0x6F, 0x6E, 0x32, 0x2D, 0x52, 0x43,
    0x2D, 0x76, 0x31]

def generateRoundConstants : List U64 := constantChain 80 (sha256Block seed)

example : constantChain 1 (sha256Block seed) = [0xc31f1d88755f1d15] := by decide +kernel

theorem constantOf_bounds (state : Bytes) :
    0 < (constantOf state).toNat ∧ (constantOf state).toNat < goldilocksP := by
  have hlt := Nat.mod_lt (Bytes.ofLe (state.take 8)) goldilocksP_pos
  simp only [constantOf, BitVec.toNat_ofNat]
  split
  · decide
  · next hpos =>
    rw [Nat.mod_eq_of_lt (hlt.trans goldilocksP_lt)]
    exact ⟨Nat.pos_of_ne_zero hpos, hlt⟩

/-- Every round constant is a nonzero canonical element. -/
theorem constantChain_bounds {n : Nat} {state : Bytes} :
    ∀ c ∈ constantChain n state, 0 < c.toNat ∧ c.toNat < goldilocksP := by
  induction n generalizing state with
  | zero => simp [constantChain]
  | succ n ih =>
    intro c hc
    rw [constantChain, List.mem_cons] at hc
    cases hc with
    | inl h => simpa [h] using constantOf_bounds _
    | inr h => exact ih c h

end RoundConstants

section Field

def fieldAdd (a b : U64) : U64 :=
  let sum := a + b
  let overflow := 2 ^ 64 ≤ a.toNat + b.toNat
  if overflow ∨ goldilocksP ≤ sum.toNat then sum - BitVec.ofNat 64 goldilocksP else sum

/-- The product is taken in 128 bits, where it fits. -/
def fieldMul (a b : U64) : U64 := BitVec.ofNat 64 (a.toNat * b.toNat % goldilocksP)

/-- The loop of `field_pow` on `(result, b, e)`. -/
def powLoop (result b e : Nat) : Nat :=
  if h : e = 0 then result
  else powLoop (if e % 2 = 1 then result * b % goldilocksP else result) (b * b % goldilocksP) (e / 2)
termination_by e
decreasing_by omega

def fieldPow (base exp : U64) : U64 :=
  if exp = 0 then 1 else BitVec.ofNat 64 (powLoop 1 base.toNat exp.toNat)

theorem toNat_fieldMul (a b : U64) : (fieldMul a b).toNat = a.toNat * b.toNat % goldilocksP := by
  have hlt := Nat.mod_lt (a.toNat * b.toNat) goldilocksP_pos
  rw [fieldMul, BitVec.toNat_ofNat, Nat.mod_eq_of_lt (hlt.trans goldilocksP_lt)]

theorem powLoop_eq {result b e : Nat} (h : result < goldilocksP) :
    powLoop result b e = result * b ^ e % goldilocksP := by
  induction result, b, e using powLoop.induct with
  | case1 result b =>
    rw [powLoop, dif_pos rfl, Nat.pow_zero, Nat.mul_one, Nat.mod_eq_of_lt h]
  | case2 result b e he ih =>
    have hsquare : (b * b % goldilocksP) ^ (e / 2) ≡ b ^ (2 * (e / 2)) [MOD goldilocksP] := by
      rw [Nat.pow_mul, Nat.pow_two]
      exact (Nat.mod_modEq _ _).pow _
    rw [powLoop, dif_neg he]
    by_cases hodd : e % 2 = 1
    · simp only [dif_pos hodd] at ih
      rw [if_pos hodd, ih (Nat.mod_lt _ goldilocksP_pos)]
      have hsplit : e = 2 * (e / 2) + 1 := by omega
      calc result * b % goldilocksP * (b * b % goldilocksP) ^ (e / 2) % goldilocksP
          = result * b * b ^ (2 * (e / 2)) % goldilocksP :=
            (Nat.mod_modEq _ _).mul hsquare
        _ = result * b ^ (2 * (e / 2) + 1) % goldilocksP := by
            rw [Nat.pow_succ, Nat.mul_assoc, Nat.mul_comm b]
        _ = result * b ^ e % goldilocksP := by rw [← hsplit]
    · simp only [dif_neg hodd] at ih
      rw [if_neg hodd, ih h]
      have hsplit : e = 2 * (e / 2) := by omega
      calc result * (b * b % goldilocksP) ^ (e / 2) % goldilocksP
          = result * b ^ (2 * (e / 2)) % goldilocksP := hsquare.mul_left result
        _ = result * b ^ e % goldilocksP := by rw [← hsplit]

theorem toNat_fieldPow (base exp : U64) :
    (fieldPow base exp).toNat = base.toNat ^ exp.toNat % goldilocksP := by
  rw [fieldPow]
  split
  · next h =>
    rw [h]
    change 1 = base.toNat ^ 0 % goldilocksP
    rw [Nat.pow_zero]
    rfl
  · have hlt := Nat.mod_lt (base.toNat ^ exp.toNat) goldilocksP_pos
    rw [powLoop_eq (by decide), Nat.one_mul, BitVec.toNat_ofNat,
      Nat.mod_eq_of_lt (hlt.trans goldilocksP_lt)]

/-- One subtraction is enough as long as the second argument is canonical. -/
theorem toNat_fieldAdd_mod (a : U64) {b : U64} (hb : b.toNat < goldilocksP) :
    (fieldAdd a b).toNat % goldilocksP = (a.toNat + b.toNat) % goldilocksP := by
  have ha := a.isLt
  have hword := goldilocksP_lt
  by_cases hover : 2 ^ 64 ≤ a.toNat + b.toNat ∨ goldilocksP ≤ (a + b).toNat
  · have hge : goldilocksP ≤ a.toNat + b.toNat := by
      rw [BitVec.toNat_add] at hover
      cases hover with
      | inl h => omega
      | inr h => exact h.trans (Nat.mod_le _ _)
    have hsub : (a + b - BitVec.ofNat 64 goldilocksP).toNat = a.toNat + b.toNat - goldilocksP := by
      rw [BitVec.toNat_sub, BitVec.toNat_add, BitVec.toNat_ofNat, Nat.mod_eq_of_lt hword]
      omega
    rw [fieldAdd, if_pos hover, hsub, ← Nat.mod_eq_sub_mod hge]
  · rw [fieldAdd, if_neg hover]
    have hsum : (a + b).toNat = a.toNat + b.toNat := by
      rw [BitVec.toNat_add, Nat.mod_eq_of_lt (by omega)]
    rw [hsum]

theorem toNat_fieldAdd_lt {a b : U64} (ha : a.toNat < goldilocksP) (hb : b.toNat < goldilocksP) :
    (fieldAdd a b).toNat < goldilocksP := by
  have hword := goldilocksP_lt
  by_cases hover : 2 ^ 64 ≤ a.toNat + b.toNat ∨ goldilocksP ≤ (a + b).toNat
  · rw [fieldAdd, if_pos hover, BitVec.toNat_sub, BitVec.toNat_add, BitVec.toNat_ofNat,
      Nat.mod_eq_of_lt hword]
    rw [BitVec.toNat_add] at hover
    omega
  · rw [fieldAdd, if_neg hover]
    omega

/-- The canonical representative of a word. -/
def canon (x : U64) : U64 := BitVec.ofNat 64 (x.toNat % goldilocksP)

theorem canon_eq_iff {x y : U64} :
    canon x = canon y ↔ x.toNat % goldilocksP = y.toNat % goldilocksP := by
  have hx := (Nat.mod_lt x.toNat goldilocksP_pos).trans goldilocksP_lt
  have hy := (Nat.mod_lt y.toNat goldilocksP_pos).trans goldilocksP_lt
  rw [← BitVec.toNat_inj, canon, canon, BitVec.toNat_ofNat, BitVec.toNat_ofNat,
    Nat.mod_eq_of_lt hx, Nat.mod_eq_of_lt hy]

theorem canon_of_lt {x : U64} (h : x.toNat < goldilocksP) : canon x = x := by
  rw [canon, Nat.mod_eq_of_lt h, BitVec.ofNat_toNat, BitVec.setWidth_eq]

end Field

/-- `Poseidon2State`. -/
structure State where
  elements : Vector U64 3
  deriving DecidableEq

namespace State

def roundConstant (rcIdx : Nat) : U64 := generateRoundConstants.getD rcIdx 0

def addRoundConstants (s : State) (rcIdx : Nat) : State :=
  ⟨.ofFn fun i => fieldAdd s.elements[i] (roundConstant (rcIdx + i))⟩

def addRoundConstantsPartial (s : State) (rcIdx : Nat) : State :=
  ⟨s.elements.set 0 (fieldAdd s.elements[0] (roundConstant rcIdx))⟩

def fullSbox (s : State) : State := ⟨s.elements.map fun x => fieldPow x sboxExp⟩

def partialSbox (s : State) : State := ⟨s.elements.set 0 (fieldPow s.elements[0] sboxExp)⟩

/-- One row of the matrix product. -/
def mixRow (row elements : Vector U64 3) : U64 :=
  (List.finRange 3).foldl (fun acc j => fieldAdd acc (fieldMul row[j] elements[j])) 0

def mdsMix (s : State) : State := ⟨mds.map fun row => mixRow row s.elements⟩

def fullRounds : Nat → Nat → State → State
  | 0, _, s => s
  | n + 1, rcIdx, s => fullRounds n (rcIdx + 3) (s.addRoundConstants rcIdx).fullSbox.mdsMix

def partialRoundsFrom : Nat → Nat → State → State
  | 0, _, s => s
  | n + 1, rcIdx, s =>
    partialRoundsFrom n (rcIdx + 1) (s.addRoundConstantsPartial rcIdx).partialSbox.mdsMix

def permute (s : State) : State :=
  fullRounds fullRoundsEnd (3 * fullRoundsBegin + partialRounds)
    (partialRoundsFrom partialRounds (3 * fullRoundsBegin)
      (fullRounds fullRoundsBegin 0 s))

theorem roundConstant_lt (rcIdx : Nat) : (roundConstant rcIdx).toNat < goldilocksP := by
  rw [roundConstant, List.getD_eq_getElem?_getD]
  cases h : generateRoundConstants[rcIdx]? with
  | none => decide
  | some c => exact (constantChain_bounds c (List.mem_of_getElem? h)).2

/-- The first S-box layer sees its inputs modulo the prime only. -/
theorem fullSbox_addRoundConstants_congr {s t : State} (rcIdx : Nat)
    (h : ∀ i : Fin 3, canon s.elements[i] = canon t.elements[i]) :
    (s.addRoundConstants rcIdx).fullSbox = (t.addRoundConstants rcIdx).fullSbox := by
  have hpow (x y : U64) (hxy : x.toNat % goldilocksP = y.toNat % goldilocksP) :
      fieldPow x sboxExp = fieldPow y sboxExp := by
    rw [← BitVec.toNat_inj, toNat_fieldPow, toNat_fieldPow]
    exact Nat.ModEq.pow _ hxy
  simp only [fullSbox, addRoundConstants, State.mk.injEq]
  apply Vector.ext
  intro i hi
  simp only [Vector.getElem_map, Vector.getElem_ofFn]
  apply hpow
  rw [toNat_fieldAdd_mod _ (roundConstant_lt _), toNat_fieldAdd_mod _ (roundConstant_lt _)]
  exact Nat.ModEq.add_right _ (canon_eq_iff.mp (h ⟨i, hi⟩))

theorem permute_congr {s t : State}
    (h : ∀ i : Fin 3, canon s.elements[i] = canon t.elements[i]) : s.permute = t.permute := by
  have hfirst : fullRounds fullRoundsBegin 0 s = fullRounds fullRoundsBegin 0 t := by
    change fullRounds 3 3 _ = fullRounds 3 3 _
    rw [fullSbox_addRoundConstants_congr 0 h]
  rw [permute, permute, hfirst]

theorem mixRow_lt (row elements : Vector U64 3) : (mixRow row elements).toNat < goldilocksP := by
  have hfold (js : List (Fin 3)) (acc : U64) (hacc : acc.toNat < goldilocksP) :
      (js.foldl (fun acc j => fieldAdd acc (fieldMul row[j] elements[j])) acc).toNat <
        goldilocksP := by
    induction js generalizing acc with
    | nil => exact hacc
    | cons j js ih =>
      apply ih
      apply toNat_fieldAdd_lt hacc
      rw [toNat_fieldMul]
      exact Nat.mod_lt _ goldilocksP_pos
  exact hfold _ _ (by decide)

theorem permute_lt (s : State) (i : Fin 3) : s.permute.elements[i].toNat < goldilocksP := by
  have hmix (t : State) : t.mdsMix.elements[i].toNat < goldilocksP := by
    simp only [mdsMix, Fin.getElem_fin, Vector.getElem_map]
    exact mixRow_lt _ _
  exact hmix _

end State

/-- `poseidon2_hash_two`; a hash is kept as its eight bytes read as a `u64`. -/
def hashTwo (left right : U64) : U64 := (State.permute ⟨#v[left, right, 0]⟩).elements[0]

theorem hashTwo_congr {l l' r r' : U64} (hl : canon l = canon l') (hr : canon r = canon r') :
    hashTwo l r = hashTwo l' r' := by
  rw [hashTwo, hashTwo, State.permute_congr]
  intro i
  fin_cases i
  · exact hl
  · exact hr
  · rfl

theorem canon_hashTwo (l r : U64) : canon (hashTwo l r) = hashTwo l r :=
  canon_of_lt (State.permute_lt _ 0)

def nextPowerOfTwo (n : Nat) : Nat := 2 ^ Nat.clog 2 n

/-- The leaves with zeros up to the next power of two. -/
def padded (leaves : List U64) : List U64 :=
  leaves ++ List.replicate (nextPowerOfTwo leaves.length - leaves.length) 0

/-- The loop of `poseidon2_merkle_root`; `chunks(2)` of an even level are its pairs. -/
def buildUp (current : List U64) : List U64 :=
  if _h : 1 < current.length then buildUp (Merkle.level hashTwo current) else current
termination_by current.length
decreasing_by
  rw [Merkle.length_level_eq_div]
  omega

/-- `poseidon2_merkle_root`. -/
def merkleRoot (leaves : List U64) : U64 :=
  match leaves with
  | [] => 0
  | [leaf] => leaf
  | leaves => (buildUp (padded leaves)).headD 0

/-- The loop of `poseidon2_merkle_verify`. -/
def verifyLoop (current : U64) (idx : U64) : List U64 → U64
  | [] => current
  | sib :: proof =>
    verifyLoop (if idx &&& 1 = 0 then hashTwo current sib else hashTwo sib current) (idx >>> 1)
      proof

/-- `poseidon2_merkle_verify`. -/
def merkleVerify (leaf : U64) (proof : List U64) (index root : U64) : Bool :=
  verifyLoop leaf index proof = root

/-! The hash of byte strings, and what it takes in of them: eight bytes at a time as a field element,
and the length. -/

/-- `data.chunks(8)`. -/
def chunks : Bytes → List Bytes
  | a :: b :: c :: d :: e :: f :: g :: h :: data => [a, b, c, d, e, f, g, h] :: chunks data
  | [] => []
  | data => [data]

/-- A chunk, with zeros behind it, as a field element. -/
def fieldElement (chunk : Bytes) : U64 :=
  BitVec.ofNat 64 (Bytes.ofLe (chunk ++ List.replicate (8 - chunk.length) 0) % goldilocksP)

/-- The loop of `poseidon2_hash_bytes`. -/
def absorbPairs : List U64 → State → State
  | [], s => s
  | [x], s => State.permute ⟨s.elements.set 0 (fieldAdd s.elements[0] x)⟩
  | x :: y :: xs, s =>
    absorbPairs xs (State.permute ⟨(s.elements.set 0 (fieldAdd s.elements[0] x)).set 1
      (fieldAdd s.elements[1] y)⟩)

/-- What is added to the capacity element; no slice is so long that the sum overflows. -/
def padding (data : Bytes) : U64 :=
  BitVec.ofNat 64 ((BitVec.ofNat 64 data.length + 1).toNat % goldilocksP)

/-- `poseidon2_hash_bytes`. -/
def hashBytes (data : Bytes) : U64 :=
  let s := absorbPairs ((chunks data).map fieldElement) ⟨#v[0, 0, 0]⟩
  (State.permute ⟨s.elements.set 2 (fieldAdd s.elements[2] (padding data))⟩).elements[0]

/-- The field elements that the hash takes in, in order. -/
def absorbed (data : Bytes) : List U64 := (chunks data).map fieldElement ++ [padding data]

theorem absorbed_eq_iff {a b : Bytes} : absorbed a = absorbed b ↔
    (chunks a).map fieldElement = (chunks b).map fieldElement ∧ padding a = padding b := by
  rw [absorbed, absorbed]
  constructor
  · intro h
    obtain ⟨hchunks, hpadding⟩ := List.append_inj' h rfl
    exact ⟨hchunks, List.singleton_inj.mp hpadding⟩
  · rintro ⟨hchunks, hpadding⟩
    rw [hchunks, hpadding]

/-- Nothing else of the data has part in the hash. -/
theorem hashBytes_congr {a b : Bytes} (h : absorbed a = absorbed b) : hashBytes a = hashBytes b := by
  obtain ⟨hchunks, hpadding⟩ := absorbed_eq_iff.mp h
  rw [hashBytes, hashBytes, hchunks, hpadding]

section Chunks

theorem chunks_append {chunk : Bytes} (h : chunk.length = 8) (data : Bytes) :
    chunks (chunk ++ data) = chunk :: chunks data := by
  match chunk, h with
  | [_, _, _, _, _, _, _, _], _ => rfl

theorem chunks_short {data : Bytes} (hpos : data ≠ []) (hshort : data.length < 8) :
    chunks data = [data] := by
  match data, hpos, hshort with
  | [_], _, _ => rfl
  | [_, _], _, _ => rfl
  | [_, _, _], _, _ => rfl
  | [_, _, _, _], _, _ => rfl
  | [_, _, _, _, _], _, _ => rfl
  | [_, _, _, _, _, _], _, _ => rfl
  | [_, _, _, _, _, _, _], _, _ => rfl

/-- Induction along the chunks. -/
theorem byChunks {motive : Bytes → Prop} (nil : motive [])
    (short : ∀ data, data ≠ [] → data.length < 8 → motive data)
    (append : ∀ chunk data, chunk.length = 8 → motive data → motive (chunk ++ data)) (data : Bytes) :
    motive data := by
  induction h : data.length using Nat.strongRecOn generalizing data with
  | ind n ih =>
    by_cases hnil : data = []
    · rw [hnil]
      exact nil
    by_cases hshort : data.length < 8
    · exact short data hnil hshort
    · rw [← List.take_append_drop 8 data]
      apply append
      · rw [List.length_take]
        omega
      · exact ih _ (by rw [List.length_drop]; omega) _ rfl

theorem length_chunks (data : Bytes) : (chunks data).length = (data.length + 7) / 8 := by
  induction data using byChunks with
  | nil => rfl
  | short data hpos hshort =>
    have hlength := List.length_pos_iff.mpr hpos
    rw [chunks_short hpos hshort, List.length_singleton]
    omega
  | append chunk data h ih =>
    rw [chunks_append h, List.length_cons, ih, List.length_append]
    omega

theorem toNat_padding (data : Bytes) :
    (padding data).toNat = (data.length + 1) % 2 ^ 64 % goldilocksP := by
  have hlt := (Nat.mod_lt ((data.length + 1) % 2 ^ 64) goldilocksP_pos).trans goldilocksP_lt
  rw [padding, BitVec.toNat_ofNat, BitVec.toNat_add, BitVec.toNat_ofNat]
  change (data.length % 2 ^ 64 + 1) % 2 ^ 64 % goldilocksP % 2 ^ 64 = _
  rw [Nat.mod_add_mod, Nat.mod_eq_of_lt hlt]

/-- The number of chunks and the padding tell the length. -/
theorem length_eq_of_absorbed {a b : Bytes} (h : absorbed a = absorbed b) :
    a.length = b.length := by
  obtain ⟨hchunks, hpadding⟩ := absorbed_eq_iff.mp h
  have hcount := congrArg List.length hchunks
  rw [List.length_map, List.length_map, length_chunks, length_chunks] at hcount
  have hvalue := congrArg BitVec.toNat hpadding
  rw [toNat_padding, toNat_padding] at hvalue
  have hreduce (n : ℕ) : n % 2 ^ 64 % goldilocksP = n % 2 ^ 64 ∨
      n % 2 ^ 64 % goldilocksP + goldilocksP = n % 2 ^ 64 := by
    rw [goldilocksP]
    omega
  -- the lengths differ by less than eight, and no such step leads to the same residue
  rcases hreduce (a.length + 1) with ha | ha <;> rcases hreduce (b.length + 1) with hb | hb <;>
    rw [goldilocksP] at ha hb hvalue <;> omega

end Chunks

section Reduction

theorem ofLe_append_zeros (chunk : Bytes) (n : ℕ) :
    Bytes.ofLe (chunk ++ List.replicate n 0) = Bytes.ofLe chunk := by
  induction chunk with
  | nil => exact (Bytes.ofLe_eq_zero_iff _).mpr fun b hb => List.eq_of_mem_replicate hb
  | cons b bs ih => rw [List.cons_append, Bytes.ofLe, Bytes.ofLe, ih]

theorem fieldElement_eq_iff {c c' : Bytes} :
    fieldElement c = fieldElement c' ↔
      Bytes.ofLe c % goldilocksP = Bytes.ofLe c' % goldilocksP := by
  have hlt (n : ℕ) : n % goldilocksP < 2 ^ 64 :=
    (Nat.mod_lt n goldilocksP_pos).trans goldilocksP_lt
  rw [← BitVec.toNat_inj, fieldElement, fieldElement, ofLe_append_zeros, ofLe_append_zeros,
    BitVec.toNat_ofNat, BitVec.toNat_ofNat, Nat.mod_eq_of_lt (hlt _), Nat.mod_eq_of_lt (hlt _)]

theorem ofLe_inj {c c' : Bytes} (hlength : c.length = c'.length)
    (h : Bytes.ofLe c = Bytes.ofLe c') : c = c' := by
  rw [← Bytes.le_ofLe c, ← Bytes.le_ofLe c', hlength, h]

/-- No other word has the residue of the chunk; the words below `2 ^ 32 - 1` have it in common with
those from the prime on. -/
def Unambiguous (chunk : Bytes) : Prop :=
  chunk.length = 8 → 2 ^ 32 - 1 ≤ Bytes.ofLe chunk ∧ Bytes.ofLe chunk < goldilocksP

theorem Unambiguous.eq {c c' : Bytes} (hc : Unambiguous c) (hle : c.length ≤ 8)
    (hlength : c.length = c'.length) (h : fieldElement c = fieldElement c') : c = c' := by
  apply ofLe_inj hlength
  rw [fieldElement_eq_iff, goldilocksP] at h
  have hlt := Bytes.ofLe_lt c
  have hlt' := Bytes.ofLe_lt c'
  rw [← hlength] at hlt'
  by_cases hfull : c.length = 8
  · obtain ⟨hlow, hhigh⟩ := hc hfull
    rw [goldilocksP] at hhigh
    rw [hfull] at hlt'
    omega
  · have hshort : 256 ^ c.length ≤ 256 ^ 7 := Nat.pow_le_pow_right (by decide) (by omega)
    omega

/-- The prime is added or taken away. -/
theorem exists_of_not_unambiguous {c : Bytes} (hc : ¬Unambiguous c) :
    ∃ c', c' ≠ c ∧ c.length = 8 ∧ c'.length = 8 ∧ fieldElement c' = fieldElement c := by
  obtain ⟨hfull, hvalue⟩ := Classical.not_imp.mp hc
  have hword := Bytes.ofLe_lt c
  rw [hfull] at hword
  rw [goldilocksP] at hvalue
  have hother : ∃ v, v < 256 ^ 8 ∧ v ≠ Bytes.ofLe c ∧
      v % goldilocksP = Bytes.ofLe c % goldilocksP := by
    rw [goldilocksP]
    by_cases hlow : Bytes.ofLe c < 2 ^ 32 - 1
    · exact ⟨Bytes.ofLe c + 0xFFFFFFFF00000001, by omega, by omega, by omega⟩
    · exact ⟨Bytes.ofLe c - 0xFFFFFFFF00000001, by omega, by omega, by omega⟩
  obtain ⟨v, hlt, hne, hmod⟩ := hother
  have hv : Bytes.ofLe (Bytes.le 8 v) = v := by rw [Bytes.ofLe_le, Nat.mod_eq_of_lt hlt]
  refine ⟨Bytes.le 8 v, ?_, hfull, Bytes.length_le 8 v, ?_⟩
  · rintro rfl
    exact hne hv.symm
  · rw [fieldElement_eq_iff, hv, hmod]

end Reduction

/-- Of the strings of one length, only the string itself has its chunks. -/
theorem eq_of_unambiguous {a b : Bytes} (ha : ∀ chunk ∈ chunks a, Unambiguous chunk)
    (hlength : a.length = b.length)
    (h : (chunks a).map fieldElement = (chunks b).map fieldElement) : a = b := by
  induction a using byChunks generalizing b with
  | nil => exact (List.eq_nil_of_length_eq_zero hlength.symm).symm
  | short data hpos hshort =>
    have hpos' : b ≠ [] := by
      rintro rfl
      exact hpos (List.eq_nil_of_length_eq_zero hlength)
    rw [chunks_short hpos hshort] at ha
    rw [chunks_short hpos hshort, chunks_short hpos' (hlength ▸ hshort)] at h
    exact (ha data List.mem_cons_self).eq hshort.le hlength (List.singleton_inj.mp h)
  | append chunk data hchunk ih =>
    rw [List.length_append, hchunk] at hlength
    rw [chunks_append hchunk, List.forall_mem_cons] at ha
    have htake : (b.take 8).length = 8 := by
      rw [List.length_take]
      omega
    rw [← List.take_append_drop 8 b] at h ⊢
    rw [chunks_append hchunk, chunks_append htake, List.map_cons, List.map_cons,
      List.cons.injEq] at h
    have hhead := ha.1.eq hchunk.le (hchunk.trans htake.symm) h.1
    have htail := ih ha.2 (by rw [List.length_drop]; omega) h.2
    rw [hhead, htail]

theorem exists_of_ambiguous {a : Bytes} (ha : ∃ chunk ∈ chunks a, ¬Unambiguous chunk) :
    ∃ b, b ≠ a ∧ absorbed b = absorbed a := by
  have hsame : ∃ b, b ≠ a ∧ b.length = a.length ∧
      (chunks b).map fieldElement = (chunks a).map fieldElement := by
    induction a using byChunks with
    | nil =>
      obtain ⟨chunk, hmem, -⟩ := ha
      cases hmem
    | short data hpos hshort =>
      obtain ⟨chunk, hmem, hchunk⟩ := ha
      rw [chunks_short hpos hshort, List.mem_singleton] at hmem
      obtain ⟨c', -, hfull, -⟩ := exists_of_not_unambiguous hchunk
      rw [hmem] at hfull
      omega
    | append chunk data hchunk ih =>
      rw [chunks_append hchunk] at ha
      by_cases hhead : Unambiguous chunk
      · obtain ⟨c, hmem, hc⟩ := ha
        have htail : ∃ c ∈ chunks data, ¬Unambiguous c := by
          cases hmem with
          | head => exact absurd hhead hc
          | tail _ hmem => exact ⟨c, hmem, hc⟩
        obtain ⟨b, hne, hlength, hchunks⟩ := ih htail
        refine ⟨chunk ++ b, fun heq => hne (List.append_cancel_left heq), ?_, ?_⟩
        · rw [List.length_append, List.length_append, hlength]
        · rw [chunks_append hchunk, chunks_append hchunk, List.map_cons, List.map_cons, hchunks]
      · obtain ⟨c', hne, -, hfull, helement⟩ := exists_of_not_unambiguous hhead
        refine ⟨c' ++ data, fun heq => hne (List.append_cancel_right heq), ?_, ?_⟩
        · rw [List.length_append, List.length_append, hfull, hchunk]
        · rw [chunks_append hfull, chunks_append hchunk, List.map_cons, List.map_cons, helement]
  obtain ⟨b, hne, hlength, hchunks⟩ := hsame
  refine ⟨b, hne, absorbed_eq_iff.mpr ⟨hchunks, ?_⟩⟩
  rw [padding, padding, hlength]

/-- A string is told from all others by what the hash takes in, exactly when none of its full chunks
has a residue in common with another word. -/
theorem absorbed_inj_iff (a : Bytes) :
    (∀ b, absorbed a = absorbed b → a = b) ↔ ∀ chunk ∈ chunks a, Unambiguous chunk := by
  constructor
  · intro hinj
    by_contra hambiguous
    push Not at hambiguous
    obtain ⟨b, hne, hb⟩ := exists_of_ambiguous hambiguous
    exact hne (hinj b hb.symm).symm
  · intro ha b h
    exact eq_of_unambiguous ha (length_eq_of_absorbed h) (absorbed_eq_iff.mp h).1

/-- Eight zeros, and the bytes of the prime. -/
theorem absorbed_collision :
    absorbed [0, 0, 0, 0, 0, 0, 0, 0] = absorbed [1, 0, 0, 0, 255, 255, 255, 255] ∧
      hashBytes [0, 0, 0, 0, 0, 0, 0, 0] = hashBytes [1, 0, 0, 0, 255, 255, 255, 255] := by
  have habsorbed : absorbed [0, 0, 0, 0, 0, 0, 0, 0] = absorbed [1, 0, 0, 0, 255, 255, 255, 255] := by
    decide
  exact ⟨habsorbed, hashBytes_congr habsorbed⟩

/-! The Poseidon2 permutation over the field, and the calls its code makes. -/

open Noting Matrix

abbrev Goldilocks := ZMod goldilocksP

theorem goldilocksP_prime : goldilocksP.Prime := by
  have hfactors : 0xFFFFFFFF00000001 - 1 = 2 ^ 32 * (3 * (5 * (17 * (257 * 65537)))) := by norm_num
  change Nat.Prime 0xFFFFFFFF00000001
  refine lucas_primality _ 7 ?_ fun q hq hdvd => ?_
  · norm_num
    reduce_mod_char
  · rw [hfactors] at hdvd
    have hmem : q = 2 ∨ q = 3 ∨ q = 5 ∨ q = 17 ∨ q = 257 ∨ q = 65537 := by
      simp only [hq.dvd_mul] at hdvd
      refine hdvd.imp (fun h => ?_) (.imp ?_ (.imp ?_ (.imp ?_ (.imp ?_ ?_))))
      · exact (Nat.prime_dvd_prime_iff_eq hq Nat.prime_two).mp (hq.dvd_of_dvd_pow h)
      all_goals exact (Nat.prime_dvd_prime_iff_eq hq (by norm_num)).mp
    rcases hmem with rfl | rfl | rfl | rfl | rfl | rfl <;> norm_num <;> reduce_mod_char <;> decide

instance : NeZero goldilocksP := ⟨goldilocksP_prime.ne_zero⟩

section Permutation

/-- `circ(2, 1, 1)`. -/
def mixing : Matrix (Fin 3) (Fin 3) Goldilocks := !![2, 1, 1; 1, 2, 1; 1, 1, 2]

/-- The residue of a round constant. -/
def constant (rcIdx : ℕ) : Goldilocks := ((State.roundConstant rcIdx).toNat : Goldilocks)

def fullRound (rcIdx : ℕ) (x : Fin 3 → Goldilocks) : Fin 3 → Goldilocks :=
  mixing *ᵥ fun i => (x i + constant (rcIdx + i)) ^ 5

def partialRound (rcIdx : ℕ) (x : Fin 3 → Goldilocks) : Fin 3 → Goldilocks :=
  mixing *ᵥ Function.update x 0 ((x 0 + constant rcIdx) ^ 5)

/-- Four full rounds, 56 partial ones and four full ones. -/
def permutation (x : Fin 3 → Goldilocks) : Fin 3 → Goldilocks :=
  let x := (List.range 4).foldl (fun x round => fullRound (3 * round) x) x
  let x := (List.range 56).foldl (fun x round => partialRound (12 + round) x) x
  (List.range 4).foldl (fun x round => fullRound (68 + 3 * round) x) x

end Permutation

/-- A call of `field_add`, `field_mul` or `field_pow` with what it returns. -/
inductive Call (E : Type)
  | add (a b sum : E)
  | mul (a b product : E)
  | pow (base power : E)

/-- The operations the permutation is written with, over words or over the field. -/
structure Arithmetic (E : Type) where
  zero : E
  add : E → E → E
  mul : E → E → E
  pow : E → E
  constant : ℕ → E
  mds : Vector (Vector E 3) 3

namespace Arithmetic

def words : Arithmetic U64 where
  zero := 0
  add := fieldAdd
  mul := fieldMul
  pow base := fieldPow base sboxExp
  constant := State.roundConstant
  mds := Poseidon2.mds

def field : Arithmetic Goldilocks where
  zero := 0
  add := (· + ·)
  mul := (· * ·)
  pow base := base ^ 5
  constant := Poseidon2.constant
  mds := #v[#v[2, 1, 1], #v[1, 2, 1], #v[1, 1, 2]]

section Noted

variable {E : Type} (A : Arithmetic E)

-- `permute` and what it calls, statement by statement, with the calls noted

def addNoted (a b : E) : Noted (Call E) E := note (.add a b (A.add a b)) (A.add a b)

def mulNoted (a b : E) : Noted (Call E) E := note (.mul a b (A.mul a b)) (A.mul a b)

def powNoted (base : E) : Noted (Call E) E := note (.pow base (A.pow base)) (A.pow base)

def addRoundConstants (x : Vector E 3) (rcIdx : ℕ) : Noted (Call E) (Vector E 3) := do
  let x0 ← A.addNoted x[0] (A.constant rcIdx)
  let x1 ← A.addNoted x[1] (A.constant (rcIdx + 1))
  let x2 ← A.addNoted x[2] (A.constant (rcIdx + 2))
  return #v[x0, x1, x2]

def addRoundConstantsPartial (x : Vector E 3) (rcIdx : ℕ) : Noted (Call E) (Vector E 3) := do
  let x0 ← A.addNoted x[0] (A.constant rcIdx)
  return #v[x0, x[1], x[2]]

def fullSbox (x : Vector E 3) : Noted (Call E) (Vector E 3) := do
  let x0 ← A.powNoted x[0]
  let x1 ← A.powNoted x[1]
  let x2 ← A.powNoted x[2]
  return #v[x0, x1, x2]

def partialSbox (x : Vector E 3) : Noted (Call E) (Vector E 3) := do
  let x0 ← A.powNoted x[0]
  return #v[x0, x[1], x[2]]

def mixRow (row x : Vector E 3) : Noted (Call E) E := do
  let acc ← A.addNoted A.zero (← A.mulNoted row[0] x[0])
  let acc ← A.addNoted acc (← A.mulNoted row[1] x[1])
  A.addNoted acc (← A.mulNoted row[2] x[2])

def mdsMix (x : Vector E 3) : Noted (Call E) (Vector E 3) := do
  let x0 ← A.mixRow A.mds[0] x
  let x1 ← A.mixRow A.mds[1] x
  let x2 ← A.mixRow A.mds[2] x
  return #v[x0, x1, x2]

def fullRound (rcIdx : ℕ) (x : Vector E 3) : Noted (Call E) (Vector E 3) := do
  let x ← A.addRoundConstants x rcIdx
  let x ← A.fullSbox x
  A.mdsMix x

def partialRound (rcIdx : ℕ) (x : Vector E 3) : Noted (Call E) (Vector E 3) := do
  let x ← A.addRoundConstantsPartial x rcIdx
  let x ← A.partialSbox x
  A.mdsMix x

/-- The loops over the rounds, each of which uses up `width` constants. -/
def rounds (round : ℕ → Vector E 3 → Noted (Call E) (Vector E 3)) (width : ℕ) :
    ℕ → ℕ → Vector E 3 → Noted (Call E) (Vector E 3)
  | 0, _, x => return x
  | n + 1, rcIdx, x => do
    let x ← round rcIdx x
    rounds round width n (rcIdx + width) x

def permute (x : Vector E 3) : Noted (Call E) (Vector E 3) := do
  let x ← rounds A.fullRound 3 fullRoundsBegin 0 x
  let x ← rounds A.partialRound 1 partialRounds (3 * fullRoundsBegin) x
  rounds A.fullRound 3 fullRoundsEnd (3 * fullRoundsBegin + partialRounds) x

end Noted

section Words

/-! Over words the noted permutation computes what `permute` does. -/

variable {α : Type} (calls : List (Call U64))

theorem set_zero (v : Vector α 3) (a : α) : v.set 0 a = #v[a, v[1], v[2]] := by
  refine Vector.ext fun i hi => ?_
  interval_cases i <;> simp

theorem map_three {β : Type} (f : α → β) (v : Vector α 3) :
    v.map f = #v[f v[0], f v[1], f v[2]] := by
  refine Vector.ext fun i hi => ?_
  interval_cases i <;> simp

theorem words_mdsMix (s : State) : (words.mdsMix s.elements calls).1 = s.mdsMix.elements := by
  rw [State.mdsMix, map_three]
  rfl

theorem words_fullRound (rcIdx : ℕ) (s : State) :
    (words.fullRound rcIdx s.elements calls).1 =
      (s.addRoundConstants rcIdx).fullSbox.mdsMix.elements := by
  rw [← words_mdsMix ((words.fullSbox (words.addRoundConstants s.elements rcIdx calls).1
    (words.addRoundConstants s.elements rcIdx calls).2).2), State.fullSbox, map_three]
  rfl

theorem words_partialRound (rcIdx : ℕ) (s : State) :
    (words.partialRound rcIdx s.elements calls).1 =
      (s.addRoundConstantsPartial rcIdx).partialSbox.mdsMix.elements := by
  rw [← words_mdsMix ((words.partialSbox (words.addRoundConstantsPartial s.elements rcIdx calls).1
    (words.addRoundConstantsPartial s.elements rcIdx calls).2).2), State.partialSbox,
    State.addRoundConstantsPartial, set_zero, set_zero]
  rfl

theorem words_fullRounds (n rcIdx : ℕ) (s : State) :
    (rounds words.fullRound 3 n rcIdx s.elements calls).1 = (s.fullRounds n rcIdx).elements := by
  induction n generalizing rcIdx s calls with
  | zero => rfl
  | succ n ih =>
    change (rounds words.fullRound 3 n (rcIdx + 3)
      (words.fullRound rcIdx s.elements calls).1 _).1 = _
    rw [words_fullRound]
    exact ih _ _ _

theorem words_partialRounds (n rcIdx : ℕ) (s : State) :
    (rounds words.partialRound 1 n rcIdx s.elements calls).1 =
      (s.partialRoundsFrom n rcIdx).elements := by
  induction n generalizing rcIdx s calls with
  | zero => rfl
  | succ n ih =>
    change (rounds words.partialRound 1 n (rcIdx + 1)
      (words.partialRound rcIdx s.elements calls).1 _).1 = _
    rw [words_partialRound]
    exact ih _ _ _

theorem bind_fst {C β : Type} (m : Noted C α) (f : α → Noted C β) (calls : List C) :
    ((m >>= f) calls).1 = (f (m calls).1 (m calls).2).1 := rfl

theorem words_permute (s : State) : (words.permute s.elements calls).1 = s.permute.elements := by
  rw [permute, bind_fst, bind_fst, words_fullRounds, words_partialRounds, words_fullRounds,
    State.permute]

end Words

section Field

variable (calls : List (Call Goldilocks))

def coordinates (x : Vector Goldilocks 3) : Fin 3 → Goldilocks := fun i => x[i]

theorem coordinates_mk (x y z : Goldilocks) : coordinates #v[x, y, z] = ![x, y, z] := by
  ext i
  fin_cases i <;> rfl

theorem field_mixRow (row x : Vector Goldilocks 3) :
    (field.mixRow row x calls).1 = row[0] * x[0] + row[1] * x[1] + row[2] * x[2] := by
  change (0 : Goldilocks) + row[0] * x[0] + row[1] * x[1] + row[2] * x[2] = _
  rw [zero_add]

theorem field_mdsMix (x : Vector Goldilocks 3) :
    coordinates (field.mdsMix x calls).1 = mixing *ᵥ coordinates x := by
  have hmix : (field.mdsMix x calls).1 =
      #v[2 * x[0] + 1 * x[1] + 1 * x[2], 1 * x[0] + 2 * x[1] + 1 * x[2],
        1 * x[0] + 1 * x[1] + 2 * x[2]] := by
    simp only [mdsMix, bind_fst, field_mixRow]
    rfl
  rw [hmix]
  ext i
  rw [Matrix.mulVec, dotProduct, Fin.sum_univ_three]
  fin_cases i <;> rfl

theorem field_fullRound (rcIdx : ℕ) (x : Vector Goldilocks 3) :
    coordinates (field.fullRound rcIdx x calls).1 =
      Poseidon2.fullRound rcIdx (coordinates x) := by
  rw [fullRound, bind_fst, bind_fst, field_mdsMix, Poseidon2.fullRound]
  congr 1
  ext i
  fin_cases i <;> rfl

theorem field_partialRound (rcIdx : ℕ) (x : Vector Goldilocks 3) :
    coordinates (field.partialRound rcIdx x calls).1 =
      Poseidon2.partialRound rcIdx (coordinates x) := by
  rw [partialRound, bind_fst, bind_fst, field_mdsMix, Poseidon2.partialRound]
  congr 1
  ext i
  fin_cases i <;> rfl

theorem field_rounds
    {round : ℕ → Vector Goldilocks 3 → Noted (Call Goldilocks) (Vector Goldilocks 3)}
    {value : ℕ → (Fin 3 → Goldilocks) → Fin 3 → Goldilocks}
    (hround : ∀ calls rcIdx x, coordinates (round rcIdx x calls).1 = value rcIdx (coordinates x))
    (width n rcIdx : ℕ) (x : Vector Goldilocks 3) :
    coordinates (rounds round width n rcIdx x calls).1 =
      (List.range n).foldl (fun x k => value (rcIdx + width * k) x) (coordinates x) := by
  induction n generalizing rcIdx x calls with
  | zero => rfl
  | succ n ih =>
    rw [List.range_succ_eq_map, List.foldl_cons, List.foldl_map]
    change coordinates (rounds round width n (rcIdx + width) (round rcIdx x calls).1 _).1 = _
    rw [ih, hround]
    simp only [Nat.mul_zero, Nat.add_zero, Nat.mul_succ, Nat.add_assoc, Nat.add_comm width]

theorem field_permute (x : Vector Goldilocks 3) :
    coordinates (field.permute x calls).1 = permutation (coordinates x) := by
  rw [permute, bind_fst, bind_fst, field_rounds _ field_fullRound,
    field_rounds _ field_partialRound, field_rounds _ field_fullRound]
  simp only [permutation, Nat.zero_add, Nat.one_mul, fullRoundsBegin, partialRounds, fullRoundsEnd]

end Field

section Residues

/-- The word stands for the element. -/
def Represents (a : U64) (x : Goldilocks) : Prop := (a.toNat : Goldilocks) = x

/-- It does, and is below the prime. -/
def Reduced (a : U64) (x : Goldilocks) : Prop := Represents a x ∧ a.toNat < goldilocksP

/-- The products `field_pow` takes in 128 bits. -/
def powProducts (result b e : ℕ) : List ℕ :=
  if _h : e = 0 then []
  else
    (if e % 2 = 1 then [result * b] else []) ++ (b * b ::
      powProducts (if e % 2 = 1 then result * b % goldilocksP else result) (b * b % goldilocksP)
        (e / 2))
termination_by e
decreasing_by omega

/-- A call over words is given and returns words that stand for the elements of the call over the
field, one of the two words added is below the prime, and no result is cut off: a sum lacks the
prime at most, and a product is reduced from its 128 bits. -/
def Faithful : Call U64 → Call Goldilocks → Prop
  | .add a b sum, .add x y z =>
    Represents a x ∧ Represents b y ∧ Represents sum z ∧ z = x + y ∧ b.toNat < goldilocksP ∧
      (sum.toNat = a.toNat + b.toNat ∨ sum.toNat + goldilocksP = a.toNat + b.toNat)
  | .mul a b product, .mul x y z =>
    Represents a x ∧ Represents b y ∧ Represents product z ∧ z = x * y ∧
      a.toNat * b.toNat < 2 ^ 128 ∧ product.toNat = a.toNat * b.toNat % goldilocksP
  | .pow base power, .pow x z =>
    Represents base x ∧ Represents power z ∧ z = x ^ 5 ∧
      (∀ n ∈ powProducts 1 base.toNat sboxExp.toNat, n < 2 ^ 128) ∧ power.toNat < goldilocksP
  | _, _ => False

def Componentwise (S : U64 → Goldilocks → Prop) (v : Vector U64 3) (w : Vector Goldilocks 3) :
    Prop :=
  S v[0] w[0] ∧ S v[1] w[1] ∧ S v[2] w[2]

variable {a b : U64} {x y : Goldilocks}

theorem fieldAdd_exact (a : U64) {b : U64} (hb : b.toNat < goldilocksP) :
    (fieldAdd a b).toNat = a.toNat + b.toNat ∨
      (fieldAdd a b).toNat + goldilocksP = a.toNat + b.toNat := by
  have ha := a.isLt
  have hword := goldilocksP_lt
  rw [fieldAdd]
  split
  next hover =>
    right
    rw [BitVec.toNat_sub, BitVec.toNat_add, BitVec.toNat_ofNat, Nat.mod_eq_of_lt hword]
    rw [BitVec.toNat_add] at hover
    omega
  next hover =>
    left
    rw [BitVec.toNat_add, Nat.mod_eq_of_lt (by omega)]

theorem Represents.add (ha : Represents a x) (hb : Reduced b y) :
    Represents (fieldAdd a b) (x + y) := by
  rw [Represents, ← ha, ← hb.1, ← Nat.cast_add, ZMod.natCast_eq_natCast_iff']
  exact toNat_fieldAdd_mod a hb.2

theorem Represents.mul (ha : Represents a x) (hb : Represents b y) :
    Reduced (fieldMul a b) (x * y) := by
  rw [Reduced, Represents, toNat_fieldMul, ← ha, ← hb, ← Nat.cast_mul]
  exact ⟨ZMod.natCast_mod _ _, Nat.mod_lt _ goldilocksP_pos⟩

theorem Represents.pow (ha : Represents a x) : Reduced (fieldPow a sboxExp) (x ^ 5) := by
  rw [Reduced, Represents, toNat_fieldPow, ← ha, ← Nat.cast_pow]
  exact ⟨ZMod.natCast_mod _ _, Nat.mod_lt _ goldilocksP_pos⟩

theorem product_lt {m n : ℕ} (hm : m < 2 ^ 64) (hn : n < 2 ^ 64) : m * n < 2 ^ 128 := by
  have h := Nat.mul_lt_mul'' hm hn
  rwa [← Nat.pow_add] at h

theorem powProducts_lt {result b e : ℕ} (hresult : result < 2 ^ 64) (hb : b < 2 ^ 64) :
    ∀ n ∈ powProducts result b e, n < 2 ^ 128 := by
  have hmod (m : ℕ) : m % goldilocksP < 2 ^ 64 :=
    (Nat.mod_lt m goldilocksP_pos).trans goldilocksP_lt
  induction result, b, e using powProducts.induct with
  | case1 result b =>
    rw [powProducts, dif_pos rfl]
    nofun
  | case2 result b e he ih =>
    simp only [dite_eq_ite] at ih
    rw [powProducts, dif_neg he, List.forall_mem_append, List.forall_mem_cons]
    refine ⟨?_, product_lt hb hb, ih ?_ (hmod _)⟩
    · split
      · exact List.forall_mem_singleton.mpr (product_lt hresult hb)
      · nofun
    · split
      · exact hmod _
      · exact hresult

theorem inStep_add (ha : Represents a x) (hb : Reduced b y) :
    InStep Faithful Represents (words.addNoted a b) (field.addNoted x y) :=
  have hsum := ha.add hb
  .note ⟨ha, hb.1, hsum, rfl, hb.2, fieldAdd_exact a hb.2⟩ hsum

theorem inStep_add_reduced (ha : Reduced a x) (hb : Reduced b y) :
    InStep Faithful Reduced (words.addNoted a b) (field.addNoted x y) :=
  have hsum := ha.1.add hb
  .note ⟨ha.1, hb.1, hsum, rfl, hb.2, fieldAdd_exact a hb.2⟩
    ⟨hsum, toNat_fieldAdd_lt ha.2 hb.2⟩

theorem inStep_mul (ha : Represents a x) (hb : Represents b y) :
    InStep Faithful Reduced (words.mulNoted a b) (field.mulNoted x y) :=
  have hproduct := ha.mul hb
  .note ⟨ha, hb, hproduct.1, rfl, product_lt a.isLt b.isLt, toNat_fieldMul a b⟩ hproduct

theorem inStep_pow (ha : Represents a x) :
    InStep Faithful Reduced (words.powNoted a) (field.powNoted x) :=
  have hpower := ha.pow
  .note ⟨ha, hpower.1, rfl, powProducts_lt (by decide) a.isLt, hpower.2⟩ hpower

end Residues

section Steps

variable {v : Vector U64 3} {w : Vector Goldilocks 3}

theorem reduced_constant (rcIdx : ℕ) : Reduced (words.constant rcIdx) (field.constant rcIdx) :=
  ⟨rfl, State.roundConstant_lt rcIdx⟩

theorem Componentwise.mono {S T : U64 → Goldilocks → Prop} (h : ∀ a x, S a x → T a x)
    (hv : Componentwise S v w) : Componentwise T v w :=
  hv.imp (h _ _) (.imp (h _ _) (h _ _))

theorem inStep_addRoundConstants (rcIdx : ℕ) (hv : Componentwise Represents v w) :
    InStep Faithful (Componentwise Represents) (words.addRoundConstants v rcIdx)
      (field.addRoundConstants w rcIdx) := by
  obtain ⟨h0, h1, h2⟩ := hv
  refine (inStep_add h0 (reduced_constant _)).bind fun x0 y0 h0 => ?_
  refine (inStep_add h1 (reduced_constant _)).bind fun x1 y1 h1 => ?_
  refine (inStep_add h2 (reduced_constant _)).bind fun x2 y2 h2 => ?_
  exact .pure ⟨h0, h1, h2⟩

theorem inStep_addRoundConstantsPartial (rcIdx : ℕ) (hv : Componentwise Represents v w) :
    InStep Faithful (Componentwise Represents) (words.addRoundConstantsPartial v rcIdx)
      (field.addRoundConstantsPartial w rcIdx) := by
  obtain ⟨h0, h1, h2⟩ := hv
  refine (inStep_add h0 (reduced_constant _)).bind fun x0 y0 h0 => ?_
  exact .pure ⟨h0, h1, h2⟩

theorem inStep_fullSbox (hv : Componentwise Represents v w) :
    InStep Faithful (Componentwise Represents) (words.fullSbox v) (field.fullSbox w) := by
  obtain ⟨h0, h1, h2⟩ := hv
  refine (inStep_pow h0).bind fun x0 y0 h0 => ?_
  refine (inStep_pow h1).bind fun x1 y1 h1 => ?_
  refine (inStep_pow h2).bind fun x2 y2 h2 => ?_
  exact .pure ⟨h0.1, h1.1, h2.1⟩

theorem inStep_partialSbox (hv : Componentwise Represents v w) :
    InStep Faithful (Componentwise Represents) (words.partialSbox v) (field.partialSbox w) := by
  obtain ⟨h0, h1, h2⟩ := hv
  refine (inStep_pow h0).bind fun x0 y0 h0 => ?_
  exact .pure ⟨h0.1, h1, h2⟩

/-- The accumulator starts reduced and the products are, so every sum on the way is. -/
theorem inStep_mixRow {row : Vector U64 3} {row' : Vector Goldilocks 3}
    (hrow : Componentwise Represents row row') (hv : Componentwise Represents v w) :
    InStep Faithful Reduced (words.mixRow row v) (field.mixRow row' w) := by
  obtain ⟨h0, h1, h2⟩ := hv
  obtain ⟨hrow0, hrow1, hrow2⟩ := hrow
  have hzero : Reduced words.zero field.zero := ⟨Nat.cast_zero, goldilocksP_pos⟩
  refine (inStep_mul hrow0 h0).bind fun p0 q0 h0 => ?_
  refine (inStep_add_reduced hzero h0).bind fun acc sum hacc => ?_
  refine (inStep_mul hrow1 h1).bind fun p1 q1 h1 => ?_
  refine (inStep_add_reduced hacc h1).bind fun acc sum hacc => ?_
  refine (inStep_mul hrow2 h2).bind fun p2 q2 h2 => ?_
  exact inStep_add_reduced hacc h2

theorem inStep_mdsMix (hv : Componentwise Represents v w) :
    InStep Faithful (Componentwise Reduced) (words.mdsMix v) (field.mdsMix w) := by
  have hone : Represents 1 1 := Nat.cast_one
  have htwo : Represents 2 2 := Nat.cast_two
  refine (inStep_mixRow ⟨htwo, hone, hone⟩ hv).bind fun x0 y0 h0 => ?_
  refine (inStep_mixRow ⟨hone, htwo, hone⟩ hv).bind fun x1 y1 h1 => ?_
  refine (inStep_mixRow ⟨hone, hone, htwo⟩ hv).bind fun x2 y2 h2 => ?_
  exact .pure ⟨h0, h1, h2⟩

theorem inStep_fullRound (rcIdx : ℕ) (hv : Componentwise Represents v w) :
    InStep Faithful (Componentwise Represents) (words.fullRound rcIdx v)
      (field.fullRound rcIdx w) := by
  refine (inStep_addRoundConstants rcIdx hv).bind fun _ _ hv => ?_
  refine (inStep_fullSbox hv).bind fun _ _ hv => ?_
  exact (inStep_mdsMix hv).mono fun _ _ => .mono fun _ _ => And.left

theorem inStep_partialRound (rcIdx : ℕ) (hv : Componentwise Represents v w) :
    InStep Faithful (Componentwise Represents) (words.partialRound rcIdx v)
      (field.partialRound rcIdx w) := by
  refine (inStep_addRoundConstantsPartial rcIdx hv).bind fun _ _ hv => ?_
  refine (inStep_partialSbox hv).bind fun _ _ hv => ?_
  exact (inStep_mdsMix hv).mono fun _ _ => .mono fun _ _ => And.left

theorem inStep_rounds {round : ℕ → Vector U64 3 → Noted (Call U64) (Vector U64 3)}
    {round' : ℕ → Vector Goldilocks 3 → Noted (Call Goldilocks) (Vector Goldilocks 3)}
    (hround : ∀ rcIdx v w, Componentwise Represents v w →
      InStep Faithful (Componentwise Represents) (round rcIdx v) (round' rcIdx w))
    (width n rcIdx : ℕ) (hv : Componentwise Represents v w) :
    InStep Faithful (Componentwise Represents) (rounds round width n rcIdx v)
      (rounds round' width n rcIdx w) := by
  induction n generalizing rcIdx v w with
  | zero => exact .pure hv
  | succ n ih => exact (hround rcIdx v w hv).bind fun _ _ hv => ih (rcIdx + width) hv

theorem inStep_permute (hv : Componentwise Represents v w) :
    InStep Faithful (Componentwise Represents) (words.permute v) (field.permute w) := by
  refine (inStep_rounds (fun rcIdx _ _ => inStep_fullRound rcIdx) _ _ _ hv).bind fun _ _ hv => ?_
  refine (inStep_rounds (fun rcIdx _ _ => inStep_partialRound rcIdx) _ _ _ hv).bind
    fun _ _ hv => ?_
  exact inStep_rounds (fun rcIdx _ _ => inStep_fullRound rcIdx) _ _ _ hv

end Steps

/-- The hash is the first coordinate of the permutation of `(l, r, 0)` over the prime field, as its
least representative.  The calls made on the way are those over the field, each faithful to its. -/
theorem hashTwo_permutation (l r : U64) :
    goldilocksP.Prime ∧
      (hashTwo l r).toNat = (permutation ![(l.toNat : Goldilocks), r.toNat, 0] 0).val ∧
      (hashTwo l r).toNat < goldilocksP ∧
      result (words.permute #v[l, r, 0]) = (State.permute ⟨#v[l, r, 0]⟩).elements ∧
      coordinates (result (field.permute #v[(l.toNat : Goldilocks), r.toNat, 0])) =
        permutation ![(l.toNat : Goldilocks), r.toNat, 0] ∧
      List.Forall₂ Faithful (calls (words.permute #v[l, r, 0]))
        (calls (field.permute #v[(l.toNat : Goldilocks), r.toNat, 0])) := by
  have hinput : Componentwise Represents #v[l, r, 0] #v[(l.toNat : Goldilocks), r.toNat, 0] :=
    ⟨rfl, rfl, Nat.cast_zero⟩
  have hstep := inStep_permute hinput
  have hwords := words_permute [] ⟨#v[l, r, 0]⟩
  have hfield : coordinates (result (field.permute #v[(l.toNat : Goldilocks), r.toNat, 0])) =
      permutation ![(l.toNat : Goldilocks), r.toNat, 0] := by
    rw [result, field_permute, coordinates_mk]
  have hlt : (hashTwo l r).toNat < goldilocksP := State.permute_lt _ 0
  refine ⟨goldilocksP_prime, ?_, hlt, hwords, hfield, hstep.calls⟩
  have hfirst : ((hashTwo l r).toNat : Goldilocks) =
      permutation ![(l.toNat : Goldilocks), r.toNat, 0] 0 := by
    rw [← hfield, hashTwo, ← hwords]
    exact hstep.result.1
  rw [← hfirst, ZMod.val_natCast, Nat.mod_eq_of_lt hlt]

end Arithmetic

end Qubitcoin.Privacy.Poseidon2
