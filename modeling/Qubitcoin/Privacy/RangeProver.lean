import Qubitcoin.Privacy.VectorCommitment

/-! The generator of range proofs, from `privacy/range_proofs.py`; the verifier accepts what it
gives. -/

namespace Qubitcoin.Privacy

open Curve Finset

/-- A commitment with its secrets. -/
structure Commitment (E : Type) where
  point : E
  value : ℤ
  blinding : ℤ

/-- The 32 random bytes of each draw, as numbers. -/
structure Draws where
  sL : ℕ → ℕ
  sR : ℕ → ℕ
  alpha : ℕ
  rho : ℕ
  tau1 : ℕ
  tau2 : ℕ

/-- A draw modulo the order. -/
def scalar (draw : ℕ) : ℤ := draw % order

section Modulo

variable {E : Type} [Curve E]

/-- A loop that adds to a total modulo the order. -/
def total (term : ℕ → ℤ) : ℤ :=
  (List.range rangeBits).foldl (fun t i => (t + term i) % order) 0

theorem foldl_mod (term : ℕ → ℤ) (is : List ℕ) (t : ℤ) :
    ((is.foldl (fun t i => (t + term i) % order) t : ℤ) : ZMod order) =
      t + (is.map fun i => (term i : ZMod order)).sum := by
  induction is generalizing t with
  | nil => simp
  | cons i is ih => simp [ih, add_assoc]

theorem total_cast (term : ℕ → ℤ) :
    (total term : ZMod order) = ∑ i ∈ range rangeBits, (term i : ZMod order) := by
  rw [total, foldl_mod, Int.cast_zero, zero_add]
  rfl

theorem scalarMult_congr {k k' : ℤ} (h : (k : ZMod order) = k') (p : E) :
    scalarMult k p = scalarMult k' p := by
  rw [ZMod.intCast_eq_intCast_iff'] at h
  rw [scalarMult, scalarMult, h]

end Modulo

/-- `(value >> i) & 1`. -/
def bit (value : ℤ) (i : ℕ) : ℤ := value >>> i % 2

theorem sum_bit (value : ℤ) (n : ℕ) : ∑ i ∈ range n, bit value i * 2 ^ i = value % 2 ^ n := by
  induction n with
  | zero => simp
  | succ n ih =>
    have hhalf : value / (2 ^ n * 2) = value / 2 ^ n / 2 := by
      rw [Int.ediv_ediv_of_nonneg (by positivity)]
    rw [sum_range_succ, ih, bit, Int.shiftRight_eq_div_pow, pow_succ, Int.emod_def, Int.emod_def,
      Int.emod_def, hhalf]
    push_cast
    ring

theorem bit_mul_pred (value : ℤ) (i : ℕ) : bit value i * (bit value i - 1) = 0 := by
  rcases Int.emod_two_eq_zero_or_one (value >>> i) with h | h <;> simp [bit, h]

namespace RangeProof

section Prover

variable (value : ℤ) (draws : Draws) (y z x : ℤ)

/-- `l0` of the loop over the coefficients. -/
def l0 (i : ℕ) : ℤ := (bit value i - z) % order

def r0 (i : ℕ) : ℤ :=
  (y ^ i % order * ((bit value i - 1 + z) % order) + z * z % order * (2 ^ i % order)) % order

def r1 (i : ℕ) : ℤ := y ^ i % order * scalar (draws.sR i) % order

def t1 : ℤ := total fun i => l0 value z i * r1 draws y i + scalar (draws.sL i) * r0 value y z i

def t2 : ℤ := total fun i => scalar (draws.sL i) * r1 draws y i

/-- An entry of `l_vec`. -/
def lAt (i : ℕ) : ℤ := (bit value i - z + scalar (draws.sL i) * x) % order

/-- An entry of `r_vec`. -/
def rAt (i : ℕ) : ℤ :=
  (y ^ i % order * ((bit value i - 1 + z) % order + scalar (draws.sR i) * x) +
    z * z % order * (2 ^ i % order)) % order

def tHatOf : ℤ :=
  ((List.range rangeBits).map fun i => lAt value draws z x i * rAt value draws y z x i).sum % order

variable (E : Type) [VectorCurve E]

/-- `alpha*H + sum(a_L[i]*G_i + a_R[i]*H_i)`, without the multiples by zero. -/
def pointA : E :=
  (List.range rangeBits).foldl
    (fun A i =>
      let aL := bit value i
      let aR := aL - 1
      let A := if aL ≠ 0 then A + scalarMult aL (VectorCurve.gVec i) else A
      if aR ≠ 0 then A + scalarMult (aR % order) (VectorCurve.hVec i) else A)
    (scalarMult (scalar draws.alpha) H)

/-- `rho*H + sum(s_L[i]*G_i + s_R[i]*H_i)`. -/
def pointS : E :=
  (List.range rangeBits).foldl
    (fun S i =>
      S + scalarMult (scalar (draws.sL i)) (VectorCurve.gVec i) +
        scalarMult (scalar (draws.sR i)) (VectorCurve.hVec i))
    (scalarMult (scalar draws.rho) H)

end Prover

variable {E : Type} [VectorCurve E]

/-- `RangeProofGenerator.generate`. -/
def generate (value blinding : ℤ) (commitment : Option (Commitment E)) (draws : Draws) :
    Option RangeProof :=
  if value < 0 ∨ 2 ^ rangeBits ≤ value then none
  else
    let point := (commitment.map (·.point)).getD (commit value blinding)
    let A : E := pointA value draws E
    let S : E := pointS draws E
    let y := hashPoints [A, S]
    let z := hashPoints [S, A]
    let T1 : E := scalarMult (t1 value draws y z) G + scalarMult (scalar draws.tau1) H
    let T2 : E := scalarMult (t2 draws y) G + scalarMult (scalar draws.tau2) H
    let x := hashPoints [T1, T2]
    some
      { commitment := compress point
        A := compress A
        S := compress S
        T1 := compress T1
        T2 := compress T2
        tauX :=
          (scalar draws.tau2 * x * x + scalar draws.tau1 * x + z * z % order * blinding) % order
        mu := (scalar draws.alpha + scalar draws.rho * x) % order
        tHat := tHatOf value draws y z x
        lVec := (List.range rangeBits).map (lAt value draws z x)
        rVec := (List.range rangeBits).map (rAt value draws y z x) }

section Identity

variable {R : Type} [CommRing R]

/-- The constant term of `t`, for bits that add up to `v`. -/
theorem constant_term (n : ℕ) (a : ℕ → R) (y z v : R) (hbit : ∀ i, a i * (a i - 1) = 0)
    (hsum : ∑ i ∈ range n, a i * 2 ^ i = v) :
    ∑ i ∈ range n, (a i - z) * (y ^ i * (a i - 1 + z) + z ^ 2 * 2 ^ i) =
      z ^ 2 * v + ((z - z ^ 2) * ∑ i ∈ range n, y ^ i - z ^ 3 * ∑ i ∈ range n, 2 ^ i) := by
  rw [← hsum, mul_sum, mul_sum, mul_sum, ← sum_sub_distrib, ← sum_add_distrib]
  refine sum_congr rfl fun i _ => ?_
  linear_combination y ^ i * hbit i

/-- `t(x) = <l(x), r(x)>` by its coefficients. -/
theorem inner_product (n : ℕ) (a sL sR : ℕ → R) (x y z v : R) (hbit : ∀ i, a i * (a i - 1) = 0)
    (hsum : ∑ i ∈ range n, a i * 2 ^ i = v) :
    ∑ i ∈ range n, (a i - z + sL i * x) * (y ^ i * (a i - 1 + z + sR i * x) + z ^ 2 * 2 ^ i) =
      z ^ 2 * v + ((z - z ^ 2) * ∑ i ∈ range n, y ^ i - z ^ 3 * ∑ i ∈ range n, 2 ^ i) +
        (∑ i ∈ range n, ((a i - z) * (y ^ i * sR i) +
          sL i * (y ^ i * (a i - 1 + z) + z ^ 2 * 2 ^ i))) * x +
        (∑ i ∈ range n, sL i * (y ^ i * sR i)) * x ^ 2 := by
  rw [← constant_term n a y z v hbit hsum, sum_mul, sum_mul, ← sum_add_distrib, ← sum_add_distrib]
  refine sum_congr rfl fun i _ => ?_
  ring

end Identity

theorem powers_sum_cast (base : ℤ) :
    ((powers base).sum : ZMod order) = ∑ i ∈ range rangeBits, (base : ZMod order) ^ i := by
  change ((∑ i ∈ range rangeBits, base ^ i % order : ℤ) : ZMod order) = _
  rw [Int.cast_sum]
  refine sum_congr rfl fun i _ => ?_
  rw [ZMod.intCast_mod, Int.cast_pow]

theorem delta_cast (y z : ℤ) :
    (delta y z : ZMod order) =
      (z - z ^ 2) * ∑ i ∈ range rangeBits, (y : ZMod order) ^ i -
        z ^ 3 * ∑ i ∈ range rangeBits, 2 ^ i := by
  simp only [delta, ZMod.intCast_mod, Int.cast_sub, Int.cast_mul, powers_sum_cast]
  push_cast
  ring

theorem isScalar_emod (k : ℤ) : IsScalar (k % order) :=
  have hpos : (0 : ℤ) < order := by decide
  ⟨Int.emod_nonneg k hpos.ne', Int.emod_lt_of_pos k hpos⟩

theorem isScalar_of_mem {f : ℕ → ℤ} (h : ∀ i, IsScalar (f i)) {is : List ℕ} :
    ∀ v ∈ is.map f, IsScalar v := by
  intro v hv
  obtain ⟨i, -, rfl⟩ := List.mem_map.mp hv
  exact h i

theorem innerProduct_map (l r : ℕ → ℤ) (is : List ℕ) :
    innerProduct (is.map l) (is.map r) = (is.map fun i => l i * r i).sum % order := by
  rw [innerProduct, List.zipWith_map, List.zipWith_self]

/-- The evaluation of `t` at the challenge. -/
theorem tHatOf_cast {value : ℤ} (hlow : 0 ≤ value) (hhigh : value < 2 ^ rangeBits) (draws : Draws)
    (y z x : ℤ) :
    (tHatOf value draws y z x : ZMod order) =
      z ^ 2 * value + delta y z + t1 value draws y z * x + t2 draws y * x ^ 2 := by
  have hbit (i : ℕ) : (bit value i : ZMod order) * (bit value i - 1) = 0 := by
    exact_mod_cast congrArg (Int.cast : ℤ → ZMod order) (bit_mul_pred value i)
  have hsum : ∑ i ∈ range rangeBits, (bit value i : ZMod order) * 2 ^ i = value := by
    have h := sum_bit value rangeBits
    rw [Int.emod_eq_of_lt hlow hhigh] at h
    exact_mod_cast congrArg (Int.cast : ℤ → ZMod order) h
  have hinner := inner_product rangeBits (fun i => (bit value i : ZMod order))
    (fun i => (scalar (draws.sL i) : ZMod order)) (fun i => (scalar (draws.sR i) : ZMod order))
    (x : ZMod order) (y : ZMod order) (z : ZMod order) value hbit hsum
  rw [tHatOf, ZMod.intCast_mod, t1, t2, total_cast, total_cast, delta_cast]
  change ((∑ i ∈ range rangeBits, lAt value draws z x i * rAt value draws y z x i : ℤ) :
    ZMod order) = _
  rw [Int.cast_sum]
  simp only [lAt, rAt, l0, r0, r1, ZMod.intCast_mod, Int.cast_mul, Int.cast_add, Int.cast_sub,
    Int.cast_pow, Int.cast_one, Int.cast_ofNat]
  rw [← pow_two]
  exact hinner

/-- The verifier's equation, under any challenges. -/
theorem polynomial_equation {value : ℤ} (hlow : 0 ≤ value) (hhigh : value < 2 ^ rangeBits)
    (blinding : ℤ) (draws : Draws) (y z x : ℤ) :
    scalarMult (tHatOf value draws y z x) (G : E) +
        scalarMult
          ((scalar draws.tau2 * x * x + scalar draws.tau1 * x + z * z % order * blinding) % order)
          H =
      scalarMult (z * z % order) (commit value blinding) + scalarMult (delta y z) G +
        scalarMult x (scalarMult (t1 value draws y z) G + scalarMult (scalar draws.tau1) H) +
          scalarMult (x * x % order)
            (scalarMult (t2 draws y) G + scalarMult (scalar draws.tau2) H) := by
  have hG : (tHatOf value draws y z x : ZMod order) =
      (z * z * value + delta y z + x * t1 value draws y z + x * x * t2 draws y : ℤ) := by
    rw [tHatOf_cast hlow hhigh]
    push_cast
    ring
  have hH : (((scalar draws.tau2 * x * x + scalar draws.tau1 * x + z * z % order * blinding) %
      order : ℤ) : ZMod order) =
        (z * z * blinding + x * scalar draws.tau1 + x * x * scalar draws.tau2 : ℤ) := by
    rw [ZMod.intCast_mod]
    push_cast [ZMod.intCast_mod]
    ring
  rw [scalarMult_congr hG, scalarMult_congr hH, scalarMult_emod, scalarMult_emod]
  simp only [scalarMult_eq, commit]
  module

variable [DecidableEq E]

/-- A proof for the commitment to a value in the range is accepted. -/
theorem verify_generate {value blinding : ℤ} (hlow : 0 ≤ value) (hhigh : value < 2 ^ rangeBits)
    {commitment : Option (Commitment E)}
    (hpoint : ∀ c, commitment = some c → c.point = commit value blinding) (draws : Draws) :
    ∃ proof, generate value blinding commitment draws = some proof ∧
      proof.commitment = compress (commit value blinding : E) ∧ verify E proof = true := by
  have hcommitment :
      (commitment.map (·.point)).getD (commit value blinding) = commit value blinding := by
    cases commitment with
    | none => rfl
    | some c => exact hpoint c rfl
  rw [generate, if_neg (by omega), hcommitment]
  refine ⟨_, rfl, rfl, ?_⟩
  rw [verify_eq_true]
  refine ⟨⟨?_, ?_, ?_, ?_⟩, _, _, _, _, _,
    VectorCurve.decompress_compress _, VectorCurve.decompress_compress _,
    VectorCurve.decompress_compress _, VectorCurve.decompress_compress _,
    VectorCurve.decompress_compress _, innerProduct_map _ _ _, ?_⟩
  · rw [List.length_map, List.length_range]
  · rw [List.length_map, List.length_range]
  · exact isScalar_of_mem fun i => isScalar_emod _
  · exact isScalar_of_mem fun i => isScalar_emod _
  · rw [checkPolynomial, decide_eq_true_iff]
    exact polynomial_equation hlow hhigh blinding draws _ _ _

end RangeProof

end Qubitcoin.Privacy
