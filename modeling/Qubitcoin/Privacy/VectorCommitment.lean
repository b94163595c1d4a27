import Qubitcoin.Privacy.RangeProof

/-! The equation that ties the vectors of a range proof to its points, which the verifier leaves
out. -/

namespace Qubitcoin.Privacy

open Curve

/-- secp256k1 as a group of order `_N`, with the generators of the two vectors. -/
class VectorCurve (E : Type) extends Curve E where
  gVec : ℕ → E
  hVec : ℕ → E
  card : Nat.card E = order
  generated : ∀ p : E, ∃ k : ℤ, k • (H : E) = p
  decompress_compress : ∀ p : E, decompress (compress p) = some p

section Group

variable {E : Type} [VectorCurve E]

theorem addOrderOf_H : addOrderOf (H : E) = order := by
  rw [← VectorCurve.card (E := E)]
  exact addOrderOf_eq_card_of_forall_mem_zmultiples VectorCurve.generated

/-- Every point is one multiple of `H`, up to the order. -/
theorem exists_residue (p : E) :
    ∃ m : ℤ, 0 ≤ m ∧ m < order ∧ ∀ k : ℤ, scalarMult k H = p ↔ k % order = m := by
  obtain ⟨n, rfl⟩ := VectorCurve.generated p
  have hpos : (0 : ℤ) < order := by decide
  refine ⟨n % order, Int.emod_nonneg n hpos.ne', Int.emod_lt_of_pos n hpos, fun k => ?_⟩
  rw [scalarMult_eq, zsmul_eq_zsmul_iff_modEq, addOrderOf_H]
  rfl

end Group

namespace RangeProof

theorem succ_emod_ne {m : ℤ} (hnonneg : 0 ≤ m) (hlt : m < order) : (m + 1) % order ≠ m := by
  intro h
  rw [← Int.emod_eq_of_lt hnonneg hlt, Int.emod_add_emod,
    Int.emod_eq_emod_iff_emod_sub_eq_zero, add_sub_cancel_left] at h
  revert h
  decide

theorem innerProduct_forge (t : ℤ) :
    innerProduct (t :: List.replicate 63 0) (1 :: List.replicate 63 0) = t % order := by
  simp [innerProduct]

section Equation

variable {E : Type} [VectorCurve E]

/-- The inverse of a challenge modulo the order. -/
def inverse (y : ℤ) : ℤ := ((y : ZMod order)⁻¹).val

/-- `A + x*S - z*sum(G_i) + sum((z + z^2 * 2^i * y^(-i)) * H_i)`. -/
def vectorPoint (A S : E) (y z x : ℤ) : E :=
  A + scalarMult x S - scalarMult z (∑ i ∈ Finset.range rangeBits, VectorCurve.gVec i) +
    ∑ i ∈ Finset.range rangeBits,
      scalarMult (z + z ^ 2 * 2 ^ i * inverse y ^ i) (VectorCurve.hVec i)

/-- `sum(l_i * G_i) + sum(r_i * y^(-i) * H_i)`. -/
def openedPoint (lVec rVec : List ℤ) (y : ℤ) : E :=
  ∑ i ∈ Finset.range rangeBits, scalarMult (lVec.getD i 0) (VectorCurve.gVec i) +
    ∑ i ∈ Finset.range rangeBits,
      scalarMult (rVec.getD i 0 * inverse y ^ i) (VectorCurve.hVec i)

def Opens (proof : RangeProof) (A S T1 T2 : E) : Prop :=
  vectorPoint A S (hashPoints [A, S]) (hashPoints [S, A]) (hashPoints [T1, T2]) =
    scalarMult proof.mu H + openedPoint proof.lVec proof.rVec (hashPoints [A, S])

variable (E) in
/-- The vector commitment equation, of the points in the proof. -/
def Binds (proof : RangeProof) : Prop :=
  ∀ A S T1 T2 : E, decompress proof.A = some A → decompress proof.S = some S →
    decompress proof.T1 = some T1 → decompress proof.T2 = some T2 → proof.Opens A S T1 T2

/-- One residue of `mu` satisfies the equation, whatever the points are. -/
theorem exists_mu (proof : RangeProof) (A S T1 T2 : E) :
    ∃ m : ℤ, 0 ≤ m ∧ m < order ∧
      ∀ mu : ℤ, ({ proof with mu := mu } : RangeProof).Opens A S T1 T2 ↔ mu % order = m := by
  obtain ⟨m, hnonneg, hlt, hm⟩ := exists_residue
    (vectorPoint A S (hashPoints [A, S]) (hashPoints [S, A]) (hashPoints [T1, T2]) -
      openedPoint proof.lVec proof.rVec (hashPoints [A, S]))
  refine ⟨m, hnonneg, hlt, fun mu => ?_⟩
  rw [← hm mu, Opens, eq_sub_iff_add_eq, eq_comm]

theorem scalarMult_emod (k : ℤ) (p : E) : scalarMult (k % order) p = scalarMult k p := by
  rw [scalarMult, scalarMult, Int.emod_emod]

/-- A proof for a commitment to any value, from free choices: the vectors only have to give the
inner product that the polynomial equation asks for. -/
def forge (value blinding : ℤ) (A S : E) : RangeProof :=
  let z := hashPoints [S, A]
  let tHat := (z * z * value + delta (hashPoints [A, S]) z) % order
  { commitment := compress (commit value blinding : E)
    A := compress A
    S := compress S
    T1 := compress (0 : E)
    T2 := compress (0 : E)
    tauX := z * z * blinding
    mu := 0
    tHat := tHat
    lVec := tHat :: List.replicate 63 0
    rVec := 1 :: List.replicate 63 0 }

theorem forge_wellFormed (value blinding : ℤ) (A S : E) : (forge value blinding A S).WellFormed := by
  have hpos : (0 : ℤ) < order := by decide
  have hzeros : ∀ v ∈ List.replicate 63 (0 : ℤ), IsScalar v := by
    intro v hv
    rw [List.eq_of_mem_replicate hv]
    exact ⟨le_rfl, hpos⟩
  refine ⟨rfl, rfl, List.forall_mem_cons.mpr ⟨?_, hzeros⟩, List.forall_mem_cons.mpr ⟨?_, hzeros⟩⟩
  · exact ⟨Int.emod_nonneg _ hpos.ne', Int.emod_lt_of_pos _ hpos⟩
  · decide

end Equation

section Verifier

variable {E : Type} [VectorCurve E] [DecidableEq E] {proof : RangeProof}

theorem verify_eq_true :
    verify E proof = true ↔ proof.WellFormed ∧ ∃ C A S T1 T2 : E,
      decompress proof.commitment = some C ∧ decompress proof.A = some A ∧
      decompress proof.S = some S ∧ decompress proof.T1 = some T1 ∧
      decompress proof.T2 = some T2 ∧
      innerProduct proof.lVec proof.rVec = proof.tHat ∧
      proof.checkPolynomial C A S T1 T2 = true := by
  rw [verify, Bool.and_eq_true, decide_eq_true_iff]
  refine and_congr_right fun _ => ?_
  cases hC : (decompress proof.commitment : Option E) <;>
    cases hA : (decompress proof.A : Option E) <;>
    cases hS : (decompress proof.S : Option E) <;>
    cases hT1 : (decompress proof.T1 : Option E) <;>
    cases hT2 : (decompress proof.T2 : Option E) <;> simp

/-- The verifier does not read `mu`. -/
theorem verify_mu (proof : RangeProof) (mu : ℤ) :
    verify E { proof with mu := mu } = verify E proof := rfl

theorem binds_iff_of_verify (h : verify E proof = true) :
    ∃ m : ℤ, 0 ≤ m ∧ m < order ∧
      ∀ mu : ℤ, Binds E { proof with mu := mu } ↔ mu % order = m := by
  obtain ⟨-, C, A, S, T1, T2, -, hA, hS, hT1, hT2, -⟩ := verify_eq_true.mp h
  obtain ⟨m, hnonneg, hlt, hm⟩ := exists_mu proof A S T1 T2
  refine ⟨m, hnonneg, hlt, fun mu => ?_⟩
  rw [← hm mu]
  constructor
  · intro hbinds
    exact hbinds A S T1 T2 hA hS hT1 hT2
  · intro hopens A' S' T1' T2' hA' hS' hT1' hT2'
    cases hA.symm.trans hA'
    cases hS.symm.trans hS'
    cases hT1.symm.trans hT1'
    cases hT2.symm.trans hT2'
    exact hopens

theorem verify_forge (value blinding : ℤ) (A S : E) :
    verify E (forge value blinding A S) = true := by
  rw [verify_eq_true]
  refine ⟨forge_wellFormed value blinding A S, commit value blinding, A, S, 0, 0, ?_⟩
  refine ⟨VectorCurve.decompress_compress _, VectorCurve.decompress_compress _,
    VectorCurve.decompress_compress _, VectorCurve.decompress_compress _,
    VectorCurve.decompress_compress _, ?_, ?_⟩
  · exact (innerProduct_forge _).trans (Int.emod_emod _ _)
  · rw [checkPolynomial, decide_eq_true_iff]
    simp only [forge, scalarMult_emod]
    simp only [scalarMult_eq, commit, smul_zero, add_zero]
    module

/-- A commitment to any value has an accepted proof that the equation fails for. -/
theorem exists_forged (value blinding : ℤ) (A S : E) :
    ∃ proof : RangeProof, decompress proof.commitment = some (commit value blinding : E) ∧
      decompress proof.A = some A ∧ decompress proof.S = some S ∧
      verify E proof = true ∧ ¬Binds E proof := by
  obtain ⟨m, hnonneg, hlt, hm⟩ := binds_iff_of_verify (verify_forge value blinding A S)
  refine ⟨{ forge value blinding A S with mu := m + 1 }, VectorCurve.decompress_compress _,
    VectorCurve.decompress_compress _, VectorCurve.decompress_compress _, ?_, ?_⟩
  · rw [verify_mu]
    exact verify_forge value blinding A S
  · rw [hm]
    exact succ_emod_ne hnonneg hlt

end Verifier

end RangeProof

/-- The points as logarithms, with the generators of the vectors. -/
@[reducible] def vectorLogarithms (sha256 : Bytes → Bytes) : VectorCurve (ZMod order) where
  toCurve := logarithms sha256
  gVec i := (3 + 2 * i : ℕ)
  hVec i := (4 + 2 * i : ℕ)
  card := Nat.card_zmod order
  generated p := by
    have hne : NeZero order := ⟨by decide⟩
    have hhalf : (((order + 1) / 2 : ℕ) : ZMod order) * 2 = 1 := by
      have hcast := congrArg (Nat.cast : ℕ → ZMod order) (by decide : (order + 1) / 2 * 2 = order + 1)
      rwa [Nat.cast_mul, Nat.cast_add, ZMod.natCast_self, zero_add, Nat.cast_one] at hcast
    refine ⟨(p.val * ((order + 1) / 2) : ℕ), ?_⟩
    change (((p.val * ((order + 1) / 2) : ℕ) : ℤ) : ZMod order) * 2 = p
    rw [Int.cast_natCast, Nat.cast_mul, ZMod.natCast_zmod_val, mul_assoc, hhalf, mul_one]
  decompress_compress p := by
    have hne : NeZero order := ⟨by decide⟩
    have hlt : p.val < 256 ^ 32 := (ZMod.val_lt p).trans (by decide)
    change (if (Bytes.le 32 p.val).reverse.length = 32 then
      some ((Bytes.ofLe (Bytes.le 32 p.val).reverse.reverse : ℕ) : ZMod order) else none) = some p
    rw [List.length_reverse, Bytes.length_le, if_pos rfl, List.reverse_reverse, Bytes.ofLe_le,
      Nat.mod_eq_of_lt hlt, ZMod.natCast_zmod_val]

end Qubitcoin.Privacy
