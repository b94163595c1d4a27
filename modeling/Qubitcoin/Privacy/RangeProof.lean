import Mathlib
import Qubitcoin.Library.Bytes

/-! Pedersen commitments and the verifier of range proofs, from `privacy/commitments.py` and
`privacy/range_proofs.py`, over secp256k1 as a group of known order. -/

namespace Qubitcoin.Privacy

/-- `_N` of secp256k1. -/
def order : ℕ := 0xFFFFFFFFFFFFFFFFFFFFFFFFFFFFFFFEBAAEDCE6AF48A03BBFD25E8CD0364141

def rangeBits : ℕ := 64

/-- The points with the generators `G` and `H`, their compressed form, and the hash of the
challenges.  `decompress` fails on other lengths and prefixes. -/
class Curve (E : Type) extends AddCommGroup E where
  order_smul : ∀ p : E, (order : ℤ) • p = 0
  G : E
  H : E
  compress : E → Bytes
  decompress : Bytes → Option E
  sha256 : Bytes → Bytes

open Curve

section Points

variable {E : Type} [Curve E]

/-- `_scalar_mult`. -/
def scalarMult (k : ℤ) (p : E) : E := (k % order) • p

theorem scalarMult_eq (k : ℤ) (p : E) : scalarMult k p = k • p := by
  have hk : k = k % order + order * (k / order) := (Int.emod_add_mul_ediv k order).symm
  calc scalarMult k p = (k % order) • p + (k / order) • (order : ℤ) • p := by
        rw [order_smul, smul_zero, add_zero, scalarMult]
    _ = (k % order + order * (k / order)) • p := by rw [add_smul, mul_comm, mul_smul]
    _ = k • p := by rw [← hk]

/-- The point of `PedersenCommitment.commit`. -/
def commit (value blinding : ℤ) : E := scalarMult value G + scalarMult blinding H

def verifySum [DecidableEq E] (inputs outputs : List E) : Bool := inputs.sum = outputs.sum

/-- `_hash_points`. -/
def hashPoints (ps : List E) : ℤ := Bytes.ofLe (sha256 E (ps.flatMap compress)).reverse % order

end Points

/-- The residues, with multiples that are computed by one product. -/
@[reducible] def residues : AddCommGroup (ZMod order) :=
  { (inferInstance : AddCommGroup (ZMod order)) with
    zsmul := fun k p => (k : ZMod order) * p
    zsmul_zero' := by
      intro p
      change ((0 : ℤ) : ZMod order) * p = 0
      rw [Int.cast_zero, zero_mul]
    zsmul_succ' := by
      intro n p
      change ((n.succ : ℤ) : ZMod order) * p = ((n : ℤ) : ZMod order) * p + p
      push_cast
      ring
    zsmul_neg' := by
      intro n p
      change ((Int.negSucc n : ℤ) : ZMod order) * p = -(((n.succ : ℤ) : ZMod order) * p)
      rw [Int.cast_negSucc]
      push_cast
      ring }

-- of the numeral that stands for `H`
local instance atLeastTwo : Nat.AtLeastTwo 2 := ⟨le_rfl⟩

/-- Points as their logarithms to the base `G`, compressed as 33 bytes. -/
@[reducible] def logarithms (sha256 : Bytes → Bytes) : Curve (ZMod order) where
  toAddCommGroup := residues
  order_smul p := by
    change ((order : ℤ) : ZMod order) * p = 0
    rw [Int.cast_natCast, ZMod.natCast_self, zero_mul]
  G := 1
  H := 2
  compress p := 2 :: (Bytes.le 32 p.val).reverse
  decompress bytes :=
    match bytes with
    | 2 :: rest => if rest.length = 32 then some (Bytes.ofLe rest.reverse : ZMod order) else none
    | _ => none
  sha256 := sha256

structure RangeProof where
  commitment : Bytes
  A : Bytes
  S : Bytes
  T1 : Bytes
  T2 : Bytes
  tauX : ℤ
  mu : ℤ
  tHat : ℤ
  lVec : List ℤ
  rVec : List ℤ
  deriving DecidableEq

namespace RangeProof

def IsScalar (v : ℤ) : Prop := 0 ≤ v ∧ v < order

instance (v : ℤ) : Decidable (IsScalar v) := inferInstanceAs (Decidable (_ ∧ _))

/-- The lengths and ranges of the two vectors. -/
def WellFormed (proof : RangeProof) : Prop :=
  proof.lVec.length = rangeBits ∧ proof.rVec.length = rangeBits ∧
    (∀ v ∈ proof.lVec, IsScalar v) ∧ ∀ v ∈ proof.rVec, IsScalar v

instance (proof : RangeProof) : Decidable proof.WellFormed :=
  inferInstanceAs (Decidable (_ ∧ _ ∧ _ ∧ _))

def innerProduct (l r : List ℤ) : ℤ := (List.zipWith (· * ·) l r).sum % order

/-- `base` to the powers below `rangeBits`. -/
def powers (base : ℤ) : List ℤ := (List.range rangeBits).map fun i => base ^ i % order

/-- `delta(y, z)`. -/
def delta (y z : ℤ) : ℤ :=
  let z2 := z * z % order
  let z3 := z2 * z % order
  ((z - z2) * ((powers y).sum % order) - z3 * ((powers 2).sum % order)) % order

variable {E : Type} [Curve E] [DecidableEq E]

/-- The polynomial commitment, under the challenges of the transcript. -/
def checkPolynomial (proof : RangeProof) (C A S T1 T2 : E) : Bool :=
  let y := hashPoints [A, S]
  let z := hashPoints [S, A]
  let x := hashPoints [T1, T2]
  scalarMult proof.tHat G + scalarMult proof.tauX H =
    scalarMult (z * z % order) C + scalarMult (delta y z) G + scalarMult x T1 +
      scalarMult (x * x % order) T2

variable (E) in
/-- `RangeProofVerifier.verify`; `A`, `S` and `mu` bind nothing but the challenges. -/
def verify (proof : RangeProof) : Bool :=
  proof.WellFormed &&
    ((do
      let C : E ← decompress proof.commitment
      let A ← decompress proof.A
      let S ← decompress proof.S
      let T1 ← decompress proof.T1
      let T2 ← decompress proof.T2
      return innerProduct proof.lVec proof.rVec = proof.tHat &&
        proof.checkPolynomial C A S T1 T2) |>.getD false)

end RangeProof

end Qubitcoin.Privacy
