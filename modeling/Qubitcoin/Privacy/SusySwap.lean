import Qubitcoin.Library.Machine
import Qubitcoin.Node.Transaction
import Qubitcoin.Privacy.RangeProver

/-! The builder of confidential transactions, from `privacy/susy_swap.py`, with the parts of
`privacy/stealth.py` it calls. -/

namespace Qubitcoin.Privacy

open Curve

variable {E : Type} [VectorCurve E]

/-- `int.to_bytes(n, 'big')`, which fails on a number that does not fit. -/
def toBytes (n : ℕ) (k : ℤ) : Option Bytes :=
  if 0 ≤ k ∧ k < 256 ^ n then some (Bytes.le n k.toNat).reverse else none

def encode (s : String) : Bytes := s.toUTF8.toList

/-- `PedersenCommitment.commit` with a blinding. -/
def Commitment.commit (value blinding : ℤ) : Option (Commitment E) :=
  if value < 0 then none
  else some { point := Privacy.commit value blinding, value := value, blinding := blinding }

def computeExcessBlinding (inputBlindings outputBlindings : List ℤ) : ℤ :=
  (inputBlindings.sum - outputBlindings.sum) % order

theorem Commitment.commit_eq_some {value blinding : ℤ} {c : Commitment E} :
    Commitment.commit value blinding = some c ↔
      0 ≤ value ∧ c = ⟨Privacy.commit value blinding, value, blinding⟩ := by
  rw [Commitment.commit]
  split
  · simp only [reduceCtorEq, false_iff]
    omega
  · simp only [Option.some.injEq, eq_comm, iff_and_self]
    omega

/-- Points that open to values and blindings add up to one that opens to the sums. -/
theorem sum_commit {α : Type} {point : α → E} {value blinding : α → ℤ} {xs : List α}
    (h : ∀ x ∈ xs, point x = commit (value x) (blinding x)) :
    (xs.map point).sum = commit (xs.map value).sum (xs.map blinding).sum := by
  induction xs with
  | nil => simp [commit, scalarMult_eq]
  | cons x xs ih =>
    rw [List.forall_mem_cons] at h
    simp only [List.map_cons, List.sum_cons, ih h.2, h.1, commit, scalarMult_eq]
    module

theorem commit_congr {value blinding blinding' : ℤ}
    (h : (blinding : ZMod order) = blinding') :
    (commit value blinding : E) = commit value blinding' := by
  rw [commit, commit, scalarMult_congr h]

section Stealth

structure StealthOutput (E : Type) where
  oneTimeAddress : E
  ephemeralPubkey : E
  sharedSecret : ℤ

/-- `_hash_to_scalar`. -/
def hashToScalar (p : E) : ℤ :=
  Bytes.ofLe (sha256 E (encode "Qubitcoin_stealth_v1" ++ compress p)).reverse % order

def createOutput (recipientSpendPub recipientViewPub : E) (draw : ℕ) : StealthOutput E :=
  let r := scalar draw
  let sharedSecret := hashToScalar (scalarMult r recipientViewPub)
  { oneTimeAddress := recipientSpendPub + scalarMult sharedSecret G
    ephemeralPubkey := scalarMult r G
    sharedSecret := sharedSecret }

def computeKeyImage (spendingKey : ℤ) : E :=
  let hp := hashToScalar (scalarMult spendingKey G : E)
  scalarMult spendingKey (scalarMult hp G)

variable [DecidableEq E]

/-- The compressed form where the point at infinity has none. -/
def compressFinite (p : E) : Option Bytes := if p = 0 then none else some (compress p)

end Stealth

variable [DecidableEq E]

/-- `RangeProof.to_bytes`; the vectors are left out. -/
def RangeProof.toBytes (proof : RangeProof) : Option Bytes := do
  let tauX ← Privacy.toBytes 32 proof.tauX
  let mu ← Privacy.toBytes 32 proof.mu
  let tHat ← Privacy.toBytes 32 proof.tHat
  return proof.commitment ++ proof.A ++ proof.S ++ proof.T1 ++ proof.T2 ++ tauX ++ mu ++ tHat

structure ConfidentialInput (E : Type) where
  txid : String
  vout : ℤ
  value : ℤ
  blinding : ℤ
  spendingKey : ℤ
  keyImage : E
  commitment : Commitment E

structure ConfidentialOutput (E : Type) where
  value : ℤ
  blinding : ℤ
  commitment : Commitment E
  rangeProof : RangeProof
  stealthOutput : Option (StealthOutput E)

/-- An output as it is published, hex strings as their bytes. -/
structure PublishedOutput where
  commitment : Bytes
  rangeProof : Bytes
  ephemeralPubkey : Option Bytes
  oneTimeAddress : Option Bytes

/-- `ConfidentialOutput.to_dict`. -/
def ConfidentialOutput.toDict (out : ConfidentialOutput E) : Option PublishedOutput := do
  let rangeProof ← out.rangeProof.toBytes
  match out.stealthOutput with
  | none =>
    return {
      commitment := compress out.commitment.point
      rangeProof := rangeProof
      ephemeralPubkey := none
      oneTimeAddress := none }
  | some stealth =>
    let ephemeralPubkey ← compressFinite stealth.ephemeralPubkey
    let oneTimeAddress ← compressFinite stealth.oneTimeAddress
    return {
      commitment := compress out.commitment.point
      rangeProof := rangeProof
      ephemeralPubkey := some ephemeralPubkey
      oneTimeAddress := some oneTimeAddress }

structure PublishedInput where
  txid : String
  vout : ℤ
  keyImage : Bytes

structure ConfidentialTransaction where
  txid : Bytes
  inputs : List PublishedInput
  outputs : List PublishedOutput
  fee : ℤ
  keyImages : List Bytes
  excessCommitment : Bytes
  signature : Bytes
  timestamp : String

structure SusySwapBuilder (E : Type) where
  inputs : List (ConfidentialInput E)
  outputs : List (ConfidentialOutput E)
  fee : ℤ

/-- What `build` takes from outside: the draws of a new proof and two readings of the clock. -/
structure Surroundings where
  draws : Draws
  hashedTime : String
  timestamp : String

namespace SusySwapBuilder

def empty : SusySwapBuilder E where
  inputs := []
  outputs := []
  fee := 0

variable (b : SusySwapBuilder E)

/-- The three setters give `none` where they raise, and leave the builder as it was. -/
def addInput (txid : String) (vout value blinding spendingKey : ℤ) :
    Option (SusySwapBuilder E) := do
  let commitment ← Commitment.commit value blinding
  let inp : ConfidentialInput E :=
    { txid := txid
      vout := vout
      value := value
      blinding := blinding
      spendingKey := spendingKey
      keyImage := computeKeyImage spendingKey
      commitment := commitment }
  return { b with inputs := b.inputs ++ [inp] }

def addOutput (value : ℤ) (recipientSpendPub recipientViewPub : Option E) (blindingDraw : ℕ)
    (draws : Draws) (ephemeralDraw : ℕ) : Option (SusySwapBuilder E) := do
  let blinding := scalar blindingDraw
  let commitment ← Commitment.commit value blinding
  let rangeProof ← RangeProof.generate value blinding (some commitment) draws
  let out : ConfidentialOutput E :=
    { value := value
      blinding := blinding
      commitment := commitment
      rangeProof := rangeProof
      stealthOutput := do
        let spendPub ← recipientSpendPub
        let viewPub ← recipientViewPub
        return createOutput spendPub viewPub ephemeralDraw }
  return { b with outputs := b.outputs ++ [out] }

def setFee (feeAtoms : ℤ) : SusySwapBuilder E := { b with fee := feeAtoms }

section Build

variable (keccak256 : Bytes → Bytes)

/-- The outputs with the last one's blinding moved by the excess. -/
def rebalance (draws : Draws) : Option (List (ConfidentialOutput E)) :=
  let excess := computeExcessBlinding (b.inputs.map (·.blinding)) (b.outputs.map (·.blinding))
  if excess ≠ 0 then do
    let last ← b.outputs.getLast?
    let newBlinding := (last.blinding + excess) % order
    let newCommitment ← Commitment.commit last.value newBlinding
    let newRangeProof ← RangeProof.generate last.value newBlinding (some newCommitment) draws
    let out : ConfidentialOutput E :=
      { value := last.value
        blinding := newBlinding
        commitment := newCommitment
        rangeProof := newRangeProof
        stealthOutput := last.stealthOutput }
    return b.outputs.dropLast ++ [out]
  else some b.outputs

/-- HMAC over Keccak with blocks of 136 bytes, for a key that is no longer. -/
def hmac (key message : Bytes) : Bytes :=
  let key := key ++ List.replicate (136 - key.length) 0
  keccak256 (key.map (· ^^^ 0x5C) ++ keccak256 (key.map (· ^^^ 0x36) ++ message))

/-- The rest of `build`, once the commitments balance. -/
def assemble (env : Surroundings) : Option ConfidentialTransaction := do
  let excessCommitment : Commitment E ← Commitment.commit 0 0
  let keyImages := b.inputs.filterMap fun inp => compressFinite inp.keyImage
  let fee ← toBytes 8 b.fee
  let txid := sha256 E
    (b.inputs.flatMap (fun inp => encode (inp.txid ++ ":" ++ toString inp.vout)) ++
      b.outputs.flatMap (fun out => compress out.commitment.point) ++ fee ++ encode env.hashedTime)
  let outputs ← b.outputs.mapM ConfidentialOutput.toDict
  let aggregateKey := b.inputs.foldl (fun (key : ℤ) inp => (key + inp.spendingKey) % order) 0
  let hmacKey ← toBytes 32 aggregateKey
  let encodeHex (bytes : Bytes) : Bytes := encode (Node.toHex bytes)
  let sigPreimage := encodeHex txid ++ encodeHex (compress excessCommitment.point) ++
    keyImages.flatMap encodeHex
  return {
    txid := txid
    inputs := List.zipWith
      (fun inp ki => { txid := inp.txid, vout := inp.vout, keyImage := ki }) b.inputs keyImages
    outputs := outputs
    fee := b.fee
    keyImages := keyImages
    excessCommitment := compress excessCommitment.point
    signature := hmac keccak256 hmacKey sigPreimage
    timestamp := env.timestamp }

/-- The builder after `build` with the transaction, if it returns one; the new last output stays
where a later statement raises. -/
def build (env : Surroundings) : SusySwapBuilder E × Option ConfidentialTransaction :=
  if b.inputs = [] ∨ b.outputs = [] then (b, none)
  else if (b.inputs.map (·.value)).sum ≠ (b.outputs.map (·.value)).sum + b.fee then (b, none)
  else
    match b.rebalance env.draws with
    | none => (b, none)
    | some outputs =>
      let b := { b with outputs := outputs }
      match b.assemble keccak256 env with
      | none => (b, none)
      | some tx => (empty, some tx)

end Build

/-- A call of one of the builder's methods, with what it draws. -/
inductive Call (E : Type)
  | addInput (txid : String) (vout value blinding spendingKey : ℤ)
  | addOutput (value : ℤ) (recipientSpendPub recipientViewPub : Option E) (blindingDraw : ℕ)
      (draws : Draws) (ephemeralDraw : ℕ)
  | setFee (feeAtoms : ℤ)
  | build (env : Surroundings)

def step (keccak256 : Bytes → Bytes) (b : SusySwapBuilder E) : Call E → SusySwapBuilder E
  | .addInput txid vout value blinding spendingKey =>
    (b.addInput txid vout value blinding spendingKey).getD b
  | .addOutput value spendPub viewPub blindingDraw draws ephemeralDraw =>
    (b.addOutput value spendPub viewPub blindingDraw draws ephemeralDraw).getD b
  | .setFee feeAtoms => b.setFee feeAtoms
  | .build env => (b.build keccak256 env).1

end SusySwapBuilder

section Balance

/-- The point of an output opens to its value, and its range proof is one for that point. -/
structure ConfidentialOutput.Proven (out : ConfidentialOutput E) : Prop where
  point : out.commitment.point = commit out.value out.blinding
  proves : decompress out.rangeProof.commitment = some out.commitment.point
  verifies : RangeProof.verify E out.rangeProof = true

theorem ConfidentialOutput.proven {value blinding : ℤ} {c : Commitment E} {draws : Draws}
    {proof : RangeProof} {stealth : Option (StealthOutput E)}
    (hcommit : Commitment.commit value blinding = some c)
    (hproof : RangeProof.generate value blinding (some c) draws = some proof) :
    ConfidentialOutput.Proven ⟨value, blinding, c, proof, stealth⟩ := by
  obtain ⟨hlow, rfl⟩ := Commitment.commit_eq_some.mp hcommit
  have hhigh : value < 2 ^ rangeBits := by
    by_contra hge
    rw [RangeProof.generate, if_pos (.inr (not_lt.mp hge))] at hproof
    cases hproof
  obtain ⟨proof', hgenerate, hpoint, hverify⟩ := @RangeProof.verify_generate E _ _ value blinding
    hlow hhigh (some ⟨commit value blinding, value, blinding⟩) (by rintro _ ⟨⟩; rfl) draws
  cases hproof.symm.trans hgenerate
  exact ⟨rfl, by rw [hpoint]; exact VectorCurve.decompress_compress _, hverify⟩

namespace SusySwapBuilder

variable {b : SusySwapBuilder E}

structure Sound (b : SusySwapBuilder E) : Prop where
  inputs : ∀ inp ∈ b.inputs, inp.commitment.point = commit inp.value inp.blinding
  outputs : ∀ out ∈ b.outputs, out.Proven

theorem sound_empty : (empty : SusySwapBuilder E).Sound := ⟨nofun, nofun⟩

/-- The outputs keep their values, and their blindings now add up to those of the inputs. -/
theorem rebalance_spec (hb : b.Sound) {draws : Draws} {outputs : List (ConfidentialOutput E)}
    (h : b.rebalance draws = some outputs) :
    (∀ out ∈ outputs, out.Proven) ∧
      (outputs.map (·.value)).sum = (b.outputs.map (·.value)).sum ∧
      (((outputs.map (·.blinding)).sum : ℤ) : ZMod order) = (b.inputs.map (·.blinding)).sum := by
  simp only [rebalance] at h
  split at h
  next hexcess =>
    simp only [Option.bind_eq_bind, Option.pure_def, Option.bind_eq_some_iff,
      Option.some.injEq] at h
    obtain ⟨last, hlast, c, hc, proof, hproof, rfl⟩ := h
    have hsplit := List.dropLast_append_getLast? last hlast
    have hproven := hb.outputs
    rw [← hsplit, List.forall_mem_append] at hproven
    have hsum {field : ConfidentialOutput E → ℤ} :
        (b.outputs.map field).sum = (b.outputs.dropLast.map field).sum + field last := by
      conv_lhs => rw [← hsplit, List.map_append, List.sum_append, List.map_singleton,
        List.sum_singleton]
    refine ⟨?_, ?_, ?_⟩
    · rw [List.forall_mem_append, List.forall_mem_singleton]
      exact ⟨hproven.1, ConfidentialOutput.proven hc hproof⟩
    · rw [hsum, List.map_append, List.sum_append, List.map_singleton, List.sum_singleton]
    · rw [List.map_append, List.sum_append, List.map_singleton, List.sum_singleton,
        computeExcessBlinding, hsum]
      push_cast [ZMod.intCast_mod]
      ring
  next hexcess =>
    cases h
    refine ⟨hb.outputs, rfl, ?_⟩
    rw [not_not, computeExcessBlinding] at hexcess
    have hcast := congrArg (Int.cast : ℤ → ZMod order) hexcess
    rw [ZMod.intCast_mod, Int.cast_sub, Int.cast_zero, sub_eq_zero] at hcast
    exact hcast.symm

theorem sound_step (keccak256 : Bytes → Bytes) (hb : b.Sound) (call : Call E) :
    (b.step keccak256 call).Sound := by
  cases call with
  | addInput txid vout value blinding spendingKey =>
    simp only [step, addInput]
    cases hcommit : (Commitment.commit value blinding : Option (Commitment E)) with
    | none => exact hb
    | some c =>
      obtain ⟨-, rfl⟩ := Commitment.commit_eq_some.mp hcommit
      refine ⟨?_, hb.outputs⟩
      exact List.forall_mem_append.mpr ⟨hb.inputs, List.forall_mem_singleton.mpr rfl⟩
  | addOutput value spendPub viewPub blindingDraw draws ephemeralDraw =>
    simp only [step, addOutput]
    cases hcommit : (Commitment.commit value (scalar blindingDraw) : Option (Commitment E)) with
    | none => exact hb
    | some c =>
      cases hproof : RangeProof.generate value (scalar blindingDraw) (some c) draws with
      | none => simpa [hproof] using hb
      | some proof =>
        simp only [Option.bind_eq_bind, Option.bind_some, hproof]
        refine ⟨hb.inputs, List.forall_mem_append.mpr ⟨hb.outputs, ?_⟩⟩
        exact List.forall_mem_singleton.mpr (ConfidentialOutput.proven hcommit hproof)
  | setFee feeAtoms => exact ⟨hb.inputs, hb.outputs⟩
  | build env =>
    simp only [step, build]
    split
    next => exact hb
    split
    next => exact hb
    next =>
      cases hrebalance : b.rebalance env.draws with
      | none => exact hb
      | some outputs =>
        dsimp only
        split
        next => exact ⟨hb.inputs, (rebalance_spec hb hrebalance).1⟩
        next => exact sound_empty

/-- The inputs add up to the outputs and the fee. -/
theorem balances {outputs : List (ConfidentialOutput E)} (hb : b.Sound)
    (hproven : ∀ out ∈ outputs, out.Proven)
    (hvalue : (b.inputs.map (·.value)).sum = (outputs.map (·.value)).sum + b.fee)
    (hblinding : (((outputs.map (·.blinding)).sum : ℤ) : ZMod order) =
      (b.inputs.map (·.blinding)).sum) :
    (b.inputs.map (·.commitment.point)).sum =
      (outputs.map (·.commitment.point)).sum + b.fee • (G : E) := by
  rw [sum_commit hb.inputs, sum_commit fun out hout => (hproven out hout).point, hvalue,
    commit_congr hblinding]
  simp only [commit, scalarMult_eq]
  module

/-- A transaction that is built has the outputs of `rebalance`, which balance its inputs. -/
theorem build_eq_some {keccak256 : Bytes → Bytes} {env : Surroundings} {b' : SusySwapBuilder E}
    {tx : ConfidentialTransaction} (h : b.build keccak256 env = (b', some tx)) :
    (b.inputs.map (·.value)).sum = (b.outputs.map (·.value)).sum + b.fee ∧
      ∃ outputs, b.rebalance env.draws = some outputs ∧
        ({ b with outputs := outputs } : SusySwapBuilder E).assemble keccak256 env = some tx := by
  simp only [build] at h
  split at h
  next => cases h
  split at h
  next => cases h
  next hvalue =>
    cases hrebalance : b.rebalance env.draws with
    | none =>
      rw [hrebalance] at h
      cases h
    | some outputs =>
      rw [hrebalance] at h
      dsimp only at h
      split at h
      next => cases h
      next hassemble =>
        cases h
        exact ⟨not_not.mp hvalue, outputs, rfl, hassemble⟩

theorem assemble_eq_some {keccak256 : Bytes → Bytes} {env : Surroundings}
    {tx : ConfidentialTransaction} (h : b.assemble keccak256 env = some tx) :
    b.outputs.mapM ConfidentialOutput.toDict = some tx.outputs ∧ tx.fee = b.fee := by
  simp only [assemble, Option.bind_eq_bind, Option.pure_def, Option.bind_eq_some_iff,
    Option.some.injEq] at h
  obtain ⟨_, -, _, -, outputs, houtputs, _, -, rfl⟩ := h
  exact ⟨houtputs, rfl⟩

/-- The inputs add up to the outputs that are published and the fee, and every one of these outputs
has an accepted proof for its commitment. -/
structure Balanced (inputs : List (ConfidentialInput E)) (outputs : List (ConfidentialOutput E))
    (tx : ConfidentialTransaction) : Prop where
  published : outputs.mapM ConfidentialOutput.toDict = some tx.outputs
  sum : (inputs.map (·.commitment.point)).sum =
    (outputs.map (·.commitment.point)).sum + tx.fee • G
  proves : ∀ out ∈ outputs, decompress out.rangeProof.commitment = some out.commitment.point
  verifies : ∀ out ∈ outputs, RangeProof.verify E out.rangeProof = true

/-- Proofs for values in the range are accepted, and what the builder builds from the inputs and the
final outputs is balanced. -/
theorem honest_transactions (keccak256 : Bytes → Bytes) :
    (∀ (value blinding : ℤ) (draws : Draws), 0 ≤ value → value < 2 ^ 64 →
      ∃ proof,
        RangeProof.generate value blinding (none : Option (Commitment E)) draws = some proof ∧
        RangeProof.verify E proof = true) ∧
    ∀ (calls : List (Call E)) (env : Surroundings) (b b' : SusySwapBuilder E)
      (tx : ConfidentialTransaction), b = Machine.run (step keccak256) empty calls →
      b.build keccak256 env = (b', some tx) →
      ∃ outputs, b.rebalance env.draws = some outputs ∧ Balanced b.inputs outputs tx := by
  constructor
  · intro value blinding draws hlow hhigh
    obtain ⟨proof, hgenerate, -, hverify⟩ :=
      @RangeProof.verify_generate E _ _ value blinding hlow hhigh none nofun draws
    exact ⟨proof, hgenerate, hverify⟩
  · rintro calls env b b' tx rfl hbuild
    have hsound := Machine.run_induction (P := fun b : SusySwapBuilder E => b.Sound)
      (fun _ call h => sound_step keccak256 h call) sound_empty calls
    obtain ⟨hvalue, outputs, hrebalance, hassemble⟩ := build_eq_some hbuild
    obtain ⟨hdicts, hfee⟩ := assemble_eq_some hassemble
    obtain ⟨hproven, hvalues, hblindings⟩ := rebalance_spec hsound hrebalance
    rw [← hvalues] at hvalue
    refine ⟨outputs, hrebalance, hdicts, ?_, fun out hout => (hproven out hout).proves,
      fun out hout => (hproven out hout).verifies⟩
    rw [hfee]
    exact balances hsound hproven hvalue hblindings

end SusySwapBuilder

end Balance

section Sample

def sampleDraws : Draws where
  sL i := i
  sR i := 2 * i
  alpha := 3
  rho := 4
  tau1 := 5
  tau2 := 6

def sampleSurroundings : Surroundings where
  draws := sampleDraws
  hashedTime := "0"
  timestamp := "0"

/-- An input of 5 with an output of 3 and a fee of 2. -/
def sampleCalls (E : Type) : List (SusySwapBuilder.Call E) :=
  [.addInput "a" 0 5 7 1, .addOutput 3 none none 1 sampleDraws 0, .setFee 2]

theorem honest_transactions_sample :
    let _ := vectorLogarithms fun _ => List.replicate 31 0 ++ [1]
    let b := Machine.run (SusySwapBuilder.step id) .empty (sampleCalls (ZMod order))
    (∃ proof, RangeProof.generate 3 7 (none : Option (Commitment (ZMod order))) sampleDraws =
      some proof ∧ RangeProof.verify (ZMod order) proof = true) ∧
    ∃ tx outputs, b.rebalance sampleDraws = some outputs ∧
      SusySwapBuilder.Balanced b.inputs outputs tx := by
  intro curve b
  have hbuilt : (b.build id sampleSurroundings).2.isSome = true := by decide +kernel
  obtain ⟨hgenerate, hbalance⟩ := SusySwapBuilder.honest_transactions (E := ZMod order) id
  have hsome := fun b' tx => hbalance (sampleCalls (ZMod order)) sampleSurroundings b b' tx rfl
  generalize b.build id sampleSurroundings = built at hbuilt hsome
  obtain ⟨b', _ | tx⟩ := built
  · cases hbuilt
  obtain ⟨outputs, hbalanced⟩ := hsome b' tx rfl
  exact ⟨hgenerate 3 7 sampleDraws (by norm_num) (by norm_num), tx, outputs, hbalanced⟩

end Sample

end Qubitcoin.Privacy
