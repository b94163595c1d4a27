import Qubitcoin.Library.Bytes
import Qubitcoin.Node.Transaction

/-! Thought proofs and their hash, from `proof_of_thought.rs`. -/

namespace Qubitcoin.Aether

/-- The bits of an `f64`. -/
abbrev F64 := BitVec 64

namespace F64

def magnitude (x : F64) : ℕ := x.toNat % 2 ^ 63

def isNan (x : F64) : Bool := 0x7FF0000000000000 < magnitude x

def signed (x : F64) : ℤ := if x.msb then -magnitude x else magnitude x

/-- `<` on floats; zero has two signs, and a NaN is below nothing. -/
def lt (x y : F64) : Bool := !isNan x && !isNan y && signed x < signed y

def toLeBytes (x : F64) : Bytes := Bytes.le 8 x.toNat

theorem toLeBytes_inj {x y : F64} (h : toLeBytes x = toLeBytes y) : x = y := by
  have hofLe := congrArg Bytes.ofLe h
  rw [toLeBytes, toLeBytes, Bytes.ofLe_le, Bytes.ofLe_le] at hofLe
  have hword : 256 ^ 8 = 2 ^ 64 := by decide
  rwa [hword, Nat.mod_eq_of_lt x.isLt, Nat.mod_eq_of_lt y.isLt, BitVec.toNat_inj] at hofLe

end F64

section Strings

/-- `as_bytes`. -/
def asBytes (s : String) : Bytes := s.toByteArray.data.toList

theorem asBytes_inj {s t : String} (h : asBytes s = asBytes t) : s = t := by
  rw [← String.toByteArray_inj]
  exact ByteArray.ext (Array.toList_inj.mp h)

/-- The characters of the first `n` bytes, where `n` does not fall inside a character. -/
def takeBytes : ℕ → List Char → Option (List Char)
  | 0, _ => some []
  | _ + 1, [] => none
  | n + 1, c :: cs =>
    if c.utf8Size ≤ n + 1 then (takeBytes (n + 1 - c.utf8Size) cs).map (c :: ·) else none

/-- `&s[..16.min(s.len())]`, which panics inside a character. -/
def firstSixteen (s : String) : Option String :=
  (takeBytes (min 16 s.utf8ByteSize) s.toList).map String.ofList

end Strings

structure ReasoningStep where
  strategy : String
  premise : String
  conclusion : String
  confidence : F64
  evidenceIds : List Int64
  deriving DecidableEq

structure ThoughtProof where
  thoughtHash : String
  reasoningSteps : List ReasoningStep
  phiValue : F64
  knowledgeRoot : String
  validatorAddress : String
  signature : String
  timestamp : F64
  blockHeight : UInt64
  gatesPassed : UInt32
  gateCeiling : F64
  deriving DecidableEq

def ReasoningStep.preimage (step : ReasoningStep) : Bytes :=
  asBytes step.strategy ++ asBytes step.premise ++ asBytes step.conclusion ++
    step.confidence.toLeBytes

namespace ThoughtProof

/-- What `calculate_hash` feeds to SHA-256. -/
def preimage (p : ThoughtProof) : Bytes :=
  p.reasoningSteps.flatMap ReasoningStep.preimage ++ p.phiValue.toLeBytes ++
    asBytes p.knowledgeRoot ++ asBytes p.validatorAddress ++ p.timestamp.toLeBytes

def calculateHash (sha256 : Bytes → Vector UInt8 32) (p : ThoughtProof) : String :=
  Node.toHex (sha256 p.preimage).toList

/-- `ThoughtProof::new`, at a reading of the clock. -/
def new (sha256 : Bytes → Vector UInt8 32) (timestamp : F64) (reasoningSteps : List ReasoningStep)
    (phiValue : F64) (knowledgeRoot validatorAddress : String) (blockHeight : UInt64)
    (gatesPassed : UInt32) (gateCeiling : F64) : ThoughtProof :=
  let proof : ThoughtProof :=
    { thoughtHash := ""
      reasoningSteps := reasoningSteps
      phiValue := phiValue
      knowledgeRoot := knowledgeRoot
      validatorAddress := validatorAddress
      signature := ""
      timestamp := timestamp
      blockHeight := blockHeight
      gatesPassed := gatesPassed
      gateCeiling := gateCeiling }
  { proof with thoughtHash := proof.calculateHash sha256 }

end ThoughtProof

structure ThoughtProofValidation where
  valid : Bool
  reason : String

/-- How floats are printed, by `{}` and by `{:.4}`. -/
structure Printing where
  display : F64 → String
  fixed : F64 → String

/-- The settings that `validate_thought_proof` reads. -/
structure AetherEngine where
  phiThreshold : F64
  mandatoryPotHeight : UInt64
  mandatoryPhiHeight : UInt64

section Validate

variable (sha256 : Bytes → Vector UInt8 32) (printing : Printing) (engine : AetherEngine)

def rejected (reason : String) : ThoughtProofValidation := { valid := false, reason := reason }

/-- The checks after that of the hash. -/
def validateContent (proof : ThoughtProof) (blockHeight : UInt64) : ThoughtProofValidation :=
  if proof.phiValue.lt 0 then rejected ("Invalid Phi value: " ++ printing.display proof.phiValue)
  else if engine.mandatoryPhiHeight ≤ blockHeight ∧ proof.phiValue.lt engine.phiThreshold then
    rejected ("Phi value " ++ printing.fixed proof.phiValue ++ " below threshold " ++
      printing.display engine.phiThreshold ++ " (enforced after block " ++
      toString engine.mandatoryPhiHeight ++ ")")
  else if proof.knowledgeRoot.isEmpty then rejected "Empty knowledge root"
  else if engine.mandatoryPotHeight < blockHeight ∧ proof.reasoningSteps.isEmpty then
    rejected "No reasoning steps in thought proof"
  else { valid := true, reason := "Valid thought proof" }

/-- `validate_thought_proof`; `none` is a panic. -/
def validateThoughtProof (proof : Option ThoughtProof) (blockHeight : UInt64) :
    Option ThoughtProofValidation :=
  match proof with
  | none =>
    if engine.mandatoryPotHeight ≤ blockHeight then
      some (rejected ("Null thought proof rejected: PoT mandatory after block " ++
        toString engine.mandatoryPotHeight ++ " (current=" ++ toString blockHeight ++ ")"))
    else
      some { valid := true, reason := "No thought proof (PoT optional during transition)" }
  | some proof =>
    let expectedHash := proof.calculateHash sha256
    if ¬proof.thoughtHash.isEmpty ∧ proof.thoughtHash ≠ expectedHash then do
      let given ← firstSixteen proof.thoughtHash
      let expected ← firstSixteen expectedHash
      return rejected ("Thought hash mismatch: " ++ given ++ " != " ++ expected)
    else some (validateContent printing engine proof blockHeight)

end Validate

section Content

/-- Everything but the hash itself and the signature. -/
structure Content where
  reasoningSteps : List ReasoningStep
  phiValue : F64
  knowledgeRoot : String
  validatorAddress : String
  timestamp : F64
  blockHeight : UInt64
  gatesPassed : UInt32
  gateCeiling : F64
  deriving DecidableEq

/-- The number of bytes of each string that another one follows. -/
structure Layout where
  steps : List (ℕ × ℕ × ℕ)
  knowledgeRoot : ℕ
  deriving DecidableEq

/-- The fields that are not hashed. -/
structure Uncovered where
  evidenceIds : List (List Int64)
  blockHeight : UInt64
  gatesPassed : UInt32
  gateCeiling : F64
  deriving DecidableEq

namespace ThoughtProof

def content (p : ThoughtProof) : Content where
  reasoningSteps := p.reasoningSteps
  phiValue := p.phiValue
  knowledgeRoot := p.knowledgeRoot
  validatorAddress := p.validatorAddress
  timestamp := p.timestamp
  blockHeight := p.blockHeight
  gatesPassed := p.gatesPassed
  gateCeiling := p.gateCeiling

def layout (p : ThoughtProof) : Layout where
  steps := p.reasoningSteps.map fun step =>
    ((asBytes step.strategy).length, (asBytes step.premise).length, (asBytes step.conclusion).length)
  knowledgeRoot := (asBytes p.knowledgeRoot).length

def uncovered (p : ThoughtProof) : Uncovered where
  evidenceIds := p.reasoningSteps.map (·.evidenceIds)
  blockHeight := p.blockHeight
  gatesPassed := p.gatesPassed
  gateCeiling := p.gateCeiling

end ThoughtProof

variable {p q : ThoughtProof}

/-- A word is read off the front of others once its length is known. -/
theorem asBytes_append_inj {s t : String} {as bs : Bytes}
    (hlength : (asBytes s).length = (asBytes t).length) (h : asBytes s ++ as = asBytes t ++ bs) :
    s = t ∧ as = bs :=
  (List.append_inj h hlength).imp_left asBytes_inj

theorem toLeBytes_append_inj {x y : F64} {as bs : Bytes}
    (h : x.toLeBytes ++ as = y.toLeBytes ++ bs) : x = y ∧ as = bs :=
  (List.append_inj h ((Bytes.length_le 8 _).trans (Bytes.length_le 8 _).symm)).imp_left
    F64.toLeBytes_inj

/-- Steps laid out alike, with the same evidence, are read off one by one. -/
theorem steps_inj {steps steps' : List ReasoningStep} {as bs : Bytes}
    (hlayout : steps.map (fun step => ((asBytes step.strategy).length,
        (asBytes step.premise).length, (asBytes step.conclusion).length)) =
      steps'.map fun step => ((asBytes step.strategy).length, (asBytes step.premise).length,
        (asBytes step.conclusion).length))
    (hevidence : steps.map (·.evidenceIds) = steps'.map (·.evidenceIds))
    (h : steps.flatMap ReasoningStep.preimage ++ as =
      steps'.flatMap ReasoningStep.preimage ++ bs) : steps = steps' ∧ as = bs := by
  induction steps generalizing steps' with
  | nil =>
    cases List.map_eq_nil_iff.mp hlayout.symm
    exact ⟨rfl, h⟩
  | cons step steps ih =>
    cases steps' with
    | nil => cases hlayout
    | cons step' steps' =>
      simp only [List.map_cons, List.cons.injEq, Prod.mk.injEq] at hlayout hevidence
      obtain ⟨⟨hstrategy, hpremise, hconclusion⟩, hlayout⟩ := hlayout
      simp only [List.flatMap_cons, ReasoningStep.preimage, List.append_assoc] at h
      obtain ⟨hstrategy, h⟩ := asBytes_append_inj hstrategy h
      obtain ⟨hpremise, h⟩ := asBytes_append_inj hpremise h
      obtain ⟨hconclusion, h⟩ := asBytes_append_inj hconclusion h
      obtain ⟨hconfidence, h⟩ := toLeBytes_append_inj h
      obtain ⟨rfl, hrest⟩ := ih hlayout hevidence.2 h
      refine ⟨congrArg₂ List.cons ?_ rfl, hrest⟩
      cases step
      cases step'
      exact ReasoningStep.mk.injEq .. ▸ ⟨hstrategy, hpremise, hconclusion, hconfidence, hevidence.1⟩

/-- Of proofs with the same preimage, those laid out alike that agree in what is not hashed have the
same content. -/
theorem content_eq_iff (h : p.preimage = q.preimage) :
    p.content = q.content ↔ p.layout = q.layout ∧ p.uncovered = q.uncovered := by
  constructor
  · intro hcontent
    obtain ⟨hsteps, -, hroot, -, -, hheight, hgates, hceiling⟩ :=
      Content.mk.injEq .. ▸ hcontent
    simp only [ThoughtProof.layout, ThoughtProof.uncovered, hsteps, hroot, hheight, hgates, hceiling,
      and_self]
  · rintro ⟨hlayout, huncovered⟩
    obtain ⟨hsteps, hroot⟩ := Layout.mk.injEq .. ▸ hlayout
    obtain ⟨hevidence, hheight, hgates, hceiling⟩ := Uncovered.mk.injEq .. ▸ huncovered
    simp only [ThoughtProof.preimage, List.append_assoc] at h
    obtain ⟨hsteps, h⟩ := steps_inj hsteps hevidence h
    obtain ⟨hphi, h⟩ := toLeBytes_append_inj h
    obtain ⟨hroot, h⟩ := asBytes_append_inj hroot h
    -- the address is what is left before the eight bytes of the timestamp
    obtain ⟨haddress, htimestamp⟩ := List.append_inj' h
      ((Bytes.length_le 8 _).trans (Bytes.length_le 8 _).symm)
    simp only [ThoughtProof.content, hsteps, hphi, hroot, asBytes_inj haddress,
      F64.toLeBytes_inj htimestamp, hheight, hgates, hceiling]

end Content

section Acceptance

variable {sha256 : Bytes → Vector UInt8 32} {printing : Printing} {engine : AetherEngine}
  {proof : ThoughtProof} {blockHeight : UInt64}

/-- `validate_thought_proof` finds the proof valid. -/
def Accepts (sha256 : Bytes → Vector UInt8 32) (printing : Printing) (engine : AetherEngine)
    (proof : ThoughtProof) (blockHeight : UInt64) : Prop :=
  (validateThoughtProof sha256 printing engine (some proof) blockHeight).map (·.valid) = some true

instance : Decidable (Accepts sha256 printing engine proof blockHeight) :=
  inferInstanceAs (Decidable (_ = _))

theorem calculateHash_ne_empty (proof : ThoughtProof) : proof.calculateHash sha256 ≠ "" := by
  intro h
  have hlength := congrArg String.length h
  rw [ThoughtProof.calculateHash, Node.toHex, String.length_ofList, List.length_flatMap] at hlength
  simp at hlength

/-- What `new` makes carries its hash, of which the hash itself is no part. -/
theorem thoughtHash_new {timestamp : F64} {steps : List ReasoningStep} {phi : F64}
    {root address : String} {height : UInt64} {gates : UInt32} {ceiling : F64} :
    let proof := ThoughtProof.new sha256 timestamp steps phi root address height gates ceiling
    proof.thoughtHash = proof.calculateHash sha256 := rfl

/-- A hash that is given is the hash. -/
theorem thoughtHash_eq_iff (h : Accepts sha256 printing engine proof blockHeight) :
    proof.thoughtHash = proof.calculateHash sha256 ↔ proof.thoughtHash ≠ "" := by
  constructor
  · intro heq
    rw [heq]
    exact calculateHash_ne_empty proof
  · intro hne
    by_contra hhash
    have hcheck : ¬proof.thoughtHash.isEmpty ∧ proof.thoughtHash ≠ proof.calculateHash sha256 :=
      ⟨fun hempty => hne (String.isEmpty_iff.mp hempty), hhash⟩
    rw [Accepts, validateThoughtProof, if_pos hcheck] at h
    cases hgiven : firstSixteen proof.thoughtHash with
    | none => simp [hgiven] at h
    | some given =>
      cases hexpected : firstSixteen (proof.calculateHash sha256) with
      | none => simp [hgiven, hexpected] at h
      | some expected => simp [hgiven, hexpected, rejected] at h

/-- Proofs with the same preimage have the same content exactly if their strings are laid out alike
and they agree in the fields that are not hashed, and the hash of an accepted proof is the right one
exactly if it is not left empty. -/
theorem thought_hash_binds_iff (sha256 : Bytes → Vector UInt8 32) (printing : Printing) :
    (∀ p q : ThoughtProof, p.preimage = q.preimage →
      (p.content = q.content ↔ p.layout = q.layout ∧ p.uncovered = q.uncovered)) ∧
    ∀ (engine : AetherEngine) (proof : ThoughtProof) (blockHeight : UInt64),
      Accepts sha256 printing engine proof blockHeight →
      (proof.thoughtHash = proof.calculateHash sha256 ↔ proof.thoughtHash ≠ "") :=
  ⟨fun _ _ => content_eq_iff, fun _ _ _ => thoughtHash_eq_iff⟩

/-- One step, `strategy` by `premise`, at the confidence 1, for the address `v`. -/
def sample (strategy premise : String) (evidenceIds : List Int64) (blockHeight : UInt64) :
    ThoughtProof where
  thoughtHash := ""
  reasoningSteps := [⟨strategy, premise, "c", 0x3FF0000000000000, evidenceIds⟩]
  phiValue := 0x4010000000000000
  knowledgeRoot := "root"
  validatorAddress := "v"
  signature := ""
  timestamp := 0
  blockHeight := blockHeight
  gatesPassed := 1
  gateCeiling := 0x4010000000000000

/-- `PHI_THRESHOLD`, `MANDATORY_POT_HEIGHT` and `MANDATORY_PHI_ENFORCEMENT_HEIGHT`. -/
def AetherEngine.default : AetherEngine where
  phiThreshold := 0x4008000000000000
  mandatoryPotHeight := 1000
  mandatoryPhiHeight := 5000

def zeros : Bytes → Vector UInt8 32 := fun _ => .replicate 32 0

def blank : Printing where
  display _ := ""
  fixed _ := ""

theorem thought_hash_binds_iff_sample :
    let p := sample "ab" "p" [1] 6000
    let q := { p with signature := "s" }
    (p.content = q.content ↔ p.layout = q.layout ∧ p.uncovered = q.uncovered) ∧
      (p.thoughtHash = p.calculateHash zeros ↔ p.thoughtHash ≠ "") :=
  ⟨(thought_hash_binds_iff zeros blank).1 _ _ rfl,
    (thought_hash_binds_iff zeros blank).2 .default _ 6000 (by decide)⟩

/-- A byte is moved from the strategy to the premise, the evidence and the height are others, and a
proof without a hash is accepted. -/
theorem thought_hash_not_binding :
    let p := sample "ab" "p" [1] 6000
    let moved := sample "a" "bp" [1] 6000
    let other := sample "ab" "p" [2] 7000
    (p.preimage = moved.preimage ∧ p.content ≠ moved.content) ∧
      (p.preimage = other.preimage ∧ p.content ≠ other.content) ∧
      Accepts zeros blank .default p 6000 ∧ p.thoughtHash ≠ p.calculateHash zeros :=
  ⟨⟨rfl, by decide⟩, ⟨rfl, by decide⟩, by decide, (calculateHash_ne_empty _).symm⟩

end Acceptance

end Qubitcoin.Aether
