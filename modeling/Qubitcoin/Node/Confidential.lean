import Qubitcoin.Library.Machine
import Qubitcoin.Node.BlockConservation

/-! Confidential transactions over a whole chain: their commitments, their range proofs, and the
key images that are to be spent once. -/

namespace Qubitcoin.Node

open Privacy (Curve RangeProof scalarMult)

def Transaction.images (tx : Transaction) : List String := tx.inputs.filterMap TxInput.image

/-- What the block validator sends to `_validate_private_transaction`. -/
def Transaction.isConfidential (tx : Transaction) : Bool :=
  tx.isPrivate && !tx.isCoinbase && !tx.isContract

def Block.confidential (block : Block) : List Transaction :=
  block.transactions.filter Transaction.isConfidential

def Block.images (block : Block) : List String := block.confidential.flatMap Transaction.images

def CommitmentData.bytes : CommitmentData → Option Bytes
  | .hex text => fromHex text
  | .raw bytes => some bytes

/-- The output of an earlier block that an input names. -/
def spentOutput (chain : List Block) (inp : TxInput) : Option TxOutput := do
  let txid ← inp.txid
  let vout ← inp.vout
  let tx ← (chain.flatMap Block.transactions).find? fun tx => tx.txid = txid
  if 0 ≤ vout then tx.outputs[vout.toNat]? else none

/-- The atoms of an amount, of which a coin has `10 ^ 8`. -/
def IsAtoms (amount : Decimal) (atoms : ℤ) : Prop := amount = .finite (atoms / 10 ^ 8)

section

variable (E : Type) [Curve E]

def TxOutput.point (out : TxOutput) : Option E := do
  Curve.decompress (← (← out.commitment).bytes)

/-- The commitments of the inputs are those of the outputs and of the fee. -/
def Balanced (chain : List Block) (tx : Transaction) : Prop :=
  ∃ (spent created : List E) (fee : ℤ),
    tx.inputs.map (fun inp => (spentOutput chain inp).bind (TxOutput.point E)) = spent.map some ∧
      tx.outputs.map (TxOutput.point E) = created.map some ∧
        IsAtoms tx.fee fee ∧ spent.sum = created.sum + scalarMult fee Curve.G

/-- The output has a range proof for its own commitment. -/
def TxOutput.Linked (out : TxOutput) (proof : RangeProof) : Prop :=
  out.rangeProof = some (.dict proof) ∧ ∃ c ∈ out.commitment, c.bytes = some proof.commitment

variable [DecidableEq E]

structure Transaction.Sound (chain : List Block) (tx : Transaction) : Prop where
  proven : ∀ out ∈ tx.outputs, ∃ proof, out.Linked proof ∧ proof.verify E = true
  balanced : Balanced E chain tx

/-- What the validators leave to the sender. -/
structure Transaction.Linked (chain : List Block) (tx : Transaction) : Prop where
  linked : ∀ out ∈ tx.outputs, ∃ proof, out.Linked proof
  balanced : Balanced E chain tx

/-- The blocks accepted and stored, oldest first, and the table of key images where it exists. -/
structure Chain where
  blocks : List Block
  keyImages : Option (Finset String)

/-- `storeBlock` writes no key image; what is in the table was put there by others. -/
inductive ChainEvent
  | block (block : Block) (fails : String → Bool)
  | table (keyImages : Option (Finset String))

namespace Chain

def initial : Chain where
  blocks := []
  keyImages := some ∅

def images (s : Chain) : List String := s.blocks.flatMap Block.images

/-- A query of the table, which may fail. -/
def keyImage (s : Chain) (fails : String → Bool) (image : String) : Except DbError Bool :=
  if fails image then .error .other
  else
    match s.keyImages with
    | none => .error .missingTable
    | some table => .ok (decide (image ∈ table))

/-- The other queries are not asked about confidential transactions. -/
def view (s : Chain) (fails : String → Bool) : ChainView where
  getUtxo _ _ := .error .other
  storedInputs _ := .error .other
  keyImage := s.keyImage fails
  currentHeight := .error .other

def storeBlock (s : Chain) (block : Block) : Chain := { s with blocks := s.blocks ++ [block] }

variable (crypto : Crypto)

/-- What the two validators require of the confidential transactions of a block. -/
def Accepts (db : ChainView) (block : Block) : Prop :=
  (∀ tx ∈ block.confidential, checkPrivateTransaction E crypto db tx = .ok ()) ∧
    validateBlockSusySwaps E block = .ok ()

instance (db : ChainView) (block : Block) : Decidable (Accepts E crypto db block) :=
  inferInstanceAs (Decidable (_ ∧ _))

def step (s : Chain) : ChainEvent → Chain
  | .block block fails =>
    if Accepts E crypto (s.view fails) block then s.storeBlock block else s
  | .table keyImages => { s with keyImages }

def run (events : List ChainEvent) : Chain := Machine.run (step E crypto) initial events

/-- Each confidential transaction is sound over the blocks before its own, and no key image is
spent twice. -/
structure Confidential (s : Chain) : Prop where
  sound : ∀ before block, before ++ [block] <+: s.blocks →
    ∀ tx ∈ block.confidential, tx.Sound E before
  once : s.images.Nodup

/-- The confidential transactions of an arriving block are linked, and the table answers that the
key images of the stored blocks are spent. -/
def Linked (s : Chain) : ChainEvent → Prop
  | .block block fails =>
    (∀ tx ∈ block.confidential, tx.Linked E s.blocks) ∧
      ∀ image ∈ s.images, (s.view fails).isKeyImageSpent image = true
  | .table _ => True

end Chain

section Validators

variable {E} {crypto : Crypto} {db : ChainView} {tx : Transaction} {block : Block}

theorem checkKeyImage_ok {images images' : List String} {inp : TxInput}
    (h : checkKeyImage db images inp = .ok images') :
    ∃ image, inp.image = some image ∧ db.isKeyImageSpent image = false := by
  unfold checkKeyImage at h
  obtain ⟨image, himage, h⟩ := Checked.okOr_bind_eq_ok.mp h
  obtain ⟨-, h⟩ := Checked.ensure_bind_eq_ok.mp h
  obtain ⟨hspent, -⟩ := Checked.ensure_bind_eq_ok.mp h
  exact ⟨image, himage, hspent⟩

theorem checkKeyImages_ok {images images' : List String} {inputs : List TxInput}
    (h : inputs.foldlM (checkKeyImage db) images = .ok images') :
    ∀ image ∈ inputs.filterMap TxInput.image, db.isKeyImageSpent image = false := by
  induction inputs generalizing images with
  | nil => simp
  | cons inp inputs ih =>
    rw [List.foldlM_cons] at h
    obtain ⟨images₁, hstep, h⟩ := Checked.bind_eq_ok.mp h
    obtain ⟨image, himage, hspent⟩ := checkKeyImage_ok hstep
    rw [List.filterMap_cons_some himage]
    exact List.forall_mem_cons.mpr ⟨hspent, ih h⟩

theorem forM_ok {α : Type} {f : α → Except Rejection PUnit} {l : List α}
    (h : l.forM f = .ok ⟨⟩) : ∀ a ∈ l, f a = .ok ⟨⟩ := by
  induction l with
  | nil => simp
  | cons a l ih =>
    obtain ⟨⟨⟩, hhead, htail⟩ := Checked.bind_eq_ok.mp h
    exact List.forall_mem_cons.mpr ⟨hhead, ih htail⟩

/-- The key images of an accepted transaction are unspent, and the proofs that it has verify. -/
theorem checkPrivateTransaction_ok (h : checkPrivateTransaction E crypto db tx = .ok ()) :
    (∀ image ∈ tx.images, db.isKeyImageSpent image = false) ∧
      ∀ out ∈ tx.outputs, ∀ proof, out.rangeProof = some (.dict proof) →
        proof.verify E = true := by
  unfold checkPrivateTransaction at h
  obtain ⟨-, h⟩ := Checked.ensure_bind_eq_ok.mp h
  obtain ⟨valid, -, h⟩ := Checked.okOr_bind_eq_ok.mp h
  obtain ⟨-, h⟩ := Checked.ensure_bind_eq_ok.mp h
  obtain ⟨images, himages, h⟩ := Checked.bind_eq_ok.mp h
  obtain ⟨⟨⟩, hproofs, -⟩ := Checked.bind_eq_ok.mp h
  refine ⟨checkKeyImages_ok himages, ?_⟩
  intro out hout proof hproof
  have hcheck := forM_ok hproofs out hout
  rw [checkRangeProof, hproof] at hcheck
  exact Checked.ensure_eq_ok.mp hcheck

theorem claimKeyImages_ok {txid : String} {images images' : List String} {inputs : List TxInput}
    (h : claimKeyImages txid images inputs = .ok images') (hnodup : images.Nodup) :
    images' = images ++ inputs.filterMap TxInput.image ∧ images'.Nodup := by
  unfold claimKeyImages at h
  induction inputs generalizing images with
  | nil =>
    cases h
    exact ⟨(List.append_nil _).symm, hnodup⟩
  | cons inp inputs ih =>
    rw [List.foldlM_cons] at h
    obtain ⟨images₁, hstep, h⟩ := Checked.bind_eq_ok.mp h
    cases himage : inp.image with
    | none =>
      rw [himage] at hstep
      cases hstep
      rw [List.filterMap_cons_none himage]
      exact ih h hnodup
    | some image =>
      rw [himage] at hstep
      obtain ⟨hfresh, hstep⟩ := Checked.ensure_bind_eq_ok.mp hstep
      cases hstep
      have hnodup₁ : (images ++ [image]).Nodup := by
        rw [← List.concat_eq_append]
        exact hnodup.concat hfresh
      obtain ⟨htail, hnodup'⟩ := ih h hnodup₁
      rw [List.filterMap_cons_some himage]
      exact ⟨by simpa using htail, hnodup'⟩

/-- The key images that the block check collects from a transaction. -/
def Transaction.claimed (tx : Transaction) : List String :=
  if tx.inputs = [] ∨ (tx.isPrivate = false ∧ tx.hasConfidentialData = false) then []
  else tx.images

theorem checkSusySwap_ok {images images' : List String}
    (h : checkSusySwap E images tx = .ok images') (hnodup : images.Nodup) :
    images' = images ++ tx.claimed ∧ images'.Nodup := by
  unfold checkSusySwap at h
  unfold Transaction.claimed
  split at h
  · next hskip =>
    cases h
    rw [if_pos hskip, List.append_nil]
    exact ⟨rfl, hnodup⟩
  · next hskip =>
    obtain ⟨images₁, hclaim, h⟩ := Checked.bind_eq_ok.mp h
    obtain ⟨⟨⟩, -, h⟩ := Checked.bind_eq_ok.mp h
    obtain ⟨⟨⟩, -, h⟩ := Checked.bind_eq_ok.mp h
    cases h
    rw [if_neg hskip]
    exact claimKeyImages_ok hclaim hnodup

theorem checkSusySwaps_nodup {txs : List Transaction} {images images' : List String}
    (h : txs.foldlM (checkSusySwap E) images = .ok images') (hnodup : images.Nodup) :
    (images ++ txs.flatMap Transaction.claimed).Nodup := by
  induction txs generalizing images with
  | nil => simpa using hnodup
  | cons tx txs ih =>
    rw [List.foldlM_cons] at h
    obtain ⟨images₁, hstep, h⟩ := Checked.bind_eq_ok.mp h
    obtain ⟨rfl, hnodup₁⟩ := checkSusySwap_ok hstep hnodup
    have htail := ih h hnodup₁
    rwa [List.append_assoc] at htail

theorem images_sublist_claimed (txs : List Transaction) :
    ((txs.filter Transaction.isConfidential).flatMap Transaction.images).Sublist
      (txs.flatMap Transaction.claimed) := by
  induction txs with
  | nil => exact List.Sublist.refl _
  | cons tx txs ih =>
    rw [List.flatMap_cons]
    cases hkind : tx.isConfidential with
    | true =>
      have hclaimed : tx.claimed = tx.images := by
        unfold Transaction.isConfidential at hkind
        simp only [Bool.and_eq_true, Bool.not_eq_true'] at hkind
        obtain ⟨⟨hprivate, hcoinbase⟩, hcontract⟩ := hkind
        have hinputs : tx.inputs ≠ [] := by
          intro hempty
          simp [Transaction.isCoinbase, hempty, hcontract] at hcoinbase
        simp [Transaction.claimed, hprivate, hinputs]
      rw [List.filter_cons_of_pos hkind, List.flatMap_cons, hclaimed]
      exact (List.Sublist.refl _).append ih
    | false =>
      rw [List.filter_cons_of_neg (by simp [hkind])]
      exact ih.trans (List.sublist_append_right _ _)

/-- The key images of the confidential transactions of one block are distinct. -/
theorem images_nodup (h : validateBlockSusySwaps E block = .ok ()) : block.images.Nodup := by
  unfold validateBlockSusySwaps at h
  obtain ⟨images, hcheck, -⟩ := Checked.bind_eq_ok.mp h
  have hnodup := checkSusySwaps_nodup hcheck List.nodup_nil
  exact hnodup.sublist (images_sublist_claimed _)

/-- An accepted transaction is sound if and only if it is linked. -/
theorem sound_iff_linked {chain : List Block}
    (h : checkPrivateTransaction E crypto db tx = .ok ()) :
    tx.Sound E chain ↔ tx.Linked E chain := by
  have hverify := (checkPrivateTransaction_ok h).2
  constructor
  · rintro ⟨hproven, hbalanced⟩
    refine ⟨?_, hbalanced⟩
    intro out hout
    obtain ⟨proof, hlinked, -⟩ := hproven out hout
    exact ⟨proof, hlinked⟩
  · rintro ⟨hlinked, hbalanced⟩
    refine ⟨?_, hbalanced⟩
    intro out hout
    obtain ⟨proof, hproof⟩ := hlinked out hout
    exact ⟨proof, hproof, hverify out hout proof hproof.1⟩

end Validators

namespace Chain

variable {E} {crypto : Crypto}

theorem step_block {s : Chain} {block : Block} {fails : String → Bool}
    (h : Accepts E crypto (s.view fails) block) :
    s.step E crypto (.block block fails) = s.storeBlock block := if_pos h

theorem images_storeBlock (s : Chain) (block : Block) :
    (s.storeBlock block).images = s.images ++ block.images := by
  simp [images, storeBlock]

theorem confidential_initial : initial.Confidential E where
  sound before block h := by simp [initial] at h
  once := List.nodup_nil

theorem checkPrivateTransaction_congr {db db' : ChainView} (h : db.keyImage = db'.keyImage)
    (tx : Transaction) :
    checkPrivateTransaction E crypto db tx = checkPrivateTransaction E crypto db' tx := by
  have hspent : db.isKeyImageSpent = db'.isKeyImageSpent := by
    funext image
    unfold ChainView.isKeyImageSpent
    rw [h]
  have hcheck : checkKeyImage db = checkKeyImage db' := by
    funext images inp
    unfold checkKeyImage
    rw [hspent]
  unfold checkPrivateTransaction
  rw [hcheck]

/-- What the block validator accepts, the two validators of a run accept. -/
theorem accepts_of_validateBlock {s : Chain} {fails : String → Bool} {rules : Rules}
    {db : BlockView} {block : Block} {prev : Option Block} {skipQvm skipPot : Bool}
    (hview : db.keyImage = s.keyImage fails)
    (h : validateBlock E crypto rules db block prev skipQvm skipPot = .ok ()) :
    Accepts E crypto (s.view fails) block := by
  unfold validateBlock at h
  obtain ⟨-, -, h⟩ := Checked.bind_eq_ok.mp h
  obtain ⟨scan, hscan, h⟩ := Checked.bind_eq_ok.mp h
  obtain ⟨coinbase, -, h⟩ := Checked.okOr_bind_eq_ok.mp h
  obtain ⟨-, -, h⟩ := Checked.bind_eq_ok.mp h
  obtain ⟨⟨⟩, hsusy, -⟩ := Checked.bind_eq_ok.mp h
  refine ⟨?_, hsusy⟩
  intro tx htx
  obtain ⟨hmem, hkind⟩ := List.mem_filter.mp htx
  simp only [Transaction.isConfidential, Bool.and_eq_true, Bool.not_eq_true'] at hkind
  obtain ⟨⟨hprivate, hcoinbase⟩, hcontract⟩ := hkind
  have hpays : tx.paysFee = true := by simp [Transaction.paysFee, hcoinbase, hcontract]
  have hvalid := scan_validates hscan tx hmem hpays
  rw [validateTransaction, if_pos hprivate] at hvalid
  have hsame : checkPrivateTransaction E crypto db.toChainView tx =
      checkPrivateTransaction E crypto (s.view fails) tx := checkPrivateTransaction_congr hview tx
  rw [← hsame]
  cases hcheck : checkPrivateTransaction E crypto db.toChainView tx with
  | ok u => rfl
  | error e =>
    rw [hcheck] at hvalid
    cases hvalid

/-- One event of a run. -/
theorem confidential_step (s : Chain) (event : ChainEvent) (hs : s.Confidential E)
    (hlinked : s.Linked E event) : (s.step E crypto event).Confidential E := by
  cases event with
  | table keyImages => exact ⟨hs.sound, hs.once⟩
  | block block fails =>
    change (if Accepts E crypto (s.view fails) block then s.storeBlock block else s).Confidential E
    split
    · next haccepts =>
      obtain ⟨hlinked, hrecorded⟩ := hlinked
      constructor
      · intro before block' hle tx htx
        cases List.prefix_concat_iff.mp hle with
        | inr hle => exact hs.sound before block' hle tx htx
        | inl heq =>
          obtain ⟨rfl, hlast⟩ := List.append_inj' heq rfl
          cases List.singleton_inj.mp hlast
          exact (sound_iff_linked (haccepts.1 tx htx)).mpr (hlinked tx htx)
      · rw [images_storeBlock, List.nodup_append']
        refine ⟨hs.once, images_nodup haccepts.2, ?_⟩
        intro image hold hnew
        obtain ⟨tx, htx, himage⟩ := List.mem_flatMap.mp hnew
        have hunspent := (checkPrivateTransaction_ok (haccepts.1 tx htx)).1 image himage
        rw [hrecorded image hold] at hunspent
        cases hunspent
    · exact hs

/-- Accepted confidential transactions are sound exactly when they are linked, and in a run in
which each step is linked they all are, and spend no key image twice. -/
theorem confidential_run :
    (∀ (db : ChainView) (chain : List Block) (tx : Transaction),
      checkPrivateTransaction E crypto db tx = .ok () →
        (tx.Sound E chain ↔ tx.Linked E chain)) ∧
      ∀ events : List ChainEvent,
        (∀ before event, before ++ [event] <+: events →
          (run E crypto before).Linked E event) →
        ∀ before, before <+: events → (run E crypto before).Confidential E := by
  constructor
  · intro db chain tx
    exact sound_iff_linked
  · intro events hlinked before hle
    exact Machine.run_guarded confidential_step confidential_initial hlinked hle

end Chain

end

section Sample

/-- Every challenge is 1. -/
@[reducible] def sampleCurve : Curve (ZMod Privacy.order) :=
  Privacy.logarithms fun _ => List.replicate 31 0 ++ [1]

/-- A range proof for `2 ^ 64 - 1` under the challenges of the sample curve. -/
def sampleProof : RangeProof where
  commitment := 2 :: List.replicate 24 0 ++ List.replicate 8 255
  A := 2 :: List.replicate 32 0
  S := 2 :: List.replicate 32 0
  T1 := 2 :: List.replicate 32 0
  T2 := 2 :: List.replicate 32 0
  tauX := 0
  mu := 0
  tHat := 0
  lVec := List.replicate 64 0
  rVec := List.replicate 64 0

/-- An output with a commitment to `2 ^ 64`. -/
def sampleFunded : TxOutput where
  address := some "b2"
  oneTimeAddress := none
  amount := some ⟨"1", some (.finite 1)⟩
  commitment := some (.hex "020000000000000000000000000000000000000000000000010000000000000000")
  rangeProof := none

def sampleSource : Block where
  height := 18
  prevHash := "b17"
  blockHash := some "b18"
  timestamp := .finite 1700000000
  difficulty := .finite 1
  proofData := "\x7b\x7d"
  transactions := [{ sampleCoinbase with outputs := [sampleFunded] }]
  stateRoot := ""
  receiptsRoot := ""
  thoughtProof := none

/-- Spends the output of the source under a key image, for a fee of one atom. -/
def sampleConfidential (outputs : List TxOutput) : Transaction :=
  { sampleTransaction with
    inputs := [{ txid := some "c0", vout := some 0, keyImage := some "k1" }]
    outputs
    fee := .finite (1 / 10 ^ 8)
    isPrivate := true }

def sampleConfidentialBlock (height : ℤ) (outputs : List TxOutput) : Block :=
  { sampleBlock [] with height, transactions := [sampleConfidential outputs] }

def sampleOutput : TxOutput where
  address := none
  oneTimeAddress := some "s0"
  amount := none
  commitment := some (.hex "02000000000000000000000000000000000000000000000000ffffffffffffffff")
  rangeProof := some (.dict sampleProof)

/-- An output without a commitment or a proof. -/
def sampleBare : TxOutput where
  address := none
  oneTimeAddress := some "s0"
  amount := none
  commitment := none
  rangeProof := none

local instance : Curve (ZMod Privacy.order) := sampleCurve

namespace Chain

def noFailure : String → Bool := fun _ => false

theorem sampleConfidential_accepted {outputs : List TxOutput}
    (houtputs : outputs ∈ [[sampleOutput], [sampleBare]]) (blocks : List Block) :
    checkPrivateTransaction (ZMod Privacy.order) sampleCrypto (view ⟨blocks, some ∅⟩ noFailure)
      (sampleConfidential outputs) = .ok () := by
  have hsignature : ∀ outputs content, (sampleConfidential outputs).checkSignature sampleCrypto
      content = some true := fun _ => sampleTransaction_checkSignature
  have hchecks : ∀ outputs ∈ [[sampleOutput], [sampleBare]],
      checkPrivateTransaction (ZMod Privacy.order) sampleCrypto (view ⟨[], some ∅⟩ noFailure)
        (sampleConfidential outputs) = .ok () := by
    unfold checkPrivateTransaction
    simp only [hsignature]
    decide +kernel
  exact hchecks outputs houtputs

theorem sampleConfidential_stored {outputs : List TxOutput}
    (houtputs : outputs ∈ [[sampleOutput], [sampleBare]]) (blocks : List Block) (height : ℤ) :
    step (ZMod Privacy.order) sampleCrypto ⟨blocks, some ∅⟩
      (.block (sampleConfidentialBlock height outputs) noFailure) =
        ⟨blocks ++ [sampleConfidentialBlock height outputs], some ∅⟩ := by
  have hsusy : ∀ outputs ∈ [[sampleOutput], [sampleBare]],
      [sampleConfidential outputs].foldlM (checkSusySwap (ZMod Privacy.order)) [] =
        .ok ["k1"] := by
    decide +kernel
  apply step_block
  constructor
  · intro tx htx
    cases List.mem_singleton.mp htx
    exact sampleConfidential_accepted houtputs blocks
  · unfold validateBlockSusySwaps
    change (do
      let _ ← [sampleConfidential outputs].foldlM (checkSusySwap (ZMod Privacy.order)) []
      _) = _
    rw [hsusy outputs houtputs]
    rfl

theorem sampleSource_stored :
    step (ZMod Privacy.order) sampleCrypto initial (.block sampleSource noFailure) =
      ⟨[sampleSource], some ∅⟩ :=
  step_block ⟨fun _ h => absurd h List.not_mem_nil, rfl⟩

/-- A block that pays to a commitment, one that spends it, and the same again once the key image
is in the table. -/
def sampleEvents : List ChainEvent :=
  [.block sampleSource noFailure, .block (sampleConfidentialBlock 19 [sampleOutput]) noFailure,
    .table (some {"k1"}), .block (sampleConfidentialBlock 20 [sampleOutput]) noFailure]

theorem sampleConfidential_linked (blocks : List Block) :
    (sampleConfidential [sampleOutput]).Linked (ZMod Privacy.order) (sampleSource :: blocks) := by
  constructor
  · intro out hout
    cases List.mem_singleton.mp hout
    exact ⟨sampleProof, rfl, .hex _, rfl, by decide +kernel⟩
  · refine ⟨[((2 ^ 64 : ℕ) : ZMod Privacy.order)], [((2 ^ 64 - 1 : ℕ) : ZMod Privacy.order)], 1,
      ?_, ?_, ?_, ?_⟩
    · have hspent : spentOutput (sampleSource :: blocks)
          { txid := some "c0", vout := some 0, keyImage := some "k1" } =
            some sampleFunded := rfl
      have hpoint : sampleFunded.point (ZMod Privacy.order) =
          some ((2 ^ 64 : ℕ) : ZMod Privacy.order) := by
        decide +kernel
      change [(spentOutput (sampleSource :: blocks) _).bind _] = _
      rw [hspent, Option.bind_some, hpoint]
      rfl
    · have hpoint : sampleOutput.point (ZMod Privacy.order) =
          some ((2 ^ 64 - 1 : ℕ) : ZMod Privacy.order) := by
        decide +kernel
      exact congrArg (fun p => [p]) hpoint
    · change Decimal.finite (1 / 10 ^ 8) = .finite (((1 : ℤ) : ℚ) / 10 ^ 8)
      norm_num
    · decide +kernel

theorem confidential_run_sample :
    (sampleConfidential [sampleOutput]).Sound (ZMod Privacy.order) [sampleSource] ∧
      (run (ZMod Privacy.order) sampleCrypto sampleEvents).Confidential (ZMod Privacy.order) := by
  refine ⟨(confidential_run.1 _ [sampleSource] _ (sampleConfidential_accepted (by simp) [])).mpr
    (sampleConfidential_linked []), ?_⟩
  have hsource : run (ZMod Privacy.order) sampleCrypto [.block sampleSource noFailure] =
      ⟨[sampleSource], some ∅⟩ := sampleSource_stored
  have hspent : run (ZMod Privacy.order) sampleCrypto [.block sampleSource noFailure,
      .block (sampleConfidentialBlock 19 [sampleOutput]) noFailure, .table (some {"k1"})] =
      ⟨[sampleSource, sampleConfidentialBlock 19 [sampleOutput]], some {"k1"}⟩ := by
    rw [run, Machine.run_cons, sampleSource_stored, Machine.run_cons,
      sampleConfidential_stored (by simp)]
    rfl
  refine confidential_run.2 sampleEvents ?_ sampleEvents (List.prefix_refl _)
  simp only [sampleEvents, Machine.forall_before_cons, Machine.forall_before_nil, and_true]
  refine ⟨⟨?_, ?_⟩, ⟨?_, ?_⟩, trivial, ?_, ?_⟩
  · exact fun _ h => absurd h List.not_mem_nil
  · exact fun _ h => absurd h List.not_mem_nil
  · rw [hsource]
    intro tx htx
    cases List.mem_singleton.mp htx
    exact sampleConfidential_linked []
  · rw [hsource]
    exact fun _ h => absurd h List.not_mem_nil
  · rw [hspent]
    intro tx htx
    cases List.mem_singleton.mp htx
    exact sampleConfidential_linked _
  · rw [hspent]
    intro image himage
    cases List.mem_singleton.mp himage
    decide

/-- Two blocks spend one key image, and what they create has no proof at all. -/
theorem accepts_replayed_key_image :
    (run (ZMod Privacy.order) sampleCrypto
      [.block (sampleConfidentialBlock 19 [sampleBare]) noFailure,
        .block (sampleConfidentialBlock 20 [sampleBare]) noFailure]).images = ["k1", "k1"] ∧
      ¬ (sampleConfidential [sampleBare]).Sound (ZMod Privacy.order) [] := by
  constructor
  · have hinitial : initial = ⟨[], some ∅⟩ := rfl
    rw [run, hinitial, Machine.run_cons, sampleConfidential_stored (by simp), Machine.run_cons,
      sampleConfidential_stored (by simp)]
    rfl
  · rintro ⟨hproven, -⟩
    obtain ⟨proof, ⟨hproof, -⟩, -⟩ := hproven sampleBare (List.mem_singleton_self _)
    cases hproof

end Chain

end Sample

end Qubitcoin.Node
