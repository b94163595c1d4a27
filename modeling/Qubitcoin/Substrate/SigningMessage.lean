import Qubitcoin.Substrate.Encoding

/-! What a transaction's byte string says about the transaction.  Records of 36 and
48 bytes follow each other without a count, so four inputs can read as three
outputs. -/

namespace Qubitcoin.Substrate.Utxo

/-- What a transaction asks for, within the bounds of the pallet. -/
structure Body where
  inputs : BoundedVec TransactionInput maxInputs
  outputs : BoundedVec TransactionOutput maxOutputs
  deriving DecidableEq

namespace Body

variable {a b : Body}

/-- The records of a body, one after the other. -/
def bytes (a : Body) : Bytes :=
  inputCode.encodeAll a.inputs.val ++ outputCode.encodeAll a.outputs.val

theorem ext_val (hinputs : a.inputs.val = b.inputs.val) (houtputs : a.outputs.val = b.outputs.val) :
    a = b := by
  obtain ⟨⟨is, _⟩, ⟨os, _⟩⟩ := a
  obtain ⟨⟨is', _⟩, ⟨os', _⟩⟩ := b
  cases hinputs
  cases houtputs
  rfl

/-- `b` reads the last `4 * k` inputs of `a` as `3 * k` outputs. -/
def Reread (k : Nat) (a b : Body) : Prop :=
  ∃ mid front, mid.length = 4 * k ∧ front.length = 3 * k ∧
    a.inputs.val = b.inputs.val ++ mid ∧ b.outputs.val = front ++ a.outputs.val ∧
    inputCode.encodeAll mid = outputCode.encodeAll front

/-- Rereading takes four inputs and room for three outputs. -/
theorem Reread.lengths {k : Nat} (h : Reread k a b) :
    a.inputs.val.length = b.inputs.val.length + 4 * k ∧
      b.outputs.val.length = 3 * k + a.outputs.val.length := by
  obtain ⟨mid, front, hmid, hfront, hinputs, houtputs, -⟩ := h
  constructor
  · rw [hinputs, List.length_append, hmid]
  · rw [houtputs, List.length_append, hfront]

theorem Reread.bytes_eq {k : Nat} (h : Reread k a b) : a.bytes = b.bytes := by
  obtain ⟨mid, front, -, -, hinputs, houtputs, hsame⟩ := h
  rw [bytes, bytes, hinputs, houtputs, FixedCode.encodeAll_append, FixedCode.encodeAll_append,
    hsame, List.append_assoc]

theorem Reread.of_bytes_eq (h : b.bytes = a.bytes)
    (hle : b.inputs.val.length ≤ a.inputs.val.length) : ∃ k, Reread k a b := by
  obtain ⟨mid, front, hinputs, houtputs, hsame⟩ :=
    inputCode.exists_overlap outputCode (by norm_num) h hle
  have hlen := congrArg List.length hsame
  rw [inputCode.length_encodeAll, outputCode.length_encodeAll] at hlen
  exact ⟨front.length / 3, mid, front, by omega, by omega, hinputs, houtputs, hsame⟩

theorem Reread.eq (h : Reread 0 a b) : a = b := by
  obtain ⟨mid, front, hmid, hfront, hinputs, houtputs, -⟩ := h
  cases List.eq_nil_of_length_eq_zero hmid
  cases List.eq_nil_of_length_eq_zero hfront
  exact ext_val (by simpa using hinputs) (by simpa using houtputs.symm)

/-- Bodies with the same bytes are rereadings of each other. -/
theorem bytes_eq_iff : a.bytes = b.bytes ↔ ∃ k, Reread k a b ∨ Reread k b a := by
  constructor
  · intro h
    cases Nat.le_total b.inputs.val.length a.inputs.val.length with
    | inl hle =>
      obtain ⟨k, hk⟩ := Reread.of_bytes_eq h.symm hle
      exact ⟨k, Or.inl hk⟩
    | inr hle =>
      obtain ⟨k, hk⟩ := Reread.of_bytes_eq h hle
      exact ⟨k, Or.inr hk⟩
  · rintro ⟨k, h | h⟩
    · exact h.bytes_eq
    · exact h.bytes_eq.symm

theorem eq_of_bytes_eq (h : a.bytes = b.bytes)
    (hlen : a.inputs.val.length = b.inputs.val.length) : a = b := by
  obtain ⟨k, hk⟩ := Reread.of_bytes_eq h.symm hlen.ge
  have hlengths := hk.lengths
  have hzero : k = 0 := by omega
  subst hzero
  exact hk.eq

theorem Reread.exists_of_inputs (hinputs : 4 ≤ a.inputs.val.length)
    (hroom : a.outputs.val.length + 3 ≤ maxOutputs) : ∃ b, Reread 1 a b := by
  let mid := a.inputs.val.drop (a.inputs.val.length - 4)
  let front := outputCode.decodeAll 3 (inputCode.encodeAll mid)
  have hmid : mid.length = 4 := by
    rw [List.length_drop]
    omega
  have hbound : (front ++ a.outputs.val).length ≤ maxOutputs := by
    rw [List.length_append, FixedCode.length_decodeAll]
    omega
  refine ⟨⟨⟨a.inputs.val.take (a.inputs.val.length - 4), ?_⟩, ⟨front ++ a.outputs.val, hbound⟩⟩,
    mid, front, hmid, FixedCode.length_decodeAll _ _ _, ?_, rfl, ?_⟩
  · exact (List.take_sublist _ _).length_le.trans a.inputs.bounded
  · exact (List.take_append_drop _ _).symm
  · apply (FixedCode.encodeAll_decodeAll _ _).symm
    rw [FixedCode.length_encodeAll, hmid]

theorem Reread.exists_of_outputs (houtputs : 3 ≤ a.outputs.val.length)
    (hroom : a.inputs.val.length + 4 ≤ maxInputs) : ∃ b, Reread 1 b a := by
  let front := a.outputs.val.take 3
  let mid := inputCode.decodeAll 4 (outputCode.encodeAll front)
  have hfront : front.length = 3 := by
    rw [List.length_take]
    omega
  have hbound : (a.inputs.val ++ mid).length ≤ maxInputs := by
    rw [List.length_append, FixedCode.length_decodeAll]
    omega
  refine ⟨⟨⟨a.inputs.val ++ mid, hbound⟩, ⟨a.outputs.val.drop 3, ?_⟩⟩,
    mid, front, FixedCode.length_decodeAll _ _ _, hfront, rfl, ?_, ?_⟩
  · exact (List.drop_sublist _ _).length_le.trans a.outputs.bounded
  · exact (List.take_append_drop _ _).symm
  · apply FixedCode.encodeAll_decodeAll
    rw [FixedCode.length_encodeAll, hfront]

/-- Too few inputs to read as outputs, or no room for these; and the same the other
way. -/
def Unreadable (a : Body) : Prop :=
  (a.inputs.val.length < 4 ∨ maxOutputs < a.outputs.val.length + 3) ∧
    (a.outputs.val.length < 3 ∨ maxInputs < a.inputs.val.length + 4)

theorem Unreadable.eq (ha : a.Unreadable) (h : b.bytes = a.bytes) : b = a := by
  obtain ⟨k, hk⟩ := bytes_eq_iff.mp h
  have hinputs := b.inputs.bounded
  have houtputs := b.outputs.bounded
  have hzero : k = 0 := by
    unfold Unreadable at ha
    cases hk with
    | inl hk =>
      have hlen := hk.lengths
      omega
    | inr hk =>
      have hlen := hk.lengths
      omega
  subst hzero
  cases hk with
  | inl hk => exact hk.eq
  | inr hk => exact hk.eq.symm

theorem Unreadable.of_unique (h : ∀ b : Body, b.bytes = a.bytes → b = a) : a.Unreadable := by
  constructor
  · by_contra hshort
    obtain ⟨b, hb⟩ := Reread.exists_of_inputs (a := a) (by omega) (by omega)
    have hlen := hb.lengths
    rw [h b hb.bytes_eq.symm] at hlen
    omega
  · by_contra hshort
    obtain ⟨b, hb⟩ := Reread.exists_of_outputs (a := a) (by omega) (by omega)
    have hlen := hb.lengths
    rw [h b hb.bytes_eq] at hlen
    omega

end Body

/-- How far a byte string of the inputs and the outputs binds them. -/
structure Binds (encode : List TransactionInput → List TransactionOutput → Bytes) : Prop where
  sameCount : ∀ a b : Body,
    encode a.inputs.val a.outputs.val = encode b.inputs.val b.outputs.val →
      a.inputs.val.length = b.inputs.val.length → a = b
  reread : ∀ a b : Body,
    encode a.inputs.val a.outputs.val = encode b.inputs.val b.outputs.val ↔
      ∃ k, Body.Reread k a b ∨ Body.Reread k b a
  unique : ∀ a : Body,
    (∀ b : Body, encode b.inputs.val b.outputs.val = encode a.inputs.val a.outputs.val → b = a) ↔
      a.Unreadable

theorem binds_of_bytes {encode : List TransactionInput → List TransactionOutput → Bytes}
    (hencode : ∀ a : Body, encode a.inputs.val a.outputs.val = a.bytes) : Binds encode := by
  constructor
  · intro a b h hlen
    rw [hencode, hencode] at h
    exact Body.eq_of_bytes_eq h hlen
  · intro a b
    rw [hencode, hencode]
    exact Body.bytes_eq_iff
  · intro a
    simp only [hencode]
    constructor
    · exact Body.Unreadable.of_unique
    · intro ha b h
      exact ha.eq h

/-- A signing message and a txid preimage bind a transaction up to rereading. -/
theorem signatures_bind : Binds signingMessage ∧ Binds txidPreimage :=
  ⟨binds_of_bytes fun _ => rfl, binds_of_bytes fun _ => rfl⟩

def fiveInputs : Body where
  inputs := ⟨(List.range 5).map fun i => ⟨BitVec.ofNat 256 (2 ^ 100 + i), BitVec.ofNat 32 i⟩,
    by decide⟩
  outputs := ⟨[⟨⟨7⟩, 9⟩], by decide⟩

def oneInput : Body where
  inputs := ⟨fiveInputs.inputs.val.take 1, by decide⟩
  outputs := ⟨outputCode.decodeAll 3 (inputCode.encodeAll (fiveInputs.inputs.val.drop 1)) ++
    fiveInputs.outputs.val, by decide⟩

theorem fiveInputs_read_as_oneInput :
    (fiveInputs.inputs.val.map TransactionInput.key).Nodup ∧
      (∀ o ∈ fiveInputs.outputs.val ++ oneInput.outputs.val, 0 < o.amount) ∧
      fiveInputs ≠ oneInput ∧
      signingMessage fiveInputs.inputs.val fiveInputs.outputs.val =
        signingMessage oneInput.inputs.val oneInput.outputs.val ∧
      txidPreimage fiveInputs.inputs.val fiveInputs.outputs.val =
        txidPreimage oneInput.inputs.val oneInput.outputs.val := by
  decide +kernel

end Qubitcoin.Substrate.Utxo
