import Qubitcoin.Substrate.Consensus
import Qubitcoin.Substrate.Reversibility

/-! The byte strings the pallets hash.  Each determines what went into it, as far
as the other strings of its kind are concerned. -/

namespace Qubitcoin.Substrate

def inputEquiv : TransactionInput ≃ TxId × U32 where
  toFun i := (i.prevTxid, i.prevVout)
  invFun p := ⟨p.1, p.2⟩
  left_inv _ := rfl
  right_inv _ := rfl

def outputEquiv : TransactionOutput ≃ H256 × QbcBalance where
  toFun o := (o.address.bytes, o.amount)
  invFun p := ⟨⟨p.1⟩, p.2⟩
  left_inv _ := rfl
  right_inv _ := rfl

def inputCode : FixedCode TransactionInput 36 := (h256Code.prod u32Code).ofEquiv inputEquiv
def outputCode : FixedCode TransactionOutput 48 := (h256Code.prod u128Code).ofEquiv outputEquiv

namespace Utxo

theorem txidPreimage_eq (inputs : List TransactionInput) (outputs : List TransactionOutput) :
    txidPreimage inputs outputs = inputCode.encodeAll inputs ++ outputCode.encodeAll outputs :=
  rfl

theorem signingMessage_eq (inputs : List TransactionInput) (outputs : List TransactionOutput) :
    signingMessage inputs outputs =
      inputCode.encodeAll inputs ++ outputCode.encodeAll outputs := rfl

theorem head_eq_of_txidPreimage {i j : TransactionInput} {is js : List TransactionInput}
    {os ps : List TransactionOutput}
    (h : txidPreimage (i :: is) os = txidPreimage (j :: js) ps) : i = j := by
  rw [txidPreimage_eq, txidPreimage_eq, FixedCode.encodeAll_cons, FixedCode.encodeAll_cons,
    List.append_assoc, List.append_assoc] at h
  have hlen : (inputCode.encode i).length = (inputCode.encode j).length := by
    rw [inputCode.length_encode, inputCode.length_encode]
  exact inputCode.encode_injective (List.append_inj h hlen).1

end Utxo

namespace Consensus

/-- The number a decimal numeral writes. -/
def ofDecimal (bytes : Bytes) : Nat :=
  Nat.ofDigits 10 (bytes.reverse.map fun b => b.toNat - 48)

theorem ofDecimal_u64ToDecimalBytes (n : Nat) : ofDecimal (u64ToDecimalBytes n) = n := by
  unfold u64ToDecimalBytes
  split
  · next h =>
    rw [h]
    rfl
  · rw [ofDecimal, List.reverse_reverse, List.map_map]
    have hdigit : ∀ d ∈ Nat.digits 10 n, ((fun b : UInt8 => b.toNat - 48) ∘
        fun d => UInt8.ofNat (48 + d)) d = d := by
      intro d hd
      have hlt := Nat.digits_lt_base (by norm_num : 1 < 10) hd
      change (UInt8.ofNat (48 + d)).toNat - 48 = d
      rw [UInt8.toNat_ofNat']
      omega
    rw [List.map_congr_left hdigit, List.map_id', Nat.ofDigits_digits]

theorem u64ToDecimalBytes_injective : Function.Injective u64ToDecimalBytes :=
  Function.LeftInverse.injective ofDecimal_u64ToDecimalBytes

theorem length_bytesToHex (bytes : Bytes) : (bytesToHex bytes).length = bytes.length * 2 := by
  induction bytes with
  | nil => rfl
  | cons b bs ih =>
    change (_ :: _ :: bytesToHex bs).length = _
    rw [List.length_cons, List.length_cons, ih, List.length_cons]
    ring

theorem height_eq_of_coinbasePreimage {h h' : BlockHeight} {parent parent' : H256}
    (heq : coinbasePreimage h parent = coinbasePreimage h' parent') : h = h' := by
  have hlen : (bytesToHex (h256Code.encode parent)).length =
      (bytesToHex (h256Code.encode parent')).length := by
    rw [length_bytesToHex, length_bytesToHex, h256Code.length_encode, h256Code.length_encode]
  have hdash := (List.append_inj' heq hlen).1
  have hdecimal := (List.append_inj' hdash rfl).1
  exact u64ToDecimalBytes_injective (List.append_cancel_left hdecimal)

end Consensus

namespace Reversibility

theorem requestId_eq_of_reversalPreimage {id id' : H256} {h h' : BlockHeight}
    (heq : reversalPreimage id h = reversalPreimage id' h') : id = id' := by
  have hlen : (Bytes.le 8 h).length = (Bytes.le 8 h').length := by
    rw [Bytes.length_le, Bytes.length_le]
  have hleft := (List.append_inj' heq hlen).1
  exact h256Code.encode_injective (List.append_cancel_left hleft)

theorem height_eq_of_requestPreimage {txid txid' : TxId} {h h' : BlockHeight} (hfit : h ≤ u64Max)
    (hfit' : h' ≤ u64Max) (heq : requestPreimage txid h = requestPreimage txid' h') : h = h' := by
  have hlen : (Bytes.le 8 h).length = (Bytes.le 8 h').length := by
    rw [Bytes.length_le, Bytes.length_le]
  have hvalue := congrArg Bytes.ofLe (List.append_inj' heq hlen).2
  rw [Bytes.ofLe_le, Bytes.ofLe_le] at hvalue
  have hmax : u64Max < 256 ^ 8 := by decide
  rwa [Nat.mod_eq_of_lt (hfit.trans_lt hmax), Nat.mod_eq_of_lt (hfit'.trans_lt hmax)] at hvalue

end Reversibility

end Qubitcoin.Substrate
