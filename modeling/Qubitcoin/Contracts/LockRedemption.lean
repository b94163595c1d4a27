import Qubitcoin.Contracts.QuantumBridgeVault
import Qubitcoin.Contracts.ZKBridgeVerifier

/-! The commitment of a lock, and the proofs that redeem it. -/

namespace Qubitcoin.Contracts

open Evm (Address Word bigEndian ofBigEndian)

namespace ZKBridgeVerifier

theorem prime_lt : Poseidon2.prime < 2 ^ 64 := by decide

theorem fieldElement_lt (x : Poseidon2.U64) : (fieldElement x).toNat < Poseidon2.prime := by
  have hx := x.isLt
  have hprime := prime_lt
  unfold fieldElement
  split
  · next hge =>
    have hsub : (x - .ofNat 64 Poseidon2.prime).toNat = x.toNat - Poseidon2.prime := by
      rw [BitVec.toNat_sub, BitVec.toNat_ofNat, Nat.mod_eq_of_lt hprime]
      omega
    have htwice : 2 ^ 64 < 2 * Poseidon2.prime := by decide
    omega
  · next hlt => exact not_le.mp hlt

theorem fieldElement_of_lt {x : Poseidon2.U64} (h : x.toNat < Poseidon2.prime) :
    fieldElement x = x :=
  if_neg (not_le.mpr h)

/-- The proof of the four numbers that a commitment hashes. -/
def encodeProof (lo hi amount nonce : Poseidon2.U64) : Bytes :=
  bigEndian 32 (lo.toNat * 2 ^ 192 + hi.toNat * 2 ^ 128) ++
    (bigEndian 8 amount.toNat ++ bigEndian 8 nonce.toNat)

theorem ofBigEndian_word (x : Poseidon2.U64) : ofBigEndian (bigEndian 8 x.toNat) = x.toNat := by
  rw [Evm.ofBigEndian_bigEndian]
  exact Nat.mod_eq_of_lt x.isLt

theorem ofNat_toNat (x : Poseidon2.U64) : BitVec.ofNat 64 x.toNat = x := by
  rw [BitVec.ofNat_toNat, BitVec.setWidth_eq]

theorem proofAmount_encodeProof (lo hi amount nonce : Poseidon2.U64) :
    proofAmount (encodeProof lo hi amount nonce) = amount := by
  have hdrop : ((encodeProof lo hi amount nonce).drop 32).take 8 = bigEndian 8 amount.toNat := by
    rw [encodeProof, List.drop_left' (Evm.length_bigEndian _ _),
      List.take_left' (Evm.length_bigEndian _ _)]
  rw [proofAmount, hdrop, ofBigEndian_word, ofNat_toNat]

theorem proofNonce_encodeProof (lo hi amount nonce : Poseidon2.U64) :
    proofNonce (encodeProof lo hi amount nonce) = nonce := by
  have hdrop : ((encodeProof lo hi amount nonce).drop 40).take 8 = bigEndian 8 nonce.toNat := by
    rw [encodeProof, ← List.append_assoc, List.drop_left' (by simp), List.take_of_length_le (by simp)]
  rw [proofNonce, hdrop, ofBigEndian_word, ofNat_toNat]

theorem ofBigEndian_take_encodeProof (lo hi amount nonce : Poseidon2.U64) :
    ofBigEndian ((encodeProof lo hi amount nonce).take 32) =
      lo.toNat * 2 ^ 192 + hi.toNat * 2 ^ 128 := by
  have hlo := lo.isLt
  have hhi := hi.isLt
  rw [encodeProof, List.take_left' (Evm.length_bigEndian _ _), Evm.ofBigEndian_bigEndian]
  apply Nat.mod_eq_of_lt
  norm_num
  omega

/-- Without a witness, what verifies is that the proof opens the commitment to the amount. -/
theorem verifyZKProof_iff (verifier : ZKBridgeVerifier) (commitment : Word)
    (amount chainId : Nat) :
    (∃ zkProof, verifier.verifyZKProof commitment amount chainId zkProof [] = true) ↔
      amount < 2 ^ 64 ∧ ∃ lo hi nonce : Poseidon2.U64,
        lo.toNat < Poseidon2.prime ∧ hi.toNat < Poseidon2.prime ∧
          Poseidon2.hashFour lo hi (.ofNat 64 amount) nonce = commitment := by
  constructor
  · rintro ⟨zkProof, h⟩
    simp only [verifyZKProof, List.length_nil] at h
    split at h
    · cases h
    · split at h
      · cases h
      · next hamount =>
        split at h
        · cases h
        · next hhash =>
          rw [not_not] at hamount hhash
          refine ⟨hamount ▸ (proofAmount zkProof).isLt, ?_⟩
          rw [← hamount, ofNat_toNat]
          exact ⟨_, _, _, fieldElement_lt _, fieldElement_lt _, hhash⟩
  · rintro ⟨hamount, lo, hi, nonce, hlo, hhi, hhash⟩
    refine ⟨encodeProof lo hi (.ofNat 64 amount) nonce, ?_⟩
    have hlength : ¬(encodeProof lo hi (.ofNat 64 amount) nonce).length < 48 := by
      simp [encodeProof]
    have htop : (lo.toNat * 2 ^ 192 + hi.toNat * 2 ^ 128) / 2 ^ 192 = lo.toNat := by
      have := hi.isLt
      omega
    have hnext : BitVec.ofNat 64 ((lo.toNat * 2 ^ 192 + hi.toNat * 2 ^ 128) / 2 ^ 128) = hi := by
      have hdiv : (lo.toNat * 2 ^ 192 + hi.toNat * 2 ^ 128) / 2 ^ 128 =
          lo.toNat * 2 ^ 64 + hi.toNat := by omega
      apply BitVec.eq_of_toNat_eq
      rw [hdiv, BitVec.toNat_ofNat, Nat.mul_add_mod_self_right, Nat.mod_eq_of_lt hi.isLt]
    have hencoded : (proofAmount (encodeProof lo hi (.ofNat 64 amount) nonce)).toNat = amount := by
      rw [proofAmount_encodeProof, BitVec.toNat_ofNat, Nat.mod_eq_of_lt hamount]
    rw [verifyZKProof, if_neg hlength, if_neg (not_not.mpr hencoded)]
    simp only [proofAmount_encodeProof, proofNonce_encodeProof, ofBigEndian_take_encodeProof, htop,
      hnext, ofNat_toNat, fieldElement_of_lt hlo, fieldElement_of_lt hhi, hhash]
    simp

end ZKBridgeVerifier

namespace Poseidon2

theorem hashFour_lt (a b c d : U64) : (hashFour a b c d).toNat < 2 ^ 64 := by
  simp only [hashFour, BitVec.toNat_setWidth]
  exact lt_of_le_of_lt (Nat.mod_le _ _) (BitVec.isLt _)

end Poseidon2

namespace QuantumBridgeVault

variable (keccak256 : Bytes → Word)

/-- The commitment that a lock derives with Keccak is a Poseidon2 hash of its net amount. -/
def Redeemable (vault : QuantumBridgeVault) (sender : Address) (value chainId : Nat) : Prop :=
  vault.netAmount value < 2 ^ 64 ∧ ∃ lo hi nonce : Poseidon2.U64,
    lo.toNat < Poseidon2.prime ∧ hi.toNat < Poseidon2.prime ∧
      Poseidon2.hashFour lo hi (.ofNat 64 (vault.netAmount value)) nonce =
        keccak256 (packLock sender (vault.netAmount value) (vault.depositNonce + 1) chainId)

theorem Redeemable.commitment_lt {keccak256 : Bytes → Word} {vault : QuantumBridgeVault}
    {sender : Address} {value chainId : Nat} (h : vault.Redeemable keccak256 sender value chainId) :
    (keccak256 (packLock sender (vault.netAmount value) (vault.depositNonce + 1) chainId)).toNat <
      2 ^ 64 := by
  obtain ⟨-, lo, hi, nonce, -, -, hhash⟩ := h
  rw [← hhash]
  exact Poseidon2.hashFour_lt _ _ _ _

theorem exists_proof_iff_redeemable (vault locked : QuantumBridgeVault)
    (verifier : ZKBridgeVerifier) (sender : Address) (value : Nat) (qbcRecipient : String)
    (blockNumber timestamp chainId : Nat) (event : Locked)
    (h : vault.lock keccak256 sender value qbcRecipient blockNumber timestamp chainId =
      .ok (locked, event)) :
    (locked.deposit event.depositId).amount = event.amount ∧
      (locked.deposit event.depositId).nonce = event.nonce ∧
      (locked.deposit event.depositId).commitment = event.commitment ∧
      ((∃ zkProof, verifier.verifyZKProof event.commitment event.amount chainId zkProof [] = true) ↔
        vault.Redeemable keccak256 sender value chainId) := by
  obtain ⟨hamount, -, hcommitment, hdeposit⟩ := lock_eq_ok h
  refine ⟨hdeposit.1, hdeposit.2.1, hdeposit.2.2, ?_⟩
  rw [ZKBridgeVerifier.verifyZKProof_iff, hamount, hcommitment]
  rfl

def freshVault : QuantumBridgeVault where
  owner := 1
  guardian := 2
  feeRecipient := 3
  feeBps := 10

/-- The commitment and the identifier of a first lock of 10 ^ 18 by address 4 on chain 1. -/
def firstLockHash (packed : Bytes) : Word :=
  if packed = packLock 4 (999 * 10 ^ 15) 1 1 then
    0x019eb0f78f0a4007fa725f0685545b819217b9d0d78b986fdb23c4a7d8c1c44b
  else 0x276c09e03b40fdf31f43d96c42046d6f3ceff5f597abeea869cfa12ad15659ab

theorem not_exists_proof_first_lock :
    ∃ locked event, freshVault.lock firstLockHash 4 (10 ^ 18) "qbc1" 100 1000 1 =
        .ok (locked, event) ∧
      ¬∃ zkProof, (ZKBridgeVerifier.initial 1 1).verifyZKProof event.commitment event.amount 1
        zkProof [] = true := by
  refine ⟨_, _, rfl, ?_⟩
  intro hproof
  have hiff := exists_proof_iff_redeemable firstLockHash freshVault _ (.initial 1 1) 4 (10 ^ 18)
    "qbc1" 100 1000 1 _ rfl
  have hcommitment := (hiff.2.2.2.mp hproof).commitment_lt
  revert hcommitment
  decide +kernel

theorem not_every_lock_redeemable :
    ¬∃ keccak256 : Bytes → Word, ∀ (vault locked : QuantumBridgeVault)
      (verifier : ZKBridgeVerifier) (sender : Address) (value : Nat) (qbcRecipient : String)
      (blockNumber timestamp chainId : Nat) (event : Locked),
      vault.lock keccak256 sender value qbcRecipient blockNumber timestamp chainId =
          .ok (locked, event) →
        verifier.supportedChains.value false chainId = true → verifier.stateRoot = 0 →
          ∃ zkProof,
            verifier.verifyZKProof event.commitment event.amount chainId zkProof [] = true := by
  rintro ⟨keccak256, h⟩
  have hproof := h freshVault _ (.initial 1 1) 4 (20 * 10 ^ 18) "qbc1" 100 1000 1 _ rfl
    (by decide +kernel) rfl
  rw [ZKBridgeVerifier.verifyZKProof_iff] at hproof
  have hnet : freshVault.netAmount (20 * 10 ^ 18) < 2 ^ 64 := hproof.1
  revert hnet
  decide

end QuantumBridgeVault

end Qubitcoin.Contracts
