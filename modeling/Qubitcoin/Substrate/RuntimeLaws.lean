import Qubitcoin.Substrate.Runtime

/-! What a successful dispatch can do, said once. -/

namespace Qubitcoin.Substrate

variable {host : Host} {s s' : State} {origin : Origin} {call : Call}

theorem ensureSigned_bind_eq_ok {α : Type} {k : AccountId → Except DispatchError α} {b : α} :
    (ensureSigned origin >>= k) = .ok b ↔ ∃ a, origin = .signed a ∧ k a = .ok b := by
  cases origin with
  | root => simp [ensureSigned]
  | signed a => simp [ensureSigned]
  | none => simp [ensureSigned]

theorem ensureRoot_bind_eq_ok {α : Type} {k : Unit → Except DispatchError α} {b : α} :
    (ensureRoot origin >>= k) = .ok b ↔ origin = .root ∧ k () = .ok b := by
  cases origin with
  | root => simp [ensureRoot]
  | signed a => simp [ensureRoot]
  | none => simp [ensureRoot]

theorem ensureNone_bind_eq_ok {α : Type} {k : Unit → Except DispatchError α} {b : α} :
    (ensureNone origin >>= k) = .ok b ↔ origin = .none ∧ k () = .ok b := by
  cases origin with
  | root => simp [ensureNone]
  | signed a => simp [ensureNone]
  | none => simp [ensureNone]

/-- A dispatch that succeeds: the pallet accepted the call, and its storage is all
that changed. -/
inductive Dispatched (host : Host) (s : State) : Origin → Call → State → Prop
  | registerKey {a : AccountId} {publicKey : Dilithium.PublicKey} {d : Dilithium.Storage}
      (h : Dilithium.registerKey host s.dilithium publicKey = .ok d) :
      Dispatched host s (.signed a) (.registerKey publicKey) { s with dilithium := d }
  | sudoRegisterKeyForAddress {address : Address} {publicKey : Dilithium.PublicKey}
      {d : Dilithium.Storage}
      (h : Dilithium.sudoRegisterKeyForAddress s.dilithium address publicKey = .ok d) :
      Dispatched host s .root (.sudoRegisterKeyForAddress address publicKey)
        { s with dilithium := d }
  | revokeKey {a : AccountId} {address : Address} {revocationSig : Dilithium.Signature}
      {d : Dilithium.Storage}
      (h : Dilithium.revokeKey host s.dilithium address revocationSig = .ok d) :
      Dispatched host s (.signed a) (.revokeKey address revocationSig) { s with dilithium := d }
  | submitTransaction {a : AccountId} {inputs : BoundedVec TransactionInput maxInputs}
      {outputs : BoundedVec TransactionOutput maxOutputs}
      {signatures : BoundedVec Dilithium.Signature maxInputs} {u : Utxo.Storage}
      (h : Utxo.submitTransaction (s.utxoConfig host) s.utxo inputs outputs signatures = .ok u) :
      Dispatched host s (.signed a) (.submitTransaction inputs outputs signatures)
        { s with utxo := u }
  | submitMiningProof {proof : VqeProof} {pubkey : H256} {signature : Bytes}
      {p : Consensus.Pallets}
      (h : Consensus.submitMiningProof host s.block s.pallets proof pubkey signature = .ok p) :
      Dispatched host s .none (.submitMiningProof proof pubkey signature) (s.withPallets p)
  | submitReversalRequest {a : AccountId} {targetTxid : TxId} {originalSender : Address}
      {reason : BoundedVec UInt8 Reversibility.maxReasonLength} {r : Reversibility.Storage}
      (h : Reversibility.submitReversalRequest host s.utxo s.reversibility a targetTxid
        originalSender reason = .ok r) :
      Dispatched host s (.signed a) (.submitReversalRequest targetTxid originalSender reason)
        { s with reversibility := r }
  | approveReversal {a : AccountId} {requestId : H256} {u : Utxo.Storage}
      {r : Reversibility.Storage}
      (h : Reversibility.approveReversal host s.utxo s.reversibility a requestId = .ok (u, r)) :
      Dispatched host s (.signed a) (.approveReversal requestId)
        { s with utxo := u, reversibility := r }
  | addGovernor {address : Address} {r : Reversibility.Storage}
      (h : Reversibility.addGovernor s.reversibility address = .ok r) :
      Dispatched host s .root (.addGovernor address) { s with reversibility := r }
  | removeGovernor {address : Address} {r : Reversibility.Storage}
      (h : Reversibility.removeGovernor s.reversibility address = .ok r) :
      Dispatched host s .root (.removeGovernor address) { s with reversibility := r }
  | setReversalWindow {newWindow : U64} :
      Dispatched host s .root (.setReversalWindow newWindow)
        { s with reversibility := Reversibility.setReversalWindow s.reversibility newWindow }
  | setApprovalThreshold {newThreshold : U32} {r : Reversibility.Storage}
      (h : Reversibility.setApprovalThreshold s.reversibility newThreshold = .ok r) :
      Dispatched host s .root (.setApprovalThreshold newThreshold) { s with reversibility := r }
  | expireRequest {a : AccountId} {requestId : H256} {r : Reversibility.Storage}
      (h : Reversibility.expireRequest s.utxo.currentHeight s.reversibility requestId = .ok r) :
      Dispatched host s (.signed a) (.expireRequest requestId) { s with reversibility := r }
  | pruneExpiredReversals {maxAgeBlocks : U64} {maxEntries : U32} :
      Dispatched host s .root (.pruneExpiredReversals maxAgeBlocks maxEntries)
        { s with
          reversibility := Reversibility.pruneExpiredReversals s.utxo.currentHeight
            s.reversibility maxAgeBlocks maxEntries }

theorem dispatch_ok (h : dispatch host s origin call = .ok s') :
    Dispatched host s origin call s' := by
  cases call with
  | registerKey publicKey =>
    obtain ⟨a, rfl, h⟩ := ensureSigned_bind_eq_ok.mp h
    obtain ⟨d, hd, h⟩ := Checked.mapError_bind_eq_ok.mp h
    cases h
    exact .registerKey hd
  | sudoRegisterKeyForAddress address publicKey =>
    obtain ⟨rfl, h⟩ := ensureRoot_bind_eq_ok.mp h
    obtain ⟨d, hd, h⟩ := Checked.mapError_bind_eq_ok.mp h
    cases h
    exact .sudoRegisterKeyForAddress hd
  | revokeKey address revocationSig =>
    obtain ⟨a, rfl, h⟩ := ensureSigned_bind_eq_ok.mp h
    obtain ⟨d, hd, h⟩ := Checked.mapError_bind_eq_ok.mp h
    cases h
    exact .revokeKey hd
  | submitTransaction inputs outputs signatures =>
    obtain ⟨a, rfl, h⟩ := ensureSigned_bind_eq_ok.mp h
    obtain ⟨u, hu, h⟩ := Checked.mapError_bind_eq_ok.mp h
    cases h
    exact .submitTransaction hu
  | submitMiningProof proof pubkey signature =>
    obtain ⟨rfl, h⟩ := ensureNone_bind_eq_ok.mp h
    obtain ⟨p, hp, h⟩ := Checked.mapError_bind_eq_ok.mp h
    cases h
    exact .submitMiningProof hp
  | submitReversalRequest targetTxid originalSender reason =>
    obtain ⟨a, rfl, h⟩ := ensureSigned_bind_eq_ok.mp h
    obtain ⟨r, hr, h⟩ := Checked.mapError_bind_eq_ok.mp h
    cases h
    exact .submitReversalRequest hr
  | approveReversal requestId =>
    obtain ⟨a, rfl, h⟩ := ensureSigned_bind_eq_ok.mp h
    obtain ⟨⟨u, r⟩, hr, h⟩ := Checked.mapError_bind_eq_ok.mp h
    cases h
    exact .approveReversal hr
  | addGovernor address =>
    obtain ⟨rfl, h⟩ := ensureRoot_bind_eq_ok.mp h
    obtain ⟨r, hr, h⟩ := Checked.mapError_bind_eq_ok.mp h
    cases h
    exact .addGovernor hr
  | removeGovernor address =>
    obtain ⟨rfl, h⟩ := ensureRoot_bind_eq_ok.mp h
    obtain ⟨r, hr, h⟩ := Checked.mapError_bind_eq_ok.mp h
    cases h
    exact .removeGovernor hr
  | setReversalWindow newWindow =>
    obtain ⟨rfl, h⟩ := ensureRoot_bind_eq_ok.mp h
    cases h
    exact .setReversalWindow
  | setApprovalThreshold newThreshold =>
    obtain ⟨rfl, h⟩ := ensureRoot_bind_eq_ok.mp h
    obtain ⟨r, hr, h⟩ := Checked.mapError_bind_eq_ok.mp h
    cases h
    exact .setApprovalThreshold hr
  | expireRequest requestId =>
    obtain ⟨a, rfl, h⟩ := ensureSigned_bind_eq_ok.mp h
    obtain ⟨r, hr, h⟩ := Checked.mapError_bind_eq_ok.mp h
    cases h
    exact .expireRequest hr
  | pruneExpiredReversals maxAgeBlocks maxEntries =>
    obtain ⟨rfl, h⟩ := ensureRoot_bind_eq_ok.mp h
    cases h
    exact .pruneExpiredReversals

/-- A step dispatches a call, has its call refused, begins a block or upgrades. -/
theorem step_cases {P : Step → State → Prop} (host : Host) (s : State)
    (hdispatched : ∀ origin call s', dispatch host s origin call = .ok s' →
      Dispatched host s origin call s' → P (.extrinsic origin call) s')
    (hrefused : ∀ origin call e, dispatch host s origin call = .error e →
      P (.extrinsic origin call) s)
    (hblock : ∀ parentHash now, P (.newBlock parentHash now)
      { s with block := ⟨parentHash, now⟩, utxo := Utxo.onInitialize s.utxo })
    (hupgrade : P .runtimeUpgrade { s with economics := Economics.onRuntimeUpgrade s.economics })
    (i : Step) : P i (step host s i) := by
  cases i with
  | extrinsic origin call =>
    cases h : dispatch host s origin call with
    | ok s' =>
      have hstep : step host s (.extrinsic origin call) = s' := by simp only [step, h]
      rw [hstep]
      exact hdispatched origin call s' h (dispatch_ok h)
    | error e =>
      have hstep : step host s (.extrinsic origin call) = s := by simp only [step, h]
      rw [hstep]
      exact hrefused origin call e h
  | newBlock parentHash now => exact hblock parentHash now
  | runtimeUpgrade => exact hupgrade

end Qubitcoin.Substrate
