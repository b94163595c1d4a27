import Qubitcoin.Contracts.QuantumBridgeVault
import Qubitcoin.Contracts.ZKBridgeVerifier

/-! The minter of wrapped tokens: the part that a verified proof of a lock sets off. -/

namespace Qubitcoin.Contracts

open Solidity Checked
open Evm (Address Word)

structure BridgeMinter where
  owner : Address
  paused : Bool := false
  zkVerifier : Address
  wrappedTokens : StorageMap Nat Address := ∅
  supportedChainIds : List Nat := []
  processedMintProofs : StorageMap Word Bool := ∅
  totalMinted : Nat := 0

namespace BridgeMinter

def initial (sender zkVerifier : Address) : Except String BridgeMinter := do
  ensure (zkVerifier ≠ 0) "BM: zero verifier"
  .ok { owner := sender, zkVerifier := zkVerifier }

variable (self : BridgeMinter)

def wrappedToken (chainId : Nat) : Address := self.wrappedTokens.value 0 chainId

def onlyOwner (sender : Address) : Except String Unit :=
  ensure (sender = self.owner) "BM: not owner"

/-- `minted` is what the wrapped token answers. -/
def mintFromProof (sender recipient : Address) (amount sourceChainId : Nat) (proofHash : Word)
    (minted : Except String Unit) : Except String BridgeMinter := do
  ensure (sender = self.zkVerifier) "BM: not verifier"
  ensure (self.paused = false) "BM: paused"
  ensure (recipient ≠ 0) "BM: zero recipient"
  ensure (0 < amount) "BM: zero amount"
  ensure (self.processedMintProofs.value false proofHash = false) "BM: proof already processed"
  ensure (self.wrappedToken sourceChainId ≠ 0) "BM: unsupported chain"
  let totalMinted ← add self.totalMinted amount
  minted
  .ok { self with
    processedMintProofs := self.processedMintProofs.insert proofHash true
    totalMinted := totalMinted }

def registerWrappedToken (sender : Address) (chainId : Nat) (token : Address) :
    Except String BridgeMinter := do
  self.onlyOwner sender
  ensure (token ≠ 0) "BM: zero token"
  ensure (self.wrappedToken chainId = 0) "BM: already registered"
  .ok { self with
    wrappedTokens := self.wrappedTokens.insert chainId token
    supportedChainIds := self.supportedChainIds ++ [chainId] }

def updateWrappedToken (sender : Address) (chainId : Nat) (newToken : Address) :
    Except String BridgeMinter := do
  self.onlyOwner sender
  ensure (newToken ≠ 0) "BM: zero token"
  ensure (self.wrappedToken chainId ≠ 0) "BM: not registered"
  .ok { self with wrappedTokens := self.wrappedTokens.insert chainId newToken }

def setPaused (sender : Address) (paused : Bool) : Except String BridgeMinter := do
  self.onlyOwner sender
  .ok { self with paused := paused }

inductive Call
  | registerWrappedToken (chainId : Nat) (token : Address)
  | updateWrappedToken (chainId : Nat) (newToken : Address)
  | setPaused (paused : Bool)

def call (sender : Address) : Call → Except String BridgeMinter
  | .registerWrappedToken chainId token => self.registerWrappedToken sender chainId token
  | .updateWrappedToken chainId newToken => self.updateWrappedToken sender chainId newToken
  | .setPaused paused => self.setPaused sender paused

end BridgeMinter

end Qubitcoin.Contracts

/-! One side of the bridge: the verifier with the minter and the vault that it calls. -/

namespace Qubitcoin.Contracts

open Solidity Checked
open Evm (Address Word bigEndian ofBigEndian)

/-- Where the contracts are deployed. -/
structure BridgeSites where
  verifier : Address
  minter : Address
  vault : Address

/-- The submissions that the verifier has accepted and the proofs that it has had minted or
unlocked are kept beside the contracts. -/
structure QuantumBridge where
  verifier : ZKBridgeVerifier
  minter : BridgeMinter
  vault : QuantumBridgeVault
  submissions : List Submission := []
  executions : List VerifiedProof := []

/-- What a record keeps of a submission and an execution goes by. -/
def Submission.Records (sub : Submission) (p : VerifiedProof) : Prop :=
  p.commitment = sub.commitment ∧ p.recipient = sub.recipient ∧ p.sourceChainId = sub.sourceChainId

namespace ZKBridgeVerifier

variable {keccak256 : Bytes → Word} {s t : ZKBridgeVerifier} {sender : Address}

theorem proof_insert (s : ZKBridgeVerifier) (proofHash key : Word) (p : VerifiedProof)
    (h : t.verifiedProofs = s.verifiedProofs.insert key p) :
    t.proof proofHash = if proofHash = key then p else s.proof proofHash := by
  rw [proof, h, StorageMap.value_insert_eq]
  rfl

theorem proof_congr (h : t.verifiedProofs = s.verifiedProofs) (proofHash : Word) :
    t.proof proofHash = s.proof proofHash := by
  rw [proof, h]
  rfl

theorem amount_of_verifyZKProof {commitment : Word} {amount sourceChainId : Nat}
    {zkProof stateWitness : Bytes}
    (h : s.verifyZKProof commitment amount sourceChainId zkProof stateWitness = true) :
    (proofAmount zkProof).toNat = amount := by
  by_contra hne
  simp [verifyZKProof, hne] at h

theorem confirmProof_eq_ok {sub : Submission} {stateWitness : Bytes} {chainId timestamp : Nat}
    (h : s.confirmProof keccak256 sender sub stateWitness chainId timestamp = .ok t) :
    sub.destChainId = chainId ∧ (proofAmount sub.zkProof).toNat = sub.amount ∧
      ∃ p, p.proofHash = keccak256 sub.pack ∧ p.executed = false ∧ sub.Records p ∧
        t.verifiedProofs =
        if (s.proof (keccak256 sub.pack)).proofHash = 0 then
          s.verifiedProofs.insert (keccak256 sub.pack) p
        else s.verifiedProofs := by
  simp only [confirmProof, onlyProver, whenNotPaused, ensure_bind_eq_ok, add_bind_eq_ok] at h
  obtain ⟨-, -, -, hdest, -, -, -, hverify, -, -, -, h⟩ := h
  cases h
  exact ⟨hdest, amount_of_verifyZKProof hverify, _, rfl, rfl, ⟨rfl, rfl, rfl⟩, rfl⟩

theorem markExecuted_eq_ok {proofHash : Word} (h : s.markExecuted proofHash = .ok t) :
    (s.proof proofHash).proofHash ≠ 0 ∧ (s.proof proofHash).executed = false ∧
      t.verifiedProofs =
        s.verifiedProofs.insert proofHash { s.proof proofHash with executed := true } := by
  simp only [markExecuted, ensure_bind_eq_ok, add_bind_eq_ok] at h
  obtain ⟨hfound, hnew, -, h⟩ := h
  cases h
  exact ⟨hfound, hnew, rfl⟩

theorem call_verifiedProofs {c : Call} (h : s.call sender c = .ok t) :
    t.verifiedProofs = s.verifiedProofs := by
  cases c <;>
    simp only [call, updateStateRoot, addProver, removeProver, setRequiredConfirmations,
      scheduleBridgeMinterChange, executeBridgeMinterChange, scheduleBridgeVaultChange,
      executeBridgeVaultChange, addChain, removeChain, setPaused, transferOwnership, onlyOwner,
      onlyProver, ensure_bind_eq_ok, add_bind_eq_ok, sub_bind_eq_ok, Except.ok.injEq] at h <;>
    grind

end ZKBridgeVerifier

namespace QuantumBridge

def deploy (sender : Address) (requiredConfirmations : Nat) (minter : BridgeMinter)
    (vault : QuantumBridgeVault) : QuantumBridge where
  verifier := .initial sender requiredConfirmations
  minter := minter
  vault := vault

variable (keccak256 : Bytes → Word) (sites : BridgeSites) (chainId : Nat) (self : QuantumBridge)

/-- `answer` is what the wrapped token answers, or another contract set in the minter's place. -/
def callMinter (p : VerifiedProof) (proofHash : Word) (answer : Except String Unit) :
    Except String BridgeMinter :=
  if self.verifier.bridgeMinter = sites.minter then
    self.minter.mintFromProof sites.verifier p.recipient p.amount p.sourceChainId proofHash answer
  else do
    answer
    .ok self.minter

/-- `answer` is whether the recipient takes the payment, or what another contract set in the
vault's place answers. -/
def callVault (p : VerifiedProof) (proofHash : Word) (blockNumber : Nat)
    (answer : Except String Unit) : Except String QuantumBridgeVault :=
  if self.verifier.bridgeVault = sites.vault then
    self.vault.unlock keccak256 sites.verifier p.recipient p.amount proofHash blockNumber
      answer.isOk
  else do
    answer
    .ok self.vault

/-- The rest of `_executeProof`.  It writes nothing after its call, so what the callee calls
back acts as a later transaction. -/
def dispatch (p : VerifiedProof) (proofHash : Word) (blockNumber : Nat)
    (answer : Except String Unit) : Except String QuantumBridge :=
  if p.sourceChainId ≠ ZKBridgeVerifier.qbcChainId ∧ p.destChainId = ZKBridgeVerifier.qbcChainId then
    do
      ensure (self.verifier.bridgeMinter ≠ 0) "ZKV: minter not set"
      let minter ← self.callMinter sites p proofHash answer
      .ok { self with minter := minter, executions := self.executions ++ [p] }
  else if p.sourceChainId = ZKBridgeVerifier.qbcChainId ∧
      p.destChainId ≠ ZKBridgeVerifier.qbcChainId then
    do
      ensure (self.verifier.bridgeVault ≠ 0) "ZKV: vault not set"
      let vault ← self.callVault keccak256 sites p proofHash blockNumber answer
      .ok { self with vault := vault, executions := self.executions ++ [p] }
  else .ok self

/-- `_executeProof`. -/
def execute (proofHash : Word) (blockNumber : Nat) (answer : Except String Unit) :
    Except String QuantumBridge := do
  let verifier ← self.verifier.markExecuted proofHash
  dispatch keccak256 sites { self with verifier := verifier } (verifier.proof proofHash) proofHash
    blockNumber answer

def submitProof (sender : Address) (sub : Submission) (stateWitness : Bytes)
    (blockNumber timestamp : Nat) (answer : Except String Unit) : Except String QuantumBridge := do
  let verifier ← self.verifier.confirmProof keccak256 sender sub stateWitness chainId timestamp
  let proofHash := keccak256 sub.pack
  let confirmed : QuantumBridge :=
    { self with verifier := verifier, submissions := self.submissions ++ [sub] }
  if verifier.requiredProverConfirmations ≤ verifier.confirmations proofHash then
    confirmed.execute keccak256 sites proofHash blockNumber answer
  else .ok confirmed

def executeProof (proofHash : Word) (blockNumber : Nat) (answer : Except String Unit) :
    Except String QuantumBridge := do
  self.verifier.whenNotPaused
  ensure (self.verifier.requiredProverConfirmations ≤ self.verifier.confirmations proofHash)
    "ZKV: insufficient confirmations"
  self.execute keccak256 sites proofHash blockNumber answer

inductive Call
  | submitProof (sub : Submission) (stateWitness : Bytes) (blockNumber timestamp : Nat)
    (answer : Except String Unit)
  | executeProof (proofHash : Word) (blockNumber : Nat) (answer : Except String Unit)
  | verifier (call : ZKBridgeVerifier.Call)
  | minter (call : BridgeMinter.Call)
  | vault (call : QuantumBridgeVault.Call)

def call (transaction : Address × Call) : Except String QuantumBridge :=
  let sender := transaction.1
  match transaction.2 with
  | .submitProof sub stateWitness blockNumber timestamp answer =>
    self.submitProof keccak256 sites chainId sender sub stateWitness blockNumber timestamp answer
  | .executeProof proofHash blockNumber answer =>
    self.executeProof keccak256 sites proofHash blockNumber answer
  | .verifier call => do
    let verifier ← self.verifier.call sender call
    .ok { self with verifier := verifier }
  | .minter call => do
    let minter ← self.minter.call sender call
    .ok { self with minter := minter }
  | .vault call => do
    let vault ← self.vault.call keccak256 chainId sender call
    .ok { self with vault := vault }

/-- The submissions of one commitment name one recipient and one source chain and bring one
proof. -/
def Agree (submissions : List Submission) : Prop :=
  ∀ sub ∈ submissions, ∀ other ∈ submissions, sub.commitment = other.commitment →
    sub.recipient = other.recipient ∧ sub.sourceChainId = other.sourceChainId ∧
      sub.zkProof = other.zkProof

/-- The numbers that a proof gives for its commitment. -/
def opening (zkProof : Bytes) : List Poseidon2.U64 :=
  let v := ofBigEndian (zkProof.take 32)
  [ZKBridgeVerifier.fieldElement (.ofNat 64 (v / 2 ^ 192)),
    ZKBridgeVerifier.fieldElement (.ofNat 64 (v / 2 ^ 128)),
    ZKBridgeVerifier.proofAmount zkProof, ZKBridgeVerifier.proofNonce zkProof]

/-- No two submissions collide, under Keccak or under Poseidon2. -/
def CollisionFree (submissions : List Submission) : Prop :=
  ∀ sub ∈ submissions, ∀ other ∈ submissions,
    (keccak256 sub.pack = keccak256 other.pack → sub.pack = other.pack) ∧
      (sub.commitment = other.commitment → opening sub.zkProof = opening other.zkProof)

instance (submissions : List Submission) : Decidable (Agree submissions) :=
  inferInstanceAs (Decidable (∀ sub ∈ submissions, ∀ other ∈ submissions,
    sub.commitment = other.commitment → _ ∧ _ ∧ _))

instance (submissions : List Submission) : Decidable (CollisionFree keccak256 submissions) :=
  inferInstanceAs (Decidable (∀ sub ∈ submissions, ∀ other ∈ submissions, (_ → _) ∧ (_ → _)))

/-- Each commitment has been executed once at most. -/
def OneExecution (executions : List VerifiedProof) : Prop :=
  (executions.map VerifiedProof.commitment).Nodup

instance (executions : List VerifiedProof) : Decidable (OneExecution executions) :=
  inferInstanceAs (Decidable (executions.map VerifiedProof.commitment).Nodup)

/-- The commitment determines the recipient and the source chain. -/
def Determined (executions executions' : List VerifiedProof) : Prop :=
  ∀ p ∈ executions, ∀ q ∈ executions', p.commitment = q.commitment →
    p.recipient = q.recipient ∧ p.sourceChainId = q.sourceChainId

/-- Every record goes back to a submission that has its hash, and every execution is a record. -/
structure Traced (s : QuantumBridge) : Prop where
  record : ∀ proofHash, (s.verifier.proof proofHash).proofHash ≠ 0 →
    (s.verifier.proof proofHash).proofHash = proofHash ∧
      ∃ sub ∈ s.submissions, keccak256 sub.pack = proofHash ∧
        sub.Records (s.verifier.proof proofHash)
  submission : ∀ sub ∈ s.submissions, sub.destChainId = chainId ∧
    (ZKBridgeVerifier.proofAmount sub.zkProof).toNat = sub.amount
  execution : ∀ p ∈ s.executions, p.proofHash ≠ 0 ∧ p.executed = true ∧
    s.verifier.proof p.proofHash = p
  once : (s.executions.map VerifiedProof.proofHash).Nodup

variable {keccak256 sites chainId} {s t : QuantumBridge} {sender : Address}
  {proofHash : Word} {blockNumber : Nat} {answer : Except String Unit}

theorem traced_deploy (requiredConfirmations : Nat) (minter : BridgeMinter)
    (vault : QuantumBridgeVault) :
    Traced keccak256 chainId (deploy sender requiredConfirmations minter vault) := by
  constructor
  · intro proofHash hne
    exact absurd rfl hne
  · intro sub hmem
    cases hmem
  · intro p hmem
    cases hmem
  · exact List.nodup_nil

theorem Traced.of_verifiedProofs (hs : Traced keccak256 chainId s)
    (hproofs : t.verifier.verifiedProofs = s.verifier.verifiedProofs)
    (hsubmissions : t.submissions = s.submissions) (hexecutions : t.executions = s.executions) :
    Traced keccak256 chainId t := by
  have hproof := ZKBridgeVerifier.proof_congr hproofs
  constructor
  · simp only [hproof, hsubmissions]
    exact hs.record
  · rw [hsubmissions]
    exact hs.submission
  · simp only [hproof, hexecutions]
    exact hs.execution
  · rw [hexecutions]
    exact hs.once

theorem Traced.confirm (hs : Traced keccak256 chainId s) {sub : Submission} {stateWitness : Bytes}
    {timestamp : Nat} {verifier : ZKBridgeVerifier}
    (h : s.verifier.confirmProof keccak256 sender sub stateWitness chainId timestamp =
      .ok verifier) :
    Traced keccak256 chainId
      { s with verifier := verifier, submissions := s.submissions ++ [sub] } := by
  obtain ⟨hdest, hamount, p, hp, -, hrecords, hproofs⟩ := ZKBridgeVerifier.confirmProof_eq_ok h
  have hproof : ∀ key, (s.verifier.proof key).proofHash ≠ 0 →
      verifier.proof key = s.verifier.proof key := by
    intro key hkey
    split at hproofs
    · next hnew =>
      rw [ZKBridgeVerifier.proof_insert s.verifier key _ p hproofs, if_neg]
      rintro rfl
      exact hkey hnew
    · exact ZKBridgeVerifier.proof_congr hproofs key
  constructor
  · intro key hkey
    show _ ∧ ∃ sub' ∈ s.submissions ++ [sub], _
    by_cases hold : (s.verifier.proof key).proofHash = 0
    · -- the record is the one that this submission makes
      have hmade : key = keccak256 sub.pack ∧ verifier.proof key = p := by
        split at hproofs
        · next hnew =>
          have hinsert := ZKBridgeVerifier.proof_insert s.verifier key _ p hproofs
          by_cases heq : key = keccak256 sub.pack
          · exact ⟨heq, by rw [hinsert, if_pos heq]⟩
          · rw [if_neg heq] at hinsert
            exact absurd (hinsert ▸ hold) hkey
        · exact absurd (ZKBridgeVerifier.proof_congr hproofs key ▸ hold) hkey
      obtain ⟨rfl, hmade⟩ := hmade
      rw [show verifier.proof _ = p from hmade]
      exact ⟨hp, sub, by simp, rfl, hrecords⟩
    · rw [show verifier.proof key = _ from hproof key hold]
      obtain ⟨heq, sub', hmem, hrest⟩ := hs.record key hold
      exact ⟨heq, sub', List.mem_append_left _ hmem, hrest⟩
  · intro sub' hmem
    rcases List.mem_append.mp hmem with hmem | hmem
    · exact hs.submission sub' hmem
    · rw [List.mem_singleton.mp hmem]
      exact ⟨hdest, hamount⟩
  · intro q hmem
    obtain ⟨hq, hexecuted, heq⟩ := hs.execution q hmem
    refine ⟨hq, hexecuted, ?_⟩
    rw [show verifier.proof _ = _ from hproof _ (by rwa [heq]), heq]
  · exact hs.once

theorem Traced.mark (hs : Traced keccak256 chainId s) {verifier : ZKBridgeVerifier}
    (h : s.verifier.markExecuted proofHash = .ok verifier) :
    Traced keccak256 chainId { s with verifier := verifier } ∧
      (verifier.proof proofHash).proofHash = proofHash ∧ proofHash ≠ 0 ∧
      (verifier.proof proofHash).executed = true ∧
      proofHash ∉ s.executions.map VerifiedProof.proofHash := by
  obtain ⟨hfound, hnew, hproofs⟩ := ZKBridgeVerifier.markExecuted_eq_ok h
  have hproof := (ZKBridgeVerifier.proof_insert s.verifier · proofHash _ hproofs)
  obtain ⟨hhash, -⟩ := hs.record proofHash hfound
  have hfresh : ∀ p ∈ s.executions, p.proofHash ≠ proofHash := by
    intro p hmem heq
    obtain ⟨-, hexecuted, hrecord⟩ := hs.execution p hmem
    rw [← heq, hrecord, hexecuted] at hnew
    cases hnew
  refine ⟨⟨?_, hs.submission, ?_, hs.once⟩, ?_⟩
  · intro key hkey
    rw [hproof key] at hkey ⊢
    split at hkey
    · next heq =>
      subst heq
      rw [if_pos rfl]
      exact hs.record key hfound
    · next hne =>
      rw [if_neg hne]
      exact hs.record key hkey
  · intro p hmem
    obtain ⟨hp, hexecuted, hrecord⟩ := hs.execution p hmem
    refine ⟨hp, hexecuted, ?_⟩
    rw [hproof p.proofHash, if_neg (hfresh p hmem), hrecord]
  · rw [hproof proofHash, if_pos rfl]
    refine ⟨hhash, hhash ▸ hfound, rfl, ?_⟩
    intro hmem
    obtain ⟨p, hp, heq⟩ := List.mem_map.mp hmem
    exact hfresh p hp heq

theorem dispatch_eq_ok {p : VerifiedProof}
    (h : s.dispatch keccak256 sites p proofHash blockNumber answer = .ok t) :
    t.verifier = s.verifier ∧ t.submissions = s.submissions ∧
      (t.executions = s.executions ∨ t.executions = s.executions ++ [p]) := by
  unfold dispatch at h
  split at h
  · obtain ⟨-, h⟩ := ensure_bind_eq_ok.mp h
    obtain ⟨minter, -, h⟩ := bind_eq_ok.mp h
    cases h
    exact ⟨rfl, rfl, .inr rfl⟩
  · split at h
    · obtain ⟨-, h⟩ := ensure_bind_eq_ok.mp h
      obtain ⟨vault, -, h⟩ := bind_eq_ok.mp h
      cases h
      exact ⟨rfl, rfl, .inr rfl⟩
    · cases h
      exact ⟨rfl, rfl, .inl rfl⟩

theorem Traced.execute (hs : Traced keccak256 chainId s)
    (h : s.execute keccak256 sites proofHash blockNumber answer = .ok t) :
    Traced keccak256 chainId t := by
  obtain ⟨verifier, hmark, hdispatch⟩ := bind_eq_ok.mp h
  obtain ⟨hmarked, hhash, hne, hexecuted, hfresh⟩ := hs.mark hmark
  obtain ⟨hverifier, hsubmissions, hexecutions⟩ := dispatch_eq_ok hdispatch
  rcases hexecutions with hexecutions | hexecutions
  · exact hmarked.of_verifiedProofs (by rw [hverifier]) hsubmissions hexecutions
  · constructor
    · rw [hverifier, hsubmissions]
      exact hmarked.record
    · rw [hsubmissions]
      exact hmarked.submission
    · rw [hverifier, hexecutions]
      intro p hmem
      rcases List.mem_append.mp hmem with hmem | hmem
      · exact hmarked.execution p hmem
      · rw [List.mem_singleton.mp hmem, hhash]
        exact ⟨hne, hexecuted, rfl⟩
    · rw [hexecutions, List.map_append, List.nodup_append_comm]
      simp only [List.map_cons, List.map_nil, List.singleton_append, List.nodup_cons, hhash]
      exact ⟨hfresh, hs.once⟩

theorem Traced.call (hs : Traced keccak256 chainId s) (transaction : Address × Call)
    (h : s.call keccak256 sites chainId transaction = .ok t) : Traced keccak256 chainId t := by
  obtain ⟨sender, c⟩ := transaction
  cases c with
  | submitProof sub stateWitness blockNumber timestamp answer =>
    obtain ⟨verifier, hconfirm, h⟩ := bind_eq_ok.mp h
    have hconfirmed := hs.confirm hconfirm
    dsimp only at h
    split at h
    · exact hconfirmed.execute h
    · cases h
      exact hconfirmed
  | executeProof proofHash blockNumber answer =>
    obtain ⟨-, -, h⟩ := bind_eq_ok.mp h
    exact hs.execute (ensure_bind_eq_ok.mp h).2
  | verifier c =>
    obtain ⟨verifier, hcall, h⟩ := bind_eq_ok.mp h
    cases h
    exact hs.of_verifiedProofs (ZKBridgeVerifier.call_verifiedProofs hcall) rfl rfl
  | minter c =>
    obtain ⟨minter, -, h⟩ := bind_eq_ok.mp h
    cases h
    exact hs.of_verifiedProofs rfl rfl rfl
  | vault c =>
    obtain ⟨vault, -, h⟩ := bind_eq_ok.mp h
    cases h
    exact hs.of_verifiedProofs rfl rfl rfl

theorem traced_run (requiredConfirmations : Nat) (minter : BridgeMinter)
    (vault : QuantumBridgeVault) (transactions : List (Address × Call)) :
    Traced keccak256 chainId (run (call keccak256 sites chainId)
      (deploy sender requiredConfirmations minter vault) transactions) :=
  run_invariant (fun _ transaction _ hs => hs.call transaction) (traced_deploy _ _ _) transactions

/-- An execution goes back to a submission. -/
theorem Traced.submission_of_execution (hs : Traced keccak256 chainId s) {p : VerifiedProof}
    (hp : p ∈ s.executions) :
    ∃ sub ∈ s.submissions, keccak256 sub.pack = p.proofHash ∧ sub.Records p := by
  obtain ⟨hne, -, heq⟩ := hs.execution p hp
  have hrecord := (hs.record p.proofHash (by rwa [heq])).2
  rwa [heq] at hrecord

theorem Traced.oneExecution (hs : Traced keccak256 chainId s) (h : Agree s.submissions) :
    OneExecution s.executions := by
  refine List.Nodup.map_on ?_ (List.Nodup.of_map _ hs.once)
  intro p hp q hq hcommitment
  obtain ⟨sub, hsub, hhash, hsubp⟩ := hs.submission_of_execution hp
  obtain ⟨other, hother, hhash', hotherq⟩ := hs.submission_of_execution hq
  have hsame : sub.commitment = other.commitment := by
    rw [← hsubp.1, ← hotherq.1, hcommitment]
  obtain ⟨hrecipient, hsource, hproof⟩ := h sub hsub other hother hsame
  obtain ⟨hdest, hamount⟩ := hs.submission sub hsub
  obtain ⟨hdest', hamount'⟩ := hs.submission other hother
  have hpack : sub.pack = other.pack := by
    simp only [Submission.pack, hsame, hrecipient, hsource, hproof, hdest, hdest', ← hamount,
      ← hamount']
  have hkey : p.proofHash = q.proofHash := by rw [← hhash, ← hhash', hpack]
  rw [← (hs.execution p hp).2.2, ← (hs.execution q hq).2.2, hkey]

theorem Traced.determined (hs : Traced keccak256 chainId s) (ht : Traced keccak256 chainId t)
    (h : Agree (s.submissions ++ t.submissions)) : Determined s.executions t.executions := by
  intro p hp q hq hcommitment
  obtain ⟨sub, hsub, -, hsubp⟩ := hs.submission_of_execution hp
  obtain ⟨other, hother, -, hotherq⟩ := ht.submission_of_execution hq
  have hsame : sub.commitment = other.commitment := by
    rw [← hsubp.1, ← hotherq.1, hcommitment]
  obtain ⟨hrecipient, hsource, -⟩ := h sub (List.mem_append_left _ hsub) other
    (List.mem_append_right _ hother) hsame
  rw [hsubp.2.1, hsubp.2.2, hotherq.2.1, hotherq.2.2]
  exact ⟨hrecipient, hsource⟩

theorem one_lock_one_mint {sender' : Address} (requiredConfirmations requiredConfirmations' : Nat)
    (minter minter' : BridgeMinter) (vault vault' : QuantumBridgeVault)
    (transactions transactions' : List (Address × Call))
    (h : Agree
      ((run (call keccak256 sites chainId) (deploy sender requiredConfirmations minter vault)
        transactions).submissions ++
      (run (call keccak256 sites chainId) (deploy sender' requiredConfirmations' minter' vault')
        transactions').submissions)) :
    OneExecution (run (call keccak256 sites chainId)
        (deploy sender requiredConfirmations minter vault) transactions).executions ∧
      Determined
        (run (call keccak256 sites chainId) (deploy sender requiredConfirmations minter vault)
          transactions).executions
        (run (call keccak256 sites chainId) (deploy sender' requiredConfirmations' minter' vault')
          transactions').executions := by
  have hs : Traced keccak256 chainId (run (call keccak256 sites chainId)
      (deploy sender requiredConfirmations minter vault) transactions) := traced_run _ _ _ _
  have ht : Traced keccak256 chainId (run (call keccak256 sites chainId)
      (deploy sender' requiredConfirmations' minter' vault') transactions') := traced_run _ _ _ _
  refine ⟨hs.oneExecution ?_, hs.determined ht h⟩
  intro sub hsub other hother
  exact h sub (List.mem_append_left _ hsub) other (List.mem_append_left _ hother)

def bridgeSites : BridgeSites := ⟨101, 102, 103⟩

def newMinter : BridgeMinter where
  owner := 1
  zkVerifier := 101

def newVault : QuantumBridgeVault where
  owner := 1
  guardian := 1
  feeBps := 10
  feeRecipient := 1

/-- The submission of a lock on chain 1: amount 5, nonce 7. -/
def lockSubmission : Submission where
  commitment := 0x9ee73467ef8ff806
  recipient := 9
  amount := 5
  sourceChainId := 1
  destChainId := 3303
  zkProof := List.replicate 32 0 ++ bigEndian 8 5 ++ bigEndian 8 7

/-- The same lock, with a byte after the proof. -/
def paddedSubmission : Submission :=
  { lockSubmission with zkProof := lockSubmission.zkProof ++ [0] }

/-- The Keccak hashes of the two submissions. -/
def submissionHash (packed : Bytes) : Word :=
  if packed = lockSubmission.pack then
    0x966e1d5c5e6471e051e764b7197b28bb6245c671011093872883de5d11a42f72
  else 0x0d3ad577e0fd3dd4e9d2fab8c4a4f9c3c9debe8ec692ae625a4803c0db45519e

/-- The owner brings a prover, the minter and a token to the bridge. -/
def setUp : List (Address × Call) :=
  [(1, .verifier (.addProver 2 0 0)),
    (1, .verifier (.scheduleBridgeMinterChange 102 0)),
    (1, .verifier (.executeBridgeMinterChange 172800)),
    (1, .minter (.registerWrappedToken 1 104))]

def mintOnce : List (Address × Call) :=
  setUp ++ [(2, .submitProof lockSubmission [] 10 200000 (.ok ()))]

def mintTwice : List (Address × Call) :=
  mintOnce ++ [(2, .submitProof paddedSubmission [] 11 200001 (.ok ()))]

theorem one_lock_one_mint_once :
    (run (call submissionHash bridgeSites 3303) (deploy 1 1 newMinter newVault)
        mintOnce).executions.length = 1 ∧
      OneExecution (run (call submissionHash bridgeSites 3303) (deploy 1 1 newMinter newVault)
        mintOnce).executions := by
  refine ⟨by decide +kernel, (@one_lock_one_mint submissionHash bridgeSites 3303 1 1 1 1 newMinter
    newMinter newVault newVault mintOnce mintOnce ?_).1⟩
  decide +kernel

theorem one_lock_two_mints :
    ¬∀ (keccak256 : Bytes → Word) (sites : BridgeSites) (chainId : Nat) (sender sender' : Address)
      (requiredConfirmations requiredConfirmations' : Nat) (minter minter' : BridgeMinter)
      (vault vault' : QuantumBridgeVault) (transactions transactions' : List (Address × Call)),
      CollisionFree keccak256
        ((run (call keccak256 sites chainId) (deploy sender requiredConfirmations minter vault)
          transactions).submissions ++
        (run (call keccak256 sites chainId) (deploy sender' requiredConfirmations' minter' vault')
          transactions').submissions) →
      OneExecution (run (call keccak256 sites chainId)
          (deploy sender requiredConfirmations minter vault) transactions).executions ∧
        Determined
          (run (call keccak256 sites chainId) (deploy sender requiredConfirmations minter vault)
            transactions).executions
          (run (call keccak256 sites chainId) (deploy sender' requiredConfirmations' minter' vault')
            transactions').executions := by
  intro h
  have hrun := h submissionHash bridgeSites 3303 1 1 1 1 newMinter newMinter newVault newVault
    mintTwice mintTwice (by decide +kernel)
  have htwice : ¬OneExecution (run (call submissionHash bridgeSites 3303)
      (deploy 1 1 newMinter newVault) mintTwice).executions := by
    decide +kernel
  exact htwice hrun.1

end QuantumBridge

end Qubitcoin.Contracts
