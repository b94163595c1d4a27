import Qubitcoin.Substrate.Conservation

/-! The lifecycle of a key: registered under its own address or, by the root, under any
other; revoked once and for all. -/

namespace Qubitcoin.Substrate

open Dilithium (PublicKey deriveAddress dilithium5PkSize)

namespace Dilithium

def Storage.entryCount (d : Storage) : Nat := d.publicKeys.weigh fun _ _ => 1

def Storage.Revoked (d : Storage) (address : Address) : Prop :=
  d.revokedKeys.value false address = true

def Storage.stored (d : Storage) (address : Address) (pk : PublicKey) : Storage :=
  { d with
    publicKeys := d.publicKeys.insert address pk
    totalKeys := d.totalKeys.saturatingAdd 1 }

def Storage.revoked (d : Storage) (address : Address) : Storage :=
  { d with
    publicKeys := d.publicKeys.erase address
    revokedKeys := d.revokedKeys.insert address true
    totalKeys := d.totalKeys.saturatingSub 1 }

variable {host : Host} {d d' : Storage} {address : Address} {pk : PublicKey}

theorem storeKey_eq_ok : storeKey d address pk = .ok d' ↔
    address ∉ d.publicKeys ∧ d.revokedKeys.value false address = false ∧
      d' = d.stored address pk := by
  simp only [storeKey, Checked.ensure_bind_eq_ok, Checked.pure_eq_ok, Except.ok.injEq]
  exact and_congr_right fun _ => and_congr_right fun _ => eq_comm

theorem registerKey_eq_ok : registerKey host d pk = .ok d' ↔
    pk.val.length = dilithium5PkSize ∧ storeKey d (deriveAddress host pk.val) pk = .ok d' := by
  simp only [registerKey, Checked.ensure_bind_eq_ok]

theorem sudoRegisterKeyForAddress_eq_ok : sudoRegisterKeyForAddress d address pk = .ok d' ↔
    pk.val.length = dilithium5PkSize ∧ storeKey d address pk = .ok d' := by
  simp only [sudoRegisterKeyForAddress, Checked.ensure_bind_eq_ok]

theorem revokeKey_ok {sig : Signature} (h : revokeKey host d address sig = .ok d') :
    ∃ pk, d.publicKeys.lookup address = some pk ∧
      verifySignature host pk.val revocationMsg sig.val = true ∧ d' = d.revoked address := by
  simp only [revokeKey, Checked.okOr_bind_eq_ok, Checked.ensure_bind_eq_ok, Checked.pure_eq_ok,
    Except.ok.injEq] at h
  obtain ⟨pk, hlookup, _, hverify, rfl⟩ := h
  exact ⟨pk, hlookup, hverify, rfl⟩

end Dilithium

/-- What a step does to the registry. -/
inductive Registers (host : Host) (d d' : Dilithium.Storage) : Step → Prop
  | still {i : Step} (same : d' = d) : Registers host d d' i
  | stored {i : Step} {address : Address} {pk : PublicKey}
      (absent : address ∉ d.publicKeys) (unrevoked : d.revokedKeys.value false address = false)
      (sized : pk.val.length = dilithium5PkSize)
      (owner : deriveAddress host pk.val = address ∨
        i = .extrinsic .root (.sudoRegisterKeyForAddress address pk))
      (stored : d' = d.stored address pk) : Registers host d d' i
  | revoked {i : Step} {address : Address} {pk : PublicKey}
      (held : d.publicKeys.lookup address = some pk)
      (revoked : d' = d.revoked address) : Registers host d d' i

variable {host : Host} {g : GenesisConfig} {steps : List Step} {d d' : Dilithium.Storage}

theorem step_registers (host : Host) (s : State) (i : Step) :
    Registers host s.dilithium (step host s i).dilithium i := by
  apply step_cases (P := fun i s' => Registers host s.dilithium s'.dilithium i)
  · intro origin call s' _ h
    cases h with
    | registerKey h =>
      obtain ⟨hsized, h⟩ := Dilithium.registerKey_eq_ok.mp h
      obtain ⟨habsent, hunrevoked, hstored⟩ := Dilithium.storeKey_eq_ok.mp h
      exact .stored habsent hunrevoked hsized (.inl rfl) hstored
    | sudoRegisterKeyForAddress h =>
      obtain ⟨hsized, h⟩ := Dilithium.sudoRegisterKeyForAddress_eq_ok.mp h
      obtain ⟨habsent, hunrevoked, hstored⟩ := Dilithium.storeKey_eq_ok.mp h
      exact .stored habsent hunrevoked hsized (.inr rfl) hstored
    | revokeKey h =>
      obtain ⟨pk, hheld, hverify, hrevoked⟩ := Dilithium.revokeKey_ok h
      exact .revoked hheld hrevoked
    | _ => exact .still rfl
  · intro origin call e _
    exact .still rfl
  · intro parentHash now
    exact .still rfl
  · exact .still rfl

/-- No key is held at a revoked address, and the counter does not run ahead of the
entries. -/
structure Registry (d : Dilithium.Storage) : Prop where
  apart : ∀ address, d.Revoked address → d.publicKeys.lookup address = none
  counted : d.totalKeys.toNat ≤ d.entryCount

theorem entryCount_stored {address : Address} {pk : PublicKey}
    (h : address ∉ d.publicKeys) : (d.stored address pk).entryCount = d.entryCount + 1 :=
  StorageMap.weigh_insert _ pk h

theorem entryCount_revoked {address : Address} {pk : PublicKey}
    (h : d.publicKeys.lookup address = some pk) :
    (d.revoked address).entryCount + 1 = d.entryCount :=
  StorageMap.weigh_erase _ h

theorem Registry.step {i : Step} (h : Registry d) (hstep : Registers host d d' i) :
    Registry d' := by
  cases hstep with
  | still same =>
    rw [same]
    exact h
  | @stored address pk absent unrevoked sized owner stored =>
    subst stored
    constructor
    · intro other hrevoked
      have hne : other ≠ address := by
        rintro rfl
        exact Bool.false_ne_true (unrevoked.symm.trans hrevoked)
      exact (Finmap.lookup_insert_of_ne _ hne).trans (h.apart other hrevoked)
    · rw [entryCount_stored absent]
      exact (BitVec.toNat_saturatingAdd_le _ _).trans (Nat.add_le_add_right h.counted 1)
  | @revoked address pk held revoked =>
    subst revoked
    have hcount := entryCount_revoked held
    have hcounted := h.counted
    constructor
    · intro other hrevoked
      refine (StorageMap.lookup_erase_eq _ _ _).trans ?_
      split
      · rfl
      · next hne => exact h.apart other ((StorageMap.value_insert_ne _ _ _ hne).symm.trans hrevoked)
    · change (d.totalKeys.saturatingSub 1).toNat ≤ _
      rw [BitVec.toNat_saturatingSub]
      change d.totalKeys.toNat - 1 ≤ _
      omega

theorem registry_genesis : Registry .genesis where
  apart _ _ := Finmap.lookup_empty _
  counted := le_rfl

theorem registry_run (host : Host) (g : GenesisConfig) (steps : List Step) :
    Registry (run host g steps).dilithium :=
  Machine.run_induction (P := fun s => Registry s.dilithium)
    (fun s i h => h.step (step_registers host s i)) registry_genesis steps

theorem Registers.revoked_mono {i : Step} (hstep : Registers host d d' i) {address : Address}
    (h : d.Revoked address) : d'.Revoked address := by
  cases hstep with
  | still same =>
    rw [same]
    exact h
  | stored absent unrevoked sized owner stored =>
    rw [stored]
    exact h
  | revoked held revoked =>
    rw [revoked]
    refine (StorageMap.value_insert_eq _ _ _ _ _).trans ?_
    split
    · rfl
    · exact h

theorem revoked_run (host : Host) (g : GenesisConfig) {before : List Step}
    (hle : before <+: steps) {address : Address} (h : (run host g before).dilithium.Revoked address) :
    (run host g steps).dilithium.Revoked address := by
  obtain ⟨more, rfl⟩ := hle
  rw [run_append]
  exact Machine.run_induction (P := fun s => s.dilithium.Revoked address)
    (fun s i h => (step_registers host s i).revoked_mono h) h more

theorem revoked_of_dispatch {s s' : State} {origin : Origin} {address : Address}
    {sig : Dilithium.Signature}
    (haccepted : dispatch host s origin (.revokeKey address sig) = .ok s') :
    s'.dilithium.Revoked address := by
  cases dispatch_ok haccepted with
  | revokeKey h =>
    obtain ⟨pk, _, _, rfl⟩ := Dilithium.revokeKey_ok h
    exact StorageMap.value_insert _ _ _ _

/-- The root stored this key under this address. -/
def SudoRegistered (steps : List Step) (address : Address) (pk : PublicKey) : Prop :=
  .extrinsic .root (.sudoRegisterKeyForAddress address pk) ∈ steps

/-- A key is held at the digest of its bytes, unless the root put it elsewhere. -/
def Owned (host : Host) (d : Dilithium.Storage) (steps : List Step) : Prop :=
  ∀ address pk, d.publicKeys.lookup address = some pk →
    pk.val.length = dilithium5PkSize ∧
      (deriveAddress host pk.val = address ∨ SudoRegistered steps address pk)

theorem Owned.step {i : Step} (h : Owned host d steps) (hstep : Registers host d d' i) :
    Owned host d' (steps ++ [i]) := by
  have hkeep : ∀ address pk, d.publicKeys.lookup address = some pk →
      pk.val.length = dilithium5PkSize ∧
        (deriveAddress host pk.val = address ∨ SudoRegistered (steps ++ [i]) address pk) := by
    intro address pk hlookup
    obtain ⟨hsized, howner⟩ := h address pk hlookup
    exact ⟨hsized, howner.imp_right (List.mem_append_left _)⟩
  intro address pk hlookup
  cases hstep with
  | still same =>
    rw [same] at hlookup
    exact hkeep address pk hlookup
  | stored absent unrevoked sized owner stored =>
    rw [stored] at hlookup
    have hlookup := (StorageMap.lookup_insert_eq _ _ _ _).symm.trans hlookup
    split at hlookup
    · next heq =>
      cases hlookup
      subst heq
      refine ⟨sized, owner.imp_right ?_⟩
      rintro rfl
      exact List.mem_append_right _ (List.mem_singleton_self _)
    · exact hkeep address pk hlookup
  | revoked held revoked =>
    rw [revoked] at hlookup
    have hlookup := (StorageMap.lookup_erase_eq _ _ _).symm.trans hlookup
    split at hlookup
    · cases hlookup
    · exact hkeep address pk hlookup

theorem owned_run (host : Host) (g : GenesisConfig) (steps : List Step) :
    Owned host (run host g steps).dilithium steps := by
  induction steps using List.reverseRecOn with
  | nil =>
    intro address pk hlookup
    cases (Finmap.lookup_empty _).symm.trans hlookup
  | append_singleton steps i ih =>
    rw [run_snoc]
    exact ih.step (step_registers host _ i)

/-- The counter is exact as long as no count has reached its limit. -/
theorem Registers.counted {i : Step} (hstep : Registers host d d' i)
    (h : d.totalKeys.toNat = d.entryCount) (hfits : d'.entryCount < 2 ^ 64) :
    d'.totalKeys.toNat = d'.entryCount := by
  cases hstep with
  | still same =>
    rw [same]
    exact h
  | @stored address pk absent unrevoked sized owner stored =>
    have hcount : (d.stored address pk).entryCount = d.entryCount + 1 := entryCount_stored absent
    rw [stored] at hfits ⊢
    rw [hcount] at hfits ⊢
    rw [← h] at hfits ⊢
    exact BitVec.toNat_saturatingAdd_of_lt hfits
  | @revoked address pk held revoked =>
    have hcount := entryCount_revoked held
    rw [revoked]
    refine (BitVec.toNat_saturatingSub _ _).trans ?_
    rw [h, ← hcount]
    rfl

theorem counted_run (host : Host) (g : GenesisConfig) (steps : List Step)
    (hfits : ∀ before, before <+: steps → (run host g before).dilithium.entryCount < 2 ^ 64) :
    (run host g steps).dilithium.totalKeys.toNat =
      (run host g steps).dilithium.entryCount := by
  induction steps using List.reverseRecOn with
  | nil => rfl
  | append_singleton steps i ih =>
    have hprev := ih fun before hle => hfits before (hle.trans (List.prefix_append _ _))
    have hnext := hfits _ (List.prefix_refl _)
    rw [run_snoc] at hnext ⊢
    exact (step_registers host _ i).counted hprev hnext

/-- What holds of the registry after every run. -/
structure Lifecycle (host : Host) (g : GenesisConfig) (steps : List Step) : Prop where
  apart : ∀ address, (run host g steps).dilithium.Revoked address →
    address ∉ (run host g steps).dilithium.publicKeys
  final : ∀ before address, before <+: steps → (run host g before).dilithium.Revoked address →
    address ∉ (run host g steps).dilithium.publicKeys
  revoked : ∀ before origin address sig s',
    before ++ [.extrinsic origin (.revokeKey address sig)] <+: steps →
    dispatch host (run host g before) origin (.revokeKey address sig) = .ok s' →
    (run host g steps).dilithium.Revoked address
  owned : Owned host (run host g steps).dilithium steps
  counted_le : (run host g steps).dilithium.totalKeys.toNat ≤
    (run host g steps).dilithium.entryCount
  counted : (∀ before, before <+: steps → (run host g before).dilithium.entryCount < 2 ^ 64) →
    (run host g steps).dilithium.totalKeys.toNat = (run host g steps).dilithium.entryCount

theorem registry_lifecycle (host : Host) (g : GenesisConfig) (steps : List Step) :
    Lifecycle host g steps where
  apart address h := Finmap.lookup_eq_none.mp ((registry_run host g steps).apart address h)
  final before address hle h :=
    Finmap.lookup_eq_none.mp ((registry_run host g steps).apart address (revoked_run host g hle h))
  revoked before origin address sig s' hle h := by
    apply revoked_run host g hle
    rw [run_snoc]
    simp only [step, h]
    exact revoked_of_dispatch h
  owned := owned_run host g steps
  counted_le := (registry_run host g steps).counted
  counted := counted_run host g steps

/-! ## A counter at its limit -/

def blankKey : PublicKey := 
  ⟨List.replicate dilithium5PkSize 0, List.length_replicate.trans_le (by decide)⟩

/-- The root registers one key under `n` addresses. -/
def crowd (n : Nat) : List Step :=
  (List.range n).map fun i =>
    .extrinsic .root (.sudoRegisterKeyForAddress ⟨BitVec.ofNat 256 i⟩ blankKey)

theorem crowd_succ (n : Nat) : crowd (n + 1) = crowd n ++
    [.extrinsic .root (.sudoRegisterKeyForAddress ⟨BitVec.ofNat 256 n⟩ blankKey)] := by
  simp [crowd, List.range_succ]

/-- The registry after a crowd. -/
structure Crowded (d : Dilithium.Storage) (n : Nat) : Prop where
  room : ∀ i, n ≤ i → i < 2 ^ 256 → (⟨BitVec.ofNat 256 i⟩ : Address) ∉ d.publicKeys
  unrevoked : ∀ address, d.revokedKeys.value false address = false
  entries : d.entryCount = n
  counter : d.totalKeys.toNat = min n (2 ^ 64 - 1)

theorem Crowded.stored {n : Nat} (h : Crowded d n) (hn : n < 2 ^ 256) :
    Crowded (d.stored ⟨BitVec.ofNat 256 n⟩ blankKey) (n + 1) where
  room i hle hlt hmem := by
    have hne : (⟨BitVec.ofNat 256 i⟩ : Address) ≠ ⟨BitVec.ofNat 256 n⟩ := by
      intro heq
      have hnat := congrArg (fun a : Address => a.bytes.toNat) heq
      simp only [BitVec.toNat_ofNat, Nat.mod_eq_of_lt hlt, Nat.mod_eq_of_lt hn] at hnat
      omega
    cases Finmap.mem_insert.mp hmem with
    | inl heq => exact hne heq
    | inr hold => exact h.room i (Nat.le_of_succ_le hle) hlt hold
  unrevoked := h.unrevoked
  entries := by rw [entryCount_stored (h.room n le_rfl hn), h.entries]
  counter := by
    refine (BitVec.toNat_saturatingAdd _ _).trans ?_
    rw [h.counter]
    simp
    omega

theorem crowded_run (host : Host) (g : GenesisConfig) {n : Nat} (hn : n ≤ 2 ^ 256) :
    Crowded (run host g (crowd n)).dilithium n := by
  induction n with
  | zero => exact ⟨fun _ _ _ => Finmap.notMem_empty, fun _ => StorageMap.value_empty _ _, rfl, rfl⟩
  | succ n ih =>
    have hprev := ih (Nat.le_of_succ_le hn)
    have hstored : Dilithium.sudoRegisterKeyForAddress (run host g (crowd n)).dilithium
        ⟨BitVec.ofNat 256 n⟩ blankKey =
          .ok ((run host g (crowd n)).dilithium.stored ⟨BitVec.ofNat 256 n⟩ blankKey) :=
      Dilithium.sudoRegisterKeyForAddress_eq_ok.mpr ⟨List.length_replicate,
        Dilithium.storeKey_eq_ok.mpr ⟨hprev.room n le_rfl hn, hprev.unrevoked _, rfl⟩⟩
    rw [crowd_succ, run_snoc]
    simp only [step, dispatch, ensureRoot, hstored, Checked.ok_bind, Checked.mapError_ok,
      Checked.pure_eq_ok]
    exact hprev.stored hn

theorem totalKeys_saturates :
    (run Sample.host Sample.genesis (crowd (2 ^ 64))).dilithium.totalKeys.toNat ≠
      (run Sample.host Sample.genesis (crowd (2 ^ 64))).dilithium.entryCount := by
  have h := crowded_run Sample.host Sample.genesis (n := 2 ^ 64)
    (Nat.pow_le_pow_right (by decide) (by decide))
  rw [h.counter, h.entries]
  decide

end Qubitcoin.Substrate
