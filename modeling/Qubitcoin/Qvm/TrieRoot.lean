import Qubitcoin.Qvm.TrieContents

/-! The root hash commits to the whole map; a proof against it commits to nothing. -/

namespace Qubitcoin.Qvm

open Node (toHex hexDigit)

theorem hexDigit_inj {m n : ℕ} (hm : m < 16) (hn : n < 16) (h : hexDigit m = hexDigit n) :
    m = n := by
  have hdigits : ∀ i j : Nibble, hexDigit i = hexDigit j → i = j := by decide
  exact Fin.val_eq_of_eq (hdigits ⟨m, hm⟩ ⟨n, hn⟩ h)

theorem toHex_injective : Function.Injective toHex := by
  have hcode : PrefixFree (fun _ : UInt8 => True)
      fun b => [hexDigit (b.toNat / 16), hexDigit (b.toNat % 16)] := by
    intro a b _ _ h
    have heq := h.eq_of_length rfl
    simp only [List.cons.injEq, and_true] at heq
    have ha := a.toNat_lt
    have hb := b.toNat_lt
    have hhigh := hexDigit_inj (by omega) (by omega) heq.1
    have hlow := hexDigit_inj (by omega) (by omega) heq.2
    apply UInt8.toNat_inj.mp
    omega
  intro xs ys h
  exact hcode.flatMap_inj (fun _ => List.cons_ne_nil _ _) (fun _ _ => trivial)
    (fun _ _ => trivial) (String.ofList_injective h)

theorem length_toHex (bytes : Bytes) : (toHex bytes).length = 2 * bytes.length := by
  unfold toHex
  rw [String.length_ofList, List.length_flatMap]
  simp [Nat.mul_comm]

namespace TrieNode

variable {t u : TrieNode} {n : ℕ}

/-- Paths are no longer than the hashes of keys, and the values are the entries. -/
theorem Normal.encodable (ht : t.Normal n) (hn : n ≤ 64)
    (hvalues : ∀ ks v, t.get ks = some v → v.length < 2 ^ 63) : t.Encodable := by
  induction t generalizing n with
  | empty => trivial
  | leaf path value =>
    obtain ⟨rfl, -⟩ := ht
    exact ⟨hn, hvalues path value (by rw [get, if_pos rfl])⟩
  | extension path nextNode ih =>
    obtain ⟨-, hbranch, m, rfl, hnext⟩ := ht
    refine ⟨by omega, ?_, ih hnext (by omega) ?_⟩
    · rintro rfl
      cases hbranch
    · intro ks v hget
      exact hvalues (path ++ ks) v (by rw [get_extension_append, hget])
  | branch children value ih =>
    obtain ⟨rfl, ⟨m, rfl, hchildren⟩, -⟩ := ht
    refine ⟨by norm_num, ?_⟩
    intro i
    apply ih i (hchildren i) (by omega)
    intro ks v hget
    exact hvalues (i :: ks) v hget

end TrieNode

namespace MerklePatriciaTrie

open TrieNode

variable {keccak256 : Bytes → Bytes} {trie trie' : MerklePatriciaTrie}

theorem rootHash_of_empty (h : trie.root = TrieNode.empty) :
    trie.rootHash keccak256 = toHex (keccak256 [0x80]) := by
  rw [rootHash, if_pos (TrieNode.isEmpty_iff.mpr h)]
  rfl

theorem rootHash_of_ne_empty (h : trie.root ≠ TrieNode.empty) :
    trie.rootHash keccak256 = toHex (digest keccak256 (encode keccak256 trie.root)) := by
  rw [rootHash, if_neg (mt TrieNode.isEmpty_iff.mp h)]
  rfl

section Commitment

variable (hlength : ∀ data, (keccak256 data).length = 32) {S : Set Bytes}

include hlength

/-- No node has the root hash of the empty trie. -/
theorem rootHash_ne_empty (hinj : Set.InjOn keccak256 S) (hempty : [0x80] ∈ S)
    (hmem : ∀ x ∈ encodings keccak256 trie.root, x ∈ S) (h : trie.root ≠ TrieNode.empty) :
    toHex (keccak256 [0x80]) ≠ trie.rootHash keccak256 := by
  rw [rootHash_of_ne_empty h]
  intro heq
  have htwo := two_le_length_encode keccak256 h
  have hdigest := toHex_injective heq
  rw [digest] at hdigest
  split at hdigest
  · next hshort =>
    rw [← hdigest, hlength] at hshort
    omega
  · have hencode := hinj hempty (hmem _ (encode_mem h)) hdigest
    rw [← hencode] at htwo
    simp at htwo

theorem root_eq_of_rootHash (hinj : Set.InjOn keccak256 S) (hempty : [0x80] ∈ S)
    (hmem : ∀ x ∈ encodings keccak256 trie.root, x ∈ S)
    (hmem' : ∀ x ∈ encodings keccak256 trie'.root, x ∈ S)
    (hencodable : trie.root.Encodable) (hencodable' : trie'.root.Encodable)
    (h : trie.rootHash keccak256 = trie'.rootHash keccak256) : trie.root = trie'.root := by
  by_cases hroot : trie.root = TrieNode.empty <;> by_cases hroot' : trie'.root = TrieNode.empty
  · rw [hroot, hroot']
  · rw [rootHash_of_empty hroot] at h
    exact absurd h (rootHash_ne_empty hlength hinj hempty hmem' hroot')
  · rw [rootHash_of_empty hroot'] at h
    exact absurd h.symm (rootHash_ne_empty hlength hinj hempty hmem hroot)
  · rw [rootHash_of_ne_empty hroot, rootHash_of_ne_empty hroot'] at h
    have hencode := digest_inj hlength hinj (hmem _ (encode_mem hroot))
      (hmem' _ (encode_mem hroot')) (toHex_injective h)
    exact encode_inj hlength hinj hencodable hencodable' hmem hmem' hroot hroot' hencode

end Commitment

/-- One trie represents one map, where the keys have paths of their own. -/
theorem Represents.map_eq {t : TrieNode} {map map' : StorageMap Bytes Bytes} {K : Set Bytes}
    (hinj : Set.InjOn keccak256 K) (hkeys : ∀ key v, map.lookup key = some v → key ∈ K)
    (hkeys' : ∀ key v, map'.lookup key = some v → key ∈ K) (h : Represents keccak256 t map)
    (h' : Represents keccak256 t map') : map = map' := by
  have hsub {m m' : StorageMap Bytes Bytes} (hm : ∀ key v, m.lookup key = some v → key ∈ K)
      (hm' : ∀ key v, m'.lookup key = some v → key ∈ K) (hr : Represents keccak256 t m)
      (hr' : Represents keccak256 t m') (key v : Bytes) (hkey : m.lookup key = some v) :
      m'.lookup key = some v := by
    have hget := (hr.get_iff (path keccak256 key) v).mpr ⟨key, hkey, rfl⟩
    obtain ⟨key', hkey', hpath⟩ := (hr'.get_iff _ v).mp hget
    rwa [hinj (hm' _ _ hkey') (hm _ _ hkey) (bytesToNibbles_injective hpath)] at hkey'
  apply Finmap.ext_lookup
  intro key
  apply Option.ext
  intro v
  exact ⟨hsub hkeys hkeys' h h' key v, hsub hkeys' hkeys h' h key v⟩

/-- One map is represented by one trie. -/
theorem Represents.root_eq {t t' : TrieNode} {map : StorageMap Bytes Bytes}
    (h : Represents keccak256 t map) (h' : Represents keccak256 t' map) : t = t' := by
  apply h.normal.ext h'.normal
  intro ks
  apply Option.ext
  intro v
  rw [h.get_iff, h'.get_iff]

/-- What is hashed for the root hashes of two tries: the keys, the nodes, and the empty trie. -/
def hashedFor (keccak256 : Bytes → Bytes) (ops ops' : List Op) : List Bytes :=
  [0x80] :: (ops ++ ops').map Op.key ++ encodings keccak256 (after keccak256 ops).root ++
    encodings keccak256 (after keccak256 ops').root

/-- As long as the hash does not collide on the keys and the nodes, the root hashes of two tries
agree exactly when their calls describe one map.  Values are no longer than a byte string can be. -/
theorem rootHash_eq_iff (keccak256 : Bytes → Bytes)
    (hlength : ∀ data, (keccak256 data).length = 32) (ops ops' : List Op)
    (hvalues : ∀ key value, Op.put key value ∈ ops ++ ops' → value.length < 2 ^ 63)
    (hinj : Set.InjOn keccak256 {x | x ∈ hashedFor keccak256 ops ops'}) :
    (after keccak256 ops).rootHash keccak256 = (after keccak256 ops').rootHash keccak256 ↔
      contents ops = contents ops' := by
  have hkeys : Set.InjOn keccak256 {k | k ∈ (ops ++ ops').map Op.key} := by
    apply hinj.mono
    intro k hk
    exact List.mem_append_left _ (List.mem_append_left _ (List.mem_cons_of_mem _ hk))
  rw [List.map_append] at hkeys
  have hr := (holds_after hlength (hkeys.mono fun k hk => List.mem_append_left _ hk)).represents
  have hr' := (holds_after hlength (hkeys.mono fun k hk => List.mem_append_right _ hk)).represents
  constructor
  · intro hroots
    have hencodable : (after keccak256 ops).root.Encodable := by
      apply hr.normal.encodable le_rfl
      intro ks v hget
      obtain ⟨key, hlookup, -⟩ := (hr.get_iff ks v).mp hget
      exact hvalues key v (List.mem_append_left _ (put_mem_of_contents hlookup))
    have hencodable' : (after keccak256 ops').root.Encodable := by
      apply hr'.normal.encodable le_rfl
      intro ks v hget
      obtain ⟨key, hlookup, -⟩ := (hr'.get_iff ks v).mp hget
      exact hvalues key v (List.mem_append_right _ (put_mem_of_contents hlookup))
    have heq := root_eq_of_rootHash hlength hinj
      (List.mem_append_left _ (List.mem_append_left _ List.mem_cons_self))
      (fun x hx => List.mem_append_left _ (List.mem_append_right _ hx))
      (fun x hx => List.mem_append_right _ hx) hencodable hencodable' hroots
    rw [← heq] at hr'
    exact hr.map_eq hkeys (fun key v hk => List.mem_append_left _ (key_mem_of_contents hk))
      (fun key v hk => List.mem_append_right _ (key_mem_of_contents hk)) hr'
  · intro hcontents
    rw [← hcontents] at hr'
    have heq := hr.root_eq hr'
    rw [rootHash, rootHash, heq]

/-- The map of `sampleOps`, put in another order. -/
def reorderedOps : List Op := [.put [98] [50], .put [97] [49]]

theorem rootHash_eq_iff_sample :
    (after sampleKeccak sampleOps).rootHash sampleKeccak =
      (after sampleKeccak reorderedOps).rootHash sampleKeccak := by
  have hvalues : ∀ key value, Op.put key value ∈ sampleOps ++ reorderedOps →
      value.length < 2 ^ 63 := by
    intro key value h
    simp only [sampleOps, reorderedOps, List.cons_append, List.nil_append, List.mem_cons,
      Op.put.injEq, reduceCtorEq, false_or, List.not_mem_nil, or_false] at h
    obtain ⟨-, rfl⟩ | ⟨-, rfl⟩ | ⟨-, rfl⟩ | ⟨-, rfl⟩ | ⟨-, rfl⟩ := h <;> norm_num
  have hinj : Set.InjOn sampleKeccak {x | x ∈ hashedFor sampleKeccak sampleOps reorderedOps} := by
    have hdistinct : ∀ x ∈ hashedFor sampleKeccak sampleOps reorderedOps,
        ∀ y ∈ hashedFor sampleKeccak sampleOps reorderedOps,
          sampleKeccak x = sampleKeccak y → x = y := by decide +kernel
    exact fun x hx y hy => hdistinct x hx y hy
  exact (rootHash_eq_iff sampleKeccak length_sampleKeccak _ _ hvalues hinj).mpr (by decide)

section Proofs

/-- The value is the entry of the key; the empty value stands for no entry. -/
def Answers (keccak256 : Bytes → Bytes) (trie : MerklePatriciaTrie) (key value : Bytes) : Prop :=
  trie.get keccak256 key = if value = [] then none else some value

/-- The root node, and a node made up around the value. -/
def forgedProof (keccak256 : Bytes → Bytes) (trie : MerklePatriciaTrie) (value : Bytes) :
    List Bytes := [encode keccak256 trie.root, value ++ [0]]

/-- Nothing links the nodes of a proof, nor the last one to the key. -/
theorem verifyProof_forged (h : trie.root ≠ TrieNode.empty) (key value : Bytes) :
    verifyProof keccak256 (trie.rootHash keccak256) key value (forgedProof keccak256 trie value) =
      true := by
  have hblank : ¬(value ++ [0] = [] ∨ value ++ [0] = [0x80]) := by
    rintro (hblank | hblank)
    · simp at hblank
    · have hlast := congrArg List.getLast? hblank
      simp at hlast
  have hmade : walkProof value [value ++ [0]] = true := by
    rw [walkProof, if_neg hblank, if_pos rfl]
    exact decide_eq_true (List.prefix_append value [0]).isInfix
  have hwalk : walkProof value (forgedProof keccak256 trie value) = true :=
    walkProof_cons h (List.cons_ne_nil _ _) hmade
  rw [forgedProof] at hwalk ⊢
  rw [verifyProof, rootHash_of_ne_empty h, hwalk, Bool.and_true, decide_eq_true_iff, digest]
  split <;> rfl

/-- Against the root hash of the empty trie only the absence of a key is accepted. -/
theorem value_eq_nil_of_verifyProof (hlength : ∀ data, (keccak256 data).length = 32)
    (hempty : ∀ data, 32 ≤ data.length → keccak256 data ≠ keccak256 [0x80])
    (h : trie.root = TrieNode.empty) {key value : Bytes} {proof : List Bytes}
    (haccepted : verifyProof keccak256 (trie.rootHash keccak256) key value proof = true) :
    value = [] := by
  rw [rootHash_of_empty h] at haccepted
  cases proof with
  | nil => simpa [verifyProof, emptyRoot] using haccepted
  | cons firstNode rest =>
    simp only [verifyProof, Bool.and_eq_true, decide_eq_true_eq] at haccepted
    have hroot := haccepted.1
    split at hroot
    · next hshort =>
      rw [toHex_injective hroot, hlength] at hshort
      omega
    · next hlong => exact absurd (toHex_injective hroot) (hempty firstNode (not_lt.mp hlong))

end Proofs

end MerklePatriciaTrie

end Qubitcoin.Qvm
