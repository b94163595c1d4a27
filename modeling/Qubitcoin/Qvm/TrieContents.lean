import Qubitcoin.Library.StorageMap
import Qubitcoin.Qvm.TrieEncoding

/-! The trie as a finite map: what the operations do to the entries, to the size and to the nodes
that prove an entry. -/

namespace Qubitcoin.Qvm

namespace TrieNode

variable {t : TrieNode} {ks : List Nibble} {v : Bytes} {n : ℕ}

theorem sharedPrefixLength_eq_iff (as bs : List Nibble) :
    sharedPrefixLength as bs = bs.length ↔ as.take bs.length = bs := by
  induction bs generalizing as with
  | nil => cases as <;> simp [sharedPrefixLength]
  | cons b bs ih =>
    cases as with
    | nil => simp [sharedPrefixLength]
    | cons a as =>
      rw [sharedPrefixLength]
      split
      · next heq => simp [heq, ih]
      · next hne => simp [hne]

/-- Where the path has an entry, putting one makes the trie no larger. -/
theorem Normal.sizeCorrection_eq (ht : t.Normal n) (hks : ks.length = n) :
    t.sizeCorrection ks v = if (t.get ks).isSome then 1 else 0 := by
  induction t generalizing n ks with
  | empty => rfl
  | leaf path value =>
    rw [sizeCorrection, get]
    split <;> rfl
  | extension path nextNode ih =>
    obtain ⟨-, -, m, rfl, hnext⟩ := ht
    rw [sizeCorrection, get]
    by_cases hpath : ks.take path.length = path
    · rw [if_pos ((sharedPrefixLength_eq_iff ks path).mpr hpath), if_pos hpath]
      exact ih hnext (by rw [List.length_drop, hks, Nat.add_sub_cancel_left])
    · rw [if_neg (mt (sharedPrefixLength_eq_iff ks path).mp hpath), if_neg hpath]
      rfl
  | branch children value ih =>
    obtain ⟨-, ⟨m, rfl, hchildren⟩, -⟩ := ht
    cases ks with
    | nil => cases hks
    | cons idx ks => exact ih idx (hchildren idx) (Nat.succ.inj hks)

theorem collectProof_head (keccak256 : Bytes → Bytes) (h : t ≠ empty) (ks : List Nibble) :
    ∃ rest, collectProof keccak256 t ks = encode keccak256 t :: rest := by
  cases t with
  | empty => exact absurd rfl h
  | leaf path value => exact ⟨_, rfl⟩
  | extension path nextNode => exact ⟨_, rfl⟩
  | branch children value => cases ks <;> exact ⟨_, rfl⟩

theorem collectProof_ne_nil (keccak256 : Bytes → Bytes) (hget : t.get ks = some v) :
    collectProof keccak256 t ks ≠ [] := by
  have hne : t ≠ empty := by
    rintro rfl
    cases hget
  obtain ⟨rest, hproof⟩ := collectProof_head keccak256 hne ks
  rw [hproof]
  exact List.cons_ne_nil _ _

/-- The walk does not take the encoding of a node for an empty one. -/
theorem encode_not_blank (keccak256 : Bytes → Bytes) (h : t ≠ empty) :
    ¬(encode keccak256 t = [] ∨ encode keccak256 t = [0x80]) := by
  have htwo := two_le_length_encode keccak256 h
  rintro (hblank | hblank) <;> simp [hblank] at htwo

open MerklePatriciaTrie (walkProof)

/-- The walk goes on behind a node that is not the last one. -/
theorem walkProof_cons {keccak256 : Bytes → Bytes} (h : t ≠ empty) {proof : List Bytes}
    (hproof : proof ≠ []) (hrest : walkProof v proof = true) :
    walkProof v (encode keccak256 t :: proof) = true := by
  rw [walkProof, if_neg (encode_not_blank keccak256 h), if_neg hproof, hrest]

theorem walkProof_singleton {keccak256 : Bytes → Bytes} (h : t ≠ empty)
    (hvalue : v <:+: encode keccak256 t) : walkProof v [encode keccak256 t] = true := by
  rw [walkProof, if_neg (encode_not_blank keccak256 h), if_pos rfl]
  exact decide_eq_true hvalue

/-- The nodes on the way to an entry end in its leaf, whose encoding contains the value. -/
theorem Normal.walkProof_collectProof (keccak256 : Bytes → Bytes) (ht : t.Normal n)
    (hget : t.get ks = some v) : walkProof v (collectProof keccak256 t ks) = true := by
  induction t generalizing n ks with
  | empty => cases hget
  | leaf path value =>
    obtain ⟨rfl, rfl⟩ := eq_of_get_leaf hget
    exact walkProof_singleton (fun h => by cases h) (infix_rlpEncodeList (by simp))
  | extension path nextNode ih =>
    obtain ⟨-, -, m, rfl, hnext⟩ := ht
    obtain ⟨rest, rfl⟩ := prefix_of_get_extension hget
    rw [get_extension_append] at hget
    rw [collectProof, List.take_left, if_pos rfl, List.drop_left]
    have hne : extension path nextNode ≠ empty := fun h => by cases h
    exact walkProof_cons hne (collectProof_ne_nil keccak256 hget) (ih hnext hget)
  | branch children value ih =>
    obtain ⟨rfl, ⟨m, rfl, hchildren⟩, -⟩ := ht
    cases ks with
    | nil => cases hget
    | cons idx ks =>
      rw [get] at hget
      rw [collectProof]
      have hne : branch children [] ≠ empty := fun h => by cases h
      exact walkProof_cons hne (collectProof_ne_nil keccak256 hget) (ih idx (hchildren idx) hget)

end TrieNode

namespace MerklePatriciaTrie

open TrieNode

def Op.key : Op → Bytes
  | .put key _ => key
  | .delete key => key

/-- What a call leaves under its key; an empty value deletes. -/
def Op.value : Op → Option Bytes
  | .put _ value => if value = [] then none else some value
  | .delete _ => none

def write (map : StorageMap Bytes Bytes) (op : Op) : StorageMap Bytes Bytes :=
  match op.value with
  | some value => map.insert op.key value
  | none => map.erase op.key

/-- The map that a sequence of calls describes: under each key the last value put, unless it was
deleted. -/
def contents (ops : List Op) : StorageMap Bytes Bytes := ops.foldl write ∅

/-- The path of a key. -/
def path (keccak256 : Bytes → Bytes) (key : Bytes) : List Nibble := bytesToNibbles (keccak256 key)

/-- The entries of the trie are those of the map, under the paths of the keys. -/
structure Represents (keccak256 : Bytes → Bytes) (t : TrieNode) (map : StorageMap Bytes Bytes) :
    Prop where
  normal : t.Normal 64
  get_iff : ∀ ks v, t.get ks = some v ↔ ∃ key, map.lookup key = some v ∧ path keccak256 key = ks

/-- No other key of the map has the path of `key`. -/
def Separate (keccak256 : Bytes → Bytes) (map : StorageMap Bytes Bytes) (key : Bytes) : Prop :=
  ∀ key' v, map.lookup key' = some v → keccak256 key' = keccak256 key → key' = key

variable {keccak256 : Bytes → Bytes} {t : TrieNode} {map : StorageMap Bytes Bytes}
  {key value : Bytes}

theorem Separate.eq_of_path (h : Separate keccak256 map key) {key' v : Bytes}
    (hkey : map.lookup key' = some v) (hpath : path keccak256 key' = path keccak256 key) :
    key' = key := h key' v hkey (bytesToNibbles_injective hpath)

theorem Represents.get_eq (h : Represents keccak256 t map) (hsep : Separate keccak256 map key) :
    t.get (path keccak256 key) = map.lookup key := by
  apply Option.ext
  intro v
  rw [h.get_iff]
  constructor
  · rintro ⟨key', hkey, hpath⟩
    rwa [hsep.eq_of_path hkey hpath] at hkey
  · intro hkey
    exact ⟨key, hkey, rfl⟩

section Steps

variable (hlength : ∀ data, (keccak256 data).length = 32)

include hlength

theorem length_path (key : Bytes) : (path keccak256 key).length = 64 := by
  rw [path, length_bytesToNibbles, hlength]

theorem Represents.put (h : Represents keccak256 t map) (hsep : Separate keccak256 map key)
    (hvalue : value ≠ []) :
    Represents keccak256 (t.put (path keccak256 key) value) (map.insert key value) := by
  obtain ⟨hnormal, hget⟩ := h.normal.put (length_path hlength key) hvalue
  refine ⟨hnormal, ?_⟩
  intro ks v
  rw [hget]
  split
  · next heq =>
    constructor
    · intro hv
      exact ⟨key, by rw [Finmap.lookup_insert, hv], heq.symm⟩
    · rintro ⟨key', hkey, hpath⟩
      rw [StorageMap.lookup_insert_eq] at hkey
      split at hkey
      · exact hkey
      · next hne => exact absurd (hsep.eq_of_path hkey (hpath.trans heq)) hne
  · next hne =>
    rw [h.get_iff]
    apply exists_congr
    intro key'
    rw [StorageMap.lookup_insert_eq]
    by_cases hkey : key' = key
    · subst hkey
      simp [Ne.symm hne]
    · rw [if_neg hkey]

theorem Represents.delete (h : Represents keccak256 t map) (hsep : Separate keccak256 map key) :
    Represents keccak256 (t.delete (path keccak256 key)).1 (map.erase key) := by
  have hdeletes := h.normal.delete (length_path hlength key)
  refine ⟨hdeletes.normal, ?_⟩
  intro ks v
  rw [hdeletes.lookup]
  split
  · next heq =>
    constructor
    · nofun
    · rintro ⟨key', hkey, hpath⟩
      rw [StorageMap.lookup_erase_eq] at hkey
      split at hkey
      · cases hkey
      · next hne => exact absurd (hsep.eq_of_path hkey (hpath.trans heq)) hne
  · next hne =>
    rw [h.get_iff]
    apply exists_congr
    intro key'
    rw [StorageMap.lookup_erase_eq]
    by_cases hkey : key' = key
    · subst hkey
      simp [Ne.symm hne]
    · rw [if_neg hkey]

end Steps

theorem keys_insert (map : StorageMap Bytes Bytes) (key value : Bytes) :
    (map.insert key value).keys = insert key map.keys := by
  ext k
  simp only [Finset.mem_insert, Finmap.mem_keys, Finmap.mem_insert]

theorem mem_iff_isSome (map : StorageMap Bytes Bytes) (key : Bytes) :
    (map.lookup key).isSome ↔ key ∈ map := by
  rw [Option.isSome_iff_exists, Finmap.mem_iff]

/-- What is there was put there. -/
theorem put_mem_of_contents {ops : List Op} (h : (contents ops).lookup key = some value) :
    Op.put key value ∈ ops := by
  induction ops using List.reverseRecOn with
  | nil => cases h
  | append_singleton ops op ih =>
    rw [contents, List.foldl_append, List.foldl_cons, List.foldl_nil] at h
    change (write (contents ops) op).lookup key = some value at h
    rw [List.mem_append, List.mem_singleton]
    cases op with
    | put key' value' =>
      by_cases hkey : key = key'
      · subst hkey
        by_cases hvalue : value' = [] <;> simp_all [write, Op.value, Op.key]
      · left
        apply ih
        by_cases hvalue : value' = []
        · simpa [write, Op.value, Op.key, hvalue, StorageMap.lookup_erase_eq, hkey] using h
        · simpa [write, Op.value, Op.key, hvalue, StorageMap.lookup_insert_eq, hkey] using h
    | delete key' =>
      left
      apply ih
      by_cases hkey : key = key' <;>
        simp_all [write, Op.value, Op.key, StorageMap.lookup_erase_eq]

theorem key_mem_of_contents {ops : List Op} {v : Bytes} (h : (contents ops).lookup key = some v) :
    key ∈ ops.map Op.key :=
  List.mem_map.mpr ⟨.put key v, put_mem_of_contents h, rfl⟩

/-- The trie holds the map, and counts its keys. -/
structure Holds (keccak256 : Bytes → Bytes) (trie : MerklePatriciaTrie)
    (map : StorageMap Bytes Bytes) : Prop where
  represents : Represents keccak256 trie.root map
  size_eq : trie.size = map.keys.card

section Runs

variable (hlength : ∀ data, (keccak256 data).length = 32) {trie : MerklePatriciaTrie}

theorem holds_new : Holds keccak256 new ∅ where
  represents := ⟨trivial, fun ks v => by simp [new, TrieNode.get, Finmap.lookup_empty]⟩
  size_eq := rfl

include hlength

theorem Holds.delete (h : Holds keccak256 trie map) (hsep : Separate keccak256 map key) :
    Holds keccak256 (trie.delete keccak256 key).1 (map.erase key) ∧
      (trie.delete keccak256 key).2 = (map.lookup key).isSome := by
  have hdeletes := h.represents.normal.delete (length_path hlength key)
  have hrepresents := h.represents.delete hlength hsep
  have hfound := hdeletes.found
  rw [h.represents.get_eq hsep] at hfound
  have hkeys : (map.erase key).keys.card + (if (map.lookup key).isSome then 1 else 0) =
      map.keys.card := by
    rw [Finmap.keys_erase]
    split
    · next hsome =>
      rw [mem_iff_isSome, ← Finmap.mem_keys] at hsome
      exact Finset.card_erase_add_one hsome
    · next hnone =>
      rw [mem_iff_isSome, ← Finmap.mem_keys] at hnone
      rw [Finset.erase_eq_of_notMem hnone, Nat.add_zero]
  simp only [path] at hdeletes hrepresents hfound
  rw [MerklePatriciaTrie.delete]
  generalize trie.root.delete (bytesToNibbles (keccak256 key)) = result
    at hdeletes hrepresents hfound ⊢
  obtain ⟨newRoot, deleted⟩ := result
  cases deleted with
  | true =>
    rw [← hfound, if_pos rfl] at hkeys
    refine ⟨⟨hrepresents, ?_⟩, hfound⟩
    rw [h.size_eq, ← hkeys]
    simp
  | false =>
    rw [← hfound, if_neg Bool.false_ne_true, Nat.add_zero] at hkeys
    refine ⟨⟨?_, by rw [h.size_eq, hkeys]⟩, hfound⟩
    have hkept : newRoot = trie.root := hdeletes.kept rfl
    rwa [hkept] at hrepresents

theorem Holds.put (h : Holds keccak256 trie map) (hsep : Separate keccak256 map key)
    (hvalue : value ≠ []) : Holds keccak256 (trie.put keccak256 key value) (map.insert key value) := by
  rw [MerklePatriciaTrie.put, if_neg hvalue]
  refine ⟨h.represents.put hlength hsep hvalue, ?_⟩
  change trie.size + 1 - trie.root.sizeCorrection (path keccak256 key) value = _
  rw [h.represents.normal.sizeCorrection_eq (length_path hlength key), h.represents.get_eq hsep,
    h.size_eq, keys_insert]
  split
  · next hsome =>
    rw [mem_iff_isSome, ← Finmap.mem_keys] at hsome
    rw [Finset.insert_eq_of_mem hsome]
    ring
  · next hnone =>
    rw [mem_iff_isSome, ← Finmap.mem_keys] at hnone
    rw [Finset.card_insert_of_notMem hnone]
    push_cast
    ring

theorem Holds.apply (h : Holds keccak256 trie map) {op : Op}
    (hsep : Separate keccak256 map op.key) :
    Holds keccak256 (apply keccak256 trie op) (write map op) := by
  cases op with
  | put key value =>
    by_cases hvalue : value = []
    · have hwrite : write map (.put key value) = map.erase key := by
        simp [write, Op.value, Op.key, hvalue]
      rw [hwrite, MerklePatriciaTrie.apply, MerklePatriciaTrie.put, if_pos hvalue]
      exact (h.delete hlength hsep).1
    · have hwrite : write map (.put key value) = map.insert key value := by
        simp [write, Op.value, Op.key, hvalue]
      rw [hwrite]
      exact h.put hlength hsep hvalue
  | delete key => exact (h.delete hlength hsep).1

theorem holds_after {ops : List Op} (hinj : Set.InjOn keccak256 {k | k ∈ ops.map Op.key}) :
    Holds keccak256 (after keccak256 ops) (contents ops) := by
  induction ops using List.reverseRecOn with
  | nil => exact holds_new
  | append_singleton ops op ih =>
    have hsub : {k | k ∈ ops.map Op.key} ⊆ {k | k ∈ (ops ++ [op]).map Op.key} := by
      intro k hk
      simp only [Set.mem_ofPred_eq, List.map_append, List.mem_append] at hk ⊢
      exact .inl hk
    have hsep : Separate keccak256 (contents ops) op.key := by
      intro k v hk heq
      exact hinj (hsub (key_mem_of_contents hk)) (by simp) heq
    rw [after, contents, List.foldl_append, List.foldl_append]
    exact (ih (hinj.mono hsub)).apply hlength hsep

end Runs

/-- The proof of an entry is accepted with its value. -/
theorem verifyProof_getProof {trie : MerklePatriciaTrie} {n : ℕ} (ht : trie.root.Normal n)
    (hget : trie.root.get (path keccak256 key) = some value) :
    verifyProof keccak256 (trie.rootHash keccak256) key value (trie.getProof keccak256 key) =
      true := by
  have hne : trie.root ≠ TrieNode.empty := by
    intro hempty
    rw [hempty] at hget
    cases hget
  have hwalk := ht.walkProof_collectProof keccak256 hget
  obtain ⟨rest, hproof⟩ := collectProof_head keccak256 hne (path keccak256 key)
  change verifyProof keccak256 _ key value (trie.root.collectProof keccak256 (path keccak256 key)) = _
  rw [hproof] at hwalk ⊢
  rw [verifyProof, rootHash, if_neg (mt TrieNode.isEmpty_iff.mp hne), hwalk, Bool.and_true, decide_eq_true_iff]
  unfold TrieNode.hash TrieNode.digest
  split <;> rfl

/-- As long as no two keys collide, the trie is the map that its calls describe: `get` and `delete`
answer by it, the size counts its keys, and every entry has a proof. -/
theorem trie_is_map (keccak256 : Bytes → Bytes) (hlength : ∀ data, (keccak256 data).length = 32)
    (ops : List Op) (key : Bytes)
    (hinj : Set.InjOn keccak256 {k | k ∈ key :: ops.map Op.key}) :
    (after keccak256 ops).get keccak256 key = (contents ops).lookup key ∧
      ((after keccak256 ops).delete keccak256 key).2 = ((contents ops).lookup key).isSome ∧
      (after keccak256 ops).size = (contents ops).keys.card ∧
      ∀ value, (contents ops).lookup key = some value →
        verifyProof keccak256 ((after keccak256 ops).rootHash keccak256) key value
          ((after keccak256 ops).getProof keccak256 key) = true := by
  have hholds := holds_after hlength (hinj.mono fun k hk => List.mem_cons_of_mem key hk)
  have hsep : Separate keccak256 (contents ops) key := by
    intro k v hk heq
    exact hinj (List.mem_cons_of_mem key (key_mem_of_contents hk)) List.mem_cons_self heq
  have hget := hholds.represents.get_eq hsep
  refine ⟨hget, (hholds.delete hlength hsep).2, hholds.size_eq, ?_⟩
  intro value hvalue
  rw [hvalue] at hget
  exact verifyProof_getProof hholds.represents.normal hget

section Sample

/-- Keccak-256 of the keys and the nodes of the runs below. -/
def sampleDigests : List (Bytes × Bytes) := [
    ([97],
      [58, 194, 37, 22, 141, 245, 66, 18, 162, 92, 28, 1, 253, 53, 190, 191, 234, 64, 143, 218,
      194, 227, 29, 221, 111, 128, 164, 187, 249, 165, 241, 203]),
    ([98],
      [181, 85, 61, 227, 21, 224, 237, 245, 4, 217, 21, 10, 248, 45, 175, 165, 196, 102, 127, 166,
      24, 237, 10, 111, 25, 198, 155, 65, 22, 108, 85, 16]),
    ([99],
      [11, 66, 182, 57, 60, 31, 83, 6, 15, 227, 221, 191, 205, 122, 173, 204, 168, 148, 70, 90,
      90, 67, 143, 105, 200, 125, 121, 11, 34, 153, 185, 178]),
    ([0x80],
      [86, 232, 31, 23, 27, 204, 85, 166, 255, 131, 69, 230, 146, 192, 248, 110, 91, 72, 224, 27,
      153, 108, 173, 192, 1, 98, 47, 181, 227, 99, 180, 33]),
    ([226, 160, 58, 194, 37, 22, 141, 245, 66, 18, 162, 92, 28, 1, 253, 53, 190, 191, 234, 64,
     143, 218, 194, 227, 29, 221, 111, 128, 164, 187, 249, 165, 241, 203, 49],
      [194, 147, 252, 1, 148, 67, 46, 132, 123, 153, 202, 254, 87, 216, 28, 124, 56, 246, 218,
      121, 28, 105, 140, 19, 127, 7, 123, 42, 14, 213, 56, 55]),
    ([226, 160, 53, 85, 61, 227, 21, 224, 237, 245, 4, 217, 21, 10, 248, 45, 175, 165, 196, 102,
     127, 166, 24, 237, 10, 111, 25, 198, 155, 65, 22, 108, 85, 16, 50],
      [189, 135, 238, 18, 118, 181, 2, 175, 150, 35, 188, 194, 75, 164, 116, 76, 247, 249, 92,
      249, 131, 64, 93, 195, 155, 136, 130, 211, 185, 232, 153, 118]),
    ([248, 81, 128, 128, 128, 160, 194, 147, 252, 1, 148, 67, 46, 132, 123, 153, 202, 254, 87,
     216, 28, 124, 56, 246, 218, 121, 28, 105, 140, 19, 127, 7, 123, 42, 14, 213, 56, 55, 128,
     128, 128, 128, 128, 128, 128, 160, 189, 135, 238, 18, 118, 181, 2, 175, 150, 35, 188, 194,
     75, 164, 116, 76, 247, 249, 92, 249, 131, 64, 93, 195, 155, 136, 130, 211, 185, 232, 153,
     118, 128, 128, 128, 128, 128],
      [148, 108, 24, 47, 222, 52, 129, 136, 65, 55, 31, 48, 86, 7, 153, 29, 219, 20, 162, 219,
      227, 90, 216, 202, 229, 191, 113, 86, 231, 139, 2, 203])]

def sampleKeccak (data : Bytes) : Bytes := (sampleDigests.lookup data).getD (List.replicate 32 0)

theorem length_sampleKeccak (data : Bytes) : (sampleKeccak data).length = 32 := by
  have htable : ∀ entry ∈ sampleDigests, entry.2.length = 32 := by decide
  unfold sampleKeccak
  cases hlookup : sampleDigests.lookup data with
  | none => rfl
  | some digest =>
    obtain ⟨before, after, htext, _⟩ := List.lookup_eq_some_iff.mp hlookup
    exact htable (data, digest) (by simp [htext])

/-- A third key comes and goes. -/
def sampleOps : List Op :=
  [.put [97] [49], .put [99] [51], .put [98] [50], .delete [99]]

end Sample

theorem trie_is_map_sample :
    (after sampleKeccak sampleOps).get sampleKeccak [98] = some [50] ∧
      ((after sampleKeccak sampleOps).delete sampleKeccak [98]).2 = true ∧
      (after sampleKeccak sampleOps).size = 2 ∧
      verifyProof sampleKeccak ((after sampleKeccak sampleOps).rootHash sampleKeccak) [98] [50]
        ((after sampleKeccak sampleOps).getProof sampleKeccak [98]) = true := by
  have hinj : Set.InjOn sampleKeccak {k | k ∈ [98] :: sampleOps.map Op.key} := by
    have hkeys : ∀ k ∈ [98] :: sampleOps.map Op.key, ∀ k' ∈ [98] :: sampleOps.map Op.key,
        sampleKeccak k = sampleKeccak k' → k = k' := by decide +kernel
    exact fun k hk k' hk' => hkeys k hk k' hk'
  have hvalue : (contents sampleOps).lookup [98] = some [50] := by decide
  have hcard : (contents sampleOps).keys.card = 2 := by decide
  obtain ⟨hget, hdelete, hsize, hproof⟩ :=
    trie_is_map sampleKeccak length_sampleKeccak sampleOps [98] hinj
  rw [hvalue] at hget hdelete
  rw [hcard] at hsize
  exact ⟨hget, hdelete, hsize, hproof [50] hvalue⟩

end MerklePatriciaTrie

end Qubitcoin.Qvm
