import Qubitcoin.Library.Bytes
import Qubitcoin.Library.CompletedMerkle
import Qubitcoin.Library.OrderedMap

/-! The incremental Merkle tree of a graph shard, from `merkle.rs`: its cached root, and the proofs of
its leaves. -/

namespace Qubitcoin.Aether

abbrev Hash := Vector UInt8 32

/-- The empty root. -/
def zeroHash : Hash := Vector.replicate 32 0

/-- The ids are only compared.  `level_cache` is written and never read. -/
structure IncrementalMerkle where
  leaves : StorageMap ℤ Hash := ∅
  cachedRoot : Option Hash := none
  dirty : Bool := true

namespace IncrementalMerkle

open Merkle

section Operations

variable (sha256 : Bytes → Hash)

def hashPair (left right : Hash) : Hash := sha256 (left.toList ++ right.toList)

/-- The level above, by `chunks(2)`; an odd leaf is duplicated. -/
def nextLevel : List Hash → List Hash
  | a :: b :: rest => hashPair sha256 a b :: nextLevel rest
  | [a] => [hashPair sha256 a a]
  | [] => []

/-- The loop of `build_tree`. -/
def buildLoop : ℕ → List Hash → List Hash
  | 0, level => level
  | fuel + 1, level => if 1 < level.length then buildLoop fuel (nextLevel sha256 level) else level

/-- `build_tree`. -/
def buildTree (hashes : List Hash) : Hash :=
  if hashes = [] then zeroHash else (buildLoop sha256 hashes.length hashes).headD zeroHash

/-- The other child of the parent; a node without one stands beside itself. -/
def sibling (level : List Hash) (idx : ℕ) : Hash :=
  let siblingIdx := if idx % 2 = 0 then idx + 1 else idx - 1
  if siblingIdx < level.length then level.getD siblingIdx zeroHash else level.getD idx zeroHash

/-- The loop of `proof`, with the siblings and whether they are on the right. -/
def proofLoop : ℕ → List Hash → ℕ → List (Hash × Bool)
  | 0, _, _ => []
  | fuel + 1, level, idx =>
    if 1 < level.length then
      (sibling level idx, idx % 2 = 0) :: proofLoop fuel (nextLevel sha256 level) (idx / 2)
    else []

variable (self : IncrementalMerkle)

def insert (nodeId : ℤ) (leafHash : Hash) : IncrementalMerkle where
  leaves := Finmap.insert nodeId leafHash self.leaves
  dirty := true
  cachedRoot := none

def remove (nodeId : ℤ) : Bool × IncrementalMerkle :=
  match self.leaves.lookup nodeId with
  | some _ =>
    (true, { leaves := Finmap.erase nodeId self.leaves, dirty := true, cachedRoot := none })
  | none => (false, self)

def root : Hash × IncrementalMerkle :=
  match self.cachedRoot with
  | some root => (root, self)
  | none =>
    if self.leaves = ∅ then (zeroHash, { self with cachedRoot := some zeroHash })
    else
      let root := buildTree sha256 self.leaves.orderedValues
      (root, { self with cachedRoot := some root, dirty := false })

def proof (nodeId : ℤ) : Option (List (Hash × Bool)) × IncrementalMerkle :=
  let self := (self.root sha256).2
  let hashes := self.leaves.orderedValues
  ((self.leaves.orderedKeys.findIdx? (· = nodeId)).map fun pos =>
    proofLoop sha256 hashes.length hashes pos, self)

/-- The loop of `verify_proof`. -/
def climbProof (current : Hash) : List (Hash × Bool) → Hash
  | [] => current
  | (sibling, isRight) :: proof =>
    climbProof (if isRight then hashPair sha256 current sibling else hashPair sha256 sibling current)
      proof

def verifyProof (leafHash : Hash) (proof : List (Hash × Bool)) (root : Hash) : Bool :=
  climbProof sha256 leafHash proof = root

inductive Op
  | insert (nodeId : ℤ) (leafHash : Hash)
  | remove (nodeId : ℤ)
  | root
  | proof (nodeId : ℤ)

def apply : Op → IncrementalMerkle
  | .insert nodeId leafHash => self.insert nodeId leafHash
  | .remove nodeId => (self.remove nodeId).2
  | .root => (self.root sha256).2
  | .proof nodeId => (self.proof sha256 nodeId).2

/-- The tree after some calls. -/
def after (ops : List Op) : IncrementalMerkle := ops.foldl (apply sha256) {}

end Operations

variable {sha256 : Bytes → Hash} {t : IncrementalMerkle} {level : List Hash}

theorem nextLevel_eq (level : List Hash) :
    nextLevel sha256 level = paddedLevel (hashPair sha256) level := by
  induction level using nextLevel.induct with
  | case1 a b rest ih =>
    have hlength : (a :: b :: rest).length % 2 = rest.length % 2 := by
      rw [List.length_cons, List.length_cons]
      omega
    have hpad : pad (a :: b :: rest) = a :: b :: pad rest := by
      rw [pad, pad, hlength]
      split
      · next hodd =>
        cases rest with
        | nil => cases hodd
        | cons c rest => rw [List.getLast?_cons_cons, List.getLast?_cons_cons]; rfl
      · rfl
    rw [nextLevel, ih, paddedLevel, paddedLevel, hpad]
    rfl
  | case2 a => rfl
  | case3 => rfl

theorem buildLoop_eq (fuel : ℕ) (level : List Hash) :
    buildLoop sha256 fuel level = build (hashPair sha256) fuel level := by
  induction fuel generalizing level with
  | zero => rfl
  | succ fuel ih =>
    rw [buildLoop, build, ih, nextLevel_eq]
    by_cases h : 1 < level.length
    · rw [if_pos h, if_neg (not_le.mpr h)]
    · rw [if_neg h, if_pos (not_lt.mp h)]

/-- The root is the only node of the last level. -/
theorem build_eq_buildTree (hne : level ≠ []) :
    build (hashPair sha256) level.length level = [buildTree sha256 level] := by
  obtain ⟨r, hr, -⟩ := exists_root (f := hashPair sha256) hne Nat.lt_two_pow_self.le
  rw [buildTree, if_neg hne, buildLoop_eq, hr]
  rfl

section Cache

/-- What `root` answers on a tree of these leaves. -/
def freshRoot (sha256 : Bytes → Hash) (leaves : StorageMap ℤ Hash) : Hash :=
  if leaves = ∅ then zeroHash else buildTree sha256 leaves.orderedValues

/-- The cached root is that of the leaves. -/
def UpToDate (sha256 : Bytes → Hash) (t : IncrementalMerkle) : Prop :=
  ∀ root, t.cachedRoot = some root → root = freshRoot sha256 t.leaves

theorem UpToDate.root (h : t.UpToDate sha256) :
    (t.root sha256).1 = freshRoot sha256 t.leaves ∧ (t.root sha256).2.UpToDate sha256 ∧
      (t.root sha256).2.leaves = t.leaves := by
  unfold IncrementalMerkle.root
  cases hcached : t.cachedRoot with
  | some root => exact ⟨h root hcached, h, rfl⟩
  | none =>
    simp only [freshRoot]
    split
    · next hempty =>
      refine ⟨rfl, ?_, rfl⟩
      intro root hroot
      rw [freshRoot, if_pos hempty]
      exact (Option.some.inj hroot).symm
    · next hempty =>
      refine ⟨rfl, ?_, rfl⟩
      intro root hroot
      rw [freshRoot, if_neg hempty]
      exact (Option.some.inj hroot).symm

theorem UpToDate.apply (h : t.UpToDate sha256) (op : Op) : (t.apply sha256 op).UpToDate sha256 := by
  cases op with
  | insert nodeId leafHash => exact nofun
  | remove nodeId =>
    change (t.remove nodeId).2.UpToDate sha256
    unfold remove
    split
    · exact nofun
    · exact h
  | root => exact h.root.2.1
  | proof nodeId => exact h.root.2.1

theorem upToDate_after (sha256 : Bytes → Hash) (ops : List Op) :
    (after sha256 ops).UpToDate sha256 := by
  induction ops using List.reverseRecOn with
  | nil => exact nofun
  | append_singleton ops op ih =>
    rw [after, List.foldl_append]
    exact UpToDate.apply ih op

end Cache

section Sample

def firstLeaf : Hash := Vector.replicate 32 1

def secondLeaf : Hash := Vector.replicate 32 2

def thirdLeaf : Hash := Vector.replicate 32 3

/-- SHA-256 of the first two leaves. -/
def firstPair : Hash :=
  #v[248, 24, 175, 211, 122, 109, 195, 188, 146, 251, 68, 115, 16, 17, 39, 112, 6, 219, 78, 250,
  110, 144, 35, 205, 116, 104, 192, 35, 53, 210, 42, 77]

/-- SHA-256 of the third leaf beside itself. -/
def secondPair : Hash :=
  #v[106, 165, 108, 75, 205, 32, 137, 17, 121, 42, 210, 76, 118, 129, 254, 251, 147, 190, 213, 25,
  3, 175, 197, 72, 96, 201, 189, 55, 228, 30, 90, 49]

/-- SHA-256 of what the runs below hash. -/
def sampleSha (data : Bytes) : Hash :=
  if data = firstLeaf.toList ++ secondLeaf.toList then firstPair
  else if data = thirdLeaf.toList ++ thirdLeaf.toList then secondPair
  else if data = firstPair.toList ++ secondPair.toList then
    #v[131, 30, 24, 179, 43, 83, 146, 192, 49, 242, 76, 113, 80, 134, 130, 29, 117, 50, 252, 182,
    202, 192, 187, 129, 90, 26, 100, 121, 144, 207, 242, 97]
  else zeroHash

def threeLeaves : List Op :=
  [.insert 3 thirdLeaf, .insert 1 firstLeaf, .root, .insert 2 secondLeaf]

end Sample

section Proofs

theorem sibling_add_two (a b : Hash) (rest : List Hash) (idx : ℕ) :
    sibling (a :: b :: rest) (idx + 2) = sibling rest idx := by
  rw [sibling, sibling, Nat.add_mod_right]
  by_cases heven : idx % 2 = 0
  · simp only [if_pos heven, List.length_cons, List.getD_cons_succ]
    exact if_congr (by omega) rfl rfl
  · obtain ⟨j, rfl⟩ : ∃ j, idx = j + 1 := ⟨idx - 1, by omega⟩
    simp [if_neg heven]

/-- The parent of a node is the hash of it and its sibling, on the sides that a proof says. -/
theorem nextLevel_getElem? {idx : ℕ} {x : Hash} (h : level[idx]? = some x) :
    (nextLevel sha256 level)[idx / 2]? = some (if idx % 2 = 0 then
      hashPair sha256 x (sibling level idx) else hashPair sha256 (sibling level idx) x) := by
  induction level using nextLevel.induct generalizing idx with
  | case1 a b rest ih =>
    match idx with
    | 0 =>
      cases h
      rfl
    | 1 =>
      cases h
      rfl
    | idx + 2 =>
      have hrest : rest[idx]? = some x := h
      have hidx : (idx + 2) / 2 = idx / 2 + 1 := by omega
      rw [nextLevel, hidx, List.getElem?_cons_succ, ih hrest, sibling_add_two, Nat.add_mod_right]
  | case2 a =>
    match idx, h with
    | 0, h =>
      cases h
      rfl
  | case3 => cases h

/-- A proof leads from its leaf to the last node. -/
theorem climbProof_proofLoop {fuel idx : ℕ} {x root : Hash} (hx : level[idx]? = some x)
    (hroot : buildLoop sha256 fuel level = [root]) :
    climbProof sha256 x (proofLoop sha256 fuel level idx) = root := by
  induction fuel generalizing level idx x with
  | zero =>
    rw [buildLoop] at hroot
    rw [hroot] at hx
    exact (List.mem_singleton.mp (List.mem_of_getElem? hx))
  | succ fuel ih =>
    rw [buildLoop] at hroot
    rw [proofLoop]
    split at hroot
    · next hlong =>
      rw [if_pos hlong, climbProof]
      have hparent := @nextLevel_getElem? sha256 level idx x hx
      have hclimb := ih hparent hroot
      by_cases heven : idx % 2 = 0
      · rw [if_pos heven] at hclimb
        rw [decide_eq_true heven, if_pos rfl]
        exact hclimb
      · rw [if_neg heven] at hclimb
        rw [decide_eq_false heven, if_neg Bool.false_ne_true]
        exact hclimb
    · next hshort =>
      rw [hroot] at hx
      rw [if_neg hshort]
      exact (List.mem_singleton.mp (List.mem_of_getElem? hx))

/-- Every stored leaf has a proof, which verifies against the root. -/
theorem proof_complete (sha256 : Bytes → Hash) (ops : List Op) (nodeId : ℤ) (leafHash : Hash)
    (hleaf : (after sha256 ops).leaves.lookup nodeId = some leafHash) :
    ∃ path, ((after sha256 ops).proof sha256 nodeId).1 = some path ∧
      verifyProof sha256 leafHash path ((after sha256 ops).root sha256).1 = true ∧
      verifyProof sha256 leafHash path
        (((after sha256 ops).proof sha256 nodeId).2.root sha256).1 = true := by
  have hcurrent := upToDate_after sha256 ops
  generalize after sha256 ops = t at hleaf hcurrent
  obtain ⟨hroot, hcurrent', hleaves⟩ := hcurrent.root
  have hne : t.leaves ≠ ∅ := by
    intro hempty
    rw [hempty, Finmap.lookup_empty] at hleaf
    cases hleaf
  have hmem := StorageMap.mem_orderedKeys.mpr ⟨leafHash, hleaf⟩
  obtain ⟨pos, hpos⟩ : ∃ pos, t.leaves.orderedKeys.findIdx? (· = nodeId) = some pos := by
    rw [← Option.isSome_iff_exists, List.findIdx?_isSome, List.any_eq_true]
    exact ⟨nodeId, hmem, decide_eq_true rfl⟩
  have hkey : t.leaves.orderedKeys[pos]? = some nodeId := by
    obtain ⟨hlt, hfound, -⟩ := List.findIdx?_eq_some_iff_getElem.mp hpos
    rw [List.getElem?_eq_getElem hlt, of_decide_eq_true hfound]
  have hvalue := StorageMap.orderedValues_getElem? hkey hleaf
  have hbuilt : buildLoop sha256 t.leaves.orderedValues.length t.leaves.orderedValues =
      [freshRoot sha256 t.leaves] := by
    rw [buildLoop_eq, freshRoot, if_neg hne]
    exact build_eq_buildTree (mt StorageMap.orderedValues_eq_nil.mp hne)
  have hclimb := climbProof_proofLoop hvalue hbuilt
  refine ⟨proofLoop sha256 t.leaves.orderedValues.length t.leaves.orderedValues pos, ?_, ?_, ?_⟩
  · simp only [proof, hleaves, hpos, Option.map_some]
  · rw [verifyProof, hroot, hclimb, decide_eq_true rfl]
  · change verifyProof sha256 leafHash _ ((t.root sha256).2.root sha256).1 = true
    rw [verifyProof, hcurrent'.root.1, hleaves, hclimb, decide_eq_true rfl]

theorem proof_complete_third :
    ∃ path, ((after sampleSha threeLeaves).proof sampleSha 3).1 = some path ∧
      verifyProof sampleSha thirdLeaf path ((after sampleSha threeLeaves).root sampleSha).1 = true ∧
      verifyProof sampleSha thirdLeaf path
        (((after sampleSha threeLeaves).proof sampleSha 3).2.root sampleSha).1 = true :=
  proof_complete sampleSha threeLeaves 3 thirdLeaf (by decide)

end Proofs

section Binding

/-- The leaf hashes in the order of their ids. -/
def values (t : IncrementalMerkle) : List Hash := t.leaves.orderedValues

/-- The pairs that a computation of the root hashes. -/
def hashed (sha256 : Bytes → Hash) (t : IncrementalMerkle) : List (Hash × Hash) :=
  built (hashPair sha256) t.values.length t.values

/-- SHA-256 does not collide on the pairs of two trees, and no pair hashes to a leaf or to the empty
root, nor is a leaf the empty root. -/
structure Apart (sha256 : Bytes → Hash) (t u : IncrementalMerkle) : Prop where
  injOn : Set.InjOn sha256 {x | ∃ p ∈ hashed sha256 t ++ hashed sha256 u,
    x = p.1.toList ++ p.2.toList}
  leaves : ∀ p ∈ hashed sha256 t ++ hashed sha256 u,
    hashPair sha256 p.1 p.2 ∉ zeroHash :: (t.values ++ u.values)
  zero : zeroHash ∉ t.values ++ u.values

variable {u : IncrementalMerkle}

theorem Apart.symm (h : Apart sha256 t u) : Apart sha256 u t where
  injOn := h.injOn.mono fun x => by
    rintro ⟨p, hp, rfl⟩
    exact ⟨p, List.mem_append.mpr (List.mem_append.mp hp).symm, rfl⟩
  leaves p hp := by
    have hfar := h.leaves p (List.mem_append.mpr (List.mem_append.mp hp).symm)
    rwa [List.mem_cons, List.mem_append, or_comm (a := _ ∈ t.values), ← List.mem_append,
      ← List.mem_cons] at hfar
  zero hmem := h.zero (List.mem_append.mpr (List.mem_append.mp hmem).symm)

theorem Apart.collisionFree (h : Apart sha256 t u) :
    CollisionFree (hashPair sha256) id (hashed sha256 t ++ hashed sha256 u) := by
  intro p hp q hq heq
  have hbytes := h.injOn ⟨p, hp, rfl⟩ ⟨q, hq, rfl⟩ heq
  obtain ⟨hleft, hright⟩ := List.append_inj hbytes (by simp)
  exact ⟨Vector.toList_inj.mp hleft, Vector.toList_inj.mp hright⟩

/-- A tree with leaves does not have the empty root. -/
theorem Apart.buildTree_ne_zero (h : Apart sha256 t u) (hne : t.values ≠ []) :
    buildTree sha256 t.values ≠ zeroHash := by
  intro heq
  obtain ⟨r, hr, hmem⟩ := exists_root (f := hashPair sha256) hne Nat.lt_two_pow_self.le
  rw [build_eq_buildTree hne, heq, List.singleton_inj] at hr
  subst hr
  rcases hmem with hleaf | ⟨p, hp, hpair⟩
  · exact h.zero (List.mem_append_left _ hleaf)
  · apply h.leaves p (List.mem_append_left _ hp)
    rw [hpair]
    exact List.mem_cons_self

theorem freshRoot_eq (t : IncrementalMerkle) : freshRoot sha256 t.leaves =
    if t.values = [] then zeroHash else buildTree sha256 t.values :=
  if_congr StorageMap.orderedValues_eq_nil.symm rfl rfl

/-- The root tells the leaves as the tree completes them. -/
theorem Apart.freshRoot_eq_iff (h : Apart sha256 t u) :
    freshRoot sha256 t.leaves = freshRoot sha256 u.leaves ↔
      completed t.values = completed u.values := by
  have hcompleted {w : IncrementalMerkle} (hw : w.values ≠ []) : completed w.values ≠ [] := by
    apply List.ne_nil_of_length_pos
    rw [length_completed hw]
    exact Nat.two_pow_pos _
  rw [freshRoot_eq, freshRoot_eq]
  by_cases ht : t.values = [] <;> by_cases hu : u.values = []
  · rw [if_pos ht, if_pos hu, ht, hu]
    exact iff_of_true rfl rfl
  · rw [if_pos ht, if_neg hu, ht]
    exact iff_of_false (h.symm.buildTree_ne_zero hu).symm (hcompleted hu).symm
  · rw [if_neg ht, if_pos hu, hu]
    exact iff_of_false (h.buildTree_ne_zero ht) (hcompleted ht)
  · have hapart : ∀ p ∈ hashed sha256 t ++ hashed sha256 u,
        hashPair sha256 p.1 p.2 ∉ t.values ++ u.values :=
      fun p hp hmem => h.leaves p hp (List.mem_cons_of_mem _ hmem)
    rw [if_neg ht, if_neg hu, ← List.singleton_inj, ← build_eq_buildTree ht,
      ← build_eq_buildTree hu]
    exact build_eq_iff ht hu Nat.lt_two_pow_self.le Nat.lt_two_pow_self.le h.collisionFree hapart

/-- The root is that of the current map.  As long as SHA-256 keeps the pairs apart, two roots are
equal exactly when the completed leaves are; so the maps are equal where they have the same ids, and
the leaf hashes are where no tree has one twice. -/
theorem root_tells_leaves (sha256 : Bytes → Hash) (ops ops' : List Op) :
    let t := after sha256 ops
    let u := after sha256 ops'
    (t.root sha256).1 = freshRoot sha256 t.leaves ∧
      (Apart sha256 t u →
        ((t.root sha256).1 = (u.root sha256).1 ↔ completed t.values = completed u.values) ∧
        ((t.root sha256).1 = (u.root sha256).1 → t.leaves.keys = u.leaves.keys →
          t.leaves = u.leaves) ∧
        ((t.root sha256).1 = (u.root sha256).1 → t.values.Nodup → u.values.Nodup →
          t.values = u.values)) := by
  have hcurrent := upToDate_after sha256 ops
  have hcurrent' := upToDate_after sha256 ops'
  generalize after sha256 ops = t at hcurrent
  generalize after sha256 ops' = u at hcurrent'
  refine ⟨hcurrent.root.1, ?_⟩
  intro hapart
  have hiff := hapart.freshRoot_eq_iff
  rw [← hcurrent.root.1, ← hcurrent'.root.1] at hiff
  refine ⟨hiff, ?_, ?_⟩
  · intro heq hkeys
    apply StorageMap.ext_ordered hkeys
    apply eq_of_completed_eq _ (hiff.mp heq)
    rw [values, values, StorageMap.length_orderedValues, StorageMap.length_orderedValues,
      StorageMap.orderedKeys, StorageMap.orderedKeys, hkeys]
  · intro heq ht hu
    exact eq_of_completed_nodup ht hu (hiff.mp heq)

/-- Two of the three leaves. -/
def twoLeaves : List Op := [.insert 1 firstLeaf, .insert 2 secondLeaf]

theorem Apart.of_pairs (hfree : ∀ p ∈ hashed sha256 t ++ hashed sha256 u,
      ∀ q ∈ hashed sha256 t ++ hashed sha256 u,
        sha256 (p.1.toList ++ p.2.toList) = sha256 (q.1.toList ++ q.2.toList) → p = q)
    (hleaves : ∀ p ∈ hashed sha256 t ++ hashed sha256 u,
      hashPair sha256 p.1 p.2 ∉ zeroHash :: (t.values ++ u.values))
    (hzero : zeroHash ∉ t.values ++ u.values) : Apart sha256 t u where
  injOn := by
    rintro _ ⟨p, hp, rfl⟩ _ ⟨q, hq, rfl⟩ heq
    rw [hfree p hp q hq heq]
  leaves := hleaves
  zero := hzero

theorem root_tells_leaves_sample :
    ((after sampleSha threeLeaves).root sampleSha).1 ≠
      ((after sampleSha twoLeaves).root sampleSha).1 := by
  have hapart : Apart sampleSha (after sampleSha threeLeaves) (after sampleSha twoLeaves) :=
    .of_pairs (by decide +kernel) (by decide +kernel) (by decide +kernel)
  intro heq
  have hvalues := ((root_tells_leaves sampleSha threeLeaves twoLeaves).2 hapart).2.2 heq
    (by decide +kernel) (by decide +kernel)
  revert hvalues
  decide +kernel

/-- The third leaf stands there twice. -/
def fourLeaves : List Op := threeLeaves ++ [.insert 4 thirdLeaf]

/-- Ids are not hashed, and a last leaf may be there once or twice. -/
theorem equal_roots_of_other_leaves :
    (Apart sampleSha (after sampleSha [.insert 1 firstLeaf])
        (after sampleSha [.insert 2 firstLeaf]) ∧
      ((after sampleSha [.insert 1 firstLeaf]).root sampleSha).1 =
        ((after sampleSha [.insert 2 firstLeaf]).root sampleSha).1 ∧
      (after sampleSha [.insert 1 firstLeaf]).leaves ≠
        (after sampleSha [.insert 2 firstLeaf]).leaves) ∧
    (Apart sampleSha (after sampleSha threeLeaves) (after sampleSha fourLeaves) ∧
      ((after sampleSha threeLeaves).root sampleSha).1 =
        ((after sampleSha fourLeaves).root sampleSha).1 ∧
      (after sampleSha threeLeaves).leaves ≠ (after sampleSha fourLeaves).leaves) := by
  have hdifferent (t u : IncrementalMerkle) (nodeId : ℤ)
      (h : t.leaves.lookup nodeId ≠ u.leaves.lookup nodeId) : t.leaves ≠ u.leaves :=
    fun heq => h (congrArg _ heq)
  refine ⟨⟨?_, by decide +kernel, hdifferent _ _ 1 (by decide +kernel)⟩, ?_, by decide +kernel,
    hdifferent _ _ 4 (by decide +kernel)⟩
  · exact .of_pairs (by decide +kernel) (by decide +kernel) (by decide +kernel)
  · exact .of_pairs (by decide +kernel) (by decide +kernel) (by decide +kernel)

end Binding

end IncrementalMerkle

end Qubitcoin.Aether
