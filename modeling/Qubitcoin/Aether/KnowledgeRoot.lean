import Qubitcoin.Aether.KnowledgeGraph
import Qubitcoin.Library.Decimal

/-! What the root of the knowledge graph commits to, and when the cached one is out of date. -/

universe u

namespace Qubitcoin.Aether.KnowledgeGraph

open Shard (I64)

variable {F : Type u} {fl : GraphFloats F} {sha : Sha256} {g g' : Graph F}

/-! ## The entries of a graph -/

theorem sortedNodes_mapNodes (g : Graph F) (f : KeterNode F → KeterNode F)
    (h : ∀ r, (f r).nodeId = r.nodeId) :
    sortedNodes (mapNodes g f h) = (sortedNodes g).map f := by
  symm
  apply List.map_insertionSort
  intro a _ b _
  rw [h, h]

theorem entries_mapNodes {f : KeterNode F → KeterNode F} (h : ∀ r, (f r).nodeId = r.nodeId)
    (hentry : ∀ r, entryOf fl (f r) = entryOf fl r) :
    entries fl (mapNodes g f h) = entries fl g := by
  rw [entries, entries, sortedNodes_mapNodes, List.map_map]
  congr 1
  funext r
  exact hentry r

theorem entries_nodup (fl : GraphFloats F) (g : Graph F) : (entries fl g).Nodup := by
  apply List.Nodup.of_map Prod.fst
  rw [entries, List.map_map]
  change ((sortedNodes g).map KeterNode.nodeId).Nodup
  have hperm : (sortedNodes g).Perm g.nodes := List.perm_insertionSort _ _
  rw [(hperm.map KeterNode.nodeId).nodup_iff]
  exact g.nodes_nodup

theorem entries_eq_nil : entries fl g = [] ↔ g.nodes = [] := by
  rw [entries, List.map_eq_nil_iff, ← List.length_eq_zero_iff, sortedNodes,
    List.length_insertionSort, List.length_eq_zero_iff]

theorem toList_leafText (e : Entry) :
    (leafText e).toList = (toString e.1.toInt).toList ++ ':' :: (e.2.1.toList ++ ':' :: e.2.2.toList) := by
  simp [leafText, String.toList_append]

/-- The first and the last colon of a leaf's text separate its fields. -/
theorem leafText_inj {e e' : Entry} (he : ':' ∉ e.2.2.toList) (he' : ':' ∉ e'.2.2.toList)
    (h : leafText e = leafText e') : e = e' := by
  obtain ⟨id, hash, confidence⟩ := e
  obtain ⟨id', hash', confidence'⟩ := e'
  rw [← String.toList_inj, toList_leafText, toList_leafText,
    Keys.join_inj (Keys.colon_notMem_toString _) (Keys.colon_notMem_toString _),
    Keys.toString_toList_inj, BitVec.toInt_inj] at h
  obtain ⟨rfl, hrest⟩ := h
  have hreverse := congrArg List.reverse hrest
  simp only [List.reverse_append, List.reverse_cons, List.append_assoc, List.singleton_append]
    at hreverse
  rw [Keys.join_inj (by simpa using he) (by simpa using he'), List.reverse_inj, List.reverse_inj,
    String.toList_inj, String.toList_inj] at hreverse
  obtain ⟨rfl, rfl⟩ := hreverse
  rfl

theorem colon_mem_leafText (e : Entry) : ':' ∈ (leafText e).toList := by
  simp [toList_leafText]

theorem colon_notMem_entry {e : Entry} (h : e ∈ entries fl g) : ':' ∉ e.2.2.toList := by
  obtain ⟨node, _, rfl⟩ := List.mem_map.mp h
  exact fl.colon_notMem _

/-! ## The texts that are hashed -/

def combinations (sha : Sha256) (leaves : List String) : List (String × String) :=
  Merkle.built (combine sha) leaves.length leaves

/-- The texts a fresh root hashes. -/
def asked (fl : GraphFloats F) (sha : Sha256) (g : Graph F) : List String :=
  if g.nodes = [] then ["empty_knowledge"]
  else (entries fl g).map leafText ++
    (combinations sha (leaves fl sha g)).map fun p => p.1 ++ p.2

/-- Among these texts the digests tell which is which. -/
def NoCollision (sha : Sha256) (texts : List String) : Prop :=
  ∀ s ∈ texts, ∀ t ∈ texts, sha.hex s = sha.hex t → s = t

/-- A text of the form of a digest. -/
structure IsDigest (text : String) : Prop where
  length : text.toList.length = 64
  colon_notMem : ':' ∉ text.toList

theorem isDigest_hex (sha : Sha256) (text : String) : IsDigest (sha.hex text) :=
  ⟨sha.length text, sha.colon_notMem text⟩

theorem isDigest_leaf {leaf : String} (h : leaf ∈ leaves fl sha g) : IsDigest leaf := by
  obtain ⟨e, _, rfl⟩ := List.mem_map.mp h
  exact isDigest_hex sha _

theorem isDigest_combined {p : String × String} (h : p ∈ combinations sha (leaves fl sha g)) :
    IsDigest p.1 ∧ IsDigest p.2 :=
  Merkle.forall_built (P := IsDigest) (fun _ _ => isDigest_hex sha _) (fun _ => isDigest_leaf) h

/-- The text of a pair tells its two digests apart, and from the text of a leaf. -/
theorem pair_ext {p q : String × String} (hp : IsDigest p.1) (hq : IsDigest q.1)
    (h : p.1 ++ p.2 = q.1 ++ q.2) : p.1 = q.1 ∧ p.2 = q.2 := by
  rw [← String.toList_inj, String.toList_append, String.toList_append] at h
  obtain ⟨hleft, hright⟩ := List.append_inj h (hp.length.trans hq.length.symm)
  exact ⟨String.toList_inj.mp hleft, String.toList_inj.mp hright⟩

theorem leafText_ne_pair {p : String × String} (hp : IsDigest p.1 ∧ IsDigest p.2) (e : Entry) :
    leafText e ≠ p.1 ++ p.2 := by
  intro h
  have hcolon := colon_mem_leafText e
  rw [h, String.toList_append, List.mem_append] at hcolon
  exact hcolon.elim hp.1.colon_notMem hp.2.colon_notMem

theorem pair_ne_empty {p : String × String} (hp : IsDigest p.1) :
    p.1 ++ p.2 ≠ "empty_knowledge" := by
  intro h
  have hlength := congrArg (fun text => text.toList.length) h
  simp only [String.toList_append, List.length_append, hp.length] at hlength
  have hfifteen : "empty_knowledge".toList.length = 15 := by decide
  omega

theorem leafText_ne_empty (e : Entry) : leafText e ≠ "empty_knowledge" := by
  intro h
  have hcolon := colon_mem_leafText e
  rw [h] at hcolon
  revert hcolon
  decide

/-! ## Roots -/

/-- The root of the nodes as they are now. -/
def freshRoot (fl : GraphFloats F) (sha : Sha256) (g : Graph F) : String :=
  if g.nodes = [] then sha.hex "empty_knowledge" else merkleRoot sha (leaves fl sha g)

theorem leaves_ne_nil (h : g.nodes ≠ []) : leaves fl sha g ≠ [] := by
  rw [leaves, ne_eq, List.map_eq_nil_iff, entries_eq_nil]
  exact h

theorem length_le_two_pow (leaves : List String) : leaves.length ≤ 2 ^ leaves.length :=
  Nat.lt_two_pow_self.le

theorem build_merkleRoot {leaves : List String} (h : leaves ≠ []) :
    Merkle.build (combine sha) leaves.length leaves = [merkleRoot sha leaves] := by
  obtain ⟨r, hr, _⟩ := Merkle.exists_root (f := combine sha) h (length_le_two_pow leaves)
  rw [merkleRoot, hr]
  rfl

/-- The root is the digest of a text that is asked for. -/
theorem exists_asked (fl : GraphFloats F) (sha : Sha256) (h : g.nodes ≠ []) :
    ∃ text ∈ asked fl sha g, text ≠ "empty_knowledge" ∧ sha.hex text = freshRoot fl sha g := by
  have hne : leaves fl sha g ≠ [] := leaves_ne_nil h
  rw [freshRoot, asked, if_neg h, if_neg h]
  obtain ⟨r, hr, hroot⟩ := Merkle.exists_root (f := combine sha) hne (length_le_two_pow _)
  have hsame : merkleRoot sha (leaves fl sha g) = r := by
    rw [merkleRoot, hr]
    rfl
  rw [hsame]
  rcases hroot with hleaf | ⟨p, hp, hpair⟩
  · obtain ⟨e, he, hhash⟩ := List.mem_map.mp hleaf
    exact ⟨leafText e, List.mem_append_left _ (List.mem_map_of_mem he), leafText_ne_empty e, hhash⟩
  · refine ⟨p.1 ++ p.2, List.mem_append_right _ (List.mem_map_of_mem hp), ?_, hpair⟩
    exact pair_ne_empty (isDigest_combined hp).1

section Binding

variable {texts : List String} (hfree : NoCollision sha texts)
include hfree

theorem leaves_inj {e e' : Entry} (he : e ∈ entries fl g) (he' : e' ∈ entries fl g')
    (hasked : leafText e ∈ texts) (hasked' : leafText e' ∈ texts)
    (h : sha.hex (leafText e) = sha.hex (leafText e')) : e = e' :=
  leafText_inj (colon_notMem_entry he) (colon_notMem_entry he') (hfree _ hasked _ hasked' h)

theorem leaves_nodup (hleaves : ∀ e ∈ entries fl g, leafText e ∈ texts) :
    (leaves fl sha g).Nodup := by
  apply List.Nodup.map_on _ (entries_nodup fl g)
  intro e he e' he' h
  exact leaves_inj hfree he he' (hleaves e he) (hleaves e' he') h

end Binding

/-- Graphs with the same root have the same entries. -/
theorem entries_of_freshRoot (hfree : NoCollision sha (asked fl sha g ++ asked fl sha g'))
    (h : freshRoot fl sha g = freshRoot fl sha g') : entries fl g = entries fl g' := by
  by_cases hg : g.nodes = []
  · by_cases hg' : g'.nodes = []
    · rw [entries_eq_nil.mpr hg, entries_eq_nil.mpr hg']
    · exfalso
      obtain ⟨text, hasked, hne, hroot⟩ := exists_asked fl sha hg'
      rw [freshRoot, if_pos hg, ← hroot] at h
      apply hne
      symm
      apply hfree _ _ _ _ h
      · rw [asked, if_pos hg]
        simp
      · exact List.mem_append_right _ hasked
  · by_cases hg' : g'.nodes = []
    · exfalso
      obtain ⟨text, hasked, hne, hroot⟩ := exists_asked fl sha hg
      rw [← hroot, freshRoot, if_pos hg'] at h
      apply hne
      apply hfree _ _ _ _ h
      · exact List.mem_append_left _ hasked
      · rw [asked, asked, if_pos hg']
        simp
    · have hmem : ∀ e ∈ entries fl g, leafText e ∈ asked fl sha g ++ asked fl sha g' := by
        intro e he
        rw [asked, if_neg hg]
        simp only [List.mem_append]
        exact .inl (.inl (List.mem_map_of_mem he))
      have hmem' : ∀ e ∈ entries fl g', leafText e ∈ asked fl sha g ++ asked fl sha g' := by
        intro e he
        rw [asked, asked, if_neg hg']
        simp only [List.mem_append]
        exact .inr (.inl (List.mem_map_of_mem he))
      have hpair : ∀ p ∈ combinations sha (leaves fl sha g) ++ combinations sha (leaves fl sha g'),
          (IsDigest p.1 ∧ IsDigest p.2) ∧ p.1 ++ p.2 ∈ asked fl sha g ++ asked fl sha g' := by
        intro p hp
        rw [asked, asked, if_neg hg, if_neg hg']
        simp only [List.mem_append]
        rcases List.mem_append.mp hp with hp | hp
        · exact ⟨isDigest_combined hp, .inl (.inr (List.mem_map_of_mem hp))⟩
        · exact ⟨isDigest_combined hp, .inr (.inr (List.mem_map_of_mem hp))⟩
      have hsame : leaves fl sha g = leaves fl sha g' := by
        apply Merkle.eq_of_build_eq (leaves_nodup hfree hmem) (leaves_nodup hfree hmem')
          (leaves_ne_nil hg) (leaves_ne_nil hg') (length_le_two_pow _) (length_le_two_pow _)
        · intro p hp q hq heq
          obtain ⟨hdigests, hasked⟩ := hpair p hp
          obtain ⟨hdigests', hasked'⟩ := hpair q hq
          exact pair_ext hdigests.1 hdigests'.1 (hfree _ hasked _ hasked' heq)
        · intro p hp hleaf
          obtain ⟨hdigests, hasked⟩ := hpair p hp
          rw [leaves, leaves, ← List.map_append] at hleaf
          obtain ⟨e, he, heq⟩ := List.mem_map.mp hleaf
          apply leafText_ne_pair hdigests e
          apply hfree _ _ _ hasked heq
          exact (List.mem_append.mp he).elim (hmem e) (hmem' e)
        · rw [build_merkleRoot (leaves_ne_nil hg), build_merkleRoot (leaves_ne_nil hg')]
          rw [freshRoot, freshRoot, if_neg hg, if_neg hg'] at h
          rw [h]
      apply Merkle.eq_of_map_eq _ hsame
      intro e he e' he' heq
      exact leaves_inj hfree he he' (hmem e he) (hmem' e' he') heq

/-! ## The cache -/

/-- The cached root is what a computation would answer with. -/
structure Cached (g : Graph F) : Prop where
  clean : g.merkleDirty = false
  filled : g.merkleCache ≠ ""
  nonempty : g.nodes ≠ []

def UpToDate (fl : GraphFloats F) (sha : Sha256) (g : Graph F) : Prop :=
  Cached g → g.merkleCache = freshRoot fl sha g

theorem computeKnowledgeRoot_eq_iff :
    (computeKnowledgeRoot fl sha g).1 = freshRoot fl sha g ↔ UpToDate fl sha g := by
  unfold computeKnowledgeRoot
  split
  · next hnil =>
    apply iff_of_true
    · rw [freshRoot, if_pos hnil]
    · intro hcached
      exact absurd hnil hcached.nonempty
  · next hne =>
    split
    · next hclean =>
      constructor
      · intro h _
        exact h
      · intro h
        exact h ⟨hclean.1, hclean.2, hne⟩
    · next hdirty =>
      apply iff_of_true
      · rw [freshRoot, if_neg hne]
      · intro hcached
        exact absurd ⟨hcached.clean, hcached.filled⟩ hdirty

theorem upToDate_of_dirty (h : g.merkleDirty = true) : UpToDate fl sha g := by
  intro hcached
  rw [hcached.clean] at h
  cases h

/-- What a call leaves alone that the cached root depends on. -/
structure SameCache (g g' : Graph F) : Prop where
  dirty : g'.merkleDirty = g.merkleDirty
  cache : g'.merkleCache = g.merkleCache
  nodes : g'.nodes = [] ↔ g.nodes = []

theorem SameCache.cached (h : SameCache g g') : Cached g' ↔ Cached g := by
  constructor
  · rintro ⟨hclean, hfilled, hne⟩
    exact ⟨h.dirty ▸ hclean, h.cache ▸ hfilled, fun hnil => hne (h.nodes.mpr hnil)⟩
  · rintro ⟨hclean, hfilled, hne⟩
    exact ⟨h.dirty ▸ hclean, h.cache ▸ hfilled, fun hnil => hne (h.nodes.mp hnil)⟩

theorem freshRoot_congr (h : entries fl g' = entries fl g) :
    freshRoot fl sha g' = freshRoot fl sha g := by
  have hnodes : g'.nodes = [] ↔ g.nodes = [] := by rw [← entries_eq_nil, h, entries_eq_nil]
  simp only [freshRoot, leaves, h, hnodes]

theorem sameCache_mapNodes (f : KeterNode F → KeterNode F) (h : ∀ r, (f r).nodeId = r.nodeId) :
    SameCache g (mapNodes g f h) :=
  ⟨rfl, rfl, by simp [mapNodes]⟩

theorem SameCache.trans {g'' : Graph F} (h : SameCache g g') (h' : SameCache g' g'') :
    SameCache g g'' :=
  ⟨h'.dirty.trans h.dirty, h'.cache.trans h.cache, h'.nodes.trans h.nodes⟩

theorem sameCache_propagateConfidence (g : Graph F) (iterations : I64) :
    SameCache g (propagateConfidence fl g iterations) := by
  unfold propagateConfidence
  generalize iterations.toInt.toNat = n
  induction n generalizing g with
  | zero => exact ⟨rfl, rfl, Iff.rfl⟩
  | succ n ih =>
    rw [Function.iterate_succ_apply]
    exact (sameCache_mapNodes _ _).trans (ih (propagateRound fl g))

theorem sameCache_boostReferencedNodes (g : Graph F) (minReferences : I64)
    (boostPerRef maxBoost : F) :
    SameCache g (boostReferencedNodes fl g minReferences boostPerRef maxBoost) :=
  sameCache_mapNodes _ _

/-- A call that leaves the flag alone: the cached root stays right exactly if the entries stay
the same. -/
theorem SameCache.upToDate_iff (h : SameCache g g')
    (hfree : NoCollision sha (asked fl sha g ++ asked fl sha g')) (hg : UpToDate fl sha g) :
    UpToDate fl sha g' ↔ (Cached g → entries fl g' = entries fl g) := by
  constructor
  · intro hg' hcached
    symm
    apply entries_of_freshRoot hfree
    rw [← hg hcached, ← hg' (h.cached.mpr hcached), h.cache]
  · intro hentries hcached
    have hbefore := h.cached.mp hcached
    rw [h.cache, hg hbefore, freshRoot_congr (hentries hbefore)]

/-- The call is not one of the two that change confidences without setting the flag, or the root
is due for another computation, or no confidence changes to six decimals. -/
def Marked (fl : GraphFloats F) (g : Graph F) : Call F → Prop
  | .propagateConfidence iterations =>
    Cached g → entries fl (propagateConfidence fl g iterations) = entries fl g
  | .boostReferencedNodes minReferences boostPerRef maxBoost =>
    Cached g → entries fl (boostReferencedNodes fl g minReferences boostPerRef maxBoost) =
      entries fl g
  | _ => True

theorem entries_touchNode (id currentBlock : I64) :
    entries fl (touchNode g id currentBlock) = entries fl g := by
  apply entries_mapNodes
  intro r
  simp only [entryOf]
  split <;> rfl

theorem step_upToDate_iff (call : Call F)
    (hfree : NoCollision sha (asked fl sha g ++ asked fl sha (step fl sha g call)))
    (hg : UpToDate fl sha g) : UpToDate fl sha (step fl sha g call) ↔ Marked fl g call := by
  cases call with
  | propagateConfidence iterations =>
    exact (sameCache_propagateConfidence g iterations).upToDate_iff hfree hg
  | boostReferencedNodes minReferences boostPerRef maxBoost =>
    exact (sameCache_boostReferencedNodes g minReferences boostPerRef maxBoost).upToDate_iff hfree hg
  | addNode nodeType content confidence sourceBlock =>
    exact iff_of_true (upToDate_of_dirty rfl) trivial
  | addEdge edge =>
    apply iff_of_true _ trivial
    simp only [step, addEdge]
    split
    · exact upToDate_of_dirty rfl
    · exact hg
  | pruneLowConfidence threshold protectTypes =>
    apply iff_of_true _ trivial
    simp only [step, pruneLowConfidence]
    split
    · exact hg
    · exact upToDate_of_dirty rfl
  | touchNode id currentBlock =>
    apply iff_of_true _ trivial
    have hsame : SameCache g (touchNode g id currentBlock) := sameCache_mapNodes _ _
    exact (hsame.upToDate_iff hfree hg).mpr fun _ => entries_touchNode id currentBlock
  | bulkLoadNodes nodes => exact iff_of_true (upToDate_of_dirty rfl) trivial
  | bulkLoadEdges edges => exact iff_of_true (upToDate_of_dirty rfl) trivial
  | computeKnowledgeRoot =>
    apply iff_of_true _ trivial
    simp only [step, computeKnowledgeRoot]
    split
    · exact hg
    · next hne =>
      split
      · exact hg
      · intro _
        rw [freshRoot, if_neg hne]
        rfl

/-- At every point of a run the root that is given out is that of the nodes as they are, and
different entries have different roots. -/
structure RootCommits (fl : GraphFloats F) (sha : Sha256) (calls : List (Call F)) : Prop where
  fresh : ∀ before, before <+: calls →
    (computeKnowledgeRoot fl sha (run fl sha before)).1 = freshRoot fl sha (run fl sha before)
  binding : ∀ g g' : Graph F, NoCollision sha (asked fl sha g ++ asked fl sha g') →
    entries fl g ≠ entries fl g' → freshRoot fl sha g ≠ freshRoot fl sha g'

/-- The texts of all the roots along a run. -/
def askedAlong (fl : GraphFloats F) (sha : Sha256) (calls : List (Call F)) : List String :=
  calls.inits.flatMap fun before => asked fl sha (run fl sha before)

theorem asked_subset {calls before : List (Call F)} (h : before <+: calls) :
    asked fl sha (run fl sha before) ⊆ askedAlong fl sha calls := by
  intro text htext
  exact List.mem_flatMap.mpr ⟨before, (List.mem_inits _ _).mpr h, htext⟩

theorem rootCommits_iff (fl : GraphFloats F) (sha : Sha256) (calls : List (Call F))
    (hfree : NoCollision sha (askedAlong fl sha calls)) :
    RootCommits fl sha calls ↔
      ∀ before call, before ++ [call] <+: calls → Marked fl (run fl sha before) call := by
  have hstep : ∀ before call, before ++ [call] <+: calls → UpToDate fl sha (run fl sha before) →
      (UpToDate fl sha (run fl sha (before ++ [call])) ↔ Marked fl (run fl sha before) call) := by
    intro before call hle hbefore
    have hsnoc : run fl sha (before ++ [call]) = step fl sha (run fl sha before) call :=
      Machine.run_append _ before [call]
    have hasked : NoCollision sha (asked fl sha (run fl sha before) ++
        asked fl sha (run fl sha (before ++ [call]))) := by
      have hsubset : asked fl sha (run fl sha before) ++
          asked fl sha (run fl sha (before ++ [call])) ⊆ askedAlong fl sha calls :=
        List.append_subset.mpr
          ⟨asked_subset ((List.prefix_append _ _).trans hle), asked_subset hle⟩
      intro s hs t ht
      exact hfree s (hsubset hs) t (hsubset ht)
    rw [hsnoc] at hasked ⊢
    exact step_upToDate_iff call hasked hbefore
  constructor
  · intro h before call hle
    have hbefore := computeKnowledgeRoot_eq_iff.mp
      (h.fresh before ((List.prefix_append _ _).trans hle))
    exact (hstep before call hle hbefore).mp (computeKnowledgeRoot_eq_iff.mp (h.fresh _ hle))
  · intro h
    constructor
    · intro before hle
      apply computeKnowledgeRoot_eq_iff.mpr
      induction before using List.reverseRecOn with
      | nil => exact upToDate_of_dirty rfl
      | append_singleton before call ih =>
        have hbefore := ih ((List.prefix_append _ _).trans hle)
        exact (hstep before call hle hbefore).mpr (h before call hle)
    · intro g g' hasked hne hroot
      exact hne (entries_of_freshRoot hasked hroot)

section Sample

def sampleFormat (x : ℚ) : String :=
  let n := Decimal.roundHalfEven (|x| * 10 ^ 6)
  String.ofList ((if x < 0 then ['-'] else []) ++ (toString (n / 10 ^ 6)).toList ++
    '.' :: (toString (10 ^ 6 + n % 10 ^ 6)).toList.tail)

theorem colon_notMem_sampleFormat (x : ℚ) : ':' ∉ (sampleFormat x).toList := by
  rw [sampleFormat, String.toList_ofList]
  simp only [List.mem_append, List.mem_cons, not_or]
  refine ⟨⟨?_, Keys.colon_notMem_toString _⟩, by decide, ?_⟩
  · split <;> decide
  · intro h
    exact Keys.colon_notMem_toString _ (List.mem_of_mem_tail h)

/-- Rationals in place of `f64`; the runs below use neither `exp` nor `ln`. -/
def sampleFloats : GraphFloats ℚ where
  ofRat x := x
  add := (· + ·)
  mul := (· * ·)
  div := (· / ·)
  neg x := -x
  min := min
  exp _ := 1
  lt x y := x < y
  format6 := sampleFormat
  ln _ := 0
  colon_notMem := colon_notMem_sampleFormat

def firstHash : String := "240dc5e6907f5910eca913f2381d73c754d6c845cecd961b75cf53024d22b572"

def secondHash : String := "8fbc3a3523d02e02cc02b5953daa595a0122c773913bef23a583f371452aa889"

def firstLeaf : String := "3c37496c21ad8c4a37ace8f313f581968c3e7546ec39022860131c1a0fdba0c8"

def secondLeaf : String := "38b32112865e81d8201c6e471712f98d56ac5ba87b3fe0af31e1b114574b2fb3"

def propagatedLeaf : String := "4135a18b81c15b728d970909d47fec644a73762287c5d465f027e42224bfbdb0"

def sampleDigests : List (String × String) :=
  [("empty_knowledge", "a9d1ef1685bbebaabc5b5233800550200d0b8d9edb8e5ac42415aa906bf75192"),
    ("\x7b\"content\": \x7b\"text\": \"a\"\x7d, \"source_block\": 1, \"type\": \"axiom\"\x7d",
      firstHash),
    ("\x7b\"content\": \x7b\"text\": \"b\"\x7d, \"source_block\": 2, \"type\": \"assertion\"\x7d",
      secondHash),
    ("1:" ++ firstHash ++ ":1.000000", firstLeaf),
    ("2:" ++ secondHash ++ ":0.500000", secondLeaf),
    ("2:" ++ secondHash ++ ":0.600000", propagatedLeaf),
    (firstLeaf ++ secondLeaf, "0254f49242217f323ace2a23809c354fcf15749c6af18d60bc1d089051167142"),
    (firstLeaf ++ propagatedLeaf,
      "644e55bddf29f8b8818fd227f85bc438095ac2f011737f3caecdb50269a64276")]

def sampleHex (text : String) : String :=
  (sampleDigests.lookup text).getD (String.ofList (List.replicate 64 '0'))

theorem isDigest_sampleHex (text : String) : IsDigest (sampleHex text) := by
  have htable : ∀ entry ∈ sampleDigests,
      entry.2.toList.length = 64 ∧ ':' ∉ entry.2.toList := by decide +kernel
  unfold sampleHex
  cases hlookup : sampleDigests.lookup text with
  | none => exact ⟨by decide +kernel, by decide +kernel⟩
  | some digest =>
    obtain ⟨before, after, htext, _⟩ := List.lookup_eq_some_iff.mp hlookup
    obtain ⟨hlength, hcolon⟩ := htable (text, digest) (by simp [htext])
    rw [Option.getD_some]
    exact ⟨hlength, hcolon⟩

/-- The digests of SHA-256 for the texts of the runs below. -/
def sampleSha : Sha256 where
  hex := sampleHex
  length text := (isDigest_sampleHex text).length
  colon_notMem text := (isDigest_sampleHex text).colon_notMem

/-- An axiom that supports an assertion. -/
def sampleGraph : List (Call ℚ) :=
  [.addNode "axiom" [("text", "a")] 1 1, .addNode "assertion" [("text", "b")] (1 / 2) 2,
    .addEdge ⟨1, 2, "supports", 1⟩]

/-- The root is computed after the confidence has been propagated. -/
def sampleCalls : List (Call ℚ) := sampleGraph ++ [.propagateConfidence 1, .computeKnowledgeRoot]

/-- The root is computed before. -/
def staleCalls : List (Call ℚ) := sampleGraph ++ [.computeKnowledgeRoot, .propagateConfidence 1]

end Sample

theorem rootCommits_sample : RootCommits sampleFloats sampleSha sampleCalls := by
  have hfree : NoCollision sampleSha (askedAlong sampleFloats sampleSha sampleCalls) := by
    unfold NoCollision
    decide +kernel
  apply (rootCommits_iff sampleFloats sampleSha sampleCalls hfree).mpr
  simp only [sampleCalls, sampleGraph, List.cons_append, List.nil_append,
    Machine.forall_before_cons, Machine.forall_before_nil]
  refine ⟨trivial, trivial, trivial, ?_, trivial, trivial⟩
  intro hcached
  have hclean := hcached.clean
  revert hclean
  decide +kernel

/-- The assertion has gained confidence, the root is the old one. -/
theorem root_stale : ¬RootCommits sampleFloats sampleSha staleCalls := by
  intro h
  have hfresh := h.fresh staleCalls (List.prefix_refl _)
  revert hfresh
  decide +kernel

end Qubitcoin.Aether.KnowledgeGraph
