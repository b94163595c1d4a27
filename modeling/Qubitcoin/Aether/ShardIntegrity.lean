import Qubitcoin.Aether.Shard
import Qubitcoin.Library.Machine

/-! A shard keeps its graph in five places: what the operations leave in step. -/

universe u v

namespace Qubitcoin.Aether.Shard

section Keys

variable {n s s' t t' : I64} {ty ty' : String}

theorem toList_edgeKey (s t : I64) (ty : String) :
    (edgeKey s t ty).toList =
      (toString s.toInt).toList ++ ':' :: ((toString t.toInt).toList ++ ':' :: ty.toList) := by
  simp [edgeKey, String.toList_append]

theorem toString_toInt_inj : (toString s.toInt).toList = (toString t.toInt).toList ↔ s = t := by
  rw [Keys.toString_toList_inj, BitVec.toInt_inj]

theorem edgeKey_inj : edgeKey s t ty = edgeKey s' t' ty' ↔ s = s' ∧ t = t' ∧ ty = ty' := by
  rw [← String.toList_inj, toList_edgeKey, toList_edgeKey,
    Keys.join_inj (Keys.colon_notMem_toString _) (Keys.colon_notMem_toString _),
    Keys.join_inj (Keys.colon_notMem_toString _) (Keys.colon_notMem_toString _),
    toString_toInt_inj, toString_toInt_inj, String.toList_inj]

/-- The key of an edge involves its two ends, and what its type has between colons. -/
theorem involves_edgeKey :
    involves n (edgeKey s t ty) = true ↔
      s = n ∨ t = n ∨ (":" ++ toString n.toInt ++ ":").toList <:+: (":" ++ ty).toList := by
  have hpattern : (":" ++ toString n.toInt ++ ":").toList =
      ':' :: ((toString n.toInt).toList ++ [':']) := by simp [String.toList_append]
  have hprefix : (toString n.toInt ++ ":").toList = (toString n.toInt).toList ++ [':'] := by
    simp [String.toList_append]
  have htype : (":" ++ ty).toList = ':' :: ty.toList := by simp [String.toList_append]
  rw [involves, Bool.or_eq_true, List.isPrefixOf_iff_prefix, decide_eq_true_iff, toList_edgeKey,
    hprefix, hpattern, htype,
    Keys.prefix_join_iff (Keys.colon_notMem_toString _) (Keys.colon_notMem_toString _),
    Keys.infix_join_iff (Keys.colon_notMem_toString _), List.infix_cons_iff,
    List.cons_prefix_cons,
    Keys.prefix_join_iff (Keys.colon_notMem_toString _) (Keys.colon_notMem_toString _),
    Keys.infix_join_iff (Keys.colon_notMem_toString _), toString_toInt_inj, toString_toInt_inj,
    eq_comm, @eq_comm _ n t]
  simp

end Keys

section Adjacency

variable {F : Type u} {cf : AdjacencyLists F} {E E' : I64 → I64 → String → Prop}

/-- The list of a node as the other ends and the types. -/
def names (cf : AdjacencyLists F) (n : I64) : List (I64 × String) :=
  (getAdjacencyList cf n).map fun e => (e.1, e.2.1)

/-- The lists name exactly the edges of a relation, each once. -/
def Lists (cf : AdjacencyLists F) (E : I64 → I64 → String → Prop) : Prop :=
  ∀ n, (names cf n).Nodup ∧ ∀ other ty, (other, ty) ∈ names cf n ↔ E n other ty

theorem getAdjacencyList_insert (cf : AdjacencyLists F) (n m : I64) (adj : List (Adjacent F)) :
    getAdjacencyList (cf.insert n adj) m = if m = n then adj else getAdjacencyList cf m := by
  rw [getAdjacencyList, ColumnFamily.lookup_insert_eq]
  split
  · rfl
  · rfl

theorem getAdjacencyList_erase (cf : AdjacencyLists F) (n m : I64) :
    getAdjacencyList (cf.erase n) m = if m = n then [] else getAdjacencyList cf m := by
  rw [getAdjacencyList, ColumnFamily.lookup_erase_eq]
  split
  · rfl
  · rfl

theorem lists_empty : Lists (∅ : AdjacencyLists F) fun _ _ _ => False := by
  intro n
  simp [names, getAdjacencyList]

theorem Lists.congr (h : Lists cf E) (hE : ∀ n o ty, E' n o ty ↔ E n o ty) : Lists cf E' := by
  intro n
  refine ⟨(h n).1, fun o ty => ?_⟩
  rw [hE]
  exact (h n).2 o ty

theorem getAdjacencyList_link (cf : AdjacencyLists F) (n o : I64) (ty : String) (w : F) (m : I64) :
    getAdjacencyList (link cf n o ty w) m =
      if m = n ∧ (o, ty) ∉ names cf n then getAdjacencyList cf n ++ [(o, ty, w)]
      else getAdjacencyList cf m := by
  have hany : ((getAdjacencyList cf n).any fun e => e.1 = o && e.2.1 = ty) = true ↔
      (o, ty) ∈ names cf n := by
    simp only [names, List.any_eq_true, List.mem_map, Bool.and_eq_true, decide_eq_true_eq,
      Prod.mk.injEq]
  by_cases hmem : (o, ty) ∈ names cf n
  · rw [link, if_pos (hany.mpr hmem), if_neg fun h => h.2 hmem]
  · rw [link, if_neg (hany.not.mpr hmem), getAdjacencyList_insert]
    simp [hmem]

theorem Lists.link (h : Lists cf E) (n o : I64) (ty : String) (w : F) :
    Lists (link cf n o ty w) fun m o' ty' => (m = n ∧ o' = o ∧ ty' = ty) ∨ E m o' ty' := by
  intro m
  unfold names
  rw [getAdjacencyList_link]
  split
  · next hnew =>
    obtain ⟨rfl, hnot⟩ := hnew
    have hm := h m
    rw [List.map_append]
    change (names cf m ++ [(o, ty)]).Nodup ∧ ∀ o' ty', (o', ty') ∈ names cf m ++ [(o, ty)] ↔ _
    constructor
    · rw [List.nodup_append]
      refine ⟨hm.1, List.nodup_singleton _, ?_⟩
      rintro a ha b hb rfl
      rw [List.mem_singleton.mp hb] at ha
      exact hnot ha
    · intro o' ty'
      rw [List.mem_append, hm.2, List.mem_singleton, Prod.mk.injEq]
      simp [or_comm]
  · next hold =>
    refine ⟨(h m).1, fun o' ty' => ?_⟩
    change (o', ty') ∈ names cf m ↔ _
    rw [(h m).2]
    constructor
    · exact Or.inr
    · rintro (⟨rfl, rfl, rfl⟩ | hE)
      · rw [← (h m).2]
        by_contra hnot
        exact hold ⟨rfl, hnot⟩
      · exact hE

/-- Without the list of `n` the lists are right exactly if the edges of `n`, and no others, are
gone. -/
theorem Lists.erase_iff (h : Lists cf E) (n : I64) :
    Lists (cf.erase n) E' ↔ ∀ m o ty, E' m o ty ↔ m ≠ n ∧ E m o ty := by
  have hnames (m : I64) : names (cf.erase n) m = if m = n then [] else names cf m := by
    rw [names, getAdjacencyList_erase]
    split
    · rfl
    · rfl
  have hmem (m o : I64) (ty : String) : (o, ty) ∈ names (cf.erase n) m ↔ m ≠ n ∧ E m o ty := by
    rw [hnames]
    split
    · next heq => simp [heq]
    · next hne => simp [hne, (h m).2]
  constructor
  · intro h' m o ty
    rw [← hmem]
    exact ((h' m).2 o ty).symm
  · intro hE m
    refine ⟨?_, fun o ty => (hmem m o ty).trans (hE m o ty).symm⟩
    rw [hnames]
    split
    · exact List.nodup_nil
    · exact (h m).1

end Adjacency

section Invariant

variable {F : Type u} {H : Type v} (fl : Floats F) (sha256 : String → H)

/-- What every operation keeps: the entries stand under their own keys, the cache holds stored
nodes, and the leaves are those of the stored nodes. -/
structure Keyed (store : ShardStore F H) : Prop where
  nodes : ∀ k node, store.nodes.lookup k = some node → node.nodeId = k
  edges : ∀ k edge, store.edges.lookup k = some edge → edge.storageKey = k
  cache : ∀ e ∈ store.cache, store.nodes.lookup e.1 = some e.2
  merkle : ∀ k, store.merkle.lookup k = (store.nodes.lookup k).map (ShardNode.merkleLeaf fl sha256)

def HasEdge (store : ShardStore F H) (source target : I64) (edgeType : String) : Prop :=
  edgeKey source target edgeType ∈ store.edges

def EdgeDirection.touches (n : I64) (edge : ShardEdge F) : EdgeDirection → Prop
  | .outgoing => edge.fromNodeId = n
  | .incoming => edge.toNodeId = n
  | .both => edge.fromNodeId = n ∨ edge.toNodeId = n

/-- The two counters, the two sets of lists, the answers of `getEdges` and the leaves agree with
what is stored. -/
structure Integrity (store : ShardStore F H) : Prop where
  nodeCount : store.nodeCount = BitVec.ofNat 64 store.nodes.keys.length
  edgeCount : store.edgeCount = BitVec.ofNat 64 store.edges.keys.length
  adjOut : Lists store.adjOut (HasEdge store)
  adjIn : Lists store.adjIn fun n source ty => HasEdge store source n ty
  getEdges : ∀ n (direction : EdgeDirection) edgeTypeFilter edge,
    edge ∈ store.getEdges fl n direction edgeTypeFilter ↔
      (∃ k, store.edges.lookup k = some edge) ∧ direction.touches n edge ∧
        edgeTypeFilter.all (· = edge.edgeType) = true
  merkle : ∀ k, store.merkle.lookup k = (store.nodes.lookup k).map (ShardNode.merkleLeaf fl sha256)

variable {fl sha256} {store : ShardStore F H}

theorem mem_outgoing (hkeyed : Keyed fl sha256 store) (h : Lists store.adjOut (HasEdge store)) (n : I64)
    (edgeTypeFilter : Option String) (edge : ShardEdge F) :
    edge ∈ store.outgoing fl n edgeTypeFilter ↔
      (∃ k, store.edges.lookup k = some edge) ∧ edge.fromNodeId = n ∧
        edgeTypeFilter.all (· = edge.edgeType) = true := by
  simp only [ShardStore.outgoing, ShardStore.wanted, List.mem_map, List.mem_filter]
  constructor
  · rintro ⟨⟨other, ty, weight⟩, ⟨hmem, hty⟩, rfl⟩
    have hstored := ((h n).2 other ty).mp (List.mem_map_of_mem hmem)
    obtain ⟨edge, hlookup⟩ := ColumnFamily.mem_iff_exists.mp hstored
    obtain ⟨hsource, -, htype⟩ := edgeKey_inj.mp (hkeyed.edges _ _ hlookup)
    rw [ShardStore.edgeAt, hlookup, Option.getD_some, htype]
    exact ⟨⟨_, hlookup⟩, hsource, hty⟩
  · rintro ⟨⟨k, hlookup⟩, rfl, hty⟩
    obtain rfl := hkeyed.edges k edge hlookup
    have hstored : HasEdge store edge.fromNodeId edge.toNodeId edge.edgeType :=
      ColumnFamily.mem_iff_exists.mpr ⟨edge, hlookup⟩
    obtain ⟨⟨other, ty, weight⟩, hmem, hname⟩ := List.mem_map.mp (((h _).2 _ _).mpr hstored)
    cases hname
    refine ⟨_, ⟨hmem, hty⟩, ?_⟩
    rw [ShardStore.edgeAt]
    exact congrArg (Option.getD · _) hlookup

theorem mem_incoming (hkeyed : Keyed fl sha256 store)
    (h : Lists store.adjIn fun n source ty => HasEdge store source n ty) (n : I64)
    (edgeTypeFilter : Option String) (edge : ShardEdge F) :
    edge ∈ store.incoming fl n edgeTypeFilter ↔
      (∃ k, store.edges.lookup k = some edge) ∧ edge.toNodeId = n ∧
        edgeTypeFilter.all (· = edge.edgeType) = true := by
  simp only [ShardStore.incoming, ShardStore.wanted, List.mem_map, List.mem_filter]
  constructor
  · rintro ⟨⟨other, ty, weight⟩, ⟨hmem, hty⟩, rfl⟩
    have hstored := ((h n).2 other ty).mp (List.mem_map_of_mem hmem)
    obtain ⟨edge, hlookup⟩ := ColumnFamily.mem_iff_exists.mp hstored
    obtain ⟨-, htarget, htype⟩ := edgeKey_inj.mp (hkeyed.edges _ _ hlookup)
    rw [ShardStore.edgeAt, hlookup, Option.getD_some, htype]
    exact ⟨⟨_, hlookup⟩, htarget, hty⟩
  · rintro ⟨⟨k, hlookup⟩, rfl, hty⟩
    obtain rfl := hkeyed.edges k edge hlookup
    have hstored : HasEdge store edge.fromNodeId edge.toNodeId edge.edgeType :=
      ColumnFamily.mem_iff_exists.mpr ⟨edge, hlookup⟩
    obtain ⟨⟨other, ty, weight⟩, hmem, hname⟩ := List.mem_map.mp (((h _).2 _ _).mpr hstored)
    cases hname
    refine ⟨_, ⟨hmem, hty⟩, ?_⟩
    rw [ShardStore.edgeAt]
    exact congrArg (Option.getD · _) hlookup

/-- With the lists right the rest is, beside the counters. -/
theorem Keyed.integrity_iff (hkeyed : Keyed fl sha256 store) :
    Integrity fl sha256 store ↔
      store.nodeCount = BitVec.ofNat 64 store.nodes.keys.length ∧
        store.edgeCount = BitVec.ofNat 64 store.edges.keys.length ∧
        Lists store.adjOut (HasEdge store) ∧
        Lists store.adjIn fun n source ty => HasEdge store source n ty := by
  constructor
  · exact fun h => ⟨h.nodeCount, h.edgeCount, h.adjOut, h.adjIn⟩
  · rintro ⟨hnodes, hedges, hout, hin⟩
    refine ⟨hnodes, hedges, hout, hin, fun n direction edgeTypeFilter edge => ?_, hkeyed.merkle⟩
    cases direction with
    | outgoing => exact mem_outgoing hkeyed hout n edgeTypeFilter edge
    | incoming => exact mem_incoming hkeyed hin n edgeTypeFilter edge
    | both =>
      rw [ShardStore.getEdges, List.mem_append, mem_outgoing hkeyed hout, mem_incoming hkeyed hin]
      simp only [EdgeDirection.touches]
      tauto

end Invariant

section Cache

variable {F : Type u} {cache : LruCache F} {n : I64} {node : ShardNode F} {e : I64 × ShardNode F}

theorem LruCache.mem_pop : e ∈ cache.pop n ↔ e ∈ cache ∧ e.1 ≠ n := by
  simp [LruCache.pop]

theorem LruCache.mem_foldl_pop {ns : List I64} :
    e ∈ ns.foldl LruCache.pop cache ↔ e ∈ cache ∧ e.1 ∉ ns := by
  induction ns generalizing cache with
  | nil => simp
  | cons n ns ih =>
    rw [List.foldl_cons, ih, LruCache.mem_pop, List.mem_cons, not_or, and_assoc]

theorem LruCache.eq_or_mem_pop_of_mem_put {capacity : ℕ} (h : e ∈ cache.put capacity n node) :
    e = (n, node) ∨ e ∈ cache.pop n :=
  List.mem_cons.mp (List.mem_of_mem_take h)

theorem LruCache.mem_of_get (h : cache.get n = some node) : (n, node) ∈ cache := by
  obtain ⟨l, l', rfl, -⟩ := List.lookup_eq_some_iff.mp h
  simp

end Cache

section Operations

variable {F : Type u} {H : Type v} {fl : Floats F} {sha256 : String → H} {store : ShardStore F H}

theorem keyed_create (capacity : ℕ) :
    Keyed fl sha256 (ShardStore.create capacity : ShardStore F H) where
  nodes := by simp [ShardStore.create]
  edges := by simp [ShardStore.create]
  cache := by simp [ShardStore.create]
  merkle := by simp [ShardStore.create]

theorem integrity_create (capacity : ℕ) :
    Integrity fl sha256 (ShardStore.create capacity : ShardStore F H) := by
  rw [(keyed_create capacity).integrity_iff]
  refine ⟨rfl, rfl, lists_empty.congr ?_, lists_empty.congr ?_⟩
  · simp [HasEdge, ShardStore.create]
  · simp [HasEdge, ShardStore.create]

theorem Keyed.putNode (h : Keyed fl sha256 store) (node : ShardNode F) :
    Keyed fl sha256 (store.putNode fl sha256 node) where
  nodes k node' hlookup := by
    rw [ShardStore.putNode, ColumnFamily.lookup_insert_eq] at hlookup
    split at hlookup
    · next heq =>
      cases hlookup
      exact heq.symm
    · exact h.nodes k node' hlookup
  edges := h.edges
  cache e he := by
    rw [ShardStore.putNode, ColumnFamily.lookup_insert_eq]
    rcases LruCache.eq_or_mem_pop_of_mem_put he with rfl | hpop
    · simp
    · rw [LruCache.mem_pop] at hpop
      rw [if_neg hpop.2]
      exact h.cache e hpop.1
  merkle k := by
    rw [ShardStore.putNode, ColumnFamily.lookup_insert_eq, ColumnFamily.lookup_insert_eq]
    split
    · rfl
    · exact h.merkle k

theorem Integrity.putNode_iff (hkeyed : Keyed fl sha256 store) (h : Integrity fl sha256 store)
    (node : ShardNode F) :
    Integrity fl sha256 (store.putNode fl sha256 node) ↔ node.nodeId ∉ store.nodes := by
  rw [(hkeyed.putNode node).integrity_iff]
  constructor
  · rintro ⟨hcount, -⟩ hmem
    change store.nodeCount + 1 = BitVec.ofNat 64 (store.nodes.insert _ _).keys.length at hcount
    rw [ColumnFamily.length_insert_of_mem hmem, h.nodeCount] at hcount
    simp at hcount
  · intro hnot
    refine ⟨?_, h.edgeCount, h.adjOut, h.adjIn⟩
    change store.nodeCount + 1 = BitVec.ofNat 64 (store.nodes.insert _ _).keys.length
    rw [ColumnFamily.length_insert_of_notMem hnot, h.nodeCount, BitVec.ofNat_add]
    rfl

/-- The cache answers as the column family does, and a look-up changes nothing else. -/
theorem Keyed.getNode_eq (h : Keyed fl sha256 store) (n : I64) :
    ∃ cache, store.getNode n = (store.nodes.lookup n, { store with cache := cache }) ∧
      ∀ e ∈ cache, store.nodes.lookup e.1 = some e.2 := by
  unfold ShardStore.getNode
  split
  · next node hget =>
    have hlookup := h.cache _ (LruCache.mem_of_get hget)
    refine ⟨store.cache.promote n node, by rw [hlookup], fun e he => ?_⟩
    rcases List.mem_cons.mp he with rfl | hpop
    · exact hlookup
    · exact h.cache e (LruCache.mem_pop.mp hpop).1
  · split
    · next node hlookup =>
      refine ⟨store.cache.put store.cacheCapacity n node, by rw [hlookup], fun e he => ?_⟩
      rcases LruCache.eq_or_mem_pop_of_mem_put he with rfl | hpop
      · exact hlookup
      · exact h.cache e (LruCache.mem_pop.mp hpop).1
    · next hlookup => exact ⟨store.cache, by rw [hlookup], h.cache⟩

theorem Keyed.withCache (h : Keyed fl sha256 store) {cache : LruCache F}
    (hcache : ∀ e ∈ cache, store.nodes.lookup e.1 = some e.2) :
    Keyed fl sha256 { store with cache := cache } where
  nodes := h.nodes
  edges := h.edges
  cache := hcache
  merkle := h.merkle

theorem Keyed.updateConfidence (h : Keyed fl sha256 store) (n : I64) (confidence : F)
    (block : I64) : Keyed fl sha256 (store.updateConfidence fl sha256 n confidence block).2 := by
  obtain ⟨cache, hget, hcache⟩ := h.getNode_eq n
  have hcached := h.withCache hcache
  rw [ShardStore.updateConfidence, hget]
  cases store.nodes.lookup n with
  | none => exact hcached
  | some node => exact hcached.putNode _

theorem Integrity.updateConfidence_iff (hkeyed : Keyed fl sha256 store)
    (h : Integrity fl sha256 store) (n : I64) (confidence : F) (block : I64) :
    Integrity fl sha256 (store.updateConfidence fl sha256 n confidence block).2 ↔
      n ∉ store.nodes := by
  obtain ⟨cache, hget, hcache⟩ := hkeyed.getNode_eq n
  have hcached := hkeyed.withCache hcache
  have hintegrity : Integrity fl sha256 { store with cache := cache } :=
    hcached.integrity_iff.mpr (hkeyed.integrity_iff.mp h)
  rw [ShardStore.updateConfidence, hget, ColumnFamily.mem_iff_exists]
  cases hlookup : store.nodes.lookup n with
  | none => simpa using hintegrity
  | some node =>
    have hmem : node.nodeId ∈ store.nodes := by
      rw [hkeyed.nodes n node hlookup, ColumnFamily.mem_iff_exists]
      exact ⟨node, hlookup⟩
    rw [Integrity.putNode_iff hcached hintegrity]
    simpa using hmem

theorem Keyed.putEdge (h : Keyed fl sha256 store) (edge : ShardEdge F) :
    Keyed fl sha256 (store.putEdge edge).2 where
  nodes := h.nodes
  edges k edge' hlookup := by
    rw [ShardStore.putEdge, ColumnFamily.lookup_insert_eq] at hlookup
    split at hlookup
    · next heq =>
      cases hlookup
      exact heq.symm
    · exact h.edges k edge' hlookup
  cache := h.cache
  merkle := h.merkle

theorem hasEdge_putEdge (edge : ShardEdge F) (source target : I64) (ty : String) :
    HasEdge (store.putEdge edge).2 source target ty ↔
      (source = edge.fromNodeId ∧ target = edge.toNodeId ∧ ty = edge.edgeType) ∨
        HasEdge store source target ty := by
  rw [← edgeKey_inj]
  exact AList.mem_insert store.edges

theorem Integrity.putEdge (hkeyed : Keyed fl sha256 store) (h : Integrity fl sha256 store)
    (edge : ShardEdge F) : Integrity fl sha256 (store.putEdge edge).2 := by
  rw [(hkeyed.putEdge edge).integrity_iff]
  refine ⟨h.nodeCount, ?_, ?_, ?_⟩
  · simp only [ShardStore.putEdge, AList.lookup_isSome]
    split
    · next hmem => rw [ColumnFamily.length_insert_of_mem hmem, h.edgeCount]
    · next hnot =>
      rw [ColumnFamily.length_insert_of_notMem hnot, h.edgeCount, BitVec.ofNat_add]
      rfl
  · exact (h.adjOut.link _ _ _ edge.weight).congr (hasEdge_putEdge edge)
  · apply (h.adjIn.link edge.toNodeId edge.fromNodeId edge.edgeType edge.weight).congr
    intro n source ty
    rw [hasEdge_putEdge]
    tauto

theorem Keyed.deleteNode (h : Keyed fl sha256 store) (n : I64) (cascadeEdges : Bool) :
    Keyed fl sha256 (store.deleteNode n cascadeEdges).2 := by
  unfold ShardStore.deleteNode
  split
  · exact h
  · have hremoved : Keyed fl sha256
        { store with
          nodes := store.nodes.erase n
          cache := store.cache.pop n
          merkle := store.merkle.erase n
          nodeCount := store.nodeCount - 1 } :=
      { nodes := fun k node hlookup => by
          rw [ColumnFamily.lookup_erase_eq] at hlookup
          split at hlookup
          · cases hlookup
          · exact h.nodes k node hlookup
        edges := h.edges
        cache := fun e he => by
          rw [LruCache.mem_pop] at he
          rw [ColumnFamily.lookup_erase_eq, if_neg he.2]
          exact h.cache e he.1
        merkle := fun k => by
          rw [ColumnFamily.lookup_erase_eq, ColumnFamily.lookup_erase_eq]
          split
          · rfl
          · exact h.merkle k }
    cases cascadeEdges with
    | false => exact hremoved
    | true =>
      refine ⟨hremoved.nodes, fun k edge hlookup => ?_, hremoved.cache, hremoved.merkle⟩
      simp only [if_true, ColumnFamily.lookup_deleteAll] at hlookup
      split at hlookup
      · cases hlookup
      · exact h.edges k edge hlookup

theorem mem_deleteAll_cascade (n : I64) (k : String) :
    k ∈ store.edges.deleteAll (store.cascade n) ↔ k ∈ store.edges ∧ ¬involves n k = true := by
  have hcascade : k ∈ store.cascade n ↔ k ∈ store.edges ∧ involves n k = true := by
    rw [ShardStore.cascade, ColumnFamily.mem_map_scan, ColumnFamily.mem_iff_exists]
    exact exists_and_right
  rw [ColumnFamily.mem_iff_exists, ColumnFamily.lookup_deleteAll]
  split
  · next hmem => simp [(hcascade.mp hmem).2]
  · next hnot =>
    rw [← ColumnFamily.mem_iff_exists]
    exact ⟨fun hmem => ⟨hmem, fun hinvolves => hnot (hcascade.mpr ⟨hmem, hinvolves⟩)⟩, fun h => h.1⟩

/-- The number of keys survives the 32 bits it is counted in. -/
def Countable (n : ℕ) : Prop := (BitVec.ofNat 32 n).signExtend 64 = BitVec.ofNat 64 n

/-- The cascade finds no keys but those of the loops at the node. -/
def OnlyLoops (store : ShardStore F H) (n : I64) : Prop :=
  ∀ source target ty, HasEdge store source target ty →
    involves n (edgeKey source target ty) = true → source = n ∧ target = n

/-- The lists of the other ends still name what the cascade deletes. -/
theorem lists_cascade_iff (h : Integrity fl sha256 store) (n : I64) :
    (Lists (store.adjOut.erase n)
        (fun source target ty =>
          edgeKey source target ty ∈ store.edges.deleteAll (store.cascade n)) ∧
      Lists (store.adjIn.erase n)
        (fun target source ty =>
          edgeKey source target ty ∈ store.edges.deleteAll (store.cascade n))) ↔
      OnlyLoops store n := by
  rw [h.adjOut.erase_iff, h.adjIn.erase_iff]
  simp only [mem_deleteAll_cascade, HasEdge, OnlyLoops]
  constructor
  · rintro ⟨hout, hin⟩ source target ty hstored hinvolves
    constructor
    · by_contra hne
      exact ((hout source target ty).mpr ⟨hne, hstored⟩).2 hinvolves
    · by_contra hne
      exact ((hin target source ty).mpr ⟨hne, hstored⟩).2 hinvolves
  · intro hloops
    constructor
    · intro source target ty
      constructor
      · rintro ⟨hstored, hnot⟩
        exact ⟨fun heq => hnot (involves_edgeKey.mpr (.inl heq)), hstored⟩
      · rintro ⟨hne, hstored⟩
        exact ⟨hstored, fun hinvolves => hne (hloops _ _ _ hstored hinvolves).1⟩
    · intro target source ty
      constructor
      · rintro ⟨hstored, hnot⟩
        exact ⟨fun heq => hnot (involves_edgeKey.mpr (.inr (.inl heq))), hstored⟩
      · rintro ⟨hne, hstored⟩
        exact ⟨hstored, fun hinvolves => hne (hloops _ _ _ hstored hinvolves).2⟩

theorem nodeCount_erase (h : Integrity fl sha256 store) {n : I64} (hmem : n ∈ store.nodes) :
    store.nodeCount - 1 = BitVec.ofNat 64 (store.nodes.erase n).keys.length := by
  rw [h.nodeCount, ← ColumnFamily.length_erase_of_mem hmem, BitVec.ofNat_add]
  exact BitVec.add_sub_cancel _ _

theorem edgeCount_cascade_iff (h : Integrity fl sha256 store) (n : I64) :
    store.edgeCount - (BitVec.ofNat 32 (store.cascade n).length).signExtend 64 =
        BitVec.ofNat 64 (store.edges.deleteAll (store.cascade n)).keys.length ↔
      Countable (store.cascade n).length := by
  have hlength := ColumnFamily.length_deleteAll_scan store.edges fun key _ => involves n key
  rw [← List.length_map Prod.fst] at hlength
  rw [h.edgeCount, ← hlength, BitVec.ofNat_add, BitVec.sub_eq_iff_eq_add]
  exact (BitVec.add_right_inj _).trans eq_comm

theorem Integrity.deleteNode_iff (hkeyed : Keyed fl sha256 store) (h : Integrity fl sha256 store)
    (n : I64) (cascadeEdges : Bool) :
    Integrity fl sha256 (store.deleteNode n cascadeEdges).2 ↔
      (cascadeEdges = true → n ∈ store.nodes →
        OnlyLoops store n ∧ Countable (store.cascade n).length) := by
  rw [(hkeyed.deleteNode n cascadeEdges).integrity_iff]
  cases hlookup : store.nodes.lookup n with
  | none =>
    have hnot : n ∉ store.nodes := by simp [ColumnFamily.mem_iff_exists, hlookup]
    simp only [ShardStore.deleteNode, hlookup]
    rw [← hkeyed.integrity_iff]
    simp [h, hnot]
  | some node =>
    have hmem : n ∈ store.nodes := ColumnFamily.mem_iff_exists.mpr ⟨node, hlookup⟩
    have hcount := nodeCount_erase h hmem
    cases cascadeEdges with
    | false =>
      simp only [ShardStore.deleteNode, hlookup, Bool.false_eq_true, if_false, false_implies,
        iff_true]
      exact ⟨hcount, h.edgeCount, h.adjOut, h.adjIn⟩
    | true =>
      simp only [ShardStore.deleteNode, hlookup, if_true, hcount, true_and, hmem, true_implies]
      rw [edgeCount_cascade_iff h, and_comm]
      exact and_congr_left' (lists_cascade_iff h n)

theorem Keyed.compact (h : Keyed fl sha256 store) (minValueScore : F) (currentBlock : I64) :
    Keyed fl sha256 (store.compact fl minValueScore currentBlock).2 := by
  have hids : (store.stale fl minValueScore currentBlock).map (fun e => e.2.nodeId) =
      (store.stale fl minValueScore currentBlock).map Prod.fst := by
    apply List.map_congr_left
    intro e he
    exact h.nodes _ _ (ColumnFamily.mem_scan.mp he).1
  simp only [ShardStore.compact, hids]
  refine ⟨fun k node hlookup => ?_, h.edges, fun e he => ?_, fun k => ?_⟩
  · rw [ColumnFamily.lookup_deleteAll] at hlookup
    split at hlookup
    · cases hlookup
    · exact h.nodes k node hlookup
  · rw [LruCache.mem_foldl_pop] at he
    rw [ColumnFamily.lookup_deleteAll, if_neg he.2]
    exact h.cache e he.1
  · rw [ColumnFamily.lookup_deleteAll, ColumnFamily.lookup_deleteAll]
    split
    · rfl
    · exact h.merkle k

theorem Integrity.compact (hkeyed : Keyed fl sha256 store) (h : Integrity fl sha256 store)
    (minValueScore : F) (currentBlock : I64) :
    Integrity fl sha256 (store.compact fl minValueScore currentBlock).2 := by
  rw [(hkeyed.compact minValueScore currentBlock).integrity_iff]
  refine ⟨?_, h.edgeCount, h.adjOut, h.adjIn⟩
  have hlength := ColumnFamily.length_deleteAll_scan store.nodes fun _ node =>
    fl.lt (node.valueScore fl currentBlock) minValueScore
  simp only [ShardStore.compact, ShardStore.stale]
  rw [h.nodeCount, ← hlength, BitVec.ofNat_add, BitVec.add_sub_cancel]

end Operations

section Weights

variable {F : Type u} {cf cf' : AdjacencyLists F} {edges edges' : ColumnFamily String (ShardEdge F)}
  {key : I64 → I64 → String → String}

/-- The entries of the lists have the weights of the edges that they name. -/
def Weights (cf : AdjacencyLists F) (edges : ColumnFamily String (ShardEdge F))
    (key : I64 → I64 → String → String) : Prop :=
  ∀ n, ∀ e ∈ getAdjacencyList cf n, ∀ edge,
    edges.lookup (key n e.1 e.2.1) = some edge → edge.weight = e.2.2

theorem Weights.mono (h : Weights cf edges key)
    (hcf : ∀ n, ∀ e ∈ getAdjacencyList cf' n, e ∈ getAdjacencyList cf n)
    (hedges : ∀ k edge, edges'.lookup k = some edge → edges.lookup k = some edge) :
    Weights cf' edges' key :=
  fun n e he edge hlookup => h n e (hcf n e he) edge (hedges _ edge hlookup)

theorem Weights.link (h : Weights cf edges key)
    (hlists : Lists cf fun n o ty => key n o ty ∈ edges)
    (hkey : ∀ {n o ty n' o' ty'}, key n o ty = key n' o' ty' → n = n' ∧ o = o' ∧ ty = ty')
    {n o : I64} {ty : String} {edge : ShardEdge F}
    (hsame : ∀ old, edges.lookup (key n o ty) = some old → old.weight = edge.weight) :
    Weights (link cf n o ty edge.weight) (edges.insert (key n o ty) edge) key := by
  intro m e he edge' hlookup
  rw [ColumnFamily.lookup_insert_eq] at hlookup
  rw [getAdjacencyList_link] at he
  split at hlookup
  · next heq =>
    obtain ⟨rfl, rfl, rfl⟩ := hkey heq
    cases hlookup
    split at he
    · next hnew =>
      rcases List.mem_append.mp he with hold | hlast
      · exact absurd (List.mem_map_of_mem hold) hnew.2
      · rw [List.mem_singleton.mp hlast]
    · have hstored := ((hlists m).2 _ _).mp (List.mem_map_of_mem he)
      obtain ⟨old, hold⟩ := ColumnFamily.mem_iff_exists.mp hstored
      rw [← hsame old hold, h m e he old hold]
  · next hne =>
    split at he
    · next hnew =>
      obtain ⟨rfl, -⟩ := hnew
      rcases List.mem_append.mp he with hold | hlast
      · exact h m e hold edge' hlookup
      · rw [List.mem_singleton.mp hlast] at hne
        exact absurd rfl hne
    · exact h m e he edge' hlookup

end Weights

section Runs

variable {F : Type u} {H : Type v} (fl : Floats F) (sha256 : String → H)

inductive Call (F : Type u)
  | putNode (node : ShardNode F)
  | putEdge (edge : ShardEdge F)
  | deleteNode (nodeId : I64) (cascadeEdges : Bool)
  | updateConfidence (nodeId : I64) (confidence : F) (block : I64)
  | compact (minValueScore : F) (currentBlock : I64)

def step (store : ShardStore F H) : Call F → ShardStore F H
  | .putNode node => store.putNode fl sha256 node
  | .putEdge edge => (store.putEdge edge).2
  | .deleteNode nodeId cascadeEdges => (store.deleteNode nodeId cascadeEdges).2
  | .updateConfidence nodeId confidence block =>
    (store.updateConfidence fl sha256 nodeId confidence block).2
  | .compact minValueScore currentBlock => (store.compact fl minValueScore currentBlock).2

/-- A new shard after the calls. -/
def after (capacity : ℕ) (calls : List (Call F)) : ShardStore F H :=
  Machine.run (step fl sha256) (.create capacity) calls

/-- The calls that keep the copies in step: nodes are written once, and a cascade finds nothing
but loops. -/
def Harmless (store : ShardStore F H) : Call F → Prop
  | .putNode node => node.nodeId ∉ store.nodes
  | .putEdge _ => True
  | .deleteNode nodeId cascadeEdges =>
    cascadeEdges = true → nodeId ∈ store.nodes →
      OnlyLoops store nodeId ∧ Countable (store.cascade nodeId).length
  | .updateConfidence nodeId _ _ => nodeId ∉ store.nodes
  | .compact _ _ => True

/-- A stored edge is not given another weight. -/
def KeepsWeight (store : ShardStore F H) : Call F → Prop
  | .putEdge edge =>
    ∀ old, store.edges.lookup edge.storageKey = some old → old.weight = edge.weight
  | _ => True

structure Weighted (store : ShardStore F H) : Prop where
  adjOut : Weights store.adjOut store.edges edgeKey
  adjIn : Weights store.adjIn store.edges fun target source => edgeKey source target

variable {fl sha256} {store : ShardStore F H} {call : Call F}

theorem Keyed.step (h : Keyed fl sha256 store) (call : Call F) :
    Keyed fl sha256 (step fl sha256 store call) := by
  cases call with
  | putNode node => exact h.putNode node
  | putEdge edge => exact h.putEdge edge
  | deleteNode nodeId cascadeEdges => exact h.deleteNode nodeId cascadeEdges
  | updateConfidence nodeId confidence block => exact h.updateConfidence nodeId confidence block
  | compact minValueScore currentBlock => exact h.compact minValueScore currentBlock

theorem Integrity.step_iff (hkeyed : Keyed fl sha256 store) (h : Integrity fl sha256 store)
    (call : Call F) :
    Integrity fl sha256 (step fl sha256 store call) ↔ Harmless store call := by
  cases call with
  | putNode node => exact h.putNode_iff hkeyed node
  | putEdge edge => exact iff_of_true (h.putEdge hkeyed edge) trivial
  | deleteNode nodeId cascadeEdges => exact h.deleteNode_iff hkeyed nodeId cascadeEdges
  | updateConfidence nodeId confidence block =>
    exact h.updateConfidence_iff hkeyed nodeId confidence block
  | compact minValueScore currentBlock =>
    exact iff_of_true (h.compact hkeyed minValueScore currentBlock) trivial

theorem Weighted.of_deleteNode (h : Weighted store) (n : I64) (cascadeEdges : Bool) :
    Weighted (store.deleteNode n cascadeEdges).2 := by
  have herase (cf : AdjacencyLists F) (m : I64) (e : Adjacent F)
      (he : e ∈ getAdjacencyList (cf.erase n) m) : e ∈ getAdjacencyList cf m := by
    rw [getAdjacencyList_erase] at he
    split at he
    · cases he
    · exact he
  have hedges (k : String) (edge : ShardEdge F)
      (hlookup : (store.edges.deleteAll (store.cascade n)).lookup k = some edge) :
      store.edges.lookup k = some edge := by
    rw [ColumnFamily.lookup_deleteAll] at hlookup
    split at hlookup
    · cases hlookup
    · exact hlookup
  unfold ShardStore.deleteNode
  split
  · exact h
  · cases cascadeEdges with
    | false => exact ⟨h.adjOut, h.adjIn⟩
    | true => exact ⟨h.adjOut.mono (herase _) hedges, h.adjIn.mono (herase _) hedges⟩

theorem Weighted.step (hkeyed : Keyed fl sha256 store) (hintegrity : Integrity fl sha256 store)
    (h : Weighted store) (hweight : KeepsWeight store call) :
    Weighted (step fl sha256 store call) := by
  cases call with
  | putNode node => exact ⟨h.adjOut, h.adjIn⟩
  | putEdge edge =>
    exact
      { adjOut := h.adjOut.link hintegrity.adjOut edgeKey_inj.mp hweight
        adjIn := h.adjIn.link hintegrity.adjIn
          (fun heq => let ⟨hs, ht, hty⟩ := edgeKey_inj.mp heq; ⟨ht, hs, hty⟩) hweight }
  | deleteNode nodeId cascadeEdges => exact h.of_deleteNode nodeId cascadeEdges
  | updateConfidence nodeId confidence block =>
    obtain ⟨cache, hget, -⟩ := hkeyed.getNode_eq nodeId
    change Weighted (store.updateConfidence fl sha256 nodeId confidence block).2
    rw [ShardStore.updateConfidence, hget]
    cases store.nodes.lookup nodeId with
    | none => exact ⟨h.adjOut, h.adjIn⟩
    | some node => exact ⟨h.adjOut, h.adjIn⟩
  | compact minValueScore currentBlock => exact ⟨h.adjOut, h.adjIn⟩

theorem keyed_after (capacity : ℕ) (calls : List (Call F)) :
    Keyed fl sha256 (after fl sha256 capacity calls) :=
  Machine.run_induction (fun _ call h => h.step call) (keyed_create capacity) calls

/-- While every call is harmless the shard is in order, and the next call leaves it in order
exactly if it is harmless too. -/
theorem integrity_after {capacity : ℕ} {calls : List (Call F)}
    (hcalls : ∀ before call, before ++ [call] <+: calls →
      Harmless (after fl sha256 capacity before) call) :
    (∀ before, before <+: calls → Integrity fl sha256 (after fl sha256 capacity before)) ∧
      (∀ call, Integrity fl sha256 (after fl sha256 capacity (calls ++ [call])) ↔
        Harmless (after fl sha256 capacity calls) call) ∧
      ((∀ before call, before ++ [call] <+: calls →
          KeepsWeight (after fl sha256 capacity before) call) →
        Weighted (after fl sha256 capacity calls)) := by
  have hreached (before : List (Call F)) (hle : before <+: calls) :
      Keyed fl sha256 (after fl sha256 capacity before) ∧
        Integrity fl sha256 (after fl sha256 capacity before) := by
    apply Machine.run_guarded (G := Harmless) (P := fun s => Keyed fl sha256 s ∧ Integrity fl sha256 s)
      ?_ ⟨keyed_create capacity, integrity_create capacity⟩ hcalls hle
    exact fun _ call h hharmless => ⟨h.1.step call, (h.2.step_iff h.1 call).mpr hharmless⟩
  refine ⟨fun before hle => (hreached before hle).2, fun call => ?_, fun hweights => ?_⟩
  · have hlast := hreached calls (List.prefix_refl calls)
    rw [after, Machine.run_append]
    exact hlast.2.step_iff hlast.1 call
  · have hempty : Weighted (ShardStore.create capacity : ShardStore F H) := by
      constructor
      · simp [Weights, getAdjacencyList, ShardStore.create]
      · simp [Weights, getAdjacencyList, ShardStore.create]
    have hweighted (before : List (Call F)) (hle : before <+: calls) :
        Weighted (after fl sha256 capacity before) := by
      induction before using List.reverseRecOn with
      | nil => exact hempty
      | append_singleton before call ih =>
        have hbefore := (List.prefix_append _ _).trans hle
        obtain ⟨hkeyed, hintegrity⟩ := hreached before hbefore
        rw [after, Machine.run_append]
        exact (ih hbefore).step hkeyed hintegrity (hweights before call hle)
    exact hweighted calls (List.prefix_refl calls)

/-- Exact numbers in the place of floats, and a curve in the place of the exponential. -/
def exactFloats : Floats ℚ where
  ofRat := id
  add := (· + ·)
  mul := (· * ·)
  div := (· / ·)
  neg := (- ·)
  min := min
  exp x := if x < 0 then 1 / (1 - x) else 1 + x
  lt x y := x < y
  format6 x :=
    let micros := ⌊x * 1000000⌋.toNat
    toString (micros / 1000000) ++ "." ++
      String.ofList ((toString (1000000 + micros % 1000000)).toList.drop 1)

def sampleNode (nodeId : I64) : ShardNode ℚ where
  nodeId := nodeId
  nodeType := "assertion"
  contentHash := "c0ffee"
  confidence := 1 / 2
  domain := "general"
  lastReferencedBlock := 10
  referenceCount := 0
  groundingSource := ""
  edgesOut := []
  edgesIn := []

def sampleEdge : ShardEdge ℚ where
  fromNodeId := 5
  toNodeId := 6
  edgeType := "supports"
  weight := 1
  timestamp := 0

example : exactFloats.format6 (1 / 2) = "0.500000" := by decide +kernel

theorem integrity_after_sample :
    Integrity exactFloats id
        (after exactFloats id 8 [.putNode (sampleNode 5), .putEdge sampleEdge]) := by
  refine (@integrity_after ℚ String exactFloats id 8
    [.putNode (sampleNode 5), .putEdge sampleEdge] ?_).1 _ (List.prefix_refl _)
  rw [Machine.forall_before_cons, Machine.forall_before_cons, Machine.forall_before_nil]
  exact ⟨AList.notMem_empty _, trivial, trivial⟩

/-- The other end of a deleted edge goes on naming it, and an update is counted as a new node. -/
theorem not_integrity_after :
    ¬Integrity exactFloats id (after exactFloats id 8
        [.putNode (sampleNode 5), .putNode (sampleNode 6), .putEdge sampleEdge,
          .deleteNode 5 true]) ∧
      ¬Integrity exactFloats id (after exactFloats id 8
        [.putNode (sampleNode 5), .updateConfidence 5 (9 / 10) 100]) := by
  constructor
  · intro h
    have hnamed := ((h.adjIn 6).2 5 "supports").mp (by decide +kernel)
    change edgeKey 5 6 "supports" ∈ _ at hnamed
    rw [AList.mem_keys] at hnamed
    revert hnamed
    decide +kernel
  · intro h
    have hcount := h.nodeCount
    revert hcount
    decide +kernel

end Runs

end Qubitcoin.Aether.Shard
