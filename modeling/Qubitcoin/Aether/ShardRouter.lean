import Qubitcoin.Aether.ShardIntegrity
import Qubitcoin.Library.ScatteredMap

/-! The routing of nodes to the shards of their domains, from `router.rs` and `types.rs`, and
what a scan of all shards finds. -/

universe u v

namespace Qubitcoin.Aether.Router

open Shard

inductive Domain
  | keter
  | chochmah
  | binah
  | chesed
  | gevurah
  | tiferet
  | netzach
  | hod
  | yesod
  | malkuth
  | general
  | crossDomain
  deriving DecidableEq

/-- `to_lowercase`, as far as it yields the letters of the names below: outside ASCII only the
Kelvin sign does. -/
def toLowercase (s : String) : String :=
  s.map fun c => if c = '\u212a' then 'k' else c.toLower

namespace Domain

def fromStr (s : String) : Domain :=
  match toLowercase s with
  | "keter" | "meta_learning" | "governance" => keter
  | "chochmah" | "intuition" | "quantum_physics" | "physics" => chochmah
  | "binah" | "logic" | "mathematics" | "computer_science" => binah
  | "chesed" | "exploration" | "biology" => chesed
  | "gevurah" | "safety" | "cryptography" => gevurah
  | "tiferet" | "integration" | "blockchain" => tiferet
  | "netzach" | "reinforcement" | "economics" => netzach
  | "hod" | "language" | "ai_ml" => hod
  | "yesod" | "memory" | "technology" => yesod
  | "malkuth" | "action" | "general" => malkuth
  | "cross_domain" => crossDomain
  | _ => general

def shardBaseId : Domain → ℕ
  | keter => 0
  | chochmah => 1
  | binah => 2
  | chesed => 3
  | gevurah => 4
  | tiferet => 5
  | netzach => 6
  | hod => 7
  | yesod => 8
  | malkuth => 9
  | general => 10
  | crossDomain => 11

def all : List Domain :=
  [keter, chochmah, binah, chesed, gevurah, tiferet, netzach, hod, yesod, malkuth, general,
    crossDomain]

theorem mem_all (domain : Domain) : domain ∈ all := by
  cases domain <;> decide

theorem shardBaseId_injective : Function.Injective shardBaseId := by
  intro domain domain' h
  cases domain <;> cases domain' <;> first | rfl | cases h

/-- The name `general` is not that of the domain of the unknown names. -/
example : fromStr "General" = malkuth ∧ fromStr "unknown" = general := by decide +kernel

end Domain

def MAX_SUB_SHARDS : ℕ := 256

structure ShardRouter (F : Type u) (H : Type v) where
  shards : ColumnFamily ℕ (ShardStore F H) := ∅
  subShards : ℕ
  cachePerShard : ℕ

variable {F : Type u} {H : Type v}

def computeShardId (domain : Domain) (subShard : ℕ) : ℕ :=
  domain.shardBaseId * MAX_SUB_SHARDS + subShard

namespace ShardRouter

def new (cachePerShard subShardsPerDomain : ℕ) : ShardRouter F H where
  subShards := min (max subShardsPerDomain 1) MAX_SUB_SHARDS
  cachePerShard := cachePerShard

variable (self : ShardRouter F H)

def shardIds : List ℕ :=
  Domain.all.flatMap fun domain => (List.range self.subShards).map (computeShardId domain)

def initShards : ShardRouter F H :=
  { self with
    shards := self.shardIds.foldl
      (fun shards shardId => shards.insert shardId (.create self.cachePerShard)) self.shards }

def subShard (nodeId : I64) : ℕ :=
  if 1 < self.subShards then nodeId.toInt.natAbs % self.subShards else 0

def route (domain : String) (nodeId : I64) : ℕ :=
  computeShardId (.fromStr domain) (self.subShard nodeId)

def withShard (shardId : ℕ) (shard : ShardStore F H) : ShardRouter F H :=
  { self with shards := self.shards.insert shardId shard }

/-- The scan, in the order that the map of the shards is iterated in. -/
def findNode (nodeId : I64) :
    List ℕ → ShardRouter F H → Option (ShardNode F × ℕ) × ShardRouter F H
  | [], self => (none, self)
  | shardId :: order, self =>
    match self.shards.lookup shardId with
    | none => findNode nodeId order self
    | some shard =>
      match shard.getNode nodeId with
      | (some node, shard) => (some (node, shardId), self.withShard shardId shard)
      | (none, shard) => findNode nodeId order (self.withShard shardId shard)

def getNodeAny (order : List ℕ) (nodeId : I64) : Option (ShardNode F) × ShardRouter F H :=
  ((findNode nodeId order self).1.map Prod.fst, (findNode nodeId order self).2)

def putNode (fl : Floats F) (sha256 : String → H) (node : ShardNode F) :
    Except String (ℕ × ShardRouter F H) :=
  let shardId := self.route node.domain node.nodeId
  match self.shards.lookup shardId with
  | none => .error ("shard " ++ toString shardId ++ " not found")
  | some shard => .ok (shardId, self.withShard shardId (shard.putNode fl sha256 node))

def deleteNode (domain : String) (nodeId : I64) (cascade : Bool) :
    (Bool × BitVec 32) × ShardRouter F H :=
  let shardId := self.route domain nodeId
  match self.shards.lookup shardId with
  | none => ((false, 0), self)
  | some shard =>
    let (result, shard) := shard.deleteNode nodeId cascade
    (result, self.withShard shardId shard)

/-- The node that a shard has under an id. -/
def held (shardId : ℕ) (nodeId : I64) : Option (ShardNode F) :=
  (self.shards.lookup shardId).bind fun shard => shard.nodes.lookup nodeId

end ShardRouter

section Store

variable {fl : Floats F} {sha256 : String → H} (store : ShardStore F H) (n m : I64)

theorem deleteNode_fst (cascade : Bool) :
    (store.deleteNode n cascade).1.1 = (store.nodes.lookup n).isSome := by
  unfold ShardStore.deleteNode
  cases store.nodes.lookup n with
  | none => rfl
  | some node => cases cascade <;> rfl

theorem lookup_nodes_deleteNode (cascade : Bool) :
    (store.deleteNode n cascade).2.nodes.lookup m =
      if m = n then none else store.nodes.lookup m := by
  unfold ShardStore.deleteNode
  cases hlookup : store.nodes.lookup n with
  | none =>
    by_cases hm : m = n
    · rw [if_pos hm, hm]
      exact hlookup
    · rw [if_neg hm]
  | some node => cases cascade <;> exact ColumnFamily.lookup_erase_eq store.nodes n m

end Store

section Routing

variable {self : ShardRouter F H}

theorem computeShardId_inj {domain domain' : Domain} {sub : ℕ} :
    computeShardId domain sub = computeShardId domain' sub ↔ domain = domain' := by
  constructor
  · intro h
    apply Domain.shardBaseId_injective
    rw [computeShardId, computeShardId, MAX_SUB_SHARDS] at h
    omega
  · rintro rfl
    rfl

/-- The sub-shard is the same in each domain. -/
theorem route_eq_iff {domain domain' : String} {n : I64} :
    self.route domain n = self.route domain' n ↔
      Domain.fromStr domain = Domain.fromStr domain' :=
  computeShardId_inj

theorem route_mem_shardIds (hpos : 0 < self.subShards) (domain : String) (n : I64) :
    self.route domain n ∈ self.shardIds := by
  have hsub : self.subShard n < self.subShards := by
    unfold ShardRouter.subShard
    split
    · exact Nat.mod_lt _ hpos
    · exact hpos
  rw [ShardRouter.shardIds, List.mem_flatMap]
  exact ⟨_, Domain.mem_all _, List.mem_map_of_mem (List.mem_range.mpr hsub)⟩

theorem held_withShard (shardId : ℕ) (shard : ShardStore F H) (q : ℕ) (n : I64) :
    (self.withShard shardId shard).held q n =
      if q = shardId then shard.nodes.lookup n else self.held q n := by
  rw [ShardRouter.held, ShardRouter.withShard, ColumnFamily.lookup_insert_eq]
  split
  · rfl
  · rfl

theorem held_eq_of_lookup {shardId : ℕ} {shard : ShardStore F H}
    (h : self.shards.lookup shardId = some shard) (n : I64) :
    self.held shardId n = shard.nodes.lookup n := by
  rw [ShardRouter.held, h, Option.bind_some]

/-- A shard whose nodes have changed under one id. -/
theorem held_withShard_eq_write {shardId : ℕ} {shard shard' : ShardStore F H}
    (h : self.shards.lookup shardId = some shard) {n : I64} {v : Option (ShardNode F)}
    (hnodes : ∀ m, shard'.nodes.lookup m = if m = n then v else shard.nodes.lookup m) :
    (self.withShard shardId shard').held = ScatteredMap.write self.held shardId n v := by
  funext q m
  rw [held_withShard, ScatteredMap.write]
  by_cases hq : q = shardId
  · subst hq
    rw [if_pos rfl, hnodes, held_eq_of_lookup h]
    simp
  · simp [hq]

end Routing

section Invariant

variable (fl : Floats F) (sha256 : String → H)

/-- What all calls keep: each shard is in order, each node is in the shard that its domain and its
id lead to, and each route leads to a shard. -/
structure Routed (router : ShardRouter F H) : Prop where
  keyed : ∀ shardId shard, router.shards.lookup shardId = some shard → Keyed fl sha256 shard
  placed : ∀ shardId n node, router.held shardId n = some node →
    shardId = router.route node.domain n
  ready : ∀ domain n, ∃ shard, router.shards.lookup (router.route domain n) = some shard

variable {fl sha256} {self : ShardRouter F H}

theorem Routed.withShard (h : Routed fl sha256 self) {shardId : ℕ} {shard : ShardStore F H}
    (hkeyed : Keyed fl sha256 shard)
    (hplaced : ∀ n node, shard.nodes.lookup n = some node → shardId = self.route node.domain n) :
    Routed fl sha256 (self.withShard shardId shard) where
  keyed q store hlookup := by
    rw [ShardRouter.withShard, ColumnFamily.lookup_insert_eq] at hlookup
    split at hlookup
    · cases hlookup
      exact hkeyed
    · exact h.keyed q store hlookup
  placed q n node hheld := by
    rw [held_withShard] at hheld
    split at hheld
    · next heq =>
      rw [heq]
      exact hplaced n node hheld
    · exact h.placed q n node hheld
  ready domain n := by
    change ∃ store, (self.shards.insert shardId shard).lookup (self.route domain n) = some store
    rw [ColumnFamily.lookup_insert_eq]
    split
    · exact ⟨shard, rfl⟩
    · exact h.ready domain n

/-- A look-up in a shard changes its cache only. -/
theorem Routed.getNode (h : Routed fl sha256 self) {shardId : ℕ} {shard : ShardStore F H}
    (hshard : self.shards.lookup shardId = some shard) (n : I64) :
    (shard.getNode n).1 = self.held shardId n ∧
      Routed fl sha256 (self.withShard shardId (shard.getNode n).2) ∧
      (self.withShard shardId (shard.getNode n).2).held = self.held := by
  have hkeyed := h.keyed _ _ hshard
  obtain ⟨cache, hget, hcache⟩ := hkeyed.getNode_eq n
  rw [hget]
  refine ⟨(held_eq_of_lookup hshard n).symm, ?_, ?_⟩
  · apply h.withShard (hkeyed.withCache hcache)
    intro m node hlookup
    exact h.placed shardId m node (by rw [held_eq_of_lookup hshard, hlookup])
  · funext q m
    rw [held_withShard]
    split
    · next heq => rw [heq, held_eq_of_lookup hshard]
    · rfl

theorem Routed.findNode (h : Routed fl sha256 self) (n : I64) (order : List ℕ) :
    ((self.getNodeAny order n).1 = order.findSome? fun shardId => self.held shardId n) ∧
      Routed fl sha256 (self.getNodeAny order n).2 ∧
      (self.getNodeAny order n).2.held = self.held := by
  induction order generalizing self with
  | nil => exact ⟨rfl, h, rfl⟩
  | cons shardId order ih =>
    rw [List.findSome?_cons]
    simp only [ShardRouter.getNodeAny, ShardRouter.findNode]
    cases hshard : self.shards.lookup shardId with
    | none =>
      have hnone : self.held shardId n = none := by rw [ShardRouter.held, hshard, Option.bind_none]
      rw [hnone]
      exact ih h
    | some shard =>
      obtain ⟨hfound, hrouted, hheld⟩ := h.getNode hshard n
      rw [← hfound]
      dsimp only
      generalize shard.getNode n = got at hrouted hheld ⊢
      rcases got with ⟨_ | node, shard'⟩
      · obtain ⟨hfound', hrouted', hheld'⟩ := ih hrouted
        rw [hheld] at hfound' hheld'
        exact ⟨hfound', hrouted', hheld'⟩
      · exact ⟨rfl, hrouted, hheld⟩

theorem Routed.putNode (h : Routed fl sha256 self) (node : ShardNode F) :
    ∃ self', self.putNode fl sha256 node = .ok (self.route node.domain node.nodeId, self') ∧
      Routed fl sha256 self' ∧
      self'.held =
        ScatteredMap.write self.held (self.route node.domain node.nodeId) node.nodeId
          (some node) := by
  obtain ⟨shard, hshard⟩ := h.ready node.domain node.nodeId
  have hnodes (m : I64) : (shard.putNode fl sha256 node).nodes.lookup m =
      if m = node.nodeId then some node else shard.nodes.lookup m :=
    ColumnFamily.lookup_insert_eq shard.nodes node.nodeId m node
  refine ⟨_, by rw [ShardRouter.putNode, hshard], ?_, held_withShard_eq_write hshard hnodes⟩
  apply h.withShard ((h.keyed _ _ hshard).putNode node)
  intro m node' hlookup
  rw [hnodes] at hlookup
  split at hlookup
  · next heq =>
    cases hlookup
    rw [heq]
  · exact h.placed _ m node' (by rw [held_eq_of_lookup hshard, hlookup])

theorem Routed.deleteNode (h : Routed fl sha256 self) (domain : String) (n : I64)
    (cascade : Bool) :
    (self.deleteNode domain n cascade).1.1 = (self.held (self.route domain n) n).isSome ∧
      Routed fl sha256 (self.deleteNode domain n cascade).2 ∧
      (self.deleteNode domain n cascade).2.held =
        ScatteredMap.write self.held (self.route domain n) n none := by
  obtain ⟨shard, hshard⟩ := h.ready domain n
  have hnodes (m : I64) := lookup_nodes_deleteNode shard n m cascade
  simp only [ShardRouter.deleteNode, hshard]
  refine ⟨?_, ?_, held_withShard_eq_write hshard hnodes⟩
  · rw [deleteNode_fst, held_eq_of_lookup hshard]
  · apply h.withShard ((h.keyed _ _ hshard).deleteNode n cascade)
    intro m node hlookup
    rw [hnodes] at hlookup
    split at hlookup
    · cases hlookup
    · exact h.placed _ m node (by rw [held_eq_of_lookup hshard, hlookup])

end Invariant

section Start

theorem lookup_initShards (capacity : ℕ) (ids : List ℕ) (shards : ColumnFamily ℕ (ShardStore F H))
    (q : ℕ) :
    (ids.foldl (fun shards id => shards.insert id (.create capacity)) shards).lookup q =
      if q ∈ ids then some (.create capacity) else shards.lookup q := by
  induction ids generalizing shards with
  | nil => simp
  | cons id ids ih =>
    rw [List.foldl_cons, ih, ColumnFamily.lookup_insert_eq]
    by_cases hq : q ∈ ids
    · simp [hq]
    · simp [hq]

variable {fl : Floats F} {sha256 : String → H} (capacity subShards : ℕ)

theorem lookup_shards_start (q : ℕ) :
    ((ShardRouter.new capacity subShards).initShards : ShardRouter F H).shards.lookup q =
      if q ∈ (ShardRouter.new capacity subShards : ShardRouter F H).shardIds then
        some (.create capacity)
      else none :=
  lookup_initShards capacity _ ∅ q

theorem held_start :
    ((ShardRouter.new capacity subShards).initShards : ShardRouter F H).held =
      fun _ _ => none := by
  funext q n
  rw [ShardRouter.held, lookup_shards_start]
  split
  · rfl
  · rfl

theorem routed_start :
    Routed fl sha256 ((ShardRouter.new capacity subShards).initShards : ShardRouter F H) where
  keyed q shard hlookup := by
    rw [lookup_shards_start] at hlookup
    split at hlookup
    · cases hlookup
      exact keyed_create capacity
    · cases hlookup
  placed q n node hheld := by simp [held_start] at hheld
  ready domain n := by
    refine ⟨.create capacity, ?_⟩
    rw [lookup_shards_start, if_pos]
    apply @route_mem_shardIds F H (ShardRouter.new capacity subShards)
    simp [ShardRouter.new, MAX_SUB_SHARDS]

end Start

section Runs

inductive Call (F : Type u)
  | putNode (node : ShardNode F)
  | deleteNode (domain : String) (nodeId : I64) (cascade : Bool)
  /-- With the order that the map of the shards happens to be iterated in. -/
  | getNodeAny (order : List ℕ) (nodeId : I64)

/-- The router, and what was last put under each id unless it has been deleted since. -/
structure Session (F : Type u) (H : Type v) where
  router : ShardRouter F H
  last : I64 → Option (ShardNode F) := fun _ => none

variable (fl : Floats F) (sha256 : String → H)

def step (session : Session F H) : Call F → Session F H
  | .putNode node =>
    match session.router.putNode fl sha256 node with
    | .ok (_, router) =>
      { router := router
        last := Function.update session.last node.nodeId (some node) }
    | .error _ => session
  | .deleteNode domain nodeId cascade =>
    let ((deleted, _), router) := session.router.deleteNode domain nodeId cascade
    { router := router
      last := if deleted then Function.update session.last nodeId none else session.last }
  | .getNodeAny order nodeId =>
    { session with router := (session.router.getNodeAny order nodeId).2 }

/-- A new router with all its shards after the calls. -/
def after (capacity subShards : ℕ) (calls : List (Call F)) : Session F H :=
  Machine.run (step fl sha256) { router := (ShardRouter.new capacity subShards).initShards } calls

/-- Each node is in one shard, and a scan of the shards in any order finds what was last put. -/
structure Located (session : Session F H) : Prop where
  oneShard : ∀ shardId shardId' n, (session.router.held shardId n).isSome = true →
    (session.router.held shardId' n).isSome = true → shardId = shardId'
  found : ∀ order, order.Perm session.router.shards.keys →
    ∀ n, (session.router.getNodeAny order n).1 = session.last n

/-- A node is not put under an id whose stored node is of another domain. -/
def KeepsDomain (session : Session F H) : Call F → Prop
  | .putNode node => ∀ shardId old, session.router.held shardId node.nodeId = some old →
      Domain.fromStr old.domain = Domain.fromStr node.domain
  | _ => True

variable {fl sha256} {session : Session F H}

theorem Routed.step (h : Routed fl sha256 session.router) (call : Call F) :
    Routed fl sha256 (step fl sha256 session call).router := by
  cases call with
  | putNode node =>
    obtain ⟨router, hput, hrouted, -⟩ := h.putNode node
    simp only [Router.step, hput]
    exact hrouted
  | deleteNode domain nodeId cascade => exact (h.deleteNode domain nodeId cascade).2.1
  | getNodeAny order nodeId => exact (h.findNode nodeId order).2.1

/-- The other shards do not have the id exactly if the node is of the domain of the stored one. -/
theorem Routed.keepsDomain_iff (h : Routed fl sha256 session.router) (node : ShardNode F) :
    KeepsDomain session (.putNode node) ↔
      ∀ shardId, (session.router.held shardId node.nodeId).isSome = true →
        shardId = session.router.route node.domain node.nodeId := by
  constructor
  · intro hkeeps shardId hsome
    obtain ⟨old, hold⟩ := Option.isSome_iff_exists.mp hsome
    rw [h.placed shardId _ old hold, route_eq_iff]
    exact hkeeps shardId old hold
  · intro hroute shardId old hold
    rw [← @route_eq_iff F H session.router _ _ node.nodeId, ← h.placed shardId _ old hold]
    exact hroute shardId (by rw [hold]; rfl)

theorem Routed.holds_step (h : Routed fl sha256 session.router)
    (hholds : ScatteredMap.Holds session.router.held session.last) {call : Call F}
    (hkeeps : KeepsDomain session call) :
    ScatteredMap.Holds (Router.step fl sha256 session call).router.held
      (Router.step fl sha256 session call).last := by
  cases call with
  | putNode node =>
    obtain ⟨router, hput, -, hheld⟩ := h.putNode node
    simp only [Router.step, hput, hheld]
    exact hholds.write ((h.keepsDomain_iff node).mp hkeeps) (some node)
  | deleteNode domain nodeId cascade =>
    obtain ⟨hdeleted, -, hheld⟩ := h.deleteNode domain nodeId cascade
    simp only [Router.step, hheld, hdeleted]
    split
    · next hsome => exact hholds.write_none hsome
    · next hnone =>
      rw [ScatteredMap.write_eq_self (Option.not_isSome_iff_eq_none.mp hnone)]
      exact hholds
  | getNodeAny order nodeId =>
    obtain ⟨-, -, hheld⟩ := h.findNode nodeId order
    simp only [Router.step, hheld]
    exact hholds

theorem Routed.located (h : Routed fl sha256 session.router)
    (hholds : ScatteredMap.Holds session.router.held session.last) : Located session where
  oneShard shardId shardId' n := hholds.apart shardId shardId' n
  found order hperm n := by
    rw [(h.findNode n order).1]
    apply hholds.findSome?_eq
    intro shardId hsome
    rw [hperm.mem_iff, ← AList.mem_keys, ColumnFamily.mem_iff_exists]
    obtain ⟨node, hnode⟩ := Option.isSome_iff_exists.mp hsome
    obtain ⟨shard, hshard, -⟩ := Option.bind_eq_some_iff.mp hnode
    exact ⟨shard, hshard⟩

theorem routed_after (capacity subShards : ℕ) (calls : List (Call F)) :
    Routed fl sha256 (after fl sha256 capacity subShards calls).router :=
  Machine.run_induction (P := fun session : Session F H => Routed fl sha256 session.router)
    (fun _ call h => h.step call) (routed_start capacity subShards) calls

/-- All along the calls each node is in one shard and found there, exactly if no node is put in
the place of one of another domain. -/
theorem located_iff_keepsDomain (capacity subShards : ℕ) (calls : List (Call F)) :
    (∀ before, before <+: calls → Located (after fl sha256 capacity subShards before)) ↔
      ∀ before call, before ++ [call] <+: calls →
        KeepsDomain (after fl sha256 capacity subShards before) call := by
  constructor
  · intro hlocated before call hle
    have hrouted : Routed fl sha256 (after fl sha256 capacity subShards before).router :=
      routed_after capacity subShards before
    cases call with
    | putNode node =>
      have hone := (hlocated _ hle).oneShard
      obtain ⟨router, hput, -, hheld⟩ := hrouted.putNode node
      rw [after, Machine.run_append, ← after] at hone
      simp only [Machine.run_cons, Machine.run_nil, step, hput, hheld] at hone
      rw [hrouted.keepsDomain_iff]
      intro shardId hsome
      exact ScatteredMap.Apart.of_write hone hsome
    | deleteNode domain nodeId cascade => trivial
    | getNodeAny order nodeId => trivial
  · intro hkeeps before hle
    have hreached := Machine.run_guarded (G := KeepsDomain)
      (P := fun session : Session F H => Routed fl sha256 session.router ∧
        ScatteredMap.Holds session.router.held session.last)
      (fun _ call h hcall => ⟨h.1.step call, h.1.holds_step h.2 hcall⟩)
      ⟨routed_start capacity subShards, by rw [held_start]; exact ScatteredMap.holds_empty⟩
      hkeeps hle
    exact hreached.1.located hreached.2

/-- A node that moves to another domain stays in the first one too, and is found there once it is
deleted. -/
theorem moved_node_stays :
    ¬Located (after exactFloats id 8 1
        [.putNode { sampleNode 1 with domain := "logic" },
          .putNode { sampleNode 1 with domain := "biology" }]) ∧
      ¬Located (after exactFloats id 8 1
        [.putNode { sampleNode 1 with domain := "logic" },
          .putNode { sampleNode 1 with domain := "biology" },
          .deleteNode "biology" 1 true]) := by
  constructor
  · intro h
    have hone := h.oneShard 512 768 1 (by decide +kernel) (by decide +kernel)
    exact absurd hone (by decide)
  · intro h
    have hfound := congrArg Option.isSome (h.found _ (List.Perm.refl _) 1)
    revert hfound
    decide +kernel

end Runs

end Qubitcoin.Aether.Router
