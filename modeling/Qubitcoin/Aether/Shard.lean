import Qubitcoin.Library.ColumnFamily
import Qubitcoin.Library.Keys

/-! The storage of a graph shard, from `storage.rs`, `types.rs` and `merkle.rs`. -/

universe u v

namespace Qubitcoin.Aether.Shard

abbrev I64 := BitVec 64

/-- What the shard uses of `f64`. -/
structure Floats (F : Type u) where
  ofRat : ℚ → F
  add : F → F → F
  mul : F → F → F
  div : F → F → F
  neg : F → F
  min : F → F → F
  exp : F → F
  lt : F → F → Bool
  /-- `{:.6}`. -/
  format6 : F → String

variable {F : Type u}

def Floats.clamp (fl : Floats F) (x low high : F) : F :=
  if fl.lt x low then low else if fl.lt high x then high else x

structure ShardNode (F : Type u) where
  nodeId : I64
  nodeType : String
  contentHash : String
  confidence : F
  domain : String
  lastReferencedBlock : I64
  referenceCount : I64
  groundingSource : String
  edgesOut : List I64
  edgesIn : List I64

structure ShardEdge (F : Type u) where
  fromNodeId : I64
  toNodeId : I64
  edgeType : String
  weight : F
  timestamp : F

namespace ShardNode

variable {H : Type v}

def merkleLeaf (fl : Floats F) (sha256 : String → H) (node : ShardNode F) : H :=
  sha256 (toString node.nodeId.toInt ++ ":" ++ node.contentHash ++ ":" ++
    fl.format6 node.confidence)

def typeScore (nodeType : String) : ℚ :=
  if nodeType = "axiom" then 1
  else if nodeType = "inference" then 8 / 10
  else if nodeType = "prediction" then 7 / 10
  else if nodeType = "assertion" then 6 / 10
  else if nodeType = "meta_observation" then 5 / 10
  else if nodeType = "observation" then 3 / 10
  else 2 / 10

def valueScore (fl : Floats F) (node : ShardNode F) (currentBlock : I64) : F :=
  let edgeDegree := fl.ofRat (node.edgesOut.length + node.edgesIn.length)
  let edgeScore := fl.min (fl.div edgeDegree (fl.ofRat 10)) (fl.ofRat 1)
  let refScore := fl.min (fl.div (fl.ofRat node.referenceCount.toInt) (fl.ofRat 20)) (fl.ofRat 1)
  let grounding :=
    if node.groundingSource = "prediction_verified" ∨ node.groundingSource = "block_oracle" then
      fl.ofRat 1
    else fl.ofRat (3 / 10)
  let blocksSince := fl.ofRat (max (currentBlock - node.lastReferencedBlock).toInt 0)
  let recency := fl.exp (fl.div (fl.neg blocksSince) (fl.ofRat 50000))
  let weighted (x : F) (w : ℚ) : F := fl.mul x (fl.ofRat w)
  fl.add (fl.add (fl.add (fl.add (fl.add
    (weighted (fl.ofRat (typeScore node.nodeType)) (30 / 100))
    (weighted edgeScore (20 / 100)))
    (weighted refScore (20 / 100)))
    (weighted node.confidence (15 / 100)))
    (weighted recency (10 / 100)))
    (weighted grounding (5 / 100))

end ShardNode

/-- `format!("{}:{}:{}", from, to, type)`. -/
def edgeKey (source target : I64) (edgeType : String) : String :=
  toString source.toInt ++ ":" ++ toString target.toInt ++ ":" ++ edgeType

def ShardEdge.storageKey (edge : ShardEdge F) : String :=
  edgeKey edge.fromNodeId edge.toNodeId edge.edgeType

/-- What the cascade of a deletion looks for in a key. -/
def involves (nodeId : I64) (key : String) : Bool :=
  (toString nodeId.toInt ++ ":").toList.isPrefixOf key.toList ||
    decide ((":" ++ toString nodeId.toInt ++ ":").toList <:+: key.toList)

/-- An entry of an adjacency list: the other end, the type and the weight. -/
abbrev Adjacent (F : Type u) := I64 × String × F

abbrev AdjacencyLists (F : Type u) := ColumnFamily I64 (List (Adjacent F))

/-- The hot cache, the most recently used entry first. -/
abbrev LruCache (F : Type u) := List (I64 × ShardNode F)

namespace LruCache

def pop (cache : LruCache F) (nodeId : I64) : LruCache F := cache.filter fun e => e.1 ≠ nodeId

def put (cache : LruCache F) (capacity : ℕ) (nodeId : I64) (node : ShardNode F) : LruCache F :=
  ((nodeId, node) :: pop cache nodeId).take capacity

def get (cache : LruCache F) (nodeId : I64) : Option (ShardNode F) := cache.lookup nodeId

/-- A hit makes its entry the most recent one. -/
def promote (cache : LruCache F) (nodeId : I64) (node : ShardNode F) : LruCache F :=
  (nodeId, node) :: pop cache nodeId

end LruCache

inductive EdgeDirection
  | outgoing
  | incoming
  | both
  deriving DecidableEq

structure ShardStore (F : Type u) (H : Type v) where
  nodes : ColumnFamily I64 (ShardNode F) := ∅
  edges : ColumnFamily String (ShardEdge F) := ∅
  adjOut : AdjacencyLists F := ∅
  adjIn : AdjacencyLists F := ∅
  cache : LruCache F := []
  cacheCapacity : ℕ
  /-- The leaves of the incremental Merkle tree. -/
  merkle : ColumnFamily I64 H := ∅
  nodeCount : I64 := 0
  edgeCount : I64 := 0

variable {H : Type v}

/-- `ShardStore::open` on a new directory. -/
def ShardStore.create (cacheCapacity : ℕ) : ShardStore F H where
  cacheCapacity := if cacheCapacity = 0 then 100000 else cacheCapacity

def getAdjacencyList (cf : AdjacencyLists F) (nodeId : I64) : List (Adjacent F) :=
  (cf.lookup nodeId).getD []

/-- The new entry goes to the end unless the list names the edge already. -/
def link (cf : AdjacencyLists F) (nodeId other : I64) (edgeType : String) (weight : F) :
    AdjacencyLists F :=
  let adj := getAdjacencyList cf nodeId
  if adj.any fun e => e.1 = other && e.2.1 = edgeType then cf
  else cf.insert nodeId (adj ++ [(other, edgeType, weight)])

namespace ShardStore

variable (fl : Floats F) (sha256 : String → H) (self : ShardStore F H)

def putNode (node : ShardNode F) : ShardStore F H :=
  { self with
    nodes := self.nodes.insert node.nodeId node
    cache := self.cache.put self.cacheCapacity node.nodeId node
    merkle := self.merkle.insert node.nodeId (node.merkleLeaf fl sha256)
    nodeCount := self.nodeCount + 1 }

def getNode (nodeId : I64) : Option (ShardNode F) × ShardStore F H :=
  match self.cache.get nodeId with
  | some node => (some node, { self with cache := self.cache.promote nodeId node })
  | none =>
    match self.nodes.lookup nodeId with
    | some node =>
      (some node, { self with cache := self.cache.put self.cacheCapacity nodeId node })
    | none => (none, self)

/-- The keys that the cascade deletes. -/
def cascade (nodeId : I64) : List String :=
  (self.edges.scan fun key _ => involves nodeId key).map Prod.fst

def deleteNode (nodeId : I64) (cascadeEdges : Bool) : (Bool × BitVec 32) × ShardStore F H :=
  match self.nodes.lookup nodeId with
  | none => ((false, 0), self)
  | some _ =>
    let removed : ShardStore F H :=
      { self with
        nodes := self.nodes.erase nodeId
        cache := self.cache.pop nodeId
        merkle := self.merkle.erase nodeId
        nodeCount := self.nodeCount - 1 }
    if cascadeEdges then
      let keys := self.cascade nodeId
      let edgesRemoved := BitVec.ofNat 32 keys.length
      ((true, edgesRemoved),
        { removed with
          edges := self.edges.deleteAll keys
          adjOut := self.adjOut.erase nodeId
          adjIn := self.adjIn.erase nodeId
          edgeCount := self.edgeCount - edgesRemoved.signExtend 64 })
    else ((true, 0), removed)

def updateConfidence (nodeId : I64) (confidence : F) (block : I64) : Option F × ShardStore F H :=
  match self.getNode nodeId with
  | (some node, self) =>
    (some node.confidence,
      self.putNode fl sha256
        { node with
          confidence := fl.clamp confidence (fl.ofRat 0) (fl.ofRat 1)
          lastReferencedBlock := block
          referenceCount := node.referenceCount + 1 })
  | (none, self) => (none, self)

def putEdge (edge : ShardEdge F) : Bool × ShardStore F H :=
  let existed := (self.edges.lookup edge.storageKey).isSome
  (!existed,
    { self with
      edges := self.edges.insert edge.storageKey edge
      adjOut := link self.adjOut edge.fromNodeId edge.toNodeId edge.edgeType edge.weight
      adjIn := link self.adjIn edge.toNodeId edge.fromNodeId edge.edgeType edge.weight
      edgeCount := if existed then self.edgeCount else self.edgeCount + 1 })

/-- The stored edge, or one made up from the entry of the list. -/
def edgeAt (source target : I64) (edgeType : String) (weight : F) : ShardEdge F :=
  (self.edges.lookup (edgeKey source target edgeType)).getD
    { fromNodeId := source
      toNodeId := target
      edgeType := edgeType
      weight := weight
      timestamp := fl.ofRat 0 }

def wanted (edgeTypeFilter : Option String) (adj : List (Adjacent F)) : List (Adjacent F) :=
  adj.filter fun e => edgeTypeFilter.all (· = e.2.1)

def outgoing (nodeId : I64) (edgeTypeFilter : Option String) : List (ShardEdge F) :=
  (wanted edgeTypeFilter (getAdjacencyList self.adjOut nodeId)).map fun e =>
    self.edgeAt fl nodeId e.1 e.2.1 e.2.2

def incoming (nodeId : I64) (edgeTypeFilter : Option String) : List (ShardEdge F) :=
  (wanted edgeTypeFilter (getAdjacencyList self.adjIn nodeId)).map fun e =>
    self.edgeAt fl e.1 nodeId e.2.1 e.2.2

def getEdges (nodeId : I64) (direction : EdgeDirection) (edgeTypeFilter : Option String) :
    List (ShardEdge F) :=
  match direction with
  | .outgoing => self.outgoing fl nodeId edgeTypeFilter
  | .incoming => self.incoming fl nodeId edgeTypeFilter
  | .both => self.outgoing fl nodeId edgeTypeFilter ++ self.incoming fl nodeId edgeTypeFilter

/-- The nodes that a compaction drops, each with its key. -/
def stale (minValueScore : F) (currentBlock : I64) : List (I64 × ShardNode F) :=
  self.nodes.scan fun _ node => fl.lt (node.valueScore fl currentBlock) minValueScore

/-- The count that `compact` returns beside the bytes it gave back. -/
def compact (minValueScore : F) (currentBlock : I64) : I64 × ShardStore F H :=
  let toDelete := self.stale fl minValueScore currentBlock
  let nodeIds := toDelete.map fun e => e.2.nodeId
  let pruned := BitVec.ofNat 64 toDelete.length
  (pruned,
    { self with
      nodes := self.nodes.deleteAll (toDelete.map Prod.fst)
      cache := nodeIds.foldl LruCache.pop self.cache
      merkle := self.merkle.deleteAll nodeIds
      nodeCount := self.nodeCount - pruned })

end ShardStore

end Qubitcoin.Aether.Shard
