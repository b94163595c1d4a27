import Qubitcoin.Library.BestFirst
import Qubitcoin.Library.ColumnFamily
import Qubitcoin.Library.Machine

/-! The vector index of a graph shard, from `vector_index.rs`: a flat search, and from a number of
vectors on a layered graph (HNSW). -/

universe u v

namespace Qubitcoin.Aether.Vector

open BestFirst (pushMax)

abbrev I64 := BitVec 64

/-- What the index uses of `f32`, with the distances in a linear order. -/
structure Metric (F : Type u) (D : Type v) where
  isNan : F → Bool
  nan : F
  isNan_nan : isNan nan = true
  cosineDistance : List F → List F → D
  /-- `f32::MAX`. -/
  maxDistance : D

/-- The order in which a heap is iterated, which is not specified. -/
structure HeapOrder (α : Type u) where
  intoIter : List α → List α
  perm : ∀ heap, (intoIter heap).Perm heap

structure VectorIndexConfig where
  dim : ℕ
  /-- A shard stores no empty embedding. -/
  dim_pos : 0 < dim
  maxConnections : ℕ
  efConstruction : ℕ
  efSearch : ℕ
  hnswThreshold : ℕ

def VectorIndexConfig.default : VectorIndexConfig where
  dim := 384
  dim_pos := by decide
  maxConnections := 16
  efConstruction := 200
  efSearch := 64
  hnswThreshold := 10000

structure VectorResult (D : Type v) where
  nodeId : I64
  distance : D
  deriving DecidableEq

/-- The neighbors of each position. -/
abbrev Layer := List (List ℕ)

structure ShardVectorIndex (F : Type u) where
  config : VectorIndexConfig
  idToPos : ColumnFamily I64 ℕ := ∅
  posToId : List I64 := []
  /-- The buffer, cut into vectors of `dim` numbers. -/
  vectors : List (List F) := []
  hnswLayers : List Layer := []
  entryPoint : Option ℕ := none
  maxLevel : ℕ := 0

variable {F : Type u} {D : Type v} [LinearOrder D]

section Graph

variable (metric : Metric F D) (order : HeapOrder (D × ℕ)) (vectors : List (List F))
  (query : List F)

/-- The first number of a removed vector is no number. -/
def Metric.removed (vector : List F) : Bool := vector.head?.any metric.isNan

def vectorAt (pos : ℕ) : List F := vectors.getD pos []

def layerAt (layers : List Layer) (l : ℕ) : Layer := layers.getD l []

def neighborsAt (layer : Layer) (pos : ℕ) : List ℕ := layer.getD pos []

def distanceAt (pos : ℕ) : D := metric.cosineDistance query (vectorAt vectors pos)

/-- The search passes over removed vectors, the insertion does not. -/
def closer (skipRemoved : Bool) (neighbor current : ℕ) : Bool :=
  neighbor < vectors.length ∧ current < vectors.length ∧
    ¬(skipRemoved = true ∧ metric.removed (vectorAt vectors neighbor) = true) ∧
    distanceAt metric vectors query neighbor < distanceAt metric vectors query current

/-- The greedy walk on one layer. -/
def walk (skipRemoved : Bool) (layer : Layer) (current : ℕ) : ℕ :=
  GreedyDescent.descend (closer metric vectors query skipRemoved) (neighborsAt layer)
    (vectors.length + 1) current

/-- From the top layer down to the given one. -/
def greedyDescent (skipRemoved : Bool) (layers : List Layer) (top bottom : ℕ) (entry : ℕ) : ℕ :=
  (List.range' bottom (top + 1 - bottom)).reverse.foldl
    (fun current l =>
      if layers.length ≤ l then current
      else walk metric vectors query skipRemoved (layerAt layers l) current) entry

def layerGraph (layer : Layer) : BestFirst.Graph ℕ D where
  neighbors := neighborsAt layer
  live pos := pos < vectors.length ∧ metric.removed (vectorAt vectors pos) = false
  dist := distanceAt metric vectors query

/-- The entry is among the results, removed or not. -/
def searchLayer (entry ef : ℕ) (layer : Layer) : List (D × ℕ) :=
  if entry < vectors.length then
    let found := BestFirst.search (layerGraph metric vectors query layer) ef (vectors.length + 2)
      entry
    (order.intoIter found.results).insertionSort fun a b => a.1 ≤ b.1
  else []

end Graph

section Insertion

variable (metric : Metric F D) (order : HeapOrder (D × ℕ))

def padTo {α : Type u} (list : List (List α)) (length : ℕ) : List (List α) :=
  list ++ List.replicate (length - list.length) []

/-- A neighbor gets an edge back, and when it has too many keeps its nearest. -/
def connectBack (vectors : List (List F)) (maxConn pos : ℕ) (layer : Layer) (n : ℕ) : Layer :=
  if layer.length ≤ n then layer
  else
    let connections := neighborsAt layer n
    if connections.length < maxConn * 2 then layer.set n (connections ++ [pos])
    else if n < vectors.length then
      let key (a : ℕ) : D :=
        if a < vectors.length then distanceAt metric vectors (vectorAt vectors n) a
        else metric.maxDistance
      layer.set n (((connections ++ [pos]).insertionSort fun a b => key a ≤ key b).take
        (maxConn * 2))
    else layer

/-- One layer of an insertion: the layer with the new edges, and where to go on below. -/
def insertInLayer (config : VectorIndexConfig) (vectors : List (List F)) (embedding : List F)
    (pos current : ℕ) (layer : Layer) : Layer × ℕ :=
  let neighbors := searchLayer metric order vectors embedding current config.efConstruction layer
  let selected := (neighbors.take config.maxConnections).map Prod.snd
  let layer := (padTo layer (pos + 1)).set pos selected
  (selected.foldl (connectBack metric vectors config.maxConnections pos) layer,
    selected.headD current)

namespace ShardVectorIndex

variable (self : ShardVectorIndex F)

/-- The level is drawn at random. -/
def randomLevel (draw : ℕ) : ℕ := min draw 16

def hnswInsert (draw pos : ℕ) (embedding : List F) : ShardVectorIndex F :=
  let level := randomLevel draw
  let layers := (padTo self.hnswLayers (level + 1)).mapIdx fun l layer =>
    if l ≤ level then padTo layer (pos + 1) else layer
  match self.entryPoint with
  | none => { self with hnswLayers := layers, entryPoint := some pos, maxLevel := level }
  | some entry =>
    let current :=
      greedyDescent metric self.vectors embedding false layers self.maxLevel (level + 1) entry
    let (layers, _) := (List.range (min level self.maxLevel + 1)).reverse.foldl
      (fun (layers, current) l =>
        if layers.length ≤ l then (layers, current)
        else
          let (layer, next) := insertInLayer metric order self.config self.vectors embedding pos
            current (layerAt layers l)
          (layers.set l layer, next))
      (layers, current)
    { self with
      hnswLayers := layers
      entryPoint := if self.maxLevel < level then some pos else some entry
      maxLevel := max self.maxLevel level }

def upsert (draw : ℕ) (nodeId : I64) (embedding : List F) : ShardVectorIndex F :=
  if embedding.length ≠ self.config.dim then self
  else
    match self.idToPos.lookup nodeId with
    | some pos => { self with vectors := self.vectors.set pos embedding }
    | none =>
      let pos := self.posToId.length
      let self :=
        { self with
          idToPos := self.idToPos.insert nodeId pos
          posToId := self.posToId ++ [nodeId]
          vectors := self.vectors ++ [embedding] }
      if self.config.hnswThreshold ≤ self.posToId.length then
        self.hnswInsert metric order draw pos embedding
      else self

/-- The vector stays in its place, marked as removed. -/
def remove (nodeId : I64) : ShardVectorIndex F :=
  match self.idToPos.lookup nodeId with
  | none => self
  | some pos =>
    { self with
      idToPos := self.idToPos.erase nodeId
      vectors := self.vectors.set pos (List.replicate self.config.dim metric.nan) }

/-- The positions in the new graph count the vectors that are not removed. -/
def rebuildHnsw (draws : ℕ → ℕ) : ShardVectorIndex F :=
  if self.posToId.length < self.config.hnswThreshold then self
  else
    let cleared := { self with hnswLayers := [], entryPoint := none, maxLevel := 0 }
    let embeddings := self.vectors.filter fun vector => !metric.removed vector
    embeddings.zipIdx.foldl
      (fun index e => index.hnswInsert metric order (draws e.2) e.2 e.1) cleared

end ShardVectorIndex

end Insertion

namespace ShardVectorIndex

variable (metric : Metric F D) (order : HeapOrder (D × ℕ)) (self : ShardVectorIndex F)
  (query : List F) (topK : ℕ)

/-- A heap of at most `topK` takes a pair if there is room or if it is nearer than the worst. -/
def offer (heap : List (D × ℕ)) (e : D × ℕ) : List (D × ℕ) :=
  if heap.length < topK then pushMax e heap
  else
    match heap with
    | [] => heap
    | worst :: heap' => if e.1 < worst.1 then pushMax e heap' else heap

def flatHeap : List (D × ℕ) :=
  (List.range self.posToId.length).foldl
    (fun heap pos =>
      if self.vectors.length ≤ pos then heap
      else if metric.removed (vectorAt self.vectors pos) then heap
      else offer topK heap (distanceAt metric self.vectors query pos, pos))
    []

def flatSearch : List (VectorResult D) :=
  ((order.intoIter (self.flatHeap metric query topK)).map fun e =>
    { nodeId := self.posToId.getD e.2 0, distance := e.1 }).insertionSort
      fun a b => a.distance ≤ b.distance

def hnswSearch : List (VectorResult D) :=
  match self.entryPoint with
  | none => []
  | some entry =>
    let current := greedyDescent metric self.vectors query true self.hnswLayers self.maxLevel 1 entry
    let results := searchLayer metric order self.vectors query current self.config.efSearch
      (layerAt self.hnswLayers 0)
    ((results.take topK).map fun e =>
      { nodeId := self.posToId.getD e.2 (-1), distance := e.1 : VectorResult D }).filter
        fun r => 0 ≤ r.nodeId.toInt

def search : List (VectorResult D) :=
  if query.length ≠ self.config.dim ∨ self.posToId = [] then []
  else if self.posToId.length < self.config.hnswThreshold then
    self.flatSearch metric order query topK
  else
    let hnswResults := self.hnswSearch metric order query topK
    if hnswResults = [] then self.flatSearch metric order query topK else hnswResults

end ShardVectorIndex

end Qubitcoin.Aether.Vector
