import Qubitcoin.Aether.Shard
import Qubitcoin.Library.Machine
import Qubitcoin.Library.PaddedMerkle
import Qubitcoin.Library.StorageMap
import Qubitcoin.Library.Tables

/-! `graph.rs` of `aether-graph`: the in-memory knowledge graph, the calls that change it and the
root that is cached behind a dirty flag.  The hash map of nodes is a table, in one of the orders in
which it may be read; sums of `i64` wrap. -/

universe u

namespace Qubitcoin.Aether.KnowledgeGraph

open Shard (I64 Floats)

/-- `f64` with the logarithm; no number is written with a colon. -/
structure GraphFloats (F : Type u) extends Floats F where
  ln : F → F
  colon_notMem : ∀ x, ':' ∉ (format6 x).toList

/-- SHA-256 of a text as 64 hexadecimal digits. -/
structure Sha256 where
  hex : String → String
  length : ∀ text, (hex text).toList.length = 64
  colon_notMem : ∀ text, ':' ∉ (hex text).toList

structure KeterNode (F : Type u) where
  nodeId : I64
  nodeType : String
  contentHash : String
  content : List (String × String)
  confidence : F
  sourceBlock : I64
  lastReferencedBlock : I64
  referenceCount : I64
  edgesOut : List I64
  edgesIn : List I64

structure KeterEdge (F : Type u) where
  fromNodeId : I64
  toNodeId : I64
  edgeType : String
  weight : F

abbrev Adjacency (F : Type u) := StorageMap I64 (List (KeterEdge F))

structure Graph (F : Type u) where
  nodes : List (KeterNode F)
  edges : List (KeterEdge F)
  adjOut : Adjacency F
  adjIn : Adjacency F
  nextId : I64
  merkleDirty : Bool
  merkleCache : String
  nodes_nodup : (nodes.map KeterNode.nodeId).Nodup

def Graph.new (F : Type u) : Graph F where
  nodes := []
  edges := []
  adjOut := ∅
  adjIn := ∅
  nextId := 1
  merkleDirty := true
  merkleCache := ""
  nodes_nodup := List.nodup_nil

variable {F : Type u} (fl : GraphFloats F) (sha : Sha256)

/-! ## Nodes and edges -/

def escapeJson (s : String) : String :=
  String.ofList (s.toList.flatMap fun c =>
    if c = '\\' then ['\\', '\\']
    else if c = '"' then ['\\', '"']
    else if c = '\n' then ['\\', 'n']
    else if c = '\r' then ['\\', 'r']
    else if c = '\t' then ['\\', 't']
    else [c])

/-- The content as JSON, its keys sorted. -/
def contentJson (content : List (String × String)) : String :=
  ", ".intercalate ((content.insertionSort fun p q => p.1 ≤ q.1).map fun p =>
    "\"" ++ escapeJson p.1 ++ "\": \"" ++ escapeJson p.2 ++ "\"")

def calculateHash (node : KeterNode F) : String :=
  sha.hex ("\x7b\"content\": \x7b" ++ contentJson node.content ++ "\x7d, \"source_block\": " ++
    toString node.sourceBlock.toInt ++ ", \"type\": \"" ++ node.nodeType ++ "\"\x7d")

/-- `HashMap::insert`. -/
def insertNode (g : Graph F) (node : KeterNode F) : Graph F :=
  { g with
    nodes := Table.upsert KeterNode.nodeId g.nodes node fun r => { node with nodeId := r.nodeId }
    nodes_nodup := Table.nodup_upsert g.nodes_nodup node fun _ => rfl }

/-- Rewrites the nodes one by one; none gets another id. -/
def mapNodes (g : Graph F) (f : KeterNode F → KeterNode F) (h : ∀ r, (f r).nodeId = r.nodeId) :
    Graph F :=
  { g with
    nodes := g.nodes.map f
    nodes_nodup := by
      rw [List.map_map, show KeterNode.nodeId ∘ f = KeterNode.nodeId from funext h]
      exact g.nodes_nodup }

def filterNodes (g : Graph F) (p : KeterNode F → Bool) : Graph F :=
  { g with
    nodes := g.nodes.filter p
    nodes_nodup := g.nodes_nodup.sublist (List.filter_sublist.map KeterNode.nodeId) }

def getNode (g : Graph F) (id : I64) : Option (KeterNode F) :=
  Table.find KeterNode.nodeId g.nodes id

/-- The two ends of an edge list each other. -/
def linkNode (fromId toId : I64) (node : KeterNode F) : KeterNode F :=
  { node with
    edgesOut := if node.nodeId = fromId then node.edgesOut ++ [toId] else node.edgesOut
    edgesIn := if node.nodeId = toId then node.edgesIn ++ [fromId] else node.edgesIn }

def pushEdge (m : Adjacency F) (id : I64) (edge : KeterEdge F) : Adjacency F :=
  m.insert id (m.value [] id ++ [edge])

def linkEdge (g : Graph F) (edge : KeterEdge F) : Graph F :=
  { mapNodes g (linkNode edge.fromNodeId edge.toNodeId) fun _ => rfl with
    edges := g.edges ++ [edge]
    adjOut := pushEdge g.adjOut edge.fromNodeId edge
    adjIn := pushEdge g.adjIn edge.toNodeId edge }

/-! ## The calls -/

def addNode (g : Graph F) (nodeType : String) (content : List (String × String)) (confidence : F)
    (sourceBlock : I64) : Graph F :=
  let node : KeterNode F := {
    nodeId := g.nextId
    nodeType := nodeType
    contentHash := ""
    content := content
    confidence := fl.clamp confidence (fl.ofRat 0) (fl.ofRat 1)
    sourceBlock := sourceBlock
    lastReferencedBlock := sourceBlock
    referenceCount := 0
    edgesOut := []
    edgesIn := [] }
  let g := insertNode g { node with contentHash := calculateHash sha node }
  { g with nextId := g.nextId + 1, merkleDirty := true }

def addEdge (g : Graph F) (edge : KeterEdge F) : Graph F :=
  if (getNode g edge.fromNodeId).isSome ∧ (getNode g edge.toNodeId).isSome then
    { linkEdge g edge with merkleDirty := true }
  else g

/-- The sums over the incoming edges of a node, and how many of them have a parent. -/
structure Support (F : Type u) where
  supportSum : F
  contradictSum : F
  count : ℕ

def countEdge (g : Graph F) (s : Support F) (edge : KeterEdge F) : Support F :=
  match getNode g edge.fromNodeId with
  | none => s
  | some parent =>
    let share := fl.mul parent.confidence edge.weight
    { supportSum :=
        if edge.edgeType = "supports" ∨ edge.edgeType = "derives" then fl.add s.supportSum share
        else s.supportSum
      contradictSum :=
        if edge.edgeType = "contradicts" then fl.add s.contradictSum share else s.contradictSum
      count := s.count + 1 }

/-- The confidence that one round gives to a node, if it gives one. -/
def newConfidence (g : Graph F) (node : KeterNode F) : Option F :=
  if node.edgesIn = [] then none
  else
    let s := (g.adjIn.value [] node.nodeId).foldl (countEdge fl g) ⟨fl.ofRat 0, fl.ofRat 0, 0⟩
    if 0 < s.count then
      let delta := fl.mul (fl.div (fl.add s.supportSum (fl.neg s.contradictSum))
        (fl.ofRat s.count)) (fl.ofRat (1 / 10))
      some (fl.clamp (fl.add node.confidence delta) (fl.ofRat 0) (fl.ofRat 1))
    else none

def propagateRound (g : Graph F) : Graph F :=
  mapNodes g (fun node => { node with
    confidence := (newConfidence fl g node).getD node.confidence }) fun _ => rfl

/-- The flag stays as it is. -/
def propagateConfidence (g : Graph F) (iterations : I64) : Graph F :=
  (propagateRound fl)^[iterations.toInt.toNat] g

def boostedConfidence (boostPerRef maxBoost : F) (node : KeterNode F) : F :=
  let boost := fl.min maxBoost
    (fl.mul boostPerRef (fl.ln (fl.ofRat node.referenceCount.toInt)))
  fl.min (fl.ofRat 1) (fl.add node.confidence boost)

def boostNode (minReferences : I64) (boostPerRef maxBoost : F) (node : KeterNode F) : KeterNode F :=
  let newConf := boostedConfidence fl boostPerRef maxBoost node
  { node with
    confidence :=
      if minReferences.toInt ≤ node.referenceCount.toInt ∧ fl.lt node.confidence newConf = true then
        newConf
      else node.confidence }

/-- The flag stays as it is. -/
def boostReferencedNodes (g : Graph F) (minReferences : I64) (boostPerRef maxBoost : F) : Graph F :=
  mapNodes g (boostNode fl minReferences boostPerRef maxBoost) fun _ => rfl

/-- `get_mut` and `retain`. -/
def retainAt (m : Adjacency F) (id : I64) (p : KeterEdge F → Bool) : Adjacency F :=
  match m.lookup id with
  | none => m
  | some list => m.insert id (list.filter p)

/-- Takes a node out of the graph with all that refers to it. -/
def removeNode (g : Graph F) (id : I64) : Graph F :=
  let outEdges := g.adjOut.value [] id
  let adjIn := outEdges.foldl
    (fun m edge => retainAt m edge.toNodeId fun e => e.fromNodeId ≠ id) g.adjIn
  let inEdges := adjIn.value [] id
  let adjOut := inEdges.foldl
    (fun m edge => retainAt m edge.fromNodeId fun e => e.toNodeId ≠ id) (g.adjOut.erase id)
  let g := mapNodes g (fun node => { node with
    edgesOut := node.edgesOut.filter (· ≠ id)
    edgesIn := node.edgesIn.filter (· ≠ id) }) fun _ => rfl
  { filterNodes g (fun node => node.nodeId ≠ id) with adjOut := adjOut, adjIn := adjIn.erase id }

def lowConfidence (threshold : F) (protect : List String) (node : KeterNode F) : Bool :=
  fl.lt node.confidence threshold && !protect.contains node.nodeType

def pruneLowConfidence (g : Graph F) (threshold : F) (protectTypes : Option (List String)) :
    Graph F :=
  let protect := protectTypes.getD ["axiom"]
  let toRemove := (g.nodes.filter (lowConfidence fl threshold protect)).map KeterNode.nodeId
  if toRemove = [] then g
  else
    let edges := g.edges.filter fun e =>
      !toRemove.contains e.fromNodeId && !toRemove.contains e.toNodeId
    { toRemove.foldl removeNode { g with edges := edges } with merkleDirty := true }

def touchNode (g : Graph F) (id currentBlock : I64) : Graph F :=
  mapNodes g (fun node =>
    if node.nodeId = id then { node with
      lastReferencedBlock := currentBlock
      referenceCount := node.referenceCount + 1 }
    else node) fun r => by split <;> rfl

def maxId (a b : I64) : I64 := if a.toInt ≤ b.toInt then b else a

def loadNode (g : Graph F) (node : KeterNode F) : Graph F :=
  { insertNode g node with nextId := maxId g.nextId (node.nodeId + 1) }

def bulkLoadNodes (g : Graph F) (nodes : List (KeterNode F)) : Graph F :=
  { nodes.foldl loadNode g with merkleDirty := true }

def bulkLoadEdges (g : Graph F) (edges : List (KeterEdge F)) : Graph F :=
  { edges.foldl linkEdge g with merkleDirty := true }

/-! ## The root -/

/-- What the root is about: ids, content hashes and confidences to six decimals. -/
abbrev Entry := I64 × String × String

def sortedNodes (g : Graph F) : List (KeterNode F) :=
  g.nodes.insertionSort fun a b => a.nodeId.toInt ≤ b.nodeId.toInt

def entryOf (node : KeterNode F) : Entry :=
  (node.nodeId, node.contentHash, fl.format6 node.confidence)

def entries (g : Graph F) : List Entry := (sortedNodes g).map (entryOf fl)

def leafText (e : Entry) : String := toString e.1.toInt ++ ":" ++ e.2.1 ++ ":" ++ e.2.2

def leaves (g : Graph F) : List String := (entries fl g).map fun e => sha.hex (leafText e)

def combine (a b : String) : String := sha.hex (a ++ b)

/-- The root of the tree over the leaves, computed anew. -/
def merkleRoot (leaves : List String) : String :=
  (Merkle.build (combine sha) leaves.length leaves).headD ""

def computeKnowledgeRoot (g : Graph F) : String × Graph F :=
  if g.nodes = [] then (sha.hex "empty_knowledge", g)
  else if g.merkleDirty = false ∧ g.merkleCache ≠ "" then (g.merkleCache, g)
  else
    let root := merkleRoot sha (leaves fl sha g)
    (root, { g with merkleCache := root, merkleDirty := false })

inductive Call (F : Type u)
  | addNode (nodeType : String) (content : List (String × String)) (confidence : F)
      (sourceBlock : I64)
  | addEdge (edge : KeterEdge F)
  | propagateConfidence (iterations : I64)
  | boostReferencedNodes (minReferences : I64) (boostPerRef maxBoost : F)
  | pruneLowConfidence (threshold : F) (protectTypes : Option (List String))
  | touchNode (id currentBlock : I64)
  | bulkLoadNodes (nodes : List (KeterNode F))
  | bulkLoadEdges (edges : List (KeterEdge F))
  | computeKnowledgeRoot

def step (g : Graph F) : Call F → Graph F
  | .addNode nodeType content confidence sourceBlock =>
    addNode fl sha g nodeType content confidence sourceBlock
  | .addEdge edge => addEdge g edge
  | .propagateConfidence iterations => propagateConfidence fl g iterations
  | .boostReferencedNodes minReferences boostPerRef maxBoost =>
    boostReferencedNodes fl g minReferences boostPerRef maxBoost
  | .pruneLowConfidence threshold protectTypes => pruneLowConfidence fl g threshold protectTypes
  | .touchNode id currentBlock => touchNode g id currentBlock
  | .bulkLoadNodes nodes => bulkLoadNodes g nodes
  | .bulkLoadEdges edges => bulkLoadEdges g edges
  | .computeKnowledgeRoot => (computeKnowledgeRoot fl sha g).2

/-- A graph from its creation on. -/
def run (calls : List (Call F)) : Graph F := Machine.run (step fl sha) (Graph.new F) calls

end Qubitcoin.Aether.KnowledgeGraph
