import Mathlib.Data.Nat.Log
import Mathlib.Data.List.Perm.Basic
import Ladybug.Base.LowerBound
import Ladybug.Base.MachineInt

/-!
# Writing an in-memory HNSW graph to its rel table

A layer of the index is built in memory over the nodes selected for it, numbered from zero.  It is
written one node group at a time: a first pass fills the lengths of the group's CSR header, a second
one writes the neighbour and the id of each rel at the position that the header gives.
-/

namespace Ladybug.Vector

def INVALID_OFFSET : Nat := 2 ^ 64 - 1

structure NodeToHNSWGraphOffsetMap where
  numNodesInGraph : Nat
  numNodesInTable : Nat
  graphToNodeMap : Option (List Nat)

/-- How the nodes of a layer are selected: all of them for the lower layer, the null positions of a
mask for the upper one. -/
inductive Selection where
  | all (numNodesInTable : Nat)
  | masked (numNodesInTable : Nat) (isNull : Nat → Bool)

namespace Selection

def Selected : Selection → Nat → Prop
  | all n, o => o < n
  | masked n isNull, o => o < n ∧ isNull o = true

def offsetMap : Selection → NodeToHNSWGraphOffsetMap
  | all n => { numNodesInGraph := n, numNodesInTable := n, graphToNodeMap := none }
  | masked n isNull =>
    { numNodesInGraph := (List.range n).countP isNull
      numNodesInTable := n
      graphToNodeMap := some ((List.range n).filter isNull) }

end Selection

namespace NodeToHNSWGraphOffsetMap

variable (map : NodeToHNSWGraphOffsetMap)

def nodeToGraphOffset (nodeOffset : Nat) : Nat :=
  match map.graphToNodeMap with
  | none => nodeOffset
  | some nodes => lowerBound nodes nodeOffset

def graphToNodeOffset (graphOffset : Nat) : Nat :=
  match map.graphToNodeMap with
  | none => graphOffset
  | some nodes => nodes.getD graphOffset 0

end NodeToHNSWGraphOffsetMap

/-- `std::bit_ceil` of the bytes that `std::bit_width` of the value takes. -/
def minNumBytesToStore (value : Nat) : Nat := 2 ^ Nat.clog 2 ((value.size + 7) / 8)

/-- The largest value of the compressed type stands for no neighbour. -/
def viewInvalidOffset (numNodes : Nat) : Nat := 256 ^ minNumBytesToStore (numNodes + 1) - 1

/-- The neighbours of a node are the first `csrLengths` of its `maxDegree` entries.  An entry is a
node or was skipped. -/
structure InMemHNSWGraph where
  numNodes : Nat
  maxDegree : Nat
  csrLengths : Nat → UInt16
  dstNodes : Nat → Nat
  numNodes_lt : numNodes + 1 < 2 ^ 64
  -- the buffer of all entries has been allocated
  numEntries_lt : numNodes * maxDegree < 2 ^ 64
  csrLengths_le : ∀ v < numNodes, (csrLengths v).toNat ≤ maxDegree
  dstNodes_valid : ∀ i, dstNodes i < numNodes ∨ dstNodes i = viewInvalidOffset numNodes

namespace InMemHNSWGraph

variable (graph : InMemHNSWGraph)

def getCSRLength (nodeOffset : Nat) : Nat := (graph.csrLengths nodeOffset).toNat

def entry (idx : Nat) : Nat :=
  if graph.dstNodes idx = viewInvalidOffset graph.numNodes then INVALID_OFFSET
  else graph.dstNodes idx

def getNeighbors (nodeOffset : Nat) : List Nat :=
  (List.range (graph.getCSRLength nodeOffset)).map fun i =>
    graph.entry (nodeOffset * graph.maxDegree + i)

def edges (nodeOffset : Nat) : List Nat :=
  ((List.range (graph.getCSRLength nodeOffset)).map fun i =>
    graph.dstNodes (nodeOffset * graph.maxDegree + i)).filter (· < graph.numNodes)

end InMemHNSWGraph

structure ExecutionState where
  startNodeOffset : Nat
  startNodeInGraph : Nat
  endNodeInGraph : Nat
  graph : InMemHNSWGraph
  selectionMap : NodeToHNSWGraphOffsetMap

def initExecutionState (nodeGroupSize : Nat) (graph : InMemHNSWGraph)
    (selectionMap : NodeToHNSWGraphOffsetMap) (nodeGroupIdx : Nat) : ExecutionState :=
  let startNodeOffset := nodeGroupIdx * nodeGroupSize
  let endNodeOffset := min selectionMap.numNodesInTable (startNodeOffset + nodeGroupSize)
  { startNodeOffset
    startNodeInGraph := selectionMap.nodeToGraphOffset startNodeOffset
    endNodeInGraph := selectionMap.nodeToGraphOffset endNodeOffset
    graph
    selectionMap }

namespace ExecutionState

variable (state : ExecutionState)

def getBoundNodeOffsetInGroup (offsetInGraph : Nat) : Nat :=
  state.selectionMap.graphToNodeOffset offsetInGraph - state.startNodeOffset

/-- The graph offsets that the loops of the group visit. -/
def nodesInGraph : List Nat :=
  List.range' state.startNodeInGraph (state.endNodeInGraph - state.startNodeInGraph)

end ExecutionState

def getNumValidNeighbors (graph : InMemHNSWGraph) (nodeOffset : Nat) : Nat :=
  (graph.getNeighbors nodeOffset).foldl
    (fun numValid neighbour => if neighbour = INVALID_OFFSET then numValid else numValid + 1) 0

def populateCSRLengths (state : ExecutionState) : Nat → Nat :=
  state.nodesInGraph.foldl
    (fun lengths graphOffset ↦ Function.update lengths (state.getBoundNodeOffsetInGroup graphOffset)
      (getNumValidNeighbors state.graph graphOffset))
    fun _ => 0

/-- The sum is taken in 32 bits. -/
def getNumRelsInGraph (state : ExecutionState) : Nat :=
  state.nodesInGraph.foldl
    (fun numRels offsetInGraph ↦ (numRels + getNumValidNeighbors state.graph offsetInGraph) % 2 ^ 32)
    0

/-- The CSR header that is built from the lengths: the rows of a node end before those of the next
one start, maybe with a gap between them. -/
structure CSRHeader (lengths : Nat → Nat) where
  getStartCSROffset : Nat → Nat
  separated : ∀ n, getStartCSROffset n + lengths n ≤ getStartCSROffset (n + 1)

/-- The two columns of the chunked group, and the counter of the loop. -/
structure RelChunks where
  neighbourChunk : Nat → Option Nat
  relIDChunk : Nat → Option Nat
  numRelsWritten : Int

def RelChunks.empty : RelChunks := ⟨fun _ => none, fun _ => none, 0⟩

/-- `numRelsWritten` is an `int`. -/
def RelChunks.writeRel (startRelID : Nat) (chunks : RelChunks) (relRowIdx neighbourNodeOffset : Nat) :
    RelChunks where
  neighbourChunk := Function.update chunks.neighbourChunk relRowIdx (some neighbourNodeOffset)
  relIDChunk := Function.update chunks.relIDChunk relRowIdx
    (some (addInt64 startRelID chunks.numRelsWritten))
  numRelsWritten := toInt32 (chunks.numRelsWritten + 1)

/-- The loop over the neighbours of a node; it has at most `2 ^ 16` rounds. -/
def writeNeighbours (state : ExecutionState) (startRelID boundNodeCSROffset : Nat)
    (chunks : RelChunks) (neighbours : List Nat) : RelChunks :=
  (neighbours.foldl (fun (t : RelChunks × Nat) neighbourGraphOffset =>
      if neighbourGraphOffset = INVALID_OFFSET then t
      else
        (t.1.writeRel startRelID (boundNodeCSROffset + t.2)
          (state.selectionMap.graphToNodeOffset neighbourGraphOffset), t.2 + 1))
    (chunks, 0)).1

def writeToTable (state : ExecutionState) {lengths : Nat → Nat} (csrHeader : CSRHeader lengths)
    (startRelID : Nat) : RelChunks :=
  state.nodesInGraph.foldl (fun chunks nodeInGraph =>
      writeNeighbours state startRelID
        (csrHeader.getStartCSROffset (state.getBoundNodeOffsetInGroup nodeInGraph)) chunks
        (state.graph.getNeighbors nodeInGraph))
    RelChunks.empty

def readRels {lengths : Nat → Nat} (csrHeader : CSRHeader lengths) (chunks : RelChunks)
    (nodeOffsetInGroup : Nat) : List (Option Nat × Option Nat) :=
  (List.range (lengths nodeOffsetInGroup)).map fun i =>
    (chunks.neighbourChunk (csrHeader.getStartCSROffset nodeOffsetInGroup + i),
      chunks.relIDChunk (csrHeader.getStartCSROffset nodeOffsetInGroup + i))

def relIDs (state : ExecutionState) (csrHeader : CSRHeader (populateCSRLengths state))
    (startRelID : Nat) : List (Option Nat) :=
  state.nodesInGraph.flatMap fun v =>
    (readRels csrHeader (writeToTable state csrHeader startRelID)
      (state.getBoundNodeOffsetInGroup v)).map Prod.snd

def insertGroups (groups : Nat → ExecutionState)
    (headers : ∀ k, CSRHeader (populateCSRLengths (groups k))) (nextRelOffset : Nat) :
    List Nat → List (Option Nat)
  | [] => []
  | k :: ks =>
    relIDs (groups k) (headers k) nextRelOffset ++
      insertGroups groups headers ((nextRelOffset + getNumRelsInGraph (groups k)) % 2 ^ 64) ks

/-- A graph over the nodes selected out of a table.  The size of a node group is a constant of the
storage. -/
structure Layer where
  nodeGroupSize : Nat
  nodeGroupSize_pos : 0 < nodeGroupSize
  selection : Selection
  graph : InMemHNSWGraph
  numNodes_eq : graph.numNodes = selection.offsetMap.numNodesInGraph

namespace Layer

variable (layer : Layer)

def map : NodeToHNSWGraphOffsetMap := layer.selection.offsetMap

def group (nodeGroupIdx : Nat) : ExecutionState :=
  initExecutionState layer.nodeGroupSize layer.graph layer.map nodeGroupIdx

def numEdges (k : Nat) : Nat :=
  (((List.range layer.graph.numNodes).filter fun v =>
    layer.map.graphToNodeOffset v / layer.nodeGroupSize = k).map fun v =>
      (layer.graph.edges v).length).sum

/-- The two directions of the map are inverse to each other and keep the order. -/
structure MapInverse : Prop where
  graphToNode_nodeToGraph : ∀ o, layer.selection.Selected o →
    layer.map.nodeToGraphOffset o < layer.graph.numNodes ∧
      layer.map.graphToNodeOffset (layer.map.nodeToGraphOffset o) = o
  nodeToGraph_graphToNode : ∀ g < layer.graph.numNodes,
    layer.selection.Selected (layer.map.graphToNodeOffset g) ∧
      layer.map.nodeToGraphOffset (layer.map.graphToNodeOffset g) = g
  nodeToGraph_lt : ∀ o o', layer.selection.Selected o → layer.selection.Selected o' → o < o' →
    layer.map.nodeToGraphOffset o < layer.map.nodeToGraphOffset o'
  graphToNode_lt : ∀ g g', g < g' → g' < layer.graph.numNodes →
    layer.map.graphToNodeOffset g < layer.map.graphToNodeOffset g'

/-- The rows of a group, whatever gaps the header leaves: those of a node are its edges, and no
position outside of them is written. -/
structure GroupWritten (k : Nat) (csrHeader : CSRHeader (populateCSRLengths (layer.group k)))
    (startRelID : Nat) : Prop where
  lengths : ∀ v ∈ (layer.group k).nodesInGraph,
    populateCSRLengths (layer.group k) ((layer.group k).getBoundNodeOffsetInGroup v) =
      (layer.graph.edges v).length
  lengths_other : ∀ n, n ∉ (layer.group k).nodesInGraph.map
    (layer.group k).getBoundNodeOffsetInGroup → populateCSRLengths (layer.group k) n = 0
  rows : ∀ v ∈ (layer.group k).nodesInGraph,
    (readRels csrHeader (writeToTable (layer.group k) csrHeader startRelID)
      ((layer.group k).getBoundNodeOffsetInGroup v)).map Prod.fst =
        (layer.graph.edges v).map fun w => some (layer.map.graphToNodeOffset w)
  written : ∀ p, ((writeToTable (layer.group k) csrHeader startRelID).neighbourChunk p ≠ none ∨
      (writeToTable (layer.group k) csrHeader startRelID).relIDChunk p ≠ none) →
    ∃ n i, i < populateCSRLengths (layer.group k) n ∧ p = csrHeader.getStartCSROffset n + i

/-- The graph is written as it is.  The groups are written in any order; the ids of their rels are
the offsets reserved from `nextRelOffset` on. -/
structure Written : Prop where
  map_inverse : layer.MapInverse
  partition : ∀ k v, v ∈ (layer.group k).nodesInGraph ↔
    v < layer.graph.numNodes ∧ layer.map.graphToNodeOffset v / layer.nodeGroupSize = k
  groups : ∀ k csrHeader startRelID, layer.GroupWritten k csrHeader startRelID
  reserved : ∀ k, getNumRelsInGraph (layer.group k) = layer.numEdges k
  ids : ∀ headers nextRelOffset ks, ks.Nodup →
    (insertGroups layer.group headers nextRelOffset ks).Perm
        ((List.range (ks.map layer.numEdges).sum).map fun i ↦ some ((nextRelOffset + i) % 2 ^ 64)) ∧
      (insertGroups layer.group headers nextRelOffset ks).Nodup

end Layer

end Ladybug.Vector
