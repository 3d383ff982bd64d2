import Ladybug.Vector.HnswRelBatchInsert
import Ladybug.Vector.HnswSearch

/-!
# Building a layer of an HNSW index in memory (`InMemHNSWLayer`)

A node is inserted by a search for its neighbours and two rels for each of them.  A list that has
become too long is shrunk in place.  The writes to the graph are steps of their own, so that the lists
can be looked at between any two of them.
-/

namespace Ladybug.Vector

/-- `numeric_limits<int16_t>::max() / 1.25` as an integer -/
def MAX_DEGREE : Nat := 26213

def getDegreeThresholdToShrink (degree : Nat) : Nat := (5 * degree + 3) / 4

/-- Distances are taken between embeddings of rows of the table; `alphaTimes` is the product with
`alpha`. -/
structure InMemHNSWLayerInfo (D : Type) [Distance D] where
  nodeGroupSize : Nat
  nodeGroupSize_pos : 0 < nodeGroupSize
  selection : Selection
  isNull : Nat → Bool
  metricFunc : Nat → Nat → D
  maxDegree : Nat
  alphaTimes : D → D
  efc : Nat
  ordering : KeySort (fun n : NodeWithDistance D => n.distance)
  -- `Mu::validate` and `Ml::validate`
  maxDegree_pos : 1 ≤ maxDegree
  maxDegree_le : maxDegree ≤ MAX_DEGREE
  numNodes_lt : selection.offsetMap.numNodesInGraph + 1 < 2 ^ 64
  -- the buffer of all entries has been allocated
  numEntries_lt :
    selection.offsetMap.numNodesInGraph * getDegreeThresholdToShrink maxDegree < 2 ^ 64

/-- The two buffers of `InMemHNSWGraph`. -/
structure GraphBuffers where
  csrLengths : Nat → UInt16
  dstNodes : Nat → Nat

inductive Write where
  | setDstNode (csrOffset dstNode : Nat)
  | setCSRLength (nodeOffset length : Nat)

/-- A layer between two steps.  `writes` are those left of the call under way, then comes a call of
`shrinkForNode`; `rels` are the calls of `insertRel` left of an insertion, and `nodes` the nodes that
`finalizeNodeGroup` has still to visit.  `inserted` only records the nodes. -/
structure InMemHNSWLayer where
  entryPoint : Option Nat
  graph : GraphBuffers
  inserted : List Nat
  writes : List Write
  shrinking : Option Nat
  rels : List (Nat × Nat)
  nodes : List Nat
  finalized : Bool

def InMemHNSWLayer.Idle (s : InMemHNSWLayer) : Prop :=
  s.writes = [] ∧ s.shrinking = none ∧ s.rels = [] ∧ s.nodes = []

namespace InMemHNSWLayerInfo

variable {D : Type} [Distance D] (info : InMemHNSWLayerInfo D)

def offsetMap : NodeToHNSWGraphOffsetMap := info.selection.offsetMap

def numNodes : Nat := info.offsetMap.numNodesInGraph

def degreeThresholdToShrink : Nat := getDegreeThresholdToShrink info.maxDegree

def distance (a b : Nat) : D :=
  info.metricFunc (info.offsetMap.graphToNodeOffset a) (info.offsetMap.graphToNodeOffset b)

def hasEmbedding (o : Nat) : Bool := !info.isNull (info.offsetMap.graphToNodeOffset o)

/-- `resetCSRLengthAndDstNodes` -/
def emptyGraph : GraphBuffers := ⟨fun _ => 0, fun _ => viewInvalidOffset info.numNodes⟩

/-- An offset is stored in the compressed type, whose greatest value is the invalid one. -/
def apply (graph : GraphBuffers) : Write → GraphBuffers
  | .setDstNode csrOffset dstNode =>
    { graph with
      dstNodes := Function.update graph.dstNodes csrOffset
        (dstNode % (viewInvalidOffset info.numNodes + 1)) }
  | .setCSRLength nodeOffset length =>
    { graph with
      csrLengths := Function.update graph.csrLengths nodeOffset (UInt16.ofNat length) }

def getCSRLength (graph : GraphBuffers) (nodeOffset : Nat) : Nat := (graph.csrLengths nodeOffset).toNat

/-- At the threshold the call waits for a shrink. -/
def incrementCSRLength (graph : GraphBuffers) (nodeOffset : Nat) : Option (Nat × GraphBuffers) :=
  let val := graph.csrLengths nodeOffset
  if val.toNat < info.degreeThresholdToShrink then
    some (val.toNat, { graph with csrLengths := Function.update graph.csrLengths nodeOffset (val + 1) })
  else none

def entry (graph : GraphBuffers) (idx : Nat) : Nat :=
  if graph.dstNodes idx = viewInvalidOffset info.numNodes then INVALID_OFFSET else graph.dstNodes idx

def getNeighbors (graph : GraphBuffers) (nodeOffset : Nat) : List Nat :=
  (List.range (getCSRLength graph nodeOffset)).map fun i =>
    info.entry graph (nodeOffset * info.degreeThresholdToShrink + i)

def getNodeOffsets (graph : GraphBuffers) (nodeOffset : Nat) : List Nat :=
  (info.getNeighbors graph nodeOffset).takeWhile (· ≠ INVALID_OFFSET)

def node (query o : Nat) : NodeWithDistance D := ⟨o, info.distance query o⟩

/-- The search returns `maxDegree` nodes and looks at `efc` ones. -/
def ef : Nat := max info.maxDegree info.efc

def improves (result : List (NodeWithDistance D)) (dist : D) : Bool :=
  match info.ordering.topMax? result with
  | none => false
  | some top => dist < top.distance

def processNbrNodeInKNNSearch (query : Nat) (s : SearchQueues D) (nbr : Nat) : SearchQueues D :=
  let visited := nbr :: s.visited
  if !info.hasEmbedding nbr then { s with visited }
  else if s.results.length < info.ef || info.improves s.results (info.distance query nbr) then
    let results :=
      if info.ef ≤ s.results.length then info.ordering.popMax s.results else s.results
    { candidates := s.candidates ++ [info.node query nbr]
      results := results ++ [info.node query nbr]
      visited }
  else { s with visited }

def hasCandidate (s : SearchQueues D) : Bool :=
  match info.ordering.topMin? s.candidates with
  | none => false
  | some c => !(info.ef ≤ s.results.length &&
      match info.ordering.topMax? s.results with
      | none => false
      | some top => top.distance < c.distance)

def searchRound (graph : GraphBuffers) (query : Nat) (s : SearchQueues D) : Option (SearchQueues D) :=
  (info.ordering.topMin? s.candidates).map fun c =>
    (info.getNodeOffsets graph c.nodeOffset).foldl
      (fun s nbr => if nbr ∉ s.visited then info.processNbrNodeInKNNSearch query s nbr else s)
      { s with candidates := info.ordering.popMin s.candidates }

def popTopK (result : List (NodeWithDistance D)) (k : Nat) : List (NodeWithDistance D) :=
  (info.ordering.drainMax k (info.ordering.shrinkMax k result.length result)).reverse

def searchKNN (graph : GraphBuffers) (query entryNode fuel : Nat) :
    Option (List (NodeWithDistance D)) :=
  (whileLoop info.hasCandidate (info.searchRound graph query) fuel
    { candidates := [info.node query entryNode]
      results := [info.node query entryNode]
      visited := [entryNode] }).map fun s => info.popTopK s.results info.maxDegree

def populateNeighbours (graph : GraphBuffers) (nodeOffset : Nat) : List (NodeWithDistance D) :=
  (info.getNodeOffsets graph nodeOffset).map fun nbr => info.node nodeOffset nbr

/-- No kept neighbour is so near to this one. -/
def keepNbr (keptNbrs : List (NodeWithDistance D)) (nbr : NodeWithDistance D) : Bool :=
  keptNbrs.all fun kept =>
    !(info.alphaTimes (info.distance nbr.nodeOffset kept.nodeOffset) < nbr.distance)

/-- The loop over the sorted neighbours. -/
def shrinkLoop : List (NodeWithDistance D) → List (NodeWithDistance D) → List (NodeWithDistance D)
  | keptNbrs, [] => keptNbrs
  | keptNbrs, nbr :: nbrs =>
    let keptNbrs := if info.keepNbr keptNbrs nbr then keptNbrs ++ [nbr] else keptNbrs
    if keptNbrs.length = info.maxDegree then keptNbrs else shrinkLoop keptNbrs nbrs

def keptNbrs (graph : GraphBuffers) (nodeOffset : Nat) : List Nat :=
  (info.shrinkLoop [] (info.ordering.sort (info.populateNeighbours graph nodeOffset))).map
    NodeWithDistance.nodeOffset

/-- A neighbour is written when it is kept, and the length in the end. -/
def shrinkForNode (graph : GraphBuffers) (nodeOffset : Nat) : List Write :=
  let kept := info.keptNbrs graph nodeOffset
  (kept.mapIdx fun i nbr => .setDstNode (nodeOffset * info.degreeThresholdToShrink + i) nbr) ++
    [.setCSRLength nodeOffset kept.length]

def init : InMemHNSWLayer where
  entryPoint := none
  graph := info.emptyGraph
  inserted := []
  writes := []
  shrinking := none
  rels := []
  nodes := []
  finalized := false

/-- The length has been incremented; the write of the neighbour is left, and a shrink where the list
has become too long. -/
def insertRel (s : InMemHNSWLayer) (srcNode dstNode : Nat) : Option InMemHNSWLayer :=
  (info.incrementCSRLength s.graph srcNode).map fun (currentLen, graph) =>
    { s with
      graph
      writes := [.setDstNode (srcNode * info.degreeThresholdToShrink + currentLen) dstNode]
      shrinking :=
        if currentLen = info.degreeThresholdToShrink - 1 then some srcNode else none }

/-- The next step of the call that has begun. -/
def next (s : InMemHNSWLayer) : Option InMemHNSWLayer :=
  match s.writes with
  | write :: writes => some { s with graph := info.apply s.graph write, writes }
  | [] =>
    match s.shrinking with
    | some v => some { s with writes := info.shrinkForNode s.graph v, shrinking := none }
    | none =>
      match s.rels with
      | (srcNode, dstNode) :: rels => info.insertRel { s with rels } srcNode dstNode
      | [] =>
        match s.nodes with
        | v :: nodes =>
          if getCSRLength s.graph v ≤ info.maxDegree then some { s with nodes }
          else some { s with shrinking := some v, nodes }
        | [] => none

def relsOf (offset : Nat) (closest : List (NodeWithDistance D)) : List (Nat × Nat) :=
  closest.flatMap fun n => [(offset, n.nodeOffset), (n.nodeOffset, offset)]

def insertFrom (s : InMemHNSWLayer) (offset entryPoint fuel : Nat) : Option InMemHNSWLayer :=
  (info.searchKNN s.graph offset entryPoint fuel).map fun closest =>
    { s with rels := relsOf offset closest, inserted := offset :: s.inserted }

def insert (s : InMemHNSWLayer) (offset : Nat) (entryPoint_ : Option Nat) (fuel : Nat) :
    Option InMemHNSWLayer :=
  match entryPoint_ with
  | some entryPoint => info.insertFrom s offset entryPoint fuel
  | none =>
    -- `compareAndSwapEntryPoint`
    match s.entryPoint with
    | some entryPoint => info.insertFrom s offset entryPoint fuel
    | none => some { s with entryPoint := some offset, inserted := offset :: s.inserted }

def nodesOfGroup (nodeGroupIdx : Nat) : List Nat :=
  let startNodeOffset := nodeGroupIdx * info.nodeGroupSize
  let endNodeOffset := min info.offsetMap.numNodesInTable (startNodeOffset + info.nodeGroupSize)
  let startNodeInGraph := info.offsetMap.nodeToGraphOffset startNodeOffset
  List.range' startNodeInGraph (info.offsetMap.nodeToGraphOffset endNodeOffset - startNodeInGraph)

def numNodeGroups : Nat :=
  if info.offsetMap.numNodesInTable = 0 then 0
  else info.offsetMap.numNodesInTable / info.nodeGroupSize + 1

def finalize (s : InMemHNSWLayer) (groups : List Nat) : InMemHNSWLayer :=
  { s with nodes := groups.flatMap info.nodesOfGroup, finalized := true }

/-- A node is inserted once, with an embedding; its entry point is a node that has been inserted. -/
structure Insertable (s : InMemHNSWLayer) (offset : Nat) (entryPoint : Option Nat) : Prop where
  idle : s.Idle
  building : s.finalized = false
  lt : offset < info.numNodes
  embedding : info.hasEmbedding offset = true
  fresh : offset ∉ s.inserted
  entry : ∀ e ∈ entryPoint, e ∈ s.inserted

/-- Insertions in any order, then the node groups in any order. -/
inductive Reachable : InMemHNSWLayer → Prop where
  | init : Reachable info.init
  | next {s s' : InMemHNSWLayer} : Reachable s → info.next s = some s' → Reachable s'
  | insert {s s' : InMemHNSWLayer} {offset : Nat} {entryPoint : Option Nat} :
      Reachable s → info.Insertable s offset entryPoint →
      Halts (info.insert s offset entryPoint) s' → Reachable s'
  | finalize {s : InMemHNSWLayer} {groups : List Nat} :
      Reachable s → s.Idle → s.finalized = false → groups.Perm (List.range info.numNodeGroups) →
      Reachable (info.finalize s groups)

/-- The list of a node between any two writes; outside of `insertRel` and `shrinkForNode`, that is
with no writes left, it has no duplicate. -/
structure ListAt (s : InMemHNSWLayer) (v : Nat) : Prop where
  length_le : (info.getNodeOffsets s.graph v).length ≤ info.degreeThresholdToShrink
  not_self : v ∉ info.getNodeOffsets s.graph v
  inserted : ∀ w ∈ info.getNodeOffsets s.graph v, w ∈ s.inserted
  nodup : s.writes = [] → (info.getNodeOffsets s.graph v).Nodup

/-- What `shrinkForNode` makes of a list. -/
structure Shrunk (v : Nat) (old kept : List Nat) : Prop where
  subset : ∀ w ∈ kept, w ∈ old
  nodup : kept.Nodup
  length_le : kept.length ≤ info.maxDegree
  nearest : old ≠ [] → ∃ w ∈ kept, ∀ o ∈ old, info.distance v w ≤ info.distance v o
  dropped : ∀ o ∈ old, o ∉ kept → (∃ w ∈ kept, info.distance v w ≤ info.distance v o ∧
      info.alphaTimes (info.distance o w) < info.distance v o) ∨
    (kept.length = info.maxDegree ∧ ∀ w ∈ kept, info.distance v w ≤ info.distance v o)

/-- The layer when the writes of the call under way have been made. -/
def settled (s : InMemHNSWLayer) : GraphBuffers := s.writes.foldl info.apply s.graph

/-- The steps that follow, at most so many. -/
def advance : Nat → InMemHNSWLayer → InMemHNSWLayer
  | 0, s => s
  | n + 1, s =>
    match info.next s with
    | some s' => advance n s'
    | none => s

end InMemHNSWLayerInfo

end Ladybug.Vector
