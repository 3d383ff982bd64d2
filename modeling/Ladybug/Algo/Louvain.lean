import Ladybug.Algo.InMemGraph
import Ladybug.Base.Loops
import Mathlib.Data.List.AList
import Mathlib.Data.UInt

/-!
# Louvain communities (`algo/src/function/louvain.cpp`)

Phases of iterations: an iteration moves every node to the best community next to it, a phase ends
where the modularity no longer grows, and the communities become the nodes of the next phase.  The
modularity and the gains are doubles; here the outcome of their comparisons, the order of the hash
maps and that of the threads' writes are given from outside.
-/

namespace Ladybug.Louvain

open Algo

def UNASSIGNED_COMM : Nat := 2 ^ 64 - 1

structure CommInfo where
  size : UInt64
  degree : Weight
deriving DecidableEq

-- `CommInfo()`
def CommInfo.zero : CommInfo := ⟨0, 0⟩

structure PhaseState where
  graph : InMemGraph
  acceptedComm : Nat → Nat
  currComm : Nat → Nat
  nextComm : Nat → Nat
  currCommInfos : Nat → CommInfo
  nextCommInfos : Nat → CommInfo
  nodeWeightedDegrees : Nat → Weight
  selfCommWeights : Nat → Weight
  totalWeight : Weight

namespace PhaseState

def reinit (s : PhaseState) (numNodes : Nat) : PhaseState :=
  -- `nextCommInfos` and `selfCommWeights` are reset by every iteration
  { s with
    graph := InMemGraph.reinit numNodes
    acceptedComm := fun _ => UNASSIGNED_COMM
    currComm := fun _ => UNASSIGNED_COMM
    nextComm := fun _ => UNASSIGNED_COMM
    currCommInfos := fun _ => CommInfo.zero
    nodeWeightedDegrees := fun _ => 0
    totalWeight := 0 }

/-- The constructor. -/
def new (numNodes : Nat) : PhaseState :=
  reinit ⟨InMemGraph.reinit numNodes, fun _ => 0, fun _ => 0, fun _ => 0, fun _ => CommInfo.zero,
    fun _ => CommInfo.zero, fun _ => 0, fun _ => 0, 0⟩ numNodes

def initNextNode (s : PhaseState) (nodeId : Nat) : PhaseState :=
  { s with
    graph := s.graph.initNextNode
    currCommInfos := Function.update s.currCommInfos nodeId ⟨1, 0⟩
    acceptedComm := Function.update s.acceptedComm nodeId nodeId
    currComm := Function.update s.currComm nodeId nodeId }

/-- A neighbour of the last initialized node. -/
def insertNbr (s : PhaseState) (source nbrId : Nat) (weight : Weight) : PhaseState :=
  { s with
    graph := s.graph.insertNbr nbrId weight
    nodeWeightedDegrees := Function.update s.nodeWeightedDegrees source
      (s.nodeWeightedDegrees source + weight)
    currCommInfos := Function.update s.currCommInfos source
      { s.currCommInfos source with degree := (s.currCommInfos source).degree + weight }
    totalWeight := s.totalWeight + weight }

def finalize (s : PhaseState) : PhaseState := { s with graph := s.graph.initNextNode }

def insertNode (s : PhaseState) (nodeId : Nat) (row : List Neighbor) : PhaseState :=
  row.foldl (fun s nbr => s.insertNbr nodeId nbr.neighbor nbr.weight) (s.initNextNode nodeId)

def startNewIter (s : PhaseState) : PhaseState :=
  { s with selfCommWeights := fun _ => 0, nextCommInfos := fun _ => CommInfo.zero }

end PhaseState

/-- Every rel that is not a loop is in the lists of both its ends. -/
def initialRow (g : StoredGraph) (nodeId : Nat) : List Neighbor :=
  (gatherNbrs g nodeId).map fun nbrId => ⟨nbrId, defaultWeight⟩

-- `for (auto nodeId = 0u; nodeId < numNodes; ++nodeId)`
def initInMemoryGraph (g : StoredGraph) (fuel : Nat) : Option PhaseState :=
  (forU32 g.numNodes (fun nodeId s => some (s.insertNode nodeId.toNat (initialRow g nodeId.toNat)))
    fuel (PhaseState.new g.numNodes)).map PhaseState.finalize

/-- The atomic updates of the threads. -/
inductive CommOp where
  | addDegree (comm : Nat) (degree : Weight)
  | addSize (comm : Nat)
  | subDegree (comm : Nat) (degree : Weight)
  | subSize (comm : Nat)
deriving DecidableEq

def CommOp.apply (infos : Nat → CommInfo) : CommOp → Nat → CommInfo
  | .addDegree c d => Function.update infos c { infos c with degree := (infos c).degree + d }
  | .addSize c => Function.update infos c { infos c with size := (infos c).size + 1 }
  | .subDegree c d => Function.update infos c { infos c with degree := (infos c).degree - d }
  | .subSize c => Function.update infos c { infos c with size := (infos c).size - 1 }

/-- What the floating-point comparisons, the hash maps and the scheduler decide in a step. -/
structure Outcome where
  /-- The order of `commToWeightsIndex`. -/
  mapOrder : List (Nat × Nat) → List (Nat × Nat)
  mapOrder_perm : ∀ l, (mapOrder l).Perm l
  /-- Whether a neighbour community beats the best one so far, for every node. -/
  gains : Nat → Nat → Nat → Bool
  /-- The order of the threads' updates. -/
  writes : List CommOp → List CommOp
  writes_perm : ∀ l, (writes l).Perm l
  /-- Whether the modularity has grown by `THRESHOLD`. -/
  improves : Bool
  /-- The order of the maps in `commWeights`. -/
  weightsOrder : List (Sigma fun _ : Nat => Weight) → List (Sigma fun _ : Nat => Weight)
  weightsOrder_perm : ∀ l, (weightsOrder l).Perm l
  /-- For the loops with 32-bit counters. -/
  fuel : Nat

structure IntraWeights where
  selfLoopWeight : Weight
  intraCommWeights : List Weight
  commToWeightsIndex : List (Nat × Nat)
  nextIndex : Nat

def addIntraWeight (s : PhaseState) (nodeId : Nat) (a : IntraWeights) (nbrEntry : Neighbor) :
    IntraWeights :=
  let a := if nbrEntry.neighbor = nodeId then
      { a with selfLoopWeight := a.selfLoopWeight + nbrEntry.weight } else a
  let nbrCommId := s.currComm nbrEntry.neighbor
  match a.commToWeightsIndex.lookup nbrCommId with
  | none =>
    { a with
      commToWeightsIndex := a.commToWeightsIndex ++ [(nbrCommId, a.nextIndex)]
      nextIndex := a.nextIndex + 1
      intraCommWeights := a.intraCommWeights ++ [nbrEntry.weight] }
  | some i =>
    { a with intraCommWeights := a.intraCommWeights.modify i (· + nbrEntry.weight) }

def computeIntraCommWeights (s : PhaseState) (nodeId : Nat) : IntraWeights :=
  (s.graph.nbrs nodeId).foldl (addIntraWeight s nodeId) ⟨0, [0], [(s.currComm nodeId, 0)], 1⟩

def findPotentialNewComm (o : Outcome) (s : PhaseState) (nodeId : Nat)
    (commToWeightsIndex : List (Nat × Nat)) : Nat :=
  let currComm := s.currComm nodeId
  let newComm := (o.mapOrder commToWeightsIndex).foldl (fun newComm entry =>
    if currComm ≠ entry.1 ∧ o.gains nodeId entry.1 newComm then entry.1 else newComm) currComm
  -- swap protection
  if (s.currCommInfos newComm).size = 1 ∧ (s.currCommInfos currComm).size = 1 ∧
      newComm > currComm then currComm
  else newComm

/-- The community `nodeId` will be moved to; a node without edges gets none. -/
def targetComm (o : Outcome) (s : PhaseState) (nodeId : Nat) : Nat :=
  if s.graph.nbrs nodeId = [] then UNASSIGNED_COMM
  else findPotentialNewComm o s nodeId (computeIntraCommWeights s nodeId).commToWeightsIndex

def nodeOps (o : Outcome) (s : PhaseState) (nodeId : Nat) : List CommOp :=
  let targetCommId := targetComm o s nodeId
  let currCommId := s.currComm nodeId
  if targetCommId ≠ currCommId ∧ targetCommId ≠ UNASSIGNED_COMM then
    let nodeDegree := s.nodeWeightedDegrees nodeId
    [.addDegree targetCommId nodeDegree, .addSize targetCommId, .subDegree currCommId nodeDegree,
      .subSize currCommId]
  else []

/-- `RunIterationVC` over all nodes; a node's moves read nothing that the others write. -/
def runIteration (o : Outcome) (s : PhaseState) : PhaseState :=
  { s with
    nextComm := targetComm o s
    selfCommWeights := fun nodeId =>
      if s.graph.nbrs nodeId = [] then s.selfCommWeights nodeId
      else ((computeIntraCommWeights s nodeId).intraCommWeights.head?).getD 0
    nextCommInfos := (o.writes ((List.range s.graph.numNodes).flatMap (nodeOps o s))).foldl
      CommOp.apply s.nextCommInfos }

def computeModularity (s : PhaseState) : Weight × Weight :=
  (((List.range s.graph.numNodes).map s.selfCommWeights).sum,
    ((List.range s.graph.numNodes).map fun c =>
      (s.currCommInfos c).degree * (s.currCommInfos c).degree).sum)

def updateCommInfos (s : PhaseState) : PhaseState :=
  { s with
    currCommInfos := fun c =>
      { size := (s.currCommInfos c).size + (s.nextCommInfos c).size
        degree := (s.currCommInfos c).degree + (s.nextCommInfos c).degree } }

/-- The two swaps. -/
def rotateComms (s : PhaseState) : PhaseState :=
  { s with acceptedComm := s.currComm, currComm := s.nextComm, nextComm := s.acceptedComm }

structure Renumbering where
  acceptedComm : Nat → Nat
  map : AList fun _ : Nat => Nat
  nextCommId : Nat

def renumberNode (r : Renumbering) (nodeId : Nat) : Renumbering :=
  let commId := r.acceptedComm nodeId
  -- no communities for isolated nodes
  if commId = UNASSIGNED_COMM then r
  else
    match r.map.lookup commId with
    | some newId => { r with acceptedComm := Function.update r.acceptedComm nodeId newId }
    | none =>
      { acceptedComm := Function.update r.acceptedComm nodeId r.nextCommId
        map := r.map.insert commId r.nextCommId
        nextCommId := r.nextCommId + 1 }

def renumberCommunities (s : PhaseState) : Nat × PhaseState :=
  let r := (List.range s.graph.numNodes).foldl renumberNode ⟨s.acceptedComm, ∅, 0⟩
  (r.nextCommId, { s with acceptedComm := r.acceptedComm })

/-- `commWeights`, one map for every community. -/
abbrev CommWeights := Nat → AList fun _ : Nat => Weight

-- `commWeights[commId][nbrCommId] += weight`
def CommWeights.add (m : CommWeights) (commId nbrCommId : Nat) (weight : Weight) : CommWeights :=
  Function.update m commId
    ((m commId).insert nbrCommId (((m commId).lookup nbrCommId).getD 0 + weight))

def aggregateEdge (s : PhaseState) (nodeId : Nat) (m : CommWeights) (nbr : Neighbor) :
    CommWeights :=
  let commId := s.acceptedComm nodeId
  let nbrCommId := s.acceptedComm nbr.neighbor
  if commId ≥ nbrCommId then
    let m := m.add commId nbrCommId nbr.weight
    -- the backward edge, except for self-loops
    if commId ≠ nbrCommId then m.add nbrCommId commId nbr.weight else m
  else m

def aggregateNode (s : PhaseState) (m : CommWeights) (nodeId : Nat) : CommWeights :=
  (s.graph.nbrs nodeId).foldl (aggregateEdge s nodeId) m

def commRow (o : Outcome) (m : CommWeights) (nodeId : Nat) : List Neighbor :=
  (o.weightsOrder (m nodeId).entries).map fun e => ⟨e.1, e.2⟩

-- both loops count in 32 bits
def aggregateCommunities (o : Outcome) (newCommCount : Nat) (s : PhaseState) : Option PhaseState :=
  (forU32 s.graph.numNodes (fun nodeId m => some (aggregateNode s m nodeId.toNat)) o.fuel
    fun _ => ∅).bind fun commWeights =>
  (forU32 newCommCount (fun nodeId s =>
      some (s.insertNode nodeId.toNat (commRow o commWeights nodeId.toNat))) o.fuel
    (s.reinit newCommCount)).map PhaseState.finalize

def saveCommAssignments (phaseId : UInt32) (communities : Nat → Nat) (s : PhaseState) : Nat → Nat :=
  if phaseId = 0 then s.acceptedComm
  else fun nodeId =>
    let prevCommunity := communities nodeId
    if prevCommunity = UNASSIGNED_COMM then prevCommunity else s.acceptedComm prevCommunity

structure Config where
  maxPhases : Nat
  maxIterations : Nat

/-- Where `tableFunc` is. -/
inductive Point where
  | phaseHead
  | iterHead
  | phaseEnd
  | done
deriving DecidableEq

structure RunState where
  point : Point
  phase : UInt32
  iter : UInt32
  state : PhaseState
  communities : Nat → Nat

def RunState.start (s : PhaseState) : RunState := ⟨.phaseHead, 0, 0, s, fun _ => 0⟩

def step (cfg : Config) (o : Outcome) (t : RunState) : Option RunState :=
  match t.point with
  | .phaseHead =>
    if t.phase.toNat < cfg.maxPhases then some { t with point := .iterHead, iter := 0 }
    else some { t with point := .done }
  | .iterHead =>
    if t.iter.toNat < cfg.maxIterations then
      let state := runIteration o t.state.startNewIter
      if o.improves then
        some { t with iter := t.iter + 1, state := rotateComms (updateCommInfos state) }
      else some { t with point := .phaseEnd, state := state }
    else some { t with point := .phaseEnd }
  | .phaseEnd =>
    let (newCommCount, state) := renumberCommunities t.state
    let communities := saveCommAssignments t.phase t.communities state
    if t.state.graph.numNodes = newCommCount then
      some { t with point := .done, state := state, communities := communities }
    else
      (aggregateCommunities o newCommCount state).map fun state =>
        { t with
          point := .phaseHead
          phase := t.phase + 1
          state := state
          communities := communities }
  | .done => none

inductive Reached (g : StoredGraph) (cfg : Config) : RunState → Prop where
  | start (fuel : Nat) (s : PhaseState) : initInMemoryGraph g fuel = some s →
      Reached g cfg (RunState.start s)
  | next (o : Outcome) (t t' : RunState) : Reached g cfg t → step cfg o t = some t' →
      Reached g cfg t'

end Ladybug.Louvain
