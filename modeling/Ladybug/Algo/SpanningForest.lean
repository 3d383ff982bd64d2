import Ladybug.Base.Loops
import Mathlib.Data.List.Sort

/-!
# Spanning forests (`algo/src/function/spanning_forest.cpp`)

Kruskal's algorithm: the edges in the order of their weights, each taken unless its ends are in one
component already.  The components are kept as trees of parent offsets.  Every edge of the result
carries the id of its tree.
-/

namespace Ladybug.Algo

structure WeightedNbr (W R : Type) where
  nbrId : Nat
  relId : R
  weight : W

/-- What the forward scans of a graph over one node table and one rel table return.  `relId`s are
the internal ids of the rels, and `weight` is the weight property, cast to the type of the weights. -/
structure WeightedGraph (W R : Type) where
  numNodes : Nat
  scanFwd : Nat → List (WeightedNbr W R)
  nbr_lt : ∀ u < numNodes, ∀ x ∈ scanFwd u, x.nbrId < numNodes
  rels_nodup : ((List.range numNodes).flatMap fun u => (scanFwd u).map WeightedNbr.relId).Nodup

structure WeightedEdge (W R : Type) where
  srcId : Nat
  dstId : Nat
  relId : R
  weight : W
deriving DecidableEq

structure ResultEdge (R : Type) where
  srcId : Nat
  dstId : Nat
  relId : R
  forestId : Nat
deriving DecidableEq

inductive Variant where
  | min
  | max
deriving DecidableEq

section

variable {W R : Type}

/-- The members of `KruskalCompute` that change while the edges are processed. -/
structure KruskalState (R : Type) where
  forest : List (ResultEdge R)
  parents : Nat → Nat
  rank : Nat → Nat

def DEFAULT_WEIGHT (W : Type) [One W] : W := 1

/-- One neighbour of `nodeId`; self-loops are ignored. -/
def edgeOfNbr [One W] (weightProperty : Bool) (nodeId : Nat) (nbr : WeightedNbr W R) :
    Option (WeightedEdge W R) :=
  if nbr.nbrId = nodeId then none
  else some ⟨nodeId, nbr.nbrId, nbr.relId, if weightProperty then nbr.weight else DEFAULT_WEIGHT W⟩

-- `for (auto nodeId = 0u; nodeId < numNodes; ++nodeId)`
def initEdges [One W] (g : WeightedGraph W R) (weightProperty : Bool) (fuel : Nat) :
    Option (List (WeightedEdge W R)) :=
  forU32 g.numNodes (fun nodeId edges => some (edges ++
    (g.scanFwd nodeId.toNat).filterMap (edgeOfNbr weightProperty nodeId.toNat))) fuel []

def WeightedEdge.tie (e : WeightedEdge W R) : W ×ₗ Nat ×ₗ Nat ×ₗ R :=
  toLex (e.weight, toLex (e.srcId, toLex (e.dstId, e.relId)))

def compareFn [LinearOrder W] [LinearOrder R] (variant : Variant) (e₁ e₂ : WeightedEdge W R) : Bool :=
  match variant with
  | .max => e₂.tie < e₁.tie
  | .min => e₁.tie < e₂.tie

def sortEdges [LinearOrder W] [LinearOrder R] (variant : Variant)
    (edges : List (WeightedEdge W R)) : List (WeightedEdge W R) :=
  edges.insertionSort fun e₁ e₂ => compareFn variant e₂ e₁ = false

/-- Every parent on the way is skipped by the pointer of `nodeId`, until it points to the root. -/
def findComponent (fuel : Nat) (parents : Nat → Nat) (nodeId : Nat) : Option (Nat × (Nat → Nat)) :=
  (whileLoop (fun p => decide (p nodeId ≠ p (p nodeId)))
    (fun p ↦ some (Function.update p nodeId (p (p nodeId)))) fuel parents).map fun p ↦ (p nodeId, p)

def mergeComponents (s : KruskalState R) (srcCompId dstCompId : Nat) : KruskalState R :=
  if s.rank srcCompId = s.rank dstCompId then
    let newParent := min srcCompId dstCompId
    let newChild := max srcCompId dstCompId
    { s with
      parents := Function.update s.parents newChild newParent
      rank := Function.update s.rank newParent (s.rank newParent + 1) }
  else if s.rank srcCompId < s.rank dstCompId then
    { s with parents := Function.update s.parents srcCompId dstCompId }
  else
    { s with parents := Function.update s.parents dstCompId srcCompId }

/-- The number of edges taken so far, and the rest of the state. -/
abbrev RunState (R : Type) := Nat × KruskalState R

def processEdge (fuel : Nat) (e : WeightedEdge W R) (t : RunState R) : Option (RunState R) :=
  (findComponent fuel t.2.parents e.srcId).bind fun (srcCompId, parents) =>
    (findComponent fuel parents e.dstId).map fun (dstCompId, parents) =>
      let s := { t.2 with parents := parents }
      if srcCompId ≠ dstCompId then
        (t.1 + 1, mergeComponents
          { s with forest := s.forest ++ [⟨e.srcId, e.dstId, e.relId, 2 ^ 64 - 1⟩] }
          srcCompId dstCompId)
      else (t.1, s)

/-- The last number of edges, `numNodes - 1`, is a 64-bit one. -/
def maxForestSize (numNodes : Nat) : Nat := (numNodes + (2 ^ 64 - 1)) % 2 ^ 64

-- `for (auto i = 0u; i < edges.size() && numEdges != numNodes - 1; ++i)`
def run (numNodes : Nat) (edges : List (WeightedEdge W R)) (fuel : Nat) (s : KruskalState R) :
    Option (KruskalState R) :=
  (whileLoop (fun t : UInt32 × RunState R =>
      decide (t.1.toNat < edges.length ∧ t.2.1 ≠ maxForestSize numNodes))
    (fun t => edges[t.1.toNat]?.bind fun e => (processEdge fuel e t.2).map fun u => (t.1 + 1, u))
    fuel (0, 0, s)).map fun t => t.2.2

/-- The id of a tree is the root of the sources of its edges. -/
def assignForestIds (fuel : Nat) (s : KruskalState R) :
    Option (List (ResultEdge R) × (Nat → Nat)) :=
  s.forest.foldlM (fun (done, parents) e =>
    (findComponent fuel parents e.srcId).map fun (forestId, parents) =>
      (done ++ [{ e with forestId := forestId }], parents)) ([], s.parents)

/-- `KruskalCompute` from its construction on, and the rows that `WriteResultsSF` appends. -/
def spanningForest [One W] [LinearOrder W] [LinearOrder R] (g : WeightedGraph W R)
    (weightProperty : Bool) (variant : Variant) (fuel : Nat) : Option (List (ResultEdge R)) :=
  (initEdges g weightProperty fuel).bind fun edges =>
    (run g.numNodes (sortEdges variant edges) fuel ⟨[], fun i => i, fun _ => 0⟩).bind fun s =>
      (assignForestIds fuel s).map Prod.fst

end

end Ladybug.Algo
