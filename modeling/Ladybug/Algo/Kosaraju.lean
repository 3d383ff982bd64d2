import Ladybug.Base.Loops
import Ladybug.Base.DepthFirst

/-!
# Kosaraju's algorithm (`algo/src/function/strongly_connected_components_kosaraju.cpp`)

A forward depth-first pass leaves the nodes in their finishing order, and a backward pass over this
order gives each strong component the offset of its last finished node.  One array of offsets holds
the marks of the first pass and the component ids of the second.  Interrupts and the progress bar are
left out.
-/

namespace Ladybug.Algo

open Relation

def IsNode (maxOffset : Nat) (mask : Option (Nat → Bool)) (i : Nat) : Prop :=
  i < maxOffset ∧ ∀ m ∈ mask, m i

/-- What the two scans of a graph over one node table return.  The scans are closed under the node
mask, and one is the transpose of the other. -/
structure ScanGraph where
  maxOffset : Nat
  mask : Option (Nat → Bool)
  scanFwd : Nat → List Nat
  scanBwd : Nat → List Nat
  fwd_node : ∀ u v, IsNode maxOffset mask u → v ∈ scanFwd u → IsNode maxOffset mask v
  bwd_node : ∀ u v, IsNode maxOffset mask u → v ∈ scanBwd u → IsNode maxOffset mask v
  transpose : ∀ u v, IsNode maxOffset mask u → IsNode maxOffset mask v →
    (v ∈ scanFwd u ↔ u ∈ scanBwd v)

namespace ScanGraph

def Node (g : ScanGraph) (i : Nat) : Prop := IsNode g.maxOffset g.mask i

def Edge (g : ScanGraph) (u v : Nat) : Prop := g.Node u ∧ v ∈ g.scanFwd u

-- `!map || map->valid(i)`
def valid (g : ScanGraph) (i : Nat) : Bool :=
  match g.mask with
  | none => true
  | some m => m i

theorem node_iff {g : ScanGraph} {i : Nat} (hi : i < g.maxOffset) : g.Node i ↔ g.valid i = true := by
  unfold Node IsNode valid
  cases g.mask with
  | none | some => simp [hi]

theorem edge_iff_bwd {g : ScanGraph} {u v : Nat} (hv : g.Node v) : g.Edge u v ↔ u ∈ g.scanBwd v := by
  constructor
  · intro h
    exact (g.transpose u v h.1 hv).mp h.2
  · intro h
    have hu : g.Node u := g.bwd_node v u hv h
    exact ⟨hu, (g.transpose u v hu hv).mpr h⟩

end ScanGraph

def PROCESSED : Nat := 2 ^ 64 - 1
def VISITED : Nat := 2 ^ 64 - 2
def NOT_VISITED : Nat := 2 ^ 64 - 3

/-- The array of offsets. -/
abbrev VisitedState := Nat → Nat

namespace VisitedState

def setVisited (s : VisitedState) (offset : Nat) : VisitedState := Function.update s offset VISITED

def visited (s : VisitedState) (offset : Nat) : Bool := VISITED ≤ s offset

def setProcessed (s : VisitedState) (offset : Nat) : VisitedState :=
  Function.update s offset PROCESSED

def processed (s : VisitedState) (offset : Nat) : Bool := s offset = PROCESSED

def componentIDSet (s : VisitedState) (offset : Nat) : Bool := s offset < NOT_VISITED

def setComponentID (s : VisitedState) (offset value : Nat) : VisitedState :=
  Function.update s offset value

theorem visited_setVisited (s : VisitedState) (x i : Nat) :
    (s.setVisited x).visited i = true ↔ s.visited i = true ∨ i = x := by
  unfold visited setVisited
  by_cases hi : i = x <;> simp [hi]

theorem visited_setProcessed {s : VisitedState} {x : Nat} (hx : s.visited x = true) (i : Nat) :
    (s.setProcessed x).visited i = true ↔ s.visited i = true := by
  unfold visited setProcessed at *
  rw [Function.update_apply]
  by_cases hi : i = x
  · rw [if_pos hi, hi]
    exact iff_of_true (by decide) hx
  · rw [if_neg hi]

theorem processed_setProcessed (s : VisitedState) (x i : Nat) :
    (s.setProcessed x).processed i = true ↔ s.processed i = true ∨ i = x := by
  unfold processed setProcessed
  by_cases hi : i = x <;> simp [hi]

theorem processed_setVisited {s : VisitedState} {x : Nat} (hx : ¬ s.visited x = true) (i : Nat) :
    (s.setVisited x).processed i = true ↔ s.processed i = true := by
  unfold processed setVisited visited at *
  rw [Function.update_apply]
  by_cases hi : i = x
  · -- the mark of an unvisited node is not `PROCESSED` either
    rw [if_pos hi, hi]
    refine iff_of_false (by decide) ?_
    intro hproc
    apply hx
    rw [of_decide_eq_true hproc]
    decide
  · rw [if_neg hi]

end VisitedState

/-- The constructor, over memory with any contents. -/
def initVisited (numNodes fuel : Nat) (raw : VisitedState) : Option VisitedState :=
  forU32 numNodes (fun i s => some (Function.update s i.toNat NOT_VISITED)) fuel raw

/-- The head of `toProcess` is its back, and the head of `order` the node pushed last. -/
structure Traversal where
  toProcess : List Nat
  state : VisitedState
  order : List Nat

/-- One round of `forwardDFS`. -/
def forwardStep (g : ScanGraph) (t : Traversal) : Traversal :=
  match t.toProcess with
  | [] => t
  | offset :: rest =>
    if t.state.visited offset then
      if t.state.processed offset then { t with toProcess := rest }
      else
        { toProcess := rest
          state := t.state.setProcessed offset
          order := offset :: t.order }
    else
      let state := t.state.setVisited offset
      { t with
        toProcess := ((g.scanFwd offset).filter fun v => !state.visited v).reverse ++ t.toProcess
        state }

def forwardDFS (g : ScanGraph) (fuel : Nat) (t : Traversal) : Option Traversal :=
  whileLoop (fun t : Traversal => !t.toProcess.isEmpty) (fun t => some (forwardStep g t)) fuel t

/-- The first loop of `compute`. -/
def forwardPass (g : ScanGraph) (fuel : Nat) (s : VisitedState) : Option Traversal :=
  forU32 g.maxOffset (fun i t =>
    if !g.valid i.toNat then some t
    else if t.state.visited i.toNat then some t
    else forwardDFS g fuel { t with toProcess := i.toNat :: t.toProcess }) fuel ⟨[], s, []⟩

/-- One round of `backwardsDFS`. -/
def backwardsStep (g : ScanGraph) (componentID : Nat) (t : Traversal) : Traversal :=
  match t.toProcess with
  | [] => t
  | nextNode :: rest =>
    if t.state.componentIDSet nextNode then { t with toProcess := rest }
    else
      let state := t.state.setComponentID nextNode componentID
      { t with
        toProcess := ((g.scanBwd nextNode).filter fun v => !state.componentIDSet v).reverse ++ rest
        state }

def backwardsDFS (g : ScanGraph) (componentID fuel : Nat) (t : Traversal) : Option Traversal :=
  whileLoop (fun t : Traversal => !t.toProcess.isEmpty)
    (fun t => some (backwardsStep g componentID t)) fuel t

/-- The second loop of `compute`. -/
def backwardPass (g : ScanGraph) (fuel : Nat) (t : Traversal) : Option Traversal :=
  whileLoop (fun t : Traversal => !t.order.isEmpty) (fun t =>
    match t.order with
    | [] => some t
    | offset :: order =>
      if t.state.componentIDSet offset then some { t with order }
      else backwardsDFS g offset fuel { t with toProcess := offset :: t.toProcess, order })
    fuel t

/-- The component ids, from memory with contents `raw`. -/
def kosaraju (g : ScanGraph) (raw : VisitedState) (fuel : Nat) : Option VisitedState :=
  (initVisited g.maxOffset fuel raw).bind fun s =>
    (forwardPass g fuel s).bind fun t => (backwardPass g fuel t).map Traversal.state

def finishingOrder (g : ScanGraph) (raw : VisitedState) (fuel : Nat) : Option (List Nat) :=
  (initVisited g.maxOffset fuel raw).bind fun s => (forwardPass g fuel s).map Traversal.order

end Ladybug.Algo
