import Ladybug.Base.Loops
import Ladybug.Base.MinPropagation

/-!
# Strong components by colouring (`algo/src/function/strongly_connected_components.cpp`,
`component_ids.cpp`)

In every round the nodes without a component propagate their offsets forwards; those that kept their
own offset are roots and propagate it backwards; a node whose two colours agree is given the colour
as its component id.  `runAlgorithmEdgeCompute` is not part of this repository: it is taken to run
rounds until the frontier is empty or the bound is reached, executing the relaxations of a round in
any order.  The node tables of a graph are numbered in the order of their ids.
-/

namespace Ladybug.Algo

open List

def INVALID_COMPONENT_ID : Nat := 2 ^ 64 - 1

structure NodeID where
  table : Nat
  offset : Nat
  deriving DecidableEq

def startOffset (sizes : List Nat) (table : Nat) : Nat :=
  ((sizes.take table).foldl (fun offset n => offset + UInt32.ofNat n) 0).toNat

abbrev ComponentIDs := NodeID → Nat

def ComponentIDs.hasValidComponentID (ids : ComponentIDs) (v : NodeID) : Bool :=
  ids v ≠ INVALID_COMPONENT_ID

def sequenceID (sizes : List Nat) : ComponentIDs := fun v => startOffset sizes v.table + v.offset

def fillTables (sizes : List Nat) (value : ComponentIDs) (fuel : Nat) (raw : ComponentIDs) :
    Option ComponentIDs :=
  sizes.zipIdx.foldlM (fun ids t =>
    forU32 t.1 (fun i ids =>
      some (Function.update ids ⟨t.2, i.toNat⟩ (value ⟨t.2, i.toNat⟩))) fuel ids) raw

def allocate {α : Type} (sizes : List Nat) (value : NodeID → α) (fuel : Nat) (raw : NodeID → α) :
    Option (NodeID → α) :=
  sizes.zipIdx.foldlM (fun values t =>
    forU32 t.1 (fun i values =>
      some (Function.update values ⟨t.2, i.toNat⟩ (value ⟨t.2, i.toNat⟩))) fuel values) raw

def getSequenceComponentIDs (sizes : List Nat) (fuel : Nat) (raw : ComponentIDs) :
    Option ComponentIDs := fillTables sizes (sequenceID sizes) fuel raw

def getUnvisitedComponentIDs (sizes : List Nat) (fuel : Nat) (raw : ComponentIDs) :
    Option ComponentIDs := fillTables sizes (fun _ => INVALID_COMPONENT_ID) fuel raw

/-- `ComponentIDsPair::update`: an atomic minimum, and whether it changed the neighbour. -/
def update (colors : ComponentIDs) (bound nbr : NodeID) : Bool × ComponentIDs :=
  if colors nbr > colors bound then (true, Function.update colors nbr (colors bound))
  else (false, colors)

/-- `PropagateIDEdgeCompute` on one neighbour; the second component collects the next frontier. -/
def edgeCompute (ids : ComponentIDs) (s : ComponentIDs × List NodeID) (e : NodeID × NodeID) :
    ComponentIDs × List NodeID :=
  if ids.hasValidComponentID e.2 then s
  else match update s.1 e.1 e.2 with
    | (true, colors) => (colors, e.2 :: s.2)
    | (false, _) => s

theorem edgeCompute_eq_relax (ids : ComponentIDs) :
    edgeCompute ids = relax fun v => !ids.hasValidComponentID v := by
  funext s e
  unfold edgeCompute relax update
  by_cases hvalid : ids.hasValidComponentID e.2 = true
  · simp [hvalid]
  · by_cases hlt : s.1 e.1 < s.1 e.2
    all_goals simp [hvalid, hlt]

def IsTableNode (sizes : List Nat) (mask : Option (NodeID → Bool)) (v : NodeID) : Prop :=
  (∃ n, sizes[v.table]? = some n ∧ v.offset < n) ∧ ∀ m ∈ mask, m v

/-- What the scans over several node tables return. -/
structure TableGraph where
  sizes : List Nat
  mask : Option (NodeID → Bool)
  scanFwd : NodeID → List NodeID
  scanBwd : NodeID → List NodeID
  fwd_node : ∀ u v, IsTableNode sizes mask u → v ∈ scanFwd u → IsTableNode sizes mask v
  bwd_node : ∀ u v, IsTableNode sizes mask u → v ∈ scanBwd u → IsTableNode sizes mask v
  transpose : ∀ u v, IsTableNode sizes mask u → IsTableNode sizes mask v →
    (v ∈ scanFwd u ↔ u ∈ scanBwd v)

namespace TableGraph

def Node (g : TableGraph) (v : NodeID) : Prop := IsTableNode g.sizes g.mask v

def Edge (g : TableGraph) (u v : NodeID) : Prop := g.Node u ∧ v ∈ g.scanFwd u

/-- The neighbours in `ExtendDirection::BOTH`. -/
def scanBoth (g : TableGraph) (u : NodeID) : List NodeID := g.scanFwd u ++ g.scanBwd u

-- `!skip(i)`
def valid (g : TableGraph) (v : NodeID) : Bool :=
  match g.mask with
  | none => true
  | some m => m v

/-- The nodes a masked vertex compute visits. -/
def nodes (g : TableGraph) : List NodeID :=
  (g.sizes.zipIdx.flatMap fun t => (List.range t.1).map fun i => ⟨t.2, i⟩).filter g.valid

theorem mem_nodes {g : TableGraph} {v : NodeID} : v ∈ g.nodes ↔ g.Node v := by
  have hvalid : (∀ m ∈ g.mask, m v = true) ↔ g.valid v = true := by
    unfold valid
    cases g.mask <;> simp
  unfold nodes Node IsTableNode
  rw [mem_filter, mem_flatMap, hvalid]
  apply and_congr_left
  intro _
  constructor
  · rintro ⟨⟨n, t⟩, ht, hv⟩
    rw [mem_zipIdx_iff_getElem?] at ht
    obtain ⟨i, hi, rfl⟩ := mem_map.mp hv
    exact ⟨n, ht, mem_range.mp hi⟩
  · rintro ⟨n, hn, hlt⟩
    refine ⟨(n, v.table), mem_zipIdx_iff_getElem?.mpr hn, ?_⟩
    exact mem_map.mpr ⟨v.offset, mem_range.mpr hlt, rfl⟩

end TableGraph

inductive ExtendDirection where
  | fwd
  | bwd
  deriving DecidableEq

/-- The order in which the relaxations are executed, for every round of every propagation. -/
structure Schedule where
  order : Nat → ExtendDirection → Nat → List (NodeID × NodeID) → List (NodeID × NodeID)
  perm : ∀ i d k es, (order i d k es).Perm es

section

variable (g : TableGraph) (sched : Schedule) (maxIterations : Nat)

def runAlgorithmEdgeCompute (i : Nat) (d : ExtendDirection) (ids : ComponentIDs)
    (frontier : List NodeID) : ComponentIDs :=
  let scan := match d with
    | .fwd => g.scanFwd
    | .bwd => g.scanBwd
  propagate (sched.order i d) g.nodes (edgeCompute ids) scan maxIterations 0 (sequenceID g.sizes)
    frontier

def fwdColors (i : Nat) (ids : ComponentIDs) : ComponentIDs :=
  runAlgorithmEdgeCompute g sched maxIterations i .fwd ids
    (g.nodes.filter fun v => !ids.hasValidComponentID v)

-- only the roots of the forward colours are active
def bwdColors (i : Nat) (ids : ComponentIDs) : ComponentIDs :=
  runAlgorithmEdgeCompute g sched maxIterations i .bwd ids
    (g.nodes.filter fun v => !ids.hasValidComponentID v &&
      fwdColors g sched maxIterations i ids v = sequenceID g.sizes v)

def updateComponentIDs (i : Nat) (ids : ComponentIDs) : ComponentIDs := fun v =>
  if v ∈ g.nodes ∧ !ids.hasValidComponentID v ∧
      fwdColors g sched maxIterations i ids v = bwdColors g sched maxIterations i ids v
  then fwdColors g sched maxIterations i ids v
  else ids v

def hasDifferentColor (i : Nat) (ids : ComponentIDs) : Bool :=
  g.nodes.any fun v => !ids.hasValidComponentID v &&
    fwdColors g sched maxIterations i ids v ≠ bwdColors g sched maxIterations i ids v

/-- The main loop counts in 32 bits; `round` numbers the rounds for the schedule. -/
structure SccState where
  i : UInt32
  round : Nat
  ids : ComponentIDs
  done : Bool

def sccStep (s : SccState) : SccState where
  i := s.i + 1
  round := s.round + 1
  ids := updateComponentIDs g sched maxIterations s.round s.ids
  done := !hasDifferentColor g sched maxIterations s.round s.ids

def scc (raw : ComponentIDs) (fuel : Nat) : Option ComponentIDs :=
  (getUnvisitedComponentIDs g.sizes fuel raw).bind fun ids =>
    (getSequenceComponentIDs g.sizes fuel raw).bind fun _ =>
      (getSequenceComponentIDs g.sizes fuel raw).bind fun _ =>
        (whileLoop (fun s : SccState => decide (s.i.toNat < maxIterations) && !s.done)
          (fun s => some (sccStep g sched maxIterations s)) fuel ⟨0, 0, ids, false⟩).map
            SccState.ids

end

end Ladybug.Algo
