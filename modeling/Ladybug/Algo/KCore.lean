import Ladybug.Algo.ColouringScc
import Ladybug.Base.Cores

/-!
# Core values (`algo/src/function/k_core_decomposition.cpp`, `degrees.h`)

At every core value the nodes without a core value and with a degree of at most this value are
given it, and the degrees of their neighbours in both directions go down by one for each edge,
until there are no more such nodes.  Nodes that are already removed keep losing degree, and their
64-bit counters may wrap.  `getNumNodes` is taken to be the number of nodes that are not skipped.
-/

namespace Ladybug.Algo

open List

abbrev Degrees := NodeID → UInt64

abbrev CoreValues := NodeID → UInt64

-- UINT64_MAX
def INVALID_DEGREE : UInt64 := 0xFFFFFFFFFFFFFFFF

def CoreValues.isValid (cores : CoreValues) (v : NodeID) : Bool := cores v ≠ INVALID_DEGREE

/-- The forward and the backward scans return the same relationships. -/
structure TableMultigraph extends TableGraph where
  multiplicity : ∀ u v, IsTableNode sizes mask u → IsTableNode sizes mask v →
    (scanFwd u).count v = (scanBwd v).count u

section

variable (g : TableGraph)

/-- One iteration of `DegreeEdgeCompute` from all nodes: the scans of either direction add their
sizes to the degree of the bound node. -/
def computeDegree (degrees : Degrees) : Degrees := fun u =>
  if u ∈ g.nodes then
    degrees u + UInt64.ofNat (g.scanFwd u).length + UInt64.ofNat (g.scanBwd u).length
  else degrees u

def decreaseDegreeByOne (degrees : Degrees) (v : NodeID) : Degrees :=
  Function.update degrees v (degrees v - 1)

/-- The order of the decrements, for every round. -/
structure RemovalSchedule where
  order : Nat → List (NodeID × NodeID) → List (NodeID × NodeID)
  perm : ∀ k es, (order k es).Perm es

/-- Both counters of `tableFunc` have 32 bits; `round` numbers the rounds for the schedule. -/
structure KCoreState where
  degrees : Degrees
  coreValues : CoreValues
  coreValue : UInt32
  numNodesComputed : UInt32
  round : Nat

/-- The nodes that `DegreeLessThanCoreVertexCompute` puts on the next frontier. -/
def degreeLessThanCore (s : KCoreState) : List NodeID :=
  g.nodes.filter fun v => !s.coreValues.isValid v && s.degrees v ≤ s.coreValue.toUInt64

variable (sched : RemovalSchedule)

/-- One round of the inner loop that finds some node. -/
def removeVertices (s : KCoreState) : KCoreState :=
  let found := degreeLessThanCore g s
  { s with
    coreValues := fun v => if v ∈ found then s.coreValue.toUInt64 else s.coreValues v
    numNodesComputed := s.numNodesComputed + UInt32.ofNat found.length
    degrees := (sched.order s.round (roundEdges g.scanBoth found)).foldl
      (fun degrees e => decreaseDegreeByOne degrees e.2) s.degrees
    round := s.round + 1 }

-- a round that finds no node changes nothing and leaves the loop
def innerLoop (fuel : Nat) (s : KCoreState) : Option KCoreState :=
  whileLoop (fun s => !(degreeLessThanCore g s).isEmpty) (fun s => some (removeVertices g sched s))
    fuel s

def kcore (rawDegrees : Degrees) (rawCores : CoreValues) (fuel : Nat) : Option CoreValues :=
  (allocate g.sizes (fun _ => (0 : UInt64)) fuel rawDegrees).bind fun degrees =>
    (allocate g.sizes (fun _ => INVALID_DEGREE) fuel rawCores).bind fun cores =>
      (whileLoop (fun s => decide (g.nodes.length ≠ s.numNodesComputed.toNat))
        (fun s => (innerLoop g sched fuel s).map fun s => { s with coreValue := s.coreValue + 1 })
        fuel ⟨computeDegree g degrees, cores, 0, 0, 0⟩).map KCoreState.coreValues

end

section

/-- The edges between `v` and the set, a loop counted once in each direction. -/
def degreeIn (g : TableGraph) (S : Finset NodeID) (v : NodeID) : Nat :=
  (g.scanBoth v).countP fun u => u ∈ S

theorem degreeIn_mono (g : TableGraph) (S T : Finset NodeID) (v : NodeID) (h : S ⊆ T) :
    degreeIn g S v ≤ degreeIn g T v := by
  apply countP_mono_left
  intro u _ hu
  rw [decide_eq_true_iff] at hu ⊢
  exact h hu

theorem TableMultigraph.count_scanBoth (g : TableMultigraph) {u v : NodeID}
    (hu : g.Node u) (hv : g.Node v) :
    (g.scanBoth u).count v = (g.scanBoth v).count u := by
  unfold TableGraph.scanBoth
  rw [count_append, count_append, g.multiplicity u v hu hv, g.multiplicity v u hv hu]
  omega

variable {α : Type} [DecidableEq α]

theorem countP_mem_cons {u : α} {S : List α} (hu : u ∉ S) (l : List α) :
    (l.countP fun x => x ∈ u :: S) = l.count u + l.countP fun x => x ∈ S := by
  induction l with
  | nil => rfl
  | cons x l ih =>
    rw [countP_cons, count_cons, countP_cons, ih]
    by_cases hxu : x = u
    · simp [hxu, hu]
      omega
    · simp [hxu]
      omega

theorem countP_mem_eq_sum {S : List α} (hS : S.Nodup) (l : List α) :
    (l.countP fun x => x ∈ S) = (S.map fun u => l.count u).sum := by
  induction S with
  | nil =>
    rw [map_nil, sum_nil, countP_eq_zero]
    intro x _ hx
    exact absurd (of_decide_eq_true hx) not_mem_nil
  | cons u S ih =>
    obtain ⟨hu, hS⟩ := nodup_cons.mp hS
    rw [map_cons, sum_cons, ← ih hS]
    exact countP_mem_cons hu l

theorem countP_roundEdges (scan : α → List α) (active : List α) (v : α) :
    ((roundEdges scan active).countP fun e => e.2 = v) =
      (active.map fun u => (scan u).count v).sum := by
  unfold roundEdges
  rw [countP_flatMap]
  congr 1
  apply map_congr_left
  intro u _
  show countP _ (List.map _ (scan u)) = _
  rw [countP_map]
  rfl

end

end Ladybug.Algo
