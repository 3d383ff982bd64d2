import Ladybug.Base.CompressedRows

/-!
# Graphs in memory (`algo/src/common/in_mem_graph.cpp`)

The rels of a graph over one node table and one rel table, what its scans return, and the compressed
graph that is built from them node by node.
-/

namespace Ladybug.Algo

open List

/-- The rels of a graph.  A scan returns the neighbours of a node in any order, one for each rel. -/
structure StoredGraph where
  numNodes : Nat
  rels : List (Nat × Nat)
  rels_lt : ∀ r ∈ rels, r.1 < numNodes ∧ r.2 < numNodes
  scanFwd : Nat → List Nat
  scanBwd : Nat → List Nat
  fwd_perm : ∀ u, (scanFwd u).Perm ((rels.filter fun r => r.1 = u).map Prod.snd)
  bwd_perm : ∀ u, (scanBwd u).Perm ((rels.filter fun r => r.2 = u).map Prod.fst)

namespace StoredGraph

variable {g : StoredGraph} {u v : Nat}

theorem mem_scanFwd : v ∈ g.scanFwd u ↔ (u, v) ∈ g.rels := by
  rw [(g.fwd_perm u).mem_iff, mem_map]
  constructor
  · rintro ⟨⟨a, b⟩, hr, rfl⟩
    rw [mem_filter, decide_eq_true_iff] at hr
    obtain ⟨hr, rfl⟩ := hr
    exact hr
  · intro hr
    exact ⟨(u, v), mem_filter.mpr ⟨hr, decide_eq_true rfl⟩, rfl⟩

theorem mem_scanBwd : u ∈ g.scanBwd v ↔ (u, v) ∈ g.rels := by
  rw [(g.bwd_perm v).mem_iff, mem_map]
  constructor
  · rintro ⟨⟨a, b⟩, hr, rfl⟩
    rw [mem_filter, decide_eq_true_iff] at hr
    obtain ⟨hr, rfl⟩ := hr
    exact hr
  · intro hr
    exact ⟨(u, v), mem_filter.mpr ⟨hr, decide_eq_true rfl⟩, rfl⟩

end StoredGraph

/-- The neighbours from both scans; the backward scan leaves the self-loops to the forward one. -/
def gatherNbrs (g : StoredGraph) (nodeId : Nat) : List Nat :=
  g.scanFwd nodeId ++ (g.scanBwd nodeId).filter (· ≠ nodeId)

theorem mem_gatherNbrs {g : StoredGraph} {u v : Nat} :
    v ∈ gatherNbrs g u ↔ (u, v) ∈ g.rels ∨ (v, u) ∈ g.rels := by
  unfold gatherNbrs
  rw [mem_append, StoredGraph.mem_scanFwd, mem_filter, StoredGraph.mem_scanBwd, decide_eq_true_iff]
  by_cases hvu : v = u
  · subst hvu
    simp
  · simp [hvu]

abbrev Weight := UInt64

def defaultWeight : Weight := 1

structure Neighbor where
  neighbor : Nat
  weight : Weight
deriving DecidableEq

structure InMemGraph where
  csrOffsets : List Nat
  csrEdges : List Neighbor
  numNodes : Nat
  numEdges : Nat

namespace InMemGraph

def reinit (numNodes : Nat) : InMemGraph := ⟨[], [], numNodes, 0⟩

def initNextNode (g : InMemGraph) : InMemGraph :=
  { g with csrOffsets := g.csrOffsets ++ [g.csrEdges.length] }

/-- A neighbour of the last initialized node. -/
def insertNbr (g : InMemGraph) (nbrId : Nat) (weight : Weight) : InMemGraph :=
  { g with csrEdges := g.csrEdges ++ [⟨nbrId, weight⟩], numEdges := g.numEdges + 1 }

def nbrs (g : InMemGraph) (nodeId : Nat) : List Neighbor :=
  (CompressedRows.mk g.csrOffsets g.csrEdges).row nodeId

structure Holds (g : InMemGraph) (rows : List (List Neighbor)) : Prop where
  offsets : g.csrOffsets ++ [g.csrEdges.length] = rowStarts rows
  edges : g.csrEdges = rows.flatten

theorem reinit_holds (numNodes : Nat) : (reinit numNodes).Holds [] := ⟨rfl, rfl⟩

def insertNode (g : InMemGraph) (row : List Neighbor) : InMemGraph :=
  row.foldl (fun g nbr => g.insertNbr nbr.neighbor nbr.weight) g.initNextNode

theorem foldl_insertNbr (g : InMemGraph) (row : List Neighbor) :
    row.foldl (fun g nbr => g.insertNbr nbr.neighbor nbr.weight) g =
      { g with csrEdges := g.csrEdges ++ row, numEdges := g.numEdges + row.length } := by
  induction row generalizing g with
  | nil =>
    rw [append_nil]
    rfl
  | cons nbr row ih =>
    rw [foldl_cons, ih]
    unfold insertNbr
    rw [append_assoc, singleton_append, length_cons, Nat.add_assoc, Nat.add_comm 1]

theorem insertNode_eq (g : InMemGraph) (row : List Neighbor) :
    g.insertNode row = ⟨g.csrOffsets ++ [g.csrEdges.length], g.csrEdges ++ row, g.numNodes,
      g.numEdges + row.length⟩ := by
  unfold insertNode
  rw [foldl_insertNbr]
  rfl

theorem Holds.insertNode {g : InMemGraph} {rows : List (List Neighbor)} (h : g.Holds rows)
    (row : List Neighbor) : (g.insertNode row).Holds (rows ++ [row]) := by
  rw [insertNode_eq]
  constructor
  · rw [h.offsets, rowStarts_append, h.edges, flatten_append, flatten_singleton]
  · rw [h.edges, flatten_append, flatten_singleton]

theorem Holds.finalize {g : InMemGraph} {rows : List (List Neighbor)} (h : g.Holds rows) :
    g.initNextNode.csrOffsets = rowStarts rows ∧ g.initNextNode.csrEdges = rows.flatten :=
  ⟨h.offsets, h.edges⟩

end InMemGraph

end Ladybug.Algo
