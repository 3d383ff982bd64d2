import Mathlib.Algebra.Order.BigOperators.Group.List
import Mathlib.Algebra.Order.Ring.Nat
import Ladybug.Base.Writes
import Ladybug.Vector.HnswRelBatchInsert

/-!
# The rels written are the edges of the graph

The two passes over a node group agree on which neighbours are valid.  All rels of a group are
written at distinct positions; their ids are those that the group has reserved as long as the
counter of the loop, an `int`, does not overflow.
-/

namespace Ladybug.Vector

open List

/-! ## The offset map -/

namespace Selection

variable (sel : Selection) {g g' o o' : Nat}

theorem graphToNode_masked {n : Nat} {isNull : Nat → Bool}
    (hg : g < (masked n isNull).offsetMap.numNodesInGraph) :
    ∃ h : g < ((range n).filter isNull).length,
      (masked n isNull).offsetMap.graphToNodeOffset g = ((range n).filter isNull)[g] := by
  have hlt : g < ((range n).filter isNull).length := by
    rw [← countP_eq_length_filter]
    exact hg
  refine ⟨hlt, ?_⟩
  show ((range n).filter isNull).getD g 0 = _
  rw [getD_eq_getElem?_getD, getElem?_eq_getElem hlt, Option.getD_some]

theorem filter_range_sorted (n : Nat) (isNull : Nat → Bool) :
    ((range n).filter isNull).Pairwise (· < ·) := pairwise_lt_range.filter _

theorem selected_graphToNode (hg : g < sel.offsetMap.numNodesInGraph) :
    sel.Selected (sel.offsetMap.graphToNodeOffset g) := by
  cases sel with
  | all n => exact hg
  | masked n isNull =>
    obtain ⟨hlt, heq⟩ := graphToNode_masked hg
    have hmem := mem_filter.mp (getElem_mem hlt)
    rw [heq]
    exact ⟨mem_range.mp hmem.1, hmem.2⟩

theorem Selected.lt {sel : Selection} (h : sel.Selected o) : o < sel.offsetMap.numNodesInTable := by
  cases sel with
  | all n => exact h
  | masked n isNull => exact h.1

theorem lt_nodeToGraph_iff (hg : g < sel.offsetMap.numNodesInGraph) (o : Nat) :
    g < sel.offsetMap.nodeToGraphOffset o ↔ sel.offsetMap.graphToNodeOffset g < o := by
  cases sel with
  | all n => exact Iff.rfl
  | masked n isNull =>
    obtain ⟨hlt, heq⟩ := graphToNode_masked hg
    rw [heq]
    exact lt_lowerBound_iff (filter_range_sorted n isNull) hlt

theorem nodeToGraph_graphToNode (hg : g < sel.offsetMap.numNodesInGraph) :
    sel.offsetMap.nodeToGraphOffset (sel.offsetMap.graphToNodeOffset g) = g := by
  cases sel with
  | all n => rfl
  | masked n isNull =>
    obtain ⟨hlt, heq⟩ := graphToNode_masked hg
    rw [heq]
    exact lowerBound_getElem (filter_range_sorted n isNull) hlt

theorem graphToNode_nodeToGraph (ho : sel.Selected o) :
    sel.offsetMap.nodeToGraphOffset o < sel.offsetMap.numNodesInGraph ∧
      sel.offsetMap.graphToNodeOffset (sel.offsetMap.nodeToGraphOffset o) = o := by
  cases sel with
  | all n => exact ⟨ho, rfl⟩
  | masked n isNull =>
    have hmem : o ∈ (range n).filter isNull :=
      mem_filter.mpr ⟨mem_range.mpr ho.1, ho.2⟩
    obtain ⟨hlt, heq⟩ := getElem_lowerBound (filter_range_sorted n isNull) hmem
    have hg : lowerBound ((range n).filter isNull) o <
        (masked n isNull).offsetMap.numNodesInGraph := by
      show _ < (range n).countP isNull
      rw [countP_eq_length_filter]
      exact hlt
    obtain ⟨_, hnode⟩ := graphToNode_masked hg
    exact ⟨hg, hnode.trans heq⟩

theorem graphToNode_lt (hg' : g' < sel.offsetMap.numNodesInGraph) (hlt : g < g') :
    sel.offsetMap.graphToNodeOffset g < sel.offsetMap.graphToNodeOffset g' := by
  have hinv := sel.nodeToGraph_graphToNode hg'
  apply (sel.lt_nodeToGraph_iff (Nat.lt_trans hlt hg') _).mp
  rw [hinv]
  exact hlt

theorem nodeToGraph_le (ho : o ≤ sel.offsetMap.numNodesInTable) :
    sel.offsetMap.nodeToGraphOffset o ≤ sel.offsetMap.numNodesInGraph := by
  cases sel with
  | all n => exact ho
  | masked n isNull =>
    show lowerBound _ o ≤ (range n).countP isNull
    rw [countP_eq_length_filter]
    exact lowerBound_le _ o

theorem nodeToGraph_lt (ho : sel.Selected o) (hlt : o < o') :
    sel.offsetMap.nodeToGraphOffset o < sel.offsetMap.nodeToGraphOffset o' := by
  have hinv := sel.graphToNode_nodeToGraph ho
  apply (sel.lt_nodeToGraph_iff hinv.1 o').mpr
  rw [hinv.2]
  exact hlt

end Selection

/-! ## Valid neighbours -/

section

variable (graph : InMemHNSWGraph) (v : Nat)

theorem lt_viewInvalidOffset (n : Nat) : n < viewInvalidOffset n := by
  have hsize : n + 1 < 2 ^ (n + 1).size := Nat.lt_size_self (n + 1)
  have hbytes : (n + 1).size ≤ 8 * minNumBytesToStore (n + 1) := by
    have hceil := Nat.le_pow_clog (b := 2) (by decide) (((n + 1).size + 7) / 8)
    unfold minNumBytesToStore
    omega
  have hpow : 2 ^ (n + 1).size ≤ 256 ^ minNumBytesToStore (n + 1) := by
    rw [show 256 = 2 ^ 8 by decide, ← Nat.pow_mul]
    exact Nat.pow_le_pow_right (by decide) hbytes
  unfold viewInvalidOffset
  omega

theorem entry_eq_invalid_iff (i : Nat) :
    graph.entry i = INVALID_OFFSET ↔ ¬ graph.dstNodes i < graph.numNodes := by
  have hview := lt_viewInvalidOffset graph.numNodes
  have hnodes := graph.numNodes_lt
  have hvalid := graph.dstNodes_valid i
  unfold InMemHNSWGraph.entry INVALID_OFFSET
  split <;> omega

theorem filter_getNeighbors :
    (graph.getNeighbors v).filter (· ≠ INVALID_OFFSET) = graph.edges v := by
  unfold InMemHNSWGraph.getNeighbors InMemHNSWGraph.edges
  rw [filter_map, filter_map]
  -- the same entries pass both filters, and a node is read as it is stored
  have hsame : ((fun w => decide (w ≠ INVALID_OFFSET)) ∘ fun i =>
        graph.entry (v * graph.maxDegree + i)) =
      (fun w ↦ decide (w < graph.numNodes)) ∘ fun i ↦ graph.dstNodes (v * graph.maxDegree + i) := by
    ext i
    simp only [Function.comp_apply, ne_eq, entry_eq_invalid_iff, not_not]
  rw [hsame]
  apply map_congr_left
  intro i hi
  have hlt : graph.dstNodes (v * graph.maxDegree + i) < graph.numNodes :=
    of_decide_eq_true (mem_filter.mp hi).2
  have hview := lt_viewInvalidOffset graph.numNodes
  unfold InMemHNSWGraph.entry
  rw [if_neg (by omega)]

theorem getNumValidNeighbors_eq : getNumValidNeighbors graph v = (graph.edges v).length := by
  rw [← filter_getNeighbors]
  unfold getNumValidNeighbors
  have hcount : ∀ (l : List Nat) (k : Nat),
      l.foldl (fun numValid w => if w = INVALID_OFFSET then numValid else numValid + 1) k =
        k + (l.filter (· ≠ INVALID_OFFSET)).length := by
    intro l
    induction l with
    | nil => exact fun k => rfl
    | cons w l ih =>
      intro k
      rw [foldl_cons, ih]
      by_cases hw : w = INVALID_OFFSET
      · rw [if_pos hw, filter_cons_of_neg (by simp [hw])]
      · rw [if_neg hw, filter_cons_of_pos (by simp [hw]), length_cons]
        omega
  rw [hcount, Nat.zero_add]

end

/-! ## The nodes of a group -/

section

variable (nodeGroupSize : Nat) (sel : Selection) (graph : InMemHNSWGraph) (k : Nat)

theorem mem_nodesInGraph_iff (hsize : 0 < nodeGroupSize) (v : Nat) :
    v ∈ (initExecutionState nodeGroupSize graph sel.offsetMap k).nodesInGraph ↔
      v < sel.offsetMap.numNodesInGraph ∧
        sel.offsetMap.graphToNodeOffset v / nodeGroupSize = k := by
  let first := sel.offsetMap.nodeToGraphOffset (k * nodeGroupSize)
  let last := sel.offsetMap.nodeToGraphOffset
    (min sel.offsetMap.numNodesInTable (k * nodeGroupSize + nodeGroupSize))
  have hlast : last ≤ sel.offsetMap.numNodesInGraph := sel.nodeToGraph_le (Nat.min_le_left _ _)
  have hrange : v ∈ (initExecutionState nodeGroupSize graph sel.offsetMap k).nodesInGraph ↔
      first ≤ v ∧ v < last := by
    show v ∈ range' first (last - first) ↔ _
    rw [mem_range'_1]
    omega
  rw [hrange]
  by_cases hv : v < sel.offsetMap.numNodesInGraph
  · have hfirst : v < first ↔ sel.offsetMap.graphToNodeOffset v < k * nodeGroupSize :=
      sel.lt_nodeToGraph_iff hv _
    have hend : v < last ↔ sel.offsetMap.graphToNodeOffset v <
        min sel.offsetMap.numNodesInTable (k * nodeGroupSize + nodeGroupSize) :=
      sel.lt_nodeToGraph_iff hv _
    have htable := (sel.selected_graphToNode hv).lt
    rw [Nat.div_eq_iff hsize]
    omega
  · omega

theorem getBoundNodeOffsetInGroup_lt (hsize : 0 < nodeGroupSize) {v w : Nat}
    (hv : v ∈ (initExecutionState nodeGroupSize graph sel.offsetMap k).nodesInGraph)
    (hw : w ∈ (initExecutionState nodeGroupSize graph sel.offsetMap k).nodesInGraph)
    (hlt : v < w) :
    (initExecutionState nodeGroupSize graph sel.offsetMap k).getBoundNodeOffsetInGroup v <
      (initExecutionState nodeGroupSize graph sel.offsetMap k).getBoundNodeOffsetInGroup w := by
  have hv' := (mem_nodesInGraph_iff nodeGroupSize sel graph k hsize v).mp hv
  have hw' := (mem_nodesInGraph_iff nodeGroupSize sel graph k hsize w).mp hw
  have hnode := sel.graphToNode_lt hw'.1 hlt
  have hstart := (Nat.div_eq_iff hsize).mp hv'.2
  show sel.offsetMap.graphToNodeOffset v - k * nodeGroupSize <
    sel.offsetMap.graphToNodeOffset w - k * nodeGroupSize
  omega

end

/-! ## The lengths of the header -/

/-- The nodes of the group keep their order in the table. -/
def ExecutionState.Increasing (state : ExecutionState) : Prop :=
  ∀ v ∈ state.nodesInGraph, ∀ w ∈ state.nodesInGraph, v < w →
    state.getBoundNodeOffsetInGroup v < state.getBoundNodeOffsetInGroup w

section

variable (state : ExecutionState)

theorem populateCSRLengths_eq :
    populateCSRLengths state = writeAll (fun _ => 0) (state.nodesInGraph.map fun v =>
      (state.getBoundNodeOffsetInGroup v, (state.graph.edges v).length)) := by
  unfold populateCSRLengths writeAll
  rw [foldl_map]
  simp only [getNumValidNeighbors_eq]

theorem populateCSRLengths_of_notMem {n : Nat}
    (hn : n ∉ state.nodesInGraph.map state.getBoundNodeOffsetInGroup) :
    populateCSRLengths state n = 0 := by
  rw [populateCSRLengths_eq]
  apply writeAll_of_notMem
  rw [map_map]
  exact hn

variable {state} (hinc : state.Increasing)

include hinc

theorem boundNodeOffsets_sorted :
    (state.nodesInGraph.map state.getBoundNodeOffsetInGroup).Pairwise (· < ·) := by
  rw [pairwise_map]
  have hsorted : state.nodesInGraph.Pairwise (· < ·) := pairwise_lt_range' _
  apply hsorted.imp_of_mem
  intro v w hv hw hlt
  exact hinc v hv w hw hlt

theorem populateCSRLengths_of_mem {v : Nat} (hv : v ∈ state.nodesInGraph) :
    populateCSRLengths state (state.getBoundNodeOffsetInGroup v) = (state.graph.edges v).length := by
  rw [populateCSRLengths_eq]
  have hnodup : ((state.nodesInGraph.map fun v =>
      (state.getBoundNodeOffsetInGroup v, (state.graph.edges v).length)).map Prod.fst).Nodup := by
    rw [map_map]
    exact (boundNodeOffsets_sorted hinc).imp Nat.ne_of_lt
  exact writeAll_of_mem hnodup (mem_map_of_mem hv) _

end

/-! ## The rels of a group -/

section

variable {state : ExecutionState} (csrHeader : CSRHeader (populateCSRLengths state))

def nodeRels (v : Nat) : List (Nat × Nat) :=
  (state.graph.edges v).mapIdx fun i w =>
    (csrHeader.getStartCSROffset (state.getBoundNodeOffsetInGroup v) + i,
      state.selectionMap.graphToNodeOffset w)

def groupRels : List (Nat × Nat) := state.nodesInGraph.flatMap (nodeRels csrHeader)

def ExecutionState.numEdges (state : ExecutionState) : Nat :=
  (state.nodesInGraph.map fun v => (state.graph.edges v).length).sum

theorem groupRels_length : (groupRels csrHeader).length = state.numEdges := by
  unfold groupRels ExecutionState.numEdges
  rw [length_flatMap]
  simp only [nodeRels, length_mapIdx]

theorem nodeRels_positions (v : Nat) : (nodeRels csrHeader v).map Prod.fst =
    (range (state.graph.edges v).length).map fun i =>
      csrHeader.getStartCSROffset (state.getBoundNodeOffsetInGroup v) + i := by
  unfold nodeRels
  apply ext_getElem
  · simp
  · intro i hi hi'
    simp

theorem nodeRels_neighbours (v : Nat) : (nodeRels csrHeader v).map Prod.snd =
    (state.graph.edges v).map state.selectionMap.graphToNodeOffset := by
  unfold nodeRels
  apply ext_getElem
  · simp
  · intro i hi hi'
    simp

theorem CSRHeader.getStartCSROffset_le {lengths : Nat → Nat} (header : CSRHeader lengths)
    {n m : Nat} (h : n < m) : header.getStartCSROffset n + lengths n ≤ header.getStartCSROffset m := by
  induction m with
  | zero => exact absurd h (Nat.not_lt_zero n)
  | succ m ih =>
    have hsep := header.separated m
    rcases Nat.lt_or_ge n m with hlt | hge
    · omega
    · have heq : n = m := by omega
      rw [heq]
      exact hsep

theorem groupRels_sorted (hinc : state.Increasing) :
    ((groupRels csrHeader).map Prod.fst).Pairwise (· < ·) := by
  unfold groupRels
  rw [map_flatMap, pairwise_flatMap]
  constructor
  · intro v _
    rw [nodeRels_positions, pairwise_map]
    apply pairwise_lt_range.imp
    omega
  · have hsorted : state.nodesInGraph.Pairwise (· < ·) := pairwise_lt_range' _
    apply hsorted.imp_of_mem
    intro v w hv hw hlt p hp q hq
    rw [nodeRels_positions] at hp hq
    obtain ⟨i, hi, rfl⟩ := mem_map.mp hp
    obtain ⟨j, hj, rfl⟩ := mem_map.mp hq
    have hrows := csrHeader.getStartCSROffset_le (hinc v hv w hw hlt)
    rw [populateCSRLengths_of_mem hinc hv] at hrows
    have hlen := mem_range.mp hi
    omega

/-! ### The writing loops -/

variable (startRelID : Nat)

theorem writeNeighbours_eq (csr : Nat) (chunks : RelChunks) (neighbours : List Nat) :
    writeNeighbours state startRelID csr chunks neighbours =
      ((neighbours.filter (· ≠ INVALID_OFFSET)).mapIdx fun i w =>
        (csr + i, state.selectionMap.graphToNodeOffset w)).foldl
          (fun chunks rel => chunks.writeRel startRelID rel.1 rel.2) chunks := by
  unfold writeNeighbours
  -- `j` neighbours of the node have been written before
  have hloop : ∀ (l : List Nat) (chunks : RelChunks) (j : Nat),
      (l.foldl (fun (t : RelChunks × Nat) w =>
        if w = INVALID_OFFSET then t
        else (t.1.writeRel startRelID (csr + t.2) (state.selectionMap.graphToNodeOffset w), t.2 + 1))
        (chunks, j)).1 =
      ((l.filter (· ≠ INVALID_OFFSET)).mapIdx fun i w =>
        (csr + (j + i), state.selectionMap.graphToNodeOffset w)).foldl
          (fun chunks rel => chunks.writeRel startRelID rel.1 rel.2) chunks := by
    intro l
    induction l with
    | nil => exact fun chunks j => rfl
    | cons w l ih =>
      intro chunks j
      rw [foldl_cons]
      by_cases hw : w = INVALID_OFFSET
      · rw [if_pos hw, ih, filter_cons_of_neg (by simp [hw])]
      · rw [if_neg hw, ih, filter_cons_of_pos (by simp [hw]), mapIdx_cons, foldl_cons]
        simp only [Nat.add_zero, Nat.add_assoc, Nat.add_comm 1]
  rw [hloop]
  simp only [Nat.zero_add]

theorem writeToTable_eq : writeToTable state csrHeader startRelID =
    (groupRels csrHeader).foldl (fun chunks rel => chunks.writeRel startRelID rel.1 rel.2)
      RelChunks.empty := by
  unfold writeToTable groupRels
  rw [foldl_flatMap]
  simp only [writeNeighbours_eq, filter_getNeighbors]
  rfl

theorem foldl_writeRel (rels : List (Nat × Nat)) (chunks : RelChunks) (k : Nat)
    (hk : chunks.numRelsWritten = toInt32 k) :
    (rels.foldl (fun chunks rel => chunks.writeRel startRelID rel.1 rel.2) chunks).neighbourChunk =
        writeAll chunks.neighbourChunk (rels.map fun rel => (rel.1, some rel.2)) ∧
      (rels.foldl (fun chunks rel => chunks.writeRel startRelID rel.1 rel.2) chunks).relIDChunk =
        writeAll chunks.relIDChunk (rels.mapIdx fun i rel =>
          (rel.1, some (addInt64 startRelID (toInt32 ((k + i : Nat) : Int))))) := by
  induction rels generalizing chunks k with
  | nil => exact ⟨rfl, rfl⟩
  | cons rel rels ih =>
    have hnext : (chunks.writeRel startRelID rel.1 rel.2).numRelsWritten =
        toInt32 ((k + 1 : Nat) : Int) := by
      show toInt32 (chunks.numRelsWritten + 1) = _
      rw [hk, toInt32_add_one, Int.natCast_add, Int.natCast_one]
    obtain ⟨hneighbour, hid⟩ := ih (chunks.writeRel startRelID rel.1 rel.2) (k + 1) hnext
    rw [foldl_cons, map_cons, mapIdx_cons, writeAll_cons, writeAll_cons, hneighbour, hid]
    simp only [RelChunks.writeRel, hk, Nat.add_zero, Nat.add_assoc, Nat.add_comm 1, and_self]

theorem neighbourChunk_writeToTable : (writeToTable state csrHeader startRelID).neighbourChunk =
    writeAll (fun _ => none) ((groupRels csrHeader).map fun rel => (rel.1, some rel.2)) := by
  rw [writeToTable_eq]
  exact (foldl_writeRel startRelID (groupRels csrHeader) RelChunks.empty 0 rfl).1

theorem relIDChunk_writeToTable : (writeToTable state csrHeader startRelID).relIDChunk =
    writeAll (fun _ => none) ((groupRels csrHeader).mapIdx fun i rel =>
      (rel.1, some (addInt64 startRelID (toInt32 i)))) := by
  rw [writeToTable_eq]
  have hloop := (foldl_writeRel startRelID (groupRels csrHeader) RelChunks.empty 0 rfl).2
  simp only [Nat.zero_add] at hloop
  exact hloop

theorem neighbour_positions : ((groupRels csrHeader).map fun rel ↦ (rel.1, some rel.2)).map Prod.fst =
    (groupRels csrHeader).map Prod.fst := by
  rw [map_map]
  rfl

theorem relID_positions : ((groupRels csrHeader).mapIdx fun i rel =>
      (rel.1, some (addInt64 startRelID (toInt32 i)))).map Prod.fst =
    (groupRels csrHeader).map Prod.fst := by
  apply ext_getElem
  · simp
  · intro i hi hi'
    simp

/-! ### Reading the rows -/

variable (hinc : state.Increasing)

include hinc

theorem groupRels_nodup : ((groupRels csrHeader).map Prod.fst).Nodup :=
  (groupRels_sorted csrHeader hinc).imp Nat.ne_of_lt

theorem readRels_eq (chunks : RelChunks) {v : Nat} (hv : v ∈ state.nodesInGraph) :
    readRels csrHeader chunks (state.getBoundNodeOffsetInGroup v) =
      ((nodeRels csrHeader v).map Prod.fst).map fun p =>
        (chunks.neighbourChunk p, chunks.relIDChunk p) := by
  unfold readRels
  rw [populateCSRLengths_of_mem hinc hv, nodeRels_positions, map_map]
  rfl

theorem readRels_neighbours {v : Nat} (hv : v ∈ state.nodesInGraph) :
    (readRels csrHeader (writeToTable state csrHeader startRelID)
      (state.getBoundNodeOffsetInGroup v)).map Prod.fst =
        (state.graph.edges v).map fun w => some (state.selectionMap.graphToNodeOffset w) := by
  rw [readRels_eq csrHeader hinc _ hv, map_map, map_map]
  have hsome : (state.graph.edges v).map (fun w => some (state.selectionMap.graphToNodeOffset w)) =
      (nodeRels csrHeader v).map fun rel => some rel.2 := by
    have hsnd := congrArg (map some) (nodeRels_neighbours csrHeader v)
    rw [map_map, map_map] at hsnd
    exact hsnd.symm
  rw [hsome]
  apply map_congr_left
  intro rel hrel
  have hmem : rel ∈ groupRels csrHeader := mem_flatMap.mpr ⟨v, hv, hrel⟩
  rw [neighbourChunk_writeToTable]
  apply writeAll_of_mem (e := (rel.1, some rel.2))
  · rw [neighbour_positions]
    exact groupRels_nodup csrHeader hinc
  · exact mem_map_of_mem hmem

theorem relIDs_eq : relIDs state csrHeader startRelID =
    (range state.numEdges).map fun i : Nat ↦ some (addInt64 startRelID (toInt32 (i : Int))) := by
  let chunk := (writeToTable state csrHeader startRelID).relIDChunk
  have hread : relIDs state csrHeader startRelID = ((groupRels csrHeader).map Prod.fst).map chunk := by
    unfold relIDs groupRels
    rw [map_flatMap, map_flatMap]
    apply flatMap_congr
    intro v hv
    rw [readRels_eq csrHeader hinc _ hv, map_map, map_map, map_map]
    rfl
  have hnodup : (((groupRels csrHeader).mapIdx fun i rel =>
      (rel.1, some (addInt64 startRelID (toInt32 i)))).map Prod.fst).Nodup := by
    rw [relID_positions]
    exact groupRels_nodup csrHeader hinc
  have hids := map_writeAll hnodup (fun _ => none)
  rw [relID_positions, ← relIDChunk_writeToTable] at hids
  rw [hread, hids, ← groupRels_length csrHeader]
  apply ext_getElem
  · simp
  · intro i hi hi'
    simp

theorem writeToTable_written {p : Nat}
    (hp : (writeToTable state csrHeader startRelID).neighbourChunk p ≠ none ∨
      (writeToTable state csrHeader startRelID).relIDChunk p ≠ none) :
    ∃ n i, i < populateCSRLengths state n ∧ p = csrHeader.getStartCSROffset n + i := by
  have hmem : p ∈ (groupRels csrHeader).map Prod.fst := by
    by_contra hnot
    rw [neighbourChunk_writeToTable, relIDChunk_writeToTable,
      writeAll_of_notMem (by rw [neighbour_positions]; exact hnot),
      writeAll_of_notMem (by rw [relID_positions]; exact hnot)] at hp
    exact hp.elim (fun h => h rfl) fun h => h rfl
  unfold groupRels at hmem
  rw [map_flatMap] at hmem
  obtain ⟨v, hv, hrel⟩ := mem_flatMap.mp hmem
  rw [nodeRels_positions] at hrel
  obtain ⟨i, hi, heq⟩ := mem_map.mp hrel
  refine ⟨state.getBoundNodeOffsetInGroup v, i, ?_, heq.symm⟩
  rw [populateCSRLengths_of_mem hinc hv]
  exact mem_range.mp hi

end

theorem getNumRelsInGraph_eq (state : ExecutionState) :
    getNumRelsInGraph state = state.numEdges % 2 ^ 32 := by
  unfold getNumRelsInGraph ExecutionState.numEdges
  simp only [getNumValidNeighbors_eq]
  have hloop : ∀ (l : List Nat) (k : Nat),
      l.foldl (fun numRels v => (numRels + (state.graph.edges v).length) % 2 ^ 32) (k % 2 ^ 32) =
        (k + (l.map fun v => (state.graph.edges v).length).sum) % 2 ^ 32 := by
    intro l
    induction l with
    | nil => exact fun k => rfl
    | cons v l ih =>
      intro k
      rw [foldl_cons, Nat.mod_add_mod, ih, map_cons, sum_cons, Nat.add_assoc]
  have hzero := hloop state.nodesInGraph 0
  rw [Nat.zero_add] at hzero
  exact hzero

/-! ## A layer -/

namespace Layer

variable (layer : Layer)

theorem map_inverse : layer.MapInverse where
  graphToNode_nodeToGraph := by
    intro o ho
    rw [layer.numNodes_eq]
    exact layer.selection.graphToNode_nodeToGraph ho
  nodeToGraph_graphToNode := by
    intro g hg
    rw [layer.numNodes_eq] at hg
    exact ⟨layer.selection.selected_graphToNode hg, layer.selection.nodeToGraph_graphToNode hg⟩
  nodeToGraph_lt := fun _ _ ho _ hlt => layer.selection.nodeToGraph_lt ho hlt
  graphToNode_lt := by
    intro g g' hlt hg'
    rw [layer.numNodes_eq] at hg'
    exact layer.selection.graphToNode_lt hg' hlt

theorem mem_group_iff (k v : Nat) : v ∈ (layer.group k).nodesInGraph ↔
    v < layer.graph.numNodes ∧ layer.map.graphToNodeOffset v / layer.nodeGroupSize = k := by
  rw [layer.numNodes_eq]
  exact mem_nodesInGraph_iff _ _ _ k layer.nodeGroupSize_pos v

theorem group_increasing (k : Nat) : (layer.group k).Increasing := fun _ hv _ hw hlt =>
  getBoundNodeOffsetInGroup_lt _ _ _ k layer.nodeGroupSize_pos hv hw hlt

theorem group_written (k : Nat) (csrHeader : CSRHeader (populateCSRLengths (layer.group k)))
    (startRelID : Nat) : layer.GroupWritten k csrHeader startRelID where
  lengths := fun _ hv => populateCSRLengths_of_mem (layer.group_increasing k) hv
  lengths_other := fun _ hn => populateCSRLengths_of_notMem _ hn
  rows := fun _ hv => readRels_neighbours csrHeader startRelID (layer.group_increasing k) hv
  written := fun _ hp => writeToTable_written csrHeader startRelID (layer.group_increasing k) hp

theorem numEdges_group (k : Nat) : (layer.group k).numEdges = layer.numEdges k := by
  have hsorted : (layer.group k).nodesInGraph.Pairwise (· < ·) := pairwise_lt_range' _
  have hnodes : (layer.group k).nodesInGraph.Perm ((range layer.graph.numNodes).filter fun v =>
      layer.map.graphToNodeOffset v / layer.nodeGroupSize = k) := by
    rw [perm_ext_iff_of_nodup (hsorted.imp Nat.ne_of_lt) (nodup_range.filter _)]
    intro v
    rw [mem_group_iff, mem_filter, mem_range, decide_eq_true_iff]
  exact (hnodes.map _).sum_eq

theorem reserved_eq (k : Nat) : getNumRelsInGraph (layer.group k) = layer.numEdges k % 2 ^ 32 := by
  rw [getNumRelsInGraph_eq, numEdges_group]

theorem sum_numEdges_lt {ks : List Nat} (hnodup : ks.Nodup) :
    (ks.map layer.numEdges).sum < 2 ^ 64 := by
  let nodes := ks.flatMap fun k => (range layer.graph.numNodes).filter fun v =>
    layer.map.graphToNodeOffset v / layer.nodeGroupSize = k
  have hmem : ∀ v ∈ nodes, v < layer.graph.numNodes := by
    intro v hv
    obtain ⟨k, _, hk⟩ := mem_flatMap.mp hv
    exact mem_range.mp (mem_filter.mp hk).1
  have hnodes : nodes.Nodup := by
    rw [nodup_flatMap]
    refine ⟨fun k _ => nodup_range.filter _, hnodup.imp ?_⟩
    -- a node is in the group of its offset only
    intro k k' hne v hv hv'
    have hk := of_decide_eq_true (mem_filter.mp hv).2
    have hk' := of_decide_eq_true (mem_filter.mp hv').2
    exact hne (hk.symm.trans hk')
  have hlength : nodes.length ≤ layer.graph.numNodes := by
    have hle := Nodup.length_le_of_subset hnodes fun v hv => mem_range.mpr (hmem v hv)
    rw [length_range] at hle
    exact hle
  have hdegree : ∀ d ∈ nodes.map (fun v => (layer.graph.edges v).length),
      d ≤ layer.graph.maxDegree := by
    intro d hd
    obtain ⟨v, hv, rfl⟩ := mem_map.mp hd
    have hfilter : (layer.graph.edges v).length ≤ layer.graph.getCSRLength v := by
      have hle := length_filter_le (fun w => decide (w < layer.graph.numNodes))
        ((range (layer.graph.getCSRLength v)).map fun i =>
          layer.graph.dstNodes (v * layer.graph.maxDegree + i))
      rw [length_map, length_range] at hle
      exact hle
    exact hfilter.trans (layer.graph.csrLengths_le v (hmem v hv))
  have hsum : (ks.map layer.numEdges).sum =
      (nodes.map fun v => (layer.graph.edges v).length).sum := by
    rw [map_flatMap, flatMap_def, sum_flatten, map_map]
    rfl
  have hentries := layer.graph.numEntries_lt
  calc (ks.map layer.numEdges).sum = (nodes.map fun v => (layer.graph.edges v).length).sum := hsum
    _ ≤ (nodes.map fun v => (layer.graph.edges v).length).length • layer.graph.maxDegree :=
        sum_le_card_nsmul _ _ hdegree
    _ ≤ layer.graph.numNodes * layer.graph.maxDegree := by
        rw [length_map, Nat.nsmul_eq_mul]
        exact Nat.mul_le_mul_right _ hlength
    _ < 2 ^ 64 := hentries

theorem relIDs_of_le {k : Nat} (hk : layer.numEdges k ≤ 2 ^ 31)
    (csrHeader : CSRHeader (populateCSRLengths (layer.group k))) (startRelID : Nat) :
    relIDs (layer.group k) csrHeader startRelID =
      (range (layer.numEdges k)).map fun i => some ((startRelID + i) % 2 ^ 64) := by
  rw [relIDs_eq csrHeader startRelID (layer.group_increasing k), numEdges_group]
  apply map_congr_left
  intro i hi
  have hlt : i < 2 ^ 31 := Nat.lt_of_lt_of_le (mem_range.mp hi) hk
  rw [toInt32_of_lt hlt, addInt64_natCast]

theorem insertGroups_eq (hle : ∀ k, layer.numEdges k ≤ 2 ^ 31)
    (headers : ∀ k, CSRHeader (populateCSRLengths (layer.group k))) (nextRelOffset : Nat)
    (ks : List Nat) : insertGroups layer.group headers nextRelOffset ks =
      (range (ks.map layer.numEdges).sum).map fun i =>
        some ((nextRelOffset + i) % 2 ^ 64) := by
  induction ks generalizing nextRelOffset with
  | nil => rfl
  | cons k ks ih =>
    have hk := hle k
    have hreserved : getNumRelsInGraph (layer.group k) = layer.numEdges k := by
      rw [reserved_eq]
      omega
    unfold insertGroups
    rw [layer.relIDs_of_le hk, ih, hreserved, map_cons, sum_cons, range_add, map_append, map_map]
    congr 1
    apply map_congr_left
    intro i _
    show some (((nextRelOffset + layer.numEdges k) % 2 ^ 64 + i) % 2 ^ 64) =
      some ((nextRelOffset + (layer.numEdges k + i)) % 2 ^ 64)
    rw [Nat.mod_add_mod, Nat.add_assoc]

theorem nodup_offsets {n : Nat} (hn : n < 2 ^ 64) (first : Nat) :
    ((range n).map fun i => some ((first + i) % 2 ^ 64)).Nodup := by
  rw [nodup_map_iff_inj_on nodup_range]
  intro i hi j hj heq
  have hi' := mem_range.mp hi
  have hj' := mem_range.mp hj
  have hmod := Option.some.inj heq
  omega

theorem not_written {k : Nat} (hk : 2 ^ 31 < layer.numEdges k) : ¬ layer.Written := by
  intro h
  have hreserved := h.reserved k
  rw [reserved_eq] at hreserved
  -- the counter becomes negative for the id at index `2 ^ 31`
  let header : ∀ k, CSRHeader (populateCSRLengths (layer.group k)) := fun k =>
    { getStartCSROffset := fun n => ((range n).map (populateCSRLengths (layer.group k))).sum
      separated := by
        intro n
        rw [range_succ, map_append, sum_append]
        simp }
  have hids := (h.ids header 0 [k] (nodup_singleton k)).1
  have hmem : some (addInt64 0 (toInt32 ((2 ^ 31 : Nat) : Int))) ∈
      insertGroups layer.group header 0 [k] := by
    unfold insertGroups
    rw [relIDs_eq (header k) 0 (layer.group_increasing k), numEdges_group]
    apply mem_append_left
    exact mem_map.mpr ⟨2 ^ 31, mem_range.mpr hk, rfl⟩
  obtain ⟨i, hi, heq⟩ := mem_map.mp (hids.mem_iff.mp hmem)
  have hi' := mem_range.mp hi
  rw [map_singleton, sum_singleton] at hi'
  have hid := Option.some.inj heq
  rw [toInt32_two_pow] at hid
  unfold addInt64 at hid
  omega

/-- Exactly the layers none of whose node groups has more than `2 ^ 31` edges are written as they
are. -/
theorem written_iff : layer.Written ↔ ∀ k, layer.numEdges k ≤ 2 ^ 31 := by
  constructor
  · intro h k
    by_contra hgt
    exact layer.not_written (Nat.lt_of_not_le hgt) h
  · intro hle
    exact
      { map_inverse := layer.map_inverse
        partition := layer.mem_group_iff
        groups := layer.group_written
        reserved := by
          intro k
          have hk := hle k
          rw [reserved_eq]
          omega
        ids := by
          intro headers nextRelOffset ks hnodup
          rw [layer.insertGroups_eq hle]
          exact ⟨Perm.refl _, nodup_offsets (layer.sum_numEdges_lt hnodup) _⟩ }

end Layer

/-! ## A dense graph -/

/-- An upper layer with `mu = 16385` and `pu = 1`: all `2 ^ 17` nodes of a node group are selected,
and each has an edge to the 16385 nodes after it. -/
def denseGraph : InMemHNSWGraph where
  numNodes := 2 ^ 17
  maxDegree := 20482
  csrLengths := fun _ => 16385
  dstNodes := fun i => (i / 20482 + 1 + i % 20482) % 2 ^ 17
  numNodes_lt := by decide
  numEntries_lt := by decide
  csrLengths_le := fun _ _ => by decide
  dstNodes_valid := fun i => Or.inl (Nat.mod_lt _ (by decide))

theorem numNodes_of_all_null (n : Nat) :
    (Selection.masked n fun _ => true).offsetMap.numNodesInGraph = n := by
  show (range n).countP (fun _ => true) = n
  rw [countP_true, length_range]

def denseLayer : Layer where
  nodeGroupSize := 2 ^ 17
  nodeGroupSize_pos := by decide
  selection := .masked (2 ^ 17) fun _ => true
  graph := denseGraph
  numNodes_eq := (numNodes_of_all_null (2 ^ 17)).symm

theorem denseGraph_edges (v : Nat) : (denseGraph.edges v).length = 16385 := by
  unfold InMemHNSWGraph.edges
  rw [filter_eq_self.mpr, length_map, length_range]
  · rfl
  · intro w hw
    obtain ⟨i, _, rfl⟩ := mem_map.mp hw
    exact decide_eq_true (Nat.mod_lt _ (by decide))

theorem denseLayer_not_written : ¬ denseLayer.Written := by
  apply denseLayer.not_written (k := 0)
  -- all nodes are in the first group
  have hall : (range denseLayer.graph.numNodes).filter (fun v =>
      decide (denseLayer.map.graphToNodeOffset v / denseLayer.nodeGroupSize = 0)) =
        range (2 ^ 17) := by
    apply filter_eq_self.mpr
    intro v hv
    have hselected := (denseLayer.map_inverse.nodeToGraph_graphToNode v (mem_range.mp hv)).1.lt
    exact decide_eq_true (Nat.div_eq_of_lt hselected)
  have hedges : denseLayer.numEdges 0 = 2 ^ 17 * 16385 := by
    unfold Layer.numEdges
    rw [hall]
    show ((range (2 ^ 17)).map fun v => (denseGraph.edges v).length).sum = _
    simp only [denseGraph_edges]
    rw [map_const', sum_replicate_nat, length_range]
  rw [hedges]
  decide

end Ladybug.Vector
