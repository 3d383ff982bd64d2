import Ladybug.Algo.InMemGraph
import Mathlib.Data.List.Sort

/-!
# The CSR bridge (`algo/src/function/gds_csr_bridge.cpp`)

A projected graph as arrays of offsets and neighbours: taken from the CSR that the projection pinned
when it is still up to date, and from scans of the storage otherwise.  Both make parallel edges and
reciprocal pairs one.  The directed mode always scans, once for each direction.
-/

namespace Ladybug.Algo

open List

/-- `std::unique`: of equal neighbours the first one stays. -/
def unique : List Nat → List Nat
  | [] => []
  | [a] => [a]
  | a :: b :: l => if a = b then unique (b :: l) else a :: unique (b :: l)

-- `std::sort`, then `erase(std::unique(..), end)`
def sortUnique (nbrs : List Nat) : List Nat := unique (nbrs.insertionSort (· ≤ ·))

variable {v n u : Nat} {g : StoredGraph}

theorem mem_unique (l : List Nat) : v ∈ unique l ↔ v ∈ l := by
  fun_induction unique l with
  | case1 => rfl
  | case2 a => rfl
  | case3 a l ih =>
    rw [ih]
    simp
  | case4 a b l hne ih =>
    rw [mem_cons, ih, mem_cons (a := v) (b := a)]

theorem unique_sorted {l : List Nat} (h : l.Pairwise (· ≤ ·)) : (unique l).Pairwise (· < ·) := by
  fun_induction unique l with
  | case1 => exact List.Pairwise.nil
  | case2 a => exact pairwise_singleton _ a
  | case3 a l ih => exact ih (pairwise_cons.mp h).2
  | case4 a b l hne ih =>
    rw [pairwise_cons] at h
    constructor
    · intro v hv
      rw [mem_unique] at hv
      have hab : a ≤ b := h.1 b mem_cons_self
      have hbv : b ≤ v := by
        rcases mem_cons.mp hv with hv | hv
        · exact hv.ge
        · exact (pairwise_cons.mp h.2).1 v hv
      omega
    · exact ih h.2

theorem mem_sortUnique {nbrs : List Nat} : v ∈ sortUnique nbrs ↔ v ∈ nbrs := by
  unfold sortUnique
  rw [mem_unique]
  exact (perm_insertionSort _ nbrs).mem_iff

theorem sortUnique_sorted (nbrs : List Nat) : (sortUnique nbrs).Pairwise (· < ·) := by
  apply unique_sorted
  exact pairwise_insertionSort _ nbrs

def undirectedRow (g : StoredGraph) (nodeId : Nat) : List Neighbor :=
  (sortUnique (gatherNbrs g nodeId)).map fun nbr => ⟨nbr, defaultWeight⟩

def scanCSR (g : StoredGraph) (numNodes : Nat) (inMem : InMemGraph) : InMemGraph :=
  -- the last offset is the number of edges
  ((range numNodes).foldl (fun inMem nodeId => inMem.insertNode (undirectedRow g nodeId))
    inMem).initNextNode

def toU64 (value : Nat → Nat) (count : Nat) : List Nat := (range count).map value

abbrev BridgeCSR := CompressedRows Nat

def fallbackCSR (g : StoredGraph) (numNodes : Nat) : BridgeCSR :=
  let inMem := scanCSR g numNodes (InMemGraph.reinit numNodes)
  { indptr := toU64 (fun i => inMem.csrOffsets.getD i 0) (numNodes + 1)
    indices := toU64 (fun i => (inMem.csrEdges[i]?.map Neighbor.neighbor).getD 0)
      inMem.csrEdges.length }

structure ArrowQueryResult where
  hasCSRMetadata : Bool
  getCSRArrowArrays : BridgeCSR

inductive QueryResult where
  | arrow (result : ArrowQueryResult)
  | other

structure ParsedNativeGraphEntry where
  relCsrResults : List (Option QueryResult)
  relCsrEpochs : List Nat

inductive ParsedGraphEntry where
  | native (entry : ParsedNativeGraphEntry)
  | cypher

/-- What the bridge reads besides the graph: the projected graphs by name, the change epoch of the
rel table if storage has it, and the two operations of the arrow results. -/
structure BridgeContext where
  getEntry : String → Option ParsedGraphEntry
  getChangeEpoch : Option Nat
  importArray : List Nat → Option (List Nat)
  symmetrize : BridgeCSR → BridgeCSR

def fromMaterializedCsr (context : BridgeContext) (graphName : String) (numNodes : Nat) :
    Option BridgeCSR :=
  if graphName = "" then none
  else
    match context.getEntry graphName with
    | some (.native native) =>
      match native.relCsrResults.head? with
      | some (some (.arrow arrowResult)) =>
        if arrowResult.hasCSRMetadata = false then none
        else if native.relCsrEpochs.length ≠ native.relCsrResults.length then none
        -- any mutation since the projection bumps the epoch
        else if context.getChangeEpoch ≠ none ∧
            context.getChangeEpoch = native.relCsrEpochs.head? then
          let symmetric := context.symmetrize arrowResult.getCSRArrowArrays
          match context.importArray symmetric.indptr, context.importArray symmetric.indices with
          | some indptr, some indices =>
            -- the node table may have grown since
            if indptr.length ≠ numNodes + 1 then none else some ⟨indptr, indices⟩
          | _, _ => none
        else none
      | _ => none
    | _ => none

def buildUndirectedCSR (context : BridgeContext) (graphName : String) (g : StoredGraph)
    (numNodes : Nat) : BridgeCSR :=
  match fromMaterializedCsr context graphName numNodes with
  | some materialized => materialized
  | none => fallbackCSR g numNodes

def directedNbrs (g : StoredGraph) (fwd : Bool) (nodeId : Nat) : List Nat :=
  sortUnique (if fwd then g.scanFwd nodeId else g.scanBwd nodeId)

def appendRow (adj : List (List Nat)) (csr : BridgeCSR) (i : Nat) : BridgeCSR :=
  let flat := csr.indices ++ adj.getD i []
  { indptr := csr.indptr.set (i + 1) flat.length, indices := flat }

def scanDirectedCSR (g : StoredGraph) (numNodes : Nat) (fwd : Bool) : BridgeCSR :=
  let adj := (range numNodes).map (directedNbrs g fwd)
  let csr := (range numNodes).foldl (appendRow adj) ⟨replicate (numNodes + 1) 0, []⟩
  { indptr := toU64 (fun i => csr.indptr.getD i 0) (numNodes + 1)
    indices := toU64 (fun i => csr.indices.getD i 0) csr.indices.length }

structure DirectedBridgeCSR where
  outIndptr : List Nat
  outIndices : List Nat
  inIndptr : List Nat
  inIndices : List Nat

namespace DirectedBridgeCSR

def outCSR (d : DirectedBridgeCSR) : BridgeCSR := ⟨d.outIndptr, d.outIndices⟩

def inCSR (d : DirectedBridgeCSR) : BridgeCSR := ⟨d.inIndptr, d.inIndices⟩

end DirectedBridgeCSR

def buildDirectedCSR (g : StoredGraph) (numNodes : Nat) : DirectedBridgeCSR :=
  let outPair := scanDirectedCSR g numNodes true
  let inPair := scanDirectedCSR g numNodes false
  ⟨outPair.indptr, outPair.indices, inPair.indptr, inPair.indices⟩

theorem toU64_getD (l : List Nat) : toU64 (fun i => l.getD i 0) l.length = l := by
  unfold toU64
  apply ext_getElem
  · rw [length_map, length_range]
  · intro i _ hi
    rw [getElem_map, getElem_range, getD_eq_getElem?_getD, getElem?_eq_getElem hi]
    rfl

theorem toU64_neighbor (edges : List Neighbor) :
    toU64 (fun i => (edges[i]?.map Neighbor.neighbor).getD 0) edges.length =
      edges.map Neighbor.neighbor := by
  unfold toU64
  apply ext_getElem
  · rw [length_map, length_range, length_map]
  · intro i hi _
    rw [length_map, length_range] at hi
    rw [getElem_map, getElem_range, getElem_map, getElem?_eq_getElem hi]
    rfl

theorem foldl_insertNode_holds (rowOf : Nat → List Neighbor) (ids : List Nat) {m : InMemGraph}
    {rows : List (List Neighbor)} (h : m.Holds rows) :
    (ids.foldl (fun m i => m.insertNode (rowOf i)) m).Holds (rows ++ ids.map rowOf) := by
  induction ids generalizing m rows with
  | nil => simpa using h
  | cons i ids ih =>
    rw [foldl_cons, map_cons, append_cons]
    exact ih (h.insertNode (rowOf i))

theorem fallbackCSR_eq (g : StoredGraph) (numNodes : Nat) : fallbackCSR g numNodes =
      compress ((range numNodes).map fun u => sortUnique (gatherNbrs g u)) := by
  have hholds : (scanCSR g numNodes (InMemGraph.reinit numNodes)).csrOffsets =
        rowStarts ((range numNodes).map (undirectedRow g)) ∧
      (scanCSR g numNodes (InMemGraph.reinit numNodes)).csrEdges =
        ((range numNodes).map (undirectedRow g)).flatten :=
    (foldl_insertNode_holds (undirectedRow g) (range numNodes)
      (InMemGraph.reinit_holds numNodes)).finalize
  have hneighbors : ((range numNodes).map (undirectedRow g)).map (map Neighbor.neighbor) =
      (range numNodes).map fun u => sortUnique (gatherNbrs g u) := by
    rw [map_map]
    apply map_congr_left
    intro u _
    show (undirectedRow g u).map Neighbor.neighbor = _
    unfold undirectedRow
    rw [map_map]
    exact map_id _
  have hlength : (rowStarts ((range numNodes).map (undirectedRow g))).length = numNodes + 1 := by
    rw [rowStarts_length, length_map, length_range]
  unfold fallbackCSR compress
  rw [CompressedRows.mk.injEq]
  constructor
  · rw [hholds.1, ← hlength, toU64_getD, ← hneighbors, rowStarts_map]
  · rw [toU64_neighbor, hholds.2, map_flatten, hneighbors]

variable {context : BridgeContext}

theorem foldl_appendRow (adj : List (List Nat)) (hn : n ≤ adj.length) :
    (range n).foldl (appendRow adj) ⟨replicate (adj.length + 1) 0, []⟩ =
      ⟨rowStarts (adj.take n) ++ replicate (adj.length - n) 0, (adj.take n).flatten⟩ := by
  induction n with
  | zero =>
    rw [CompressedRows.mk.injEq]
    exact ⟨replicate_succ, rfl⟩
  | succ n ih =>
    have hlt : n < adj.length := hn
    have htake : adj.take (n + 1) = adj.take n ++ [adj[n]] := by
      rw [take_add_one, getElem?_eq_getElem hlt]
      rfl
    have hstarts : (rowStarts (adj.take n)).length = n + 1 := by
      rw [rowStarts_length, length_take, Nat.min_eq_left hlt.le]
    have hflat : (adj.take n).flatten ++ adj.getD n [] = (adj.take n ++ [adj[n]]).flatten := by
      rw [getD_eq_getElem?_getD, getElem?_eq_getElem hlt, flatten_append, flatten_singleton]
      rfl
    rw [range_succ, foldl_append, ih hlt.le, htake]
    rw [CompressedRows.mk.injEq]
    refine ⟨?_, hflat⟩
    show (rowStarts (adj.take n) ++ replicate (adj.length - n) 0).set (n + 1) _ = _
    rw [hflat, rowStarts_append, set_append_right _ _ (by omega), hstarts, Nat.sub_self,
      show adj.length - n = (adj.length - (n + 1)) + 1 by omega, replicate_succ,
      set_cons_zero, append_cons]

theorem scanDirectedCSR_eq (g : StoredGraph) (numNodes : Nat) (fwd : Bool) :
    scanDirectedCSR g numNodes fwd = compress ((range numNodes).map (directedNbrs g fwd)) := by
  have hadj : ((range numNodes).map (directedNbrs g fwd)).length = numNodes := by
    rw [length_map, length_range]
  have hfold := foldl_appendRow ((range numNodes).map (directedNbrs g fwd)) hadj.ge
  rw [hadj, Nat.sub_self, replicate_zero, append_nil, take_of_length_le hadj.le] at hfold
  have hlength : (rowStarts ((range numNodes).map (directedNbrs g fwd))).length = numNodes + 1 := by
    rw [rowStarts_length, hadj]
  unfold scanDirectedCSR compress
  dsimp only
  rw [hfold, CompressedRows.mk.injEq]
  constructor
  · rw [← hlength, toU64_getD]
  · exact toU64_getD _

/-- The ends of the rels that leave `u`, in order and without repetition. -/
def relRow (g : StoredGraph) (u : Nat) : List Nat :=
  (range g.numNodes).filter fun v => g.rels.any fun rel => rel = (u, v)

theorem any_rel : (g.rels.any fun rel => rel = (u, v)) = true ↔ (u, v) ∈ g.rels := by
  simp [any_eq_true]

theorem mem_relRow : v ∈ relRow g u ↔ (u, v) ∈ g.rels := by
  unfold relRow
  rw [mem_filter, mem_range, any_rel]
  exact and_iff_right_of_imp fun h => (g.rels_lt _ h).2

theorem relRow_sorted (g : StoredGraph) (u : Nat) : (relRow g u).Pairwise (· < ·) :=
  pairwise_lt_range.sublist filter_sublist

theorem fallbackCSR_plusTransposed (g : StoredGraph) :
    fallbackCSR g g.numNodes = compress (plusTransposed g.numNodes (relRow g)) := by
  rw [fallbackCSR_eq]
  congr 1
  apply map_congr_left
  intro u hu
  apply eq_filter_range (sortUnique_sorted _)
  intro v
  rw [mem_sortUnique, mem_gatherNbrs, decide_eq_true_iff, mem_relRow, mem_relRow]
  refine (and_iff_right_of_imp ?_).symm
  rintro (hr | hr)
  · exact (g.rels_lt _ hr).2
  · exact (g.rels_lt _ hr).1

theorem outCSR_eq (g : StoredGraph) : (buildDirectedCSR g g.numNodes).outCSR =
    compress ((range g.numNodes).map (relRow g)) := by
  show scanDirectedCSR g g.numNodes true = _
  rw [scanDirectedCSR_eq]
  congr 1
  apply map_congr_left
  intro u _
  apply eq_filter_range (sortUnique_sorted _)
  intro v
  rw [mem_sortUnique, if_pos rfl, StoredGraph.mem_scanFwd, any_rel]
  exact (and_iff_right_of_imp fun h => (g.rels_lt _ h).2).symm

theorem inCSR_eq (g : StoredGraph) : (buildDirectedCSR g g.numNodes).inCSR =
    compress (transposed g.numNodes (relRow g)) := by
  show scanDirectedCSR g g.numNodes false = _
  rw [scanDirectedCSR_eq]
  congr 1
  apply map_congr_left
  intro v _
  apply eq_filter_range (sortUnique_sorted _)
  intro u
  rw [mem_sortUnique, if_neg (by decide), StoredGraph.mem_scanBwd, decide_eq_true_iff, mem_relRow]
  exact (and_iff_right_of_imp fun h => (g.rels_lt _ h).1).symm

/-- A CSR that is pinned under the present change epoch is the forward CSR of the rels, over the
nodes there were at the projection. -/
def PinsRels (context : BridgeContext) (graphName : String) (g : StoredGraph) : Prop :=
  ∀ entry arrowResult, context.getEntry graphName = some (.native entry) →
    entry.relCsrResults.head? = some (some (.arrow arrowResult)) →
    arrowResult.hasCSRMetadata = true → context.getChangeEpoch = entry.relCsrEpochs.head? →
    ∃ rows : List (List Nat), arrowResult.getCSRArrowArrays = compress rows ∧
      (∀ row ∈ rows, ∀ v ∈ row, v < rows.length) ∧
      ∀ u v, v ∈ rows.getD u [] ↔ (u, v) ∈ g.rels

/-- `symmetrize()` is A + A.T, sorted in each row and with reciprocal pairs coalesced. -/
def SymmetrizesRows (context : BridgeContext) : Prop :=
  ∀ rows : List (List Nat), (∀ row ∈ rows, ∀ v ∈ row, v < rows.length) →
    context.symmetrize (compress rows) =
      compress (plusTransposed rows.length fun u => rows.getD u [])

/-- Importing shares the buffers; row ids are not negative. -/
def ImportsAsIs (context : BridgeContext) : Prop :=
  ∀ array imported, context.importArray array = some imported → imported = array

theorem plusTransposed_congr {row row' : Nat → List Nat} (h : ∀ u < n, ∀ v, v ∈ row u ↔ v ∈ row' u) :
    plusTransposed n row = plusTransposed n row' := by
  apply map_congr_left
  intro u hu
  rw [mem_range] at hu
  apply filter_congr
  intro v hv
  rw [mem_range] at hv
  rw [decide_eq_decide, h u hu v, h v hv u]

theorem plusTransposed_length (n : Nat) (row : Nat → List Nat) :
    (plusTransposed n row).length = n := by
  unfold plusTransposed
  rw [length_map, length_range]

theorem materialized_eq {graphName : String} (hpins : PinsRels context graphName g)
    (hsym : SymmetrizesRows context) (himport : ImportsAsIs context) {csr : BridgeCSR}
    (h : fromMaterializedCsr context graphName g.numNodes = some csr) :
    csr = compress (plusTransposed g.numNodes (relRow g)) := by
  unfold fromMaterializedCsr at h
  split at h
  · cases h
  split at h
  · rename_i native hentry
    split at h
    · rename_i arrowResult hresult
      split at h
      · cases h
      rename_i hmeta
      split at h
      · cases h
      obtain ⟨hepoch, h⟩ := Option.ite_none_right_eq_some.mp h
      obtain ⟨rows, hrows, hin, hrels⟩ :=
        hpins native arrowResult hentry hresult (by simpa using hmeta) hepoch.2
      rw [hrows, hsym rows hin] at h
      dsimp only at h
      split at h
      · rename_i indptr indices hindptr hindices
        obtain ⟨hlength, h⟩ := Option.ite_none_left_eq_some.mp h
        have hptr := himport _ _ hindptr
        have hidx := himport _ _ hindices
        -- the dimension check: the projection had as many nodes
        have hnodes : rows.length = g.numNodes := by
          rw [hptr] at hlength
          have hlen : (compress (plusTransposed rows.length fun u => rows.getD u [])).indptr.length
            = (plusTransposed rows.length fun u => rows.getD u []).length + 1 := rowStarts_length
          rw [plusTransposed_length] at hlen
          omega
        rw [hptr, hidx] at h
        rw [← Option.some.inj h, hnodes]
        rw [plusTransposed_congr fun u _ v => (hrels u v).trans mem_relRow.symm]
      · cases h
    · cases h
  · cases h

theorem buildUndirectedCSR_eq {graphName : String} (hpins : PinsRels context graphName g)
    (hsym : SymmetrizesRows context) (himport : ImportsAsIs context) :
    buildUndirectedCSR context graphName g g.numNodes =
      compress (plusTransposed g.numNodes (relRow g)) := by
  unfold buildUndirectedCSR
  split
  · rename_i csr hcsr
    exact materialized_eq hpins hsym himport hcsr
  · exact fallbackCSR_plusTransposed g

/-- Both modes give the simple graph of the rels, and one direction is the transpose of the
other. -/
theorem bridge_exact (g : StoredGraph) (context : BridgeContext) (graphName : String)
    (hpins : PinsRels context graphName g) (hsym : SymmetrizesRows context)
    (himport : ImportsAsIs context) :
    let csr := buildUndirectedCSR context graphName g g.numNodes
    let directed := buildDirectedCSR g g.numNodes
    (csr.Wf g.numNodes ∧ ∀ u < g.numNodes, (csr.row u).Pairwise (· < ·) ∧ (csr.row u).Nodup ∧
        (∀ v, v ∈ csr.row u ↔ (u, v) ∈ g.rels ∨ (v, u) ∈ g.rels) ∧
        ∀ v < g.numNodes, v ∈ csr.row u ↔ u ∈ csr.row v) ∧
    (directed.outCSR.Wf g.numNodes ∧ ∀ u < g.numNodes, (directed.outCSR.row u).Pairwise (· < ·) ∧
        ∀ v, v ∈ directed.outCSR.row u ↔ (u, v) ∈ g.rels) ∧
    directed.inCSR.Wf g.numNodes ∧
    directed.inCSR = compress (transposed g.numNodes directed.outCSR.row) := by
  intro csr directed
  have hcsr : csr = compress (plusTransposed g.numNodes (relRow g)) :=
    buildUndirectedCSR_eq hpins hsym himport
  have hout : directed.outCSR = compress ((range g.numNodes).map (relRow g)) := outCSR_eq g
  have hin : directed.inCSR = compress (transposed g.numNodes (relRow g)) := inCSR_eq g
  have hrow : ∀ u < g.numNodes, csr.row u =
      (range g.numNodes).filter fun v => v ∈ relRow g u ∨ u ∈ relRow g v := by
    intro u hu
    rw [hcsr]
    exact compress_map_row _ hu
  have hmem : ∀ u < g.numNodes, ∀ v, v ∈ csr.row u ↔ (u, v) ∈ g.rels ∨ (v, u) ∈ g.rels := by
    intro u hu v
    rw [hrow u hu, mem_filter, mem_range, decide_eq_true_iff, mem_relRow, mem_relRow]
    refine and_iff_right_of_imp ?_
    rintro (hr | hr)
    · exact (g.rels_lt _ hr).2
    · exact (g.rels_lt _ hr).1
  have hsorted : ∀ u < g.numNodes, (csr.row u).Pairwise (· < ·) := by
    intro u hu
    rw [hrow u hu]
    exact pairwise_lt_range.sublist filter_sublist
  have houtRow : ∀ u < g.numNodes, directed.outCSR.row u = relRow g u := by
    intro u hu
    rw [hout]
    exact compress_map_row _ hu
  refine ⟨⟨?_, ?_⟩, ⟨?_, ?_⟩, ?_, ?_⟩
  · rw [hcsr]
    simpa only [plusTransposed_length] using compress_wf (plusTransposed g.numNodes (relRow g))
  · intro u hu
    refine ⟨hsorted u hu, (hsorted u hu).imp ne_of_lt, hmem u hu, ?_⟩
    intro v hv
    rw [hmem u hu, hmem v hv]
    exact Or.comm
  · rw [hout]
    simpa using compress_wf ((range g.numNodes).map (relRow g))
  · intro u hu
    rw [houtRow u hu]
    exact ⟨relRow_sorted g u, fun v => mem_relRow⟩
  · rw [hin]
    simpa [transposed] using compress_wf (transposed g.numNodes (relRow g))
  · rw [hin]
    congr 1
    apply map_congr_left
    intro v _
    apply filter_congr
    intro u hu
    rw [mem_range] at hu
    rw [houtRow u hu]

/-- Two parallel rels, one back and a self-loop. -/
def fewRels : StoredGraph where
  numNodes := 3
  rels := [(0, 1), (1, 0), (0, 1), (2, 2)]
  rels_lt := by decide
  scanFwd u := ([(0, 1), (1, 0), (0, 1), (2, 2)].filter fun r : Nat × Nat => r.1 = u).map Prod.snd
  scanBwd u := ([(2, 2), (0, 1), (1, 0), (0, 1)].filter fun r : Nat × Nat => r.2 = u).map Prod.fst
  fwd_perm _ := Perm.refl _
  bwd_perm u := by
    apply Perm.map
    apply Perm.filter
    decide

def fewPinned : BridgeContext where
  getEntry _ := some (.native ⟨[some (.arrow ⟨true, compress [[1, 1], [0], [2]]⟩)], [7]⟩)
  getChangeEpoch := some 7
  importArray array := some array
  symmetrize csr := compress (plusTransposed (csr.indptr.length - 1) csr.row)

theorem fewPinned_pins : PinsRels fewPinned "g" fewRels := by
  intro entry arrowResult hentry hresult _ _
  cases hentry
  cases hresult
  refine ⟨[[1, 1], [0], [2]], rfl, by decide, ?_⟩
  intro u v
  match u with
  | 0 => simp [fewRels]
  | 1 => simp [fewRels]
  | 2 => simp [fewRels]
  | u + 3 => simp [fewRels]

theorem fewPinned_symmetrizes : SymmetrizesRows fewPinned := by
  intro rows _
  have hlength : (compress rows).indptr.length - 1 = rows.length := by
    show (rowStarts rows).length - 1 = _
    rw [rowStarts_length, Nat.add_sub_cancel]
  show compress (plusTransposed ((compress rows).indptr.length - 1) (compress rows).row) = _
  rw [hlength]
  congr 1
  apply plusTransposed_congr
  intro u hu v
  rw [compress_row hu, getD_eq_getElem?_getD, getElem?_eq_getElem hu]
  rfl

theorem bridge_exact_few : fromMaterializedCsr fewPinned "g" 3 = some ⟨[0, 1, 2, 3], [1, 0, 2]⟩ ∧
    ((buildUndirectedCSR fewPinned "g" fewRels 3).Wf 3 ∧
      0 ∈ (buildUndirectedCSR fewPinned "g" fewRels 3).row 1) ∧
    (buildDirectedCSR fewRels 3).inCSR =
      compress (transposed 3 (buildDirectedCSR fewRels 3).outCSR.row) := by
  have h := bridge_exact fewRels fewPinned "g" fewPinned_pins fewPinned_symmetrizes
    fun _ _ himported => (Option.some.inj himported).symm
  refine ⟨by decide, ⟨h.1.1, ?_⟩, h.2.2.2⟩
  exact ((h.1.2 1 (by decide)).2.2.1 0).mpr (.inl (by decide))

end Ladybug.Algo
