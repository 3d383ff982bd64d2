import Ladybug.Lance.RelRanges
import Mathlib.Data.List.Nodup

/-!
# The edges that a scan of a relationship table returns

A node has the edges that the table says: of a CSR, forward, the rows between two entries of the `indptr`,
and otherwise the rows that name the node.  A scan returns them at the first position of the node.
-/

namespace Ladybug.Lance

open List

section

variable {V : Type} (q : RelScan V)

def RelScan.isEdge (n : Nat) (entry : (String → V) × Nat) : Bool :=
  match q.table.layout, q.direction with
  | .csr, .fwd => IsSource q.table.indptr n entry.2
  | .csr, .bwd => q.table.offset (entry.1 (q.table.column 0)) = n
  | .flat, .fwd => q.table.offset (entry.1 (q.table.column 0)) = n
  | .flat, .bwd => q.table.offset (entry.1 (q.table.column 1)) = n

/-- The node at the other end of an edge. -/
def RelScan.neighbour (entry : (String → V) × Nat) : Nat :=
  match q.table.layout, q.direction with
  | .csr, .fwd => q.table.offset (entry.1 (q.table.column 0))
  | .csr, .bwd => sourceOf q.table.indptr entry.2
  | .flat, .fwd => q.table.offset (entry.1 (q.table.column 1))
  | .flat, .bwd => q.table.offset (entry.1 (q.table.column 0))

def LanceRelTable.isStored (table : LanceRelTable V) (id : Nat) (prop : RelProperty) : Bool :=
  prop.columnID = id ∧ ¬ (prop.isInternalID = true ∨ prop.name ∉ table.dataset.schema)

/-- The value of a property, which is NULL where the dataset does not have it. -/
def LanceRelTable.propertyCell (table : LanceRelTable V) (row : String → V) (id : Nat) : Cell V :=
  match table.properties.find? (table.isStored id) with
  | none => .null
  | some prop => .value (row prop.name)

def RelScan.edgeCell (entry : (String → V) × Nat) (outCol : Nat) : Cell V :=
  if outCol = 0 then
    .internalID (q.neighbour entry) (match q.direction with
        | .fwd => q.table.toNodeTableID
        | .bwd => q.table.fromNodeTableID)
  else
    match q.columnIDs[outCol]? with
    | some .relID => .internalID entry.2 q.table.tableID
    | some (.property id) => q.table.propertyCell entry.1 id
    | _ => .untouched

def RelScan.edge (entry : (String → V) × Nat) : List (Cell V) :=
  (List.range q.numOutputVectors).map (q.edgeCell entry)

def RelScan.edges (n : Nat) : List (List (Cell V)) :=
  (q.table.dataset.rows.zipIdx.filter (q.isEdge n)).map q.edge

theorem isStored_iff (table : LanceRelTable V) (id : Nat) (prop : RelProperty) :
    table.isStored id prop = true ↔
      prop.columnID = id ∧ ¬ (prop.isInternalID = true ∨ prop.name ∉ table.dataset.schema) :=
  decide_eq_true_iff

theorem edges_eq_nil (n : Nat) : q.edges n = [] ↔
    ∀ entry ∈ q.table.dataset.rows.zipIdx, q.isEdge n entry = false := by
  unfold RelScan.edges
  rw [map_eq_nil_iff, filter_eq_nil_iff]
  simp only [Bool.not_eq_true]

theorem outputCell_property (table : LanceRelTable V) (row : String → V) (i id : Nat) :
    table.outputCell row i (.property id) = table.propertyCell row id := by
  have hfind : ((table.outputToCached (.property id)).bind fun cachedCol ↦ table.projection[cachedCol]?) =
      table.projection.find? fun projected => projected.2 = .property id := by
    show (findIdx? _ _).bind _ = _
    rw [findIdx?_map, find?_eq_bind_findIdx?_getElem?]
    rfl
  -- the columns of the endpoints are not those of a property
  have hends : ∀ projected : List (String × ColumnID), (∀ column ∈ projected, column.2 = .invalid) →
      projected.find? (fun projected => projected.2 = .property id) = none := by
    intro projected hinvalid
    apply List.find?_eq_none.mpr
    intro column hcolumn
    rw [hinvalid column hcolumn]
    simp
  have hprojection : table.projection.find? (fun projected => projected.2 = .property id) =
      (table.properties.find? (table.isStored id)).map fun prop => (prop.name, .property id) := by
    unfold LanceRelTable.projection
    rw [find?_append, hends, Option.none_or, find?_filterMap]
    · have hpred : (fun prop : RelProperty ↦ Option.any (fun projected ↦ decide (projected.2 = .property id))
          (if prop.isInternalID = true ∨ prop.name ∉ table.dataset.schema then none
            else some (prop.name, ColumnID.property prop.columnID))) = table.isStored id := by
        funext prop
        by_cases hskip : prop.isInternalID = true ∨ prop.name ∉ table.dataset.schema
        · rw [if_pos hskip]
          exact (decide_eq_false fun h => h.2 hskip).symm
        · rw [if_neg hskip]
          apply decide_eq_decide.mpr
          exact ⟨fun h => ⟨ColumnID.property.inj h, hskip⟩, fun h => congrArg _ h.1⟩
      rw [hpred]
      cases hfound : table.properties.find? (table.isStored id) with
      | none => rfl
      | some prop =>
        have hprop := (isStored_iff _ _ _).mp (find?_some hfound)
        show (if prop.isInternalID = true ∨ prop.name ∉ table.dataset.schema then none
          else some (prop.name, ColumnID.property prop.columnID)) = _
        rw [if_neg hprop.2, hprop.1]
        rfl
    · cases table.layout <;> simp
  unfold LanceRelTable.outputCell LanceRelTable.propertyCell
  simp only [hfind, hprojection]
  cases table.properties.find? (table.isStored id) <;> rfl

variable {q}

theorem neighbour_eq (row : String → V) (i : Nat) :
    q.neighbour (row, i) = q.direction.nbr (q.table.ends i row) := by
  unfold RelScan.neighbour LanceRelTable.ends RelDataDirection.nbr
  cases q.table.layout <;> cases q.direction <;> rfl

theorem isEdge_iff (hvalid : q.table.Valid) (n : Nat) (row : String → V) {i : Nat}
    (hi : i < q.table.dataset.rows.length) :
    q.isEdge n (row, i) = true ↔ q.direction.bound (q.table.ends i row) = n := by
  unfold RelScan.isEdge LanceRelTable.ends RelDataDirection.bound
  cases hlayout : q.table.layout with
  | flat => cases q.direction <;> exact decide_eq_true_iff
  | csr =>
    cases q.direction with
    | bwd => exact decide_eq_true_iff
    | fwd =>
      have h := hvalid hlayout
      apply decide_eq_true_iff.trans
      constructor
      · exact fun hsource => h.sourceOf_eq hsource
      · intro heq
        rw [← heq]
        exact h.isSource hi

theorem outputRow_eq (row : String → V) (i : Nat) :
    q.outputRow (q.direction.nbr (q.table.ends i row)) i row = q.edge (row, i) := by
  apply map_congr_left
  intro outCol _
  unfold RelScan.edgeCell
  by_cases hzero : outCol = 0
  · rw [if_pos hzero, if_pos hzero, neighbour_eq]
    cases q.direction <;> rfl
  rw [if_neg hzero, if_neg hzero]
  cases q.columnIDs[outCol]? with
  | none => rfl
  | some columnID =>
    cases columnID with
    | property id => exact outputCell_property q.table row i id
    | _ => rfl

theorem tag_at (hvalid : q.table.Valid) {i : Nat} (entry : (String → V) × Nat)
    (hentry : entry.2 < q.table.dataset.rows.length) :
    q.tag entry = some (i, q.edge entry) ∧ q.isEdge (q.nodeID i) entry = true ∧
        q.boundNodeOffsets.lookup (q.nodeID i) = some i ∨
      (∀ returned, q.tag entry = some returned → returned.1 ≠ i) ∧
        (q.boundNodeOffsets.lookup (q.nodeID i) = some i → q.isEdge (q.nodeID i) entry = false) := by
  have hedge := isEdge_iff hvalid (q.nodeID i) entry.1 hentry
  have houtput : q.tag entry = (q.boundNodeOffsets.lookup
      (q.direction.bound (q.table.ends entry.2 entry.1))).map fun position =>
        (position, q.edge entry) := by
    unfold RelScan.tag
    simp only [outputRow_eq]
  rw [houtput]
  generalize q.direction.bound (q.table.ends entry.2 entry.1) = n at *
  by_cases hlookup : q.boundNodeOffsets.lookup n = some i
  · obtain ⟨-, hnode⟩ := mem_of_boundNodeOffsets hlookup
    rw [hnode, hlookup]
    exact .inl ⟨rfl, hnode ▸ hedge.mpr hnode.symm, rfl⟩
  · refine .inr ⟨?_, ?_⟩
    · intro returned hreturned hposition
      obtain ⟨position, hfound, heq⟩ := Option.map_eq_some_iff.mp hreturned
      rw [← heq] at hposition
      exact hlookup (hposition ▸ hfound)
    · intro hfirst
      apply Bool.eq_false_iff.mpr
      intro hyes
      rw [hedge.mp hyes] at hlookup
      exact hlookup hfirst

theorem returned_from (hvalid : q.table.Valid) (i : Nat) (entries : List ((String → V) × Nat))
    (hentries : ∀ entry ∈ entries, entry.2 < q.table.dataset.rows.length) :
    ((entries.filterMap q.tag).filter fun returned => returned.1 = i).map (·.2) =
      if q.boundNodeOffsets.lookup (q.nodeID i) = some i then
        (entries.filter (q.isEdge (q.nodeID i))).map q.edge
      else [] := by
  induction entries with
  | nil => split <;> rfl
  | cons entry entries ih =>
    have ih := ih fun e he => hentries e (mem_cons_of_mem _ he)
    cases tag_at hvalid (i := i) entry (hentries entry mem_cons_self) with
    | inl hhere =>
      obtain ⟨htag, hedge, hfirst⟩ := hhere
      rw [if_pos hfirst] at ih ⊢
      have hsame : decide ((i, q.edge entry).1 = i) = true := decide_eq_true rfl
      rw [filterMap_cons_some htag, filter_cons, if_pos hsame, map_cons, ih,
        filter_cons_of_pos hedge, map_cons]
    | inr hnot =>
      obtain ⟨hother, hedge⟩ := hnot
      have hskip : ((entry :: entries).filterMap q.tag).filter (fun returned => returned.1 = i) =
          (entries.filterMap q.tag).filter fun returned => returned.1 = i := by
        cases htag : q.tag entry with
        | none => rw [filterMap_cons_none htag]
        | some returned =>
          have hdiff : decide (returned.1 = i) ≠ true := fun h =>
            hother returned htag (of_decide_eq_true h)
          rw [filterMap_cons_some htag, filter_cons, if_neg hdiff]
      rw [hskip, ih]
      by_cases hfirst : q.boundNodeOffsets.lookup (q.nodeID i) = some i
      · rw [if_pos hfirst, if_pos hfirst, filter_cons, if_neg (Bool.eq_false_iff.mp (hedge hfirst))]
      · rw [if_neg hfirst, if_neg hfirst]

/-- A position has the edges of its node, if it is the first one of the node, and otherwise none. -/
theorem returned_at (hvalid : q.table.Valid) (i : Nat) :
    ((q.tagged q.table.dataset.rows 0).filter fun returned => returned.1 = i).map (·.2) =
      if q.boundNodeOffsets.lookup (q.nodeID i) = some i then q.edges (q.nodeID i) else [] := by
  apply returned_from hvalid i
  intro entry hentry
  have hindex := mem_zipIdx hentry
  omega

variable (q)

/-- A scan of the batch comes to an end, and every selected position has the edges of its node. -/
def RelScan.EmitsExactly (scan : Nat) (s : LanceRelTableScanState V) : Prop :=
  ∃ emitted, q.Emits (q.initScanState scan s) emitted ∧
    (∀ returned ∈ emitted, returned.1 ∈ q.selected) ∧
    ∀ i ∈ q.selected,
      ((emitted.filter fun returned => returned.1 = i).map (·.2)).Perm (q.edges (q.nodeID i))

/-- The sources and the targets of the edges. -/
def LanceRelTable.graph (table : LanceRelTable V) : List (Nat × Nat) :=
  table.dataset.rows.zipIdx.map fun entry => table.ends entry.2 entry.1

structure SameGraph {W : Type} (q : RelScan V) (q' : RelScan W) : Prop where
  direction : q.direction = q'.direction
  selected : q.selected = q'.selected
  nodeID : q.nodeID = q'.nodeID
  numOutputVectors : q.numOutputVectors = q'.numOutputVectors
  fromNodeTableID : q.table.fromNodeTableID = q'.table.fromNodeTableID
  toNodeTableID : q.table.toNodeTableID = q'.table.toNodeTableID
  graph : q.table.graph.Perm q'.table.graph

def Cell.nodeID : Cell V → Option (Nat × Nat)
  | .internalID offset tableID => some (offset, tableID)
  | _ => none

/-- The positions with their neighbours, which the first output vector has. -/
def neighbours (emitted : List (Nat × List (Cell V))) : List (Nat × Option (Nat × Nat)) :=
  emitted.map fun returned => (returned.1, returned.2.head?.bind Cell.nodeID)

def RelScan.neighbourOf (ends : Nat × Nat) : Option (Nat × Option (Nat × Nat)) :=
  (q.boundNodeOffsets.lookup (q.direction.bound ends)).map fun position =>
    (position, if q.numOutputVectors = 0 then none
      else some (q.direction.nbr ends,
        if q.direction = .fwd then q.table.toNodeTableID else q.table.fromNodeTableID))

theorem neighbours_tagged :
    neighbours (q.tagged q.table.dataset.rows 0) = q.table.graph.filterMap q.neighbourOf := by
  unfold neighbours RelScan.tagged LanceRelTable.graph
  rw [map_filterMap, filterMap_map]
  apply congrArg (filterMap · _)
  funext entry
  unfold RelScan.tag RelScan.neighbourOf
  simp only [Function.comp_apply, Option.map_map]
  apply congrArg (Option.map · _)
  funext position
  show (position, _) = (position, _)
  congr 1
  unfold RelScan.outputRow
  cases q.numOutputVectors with
  | zero => rfl
  | succ n =>
    rw [range_succ_eq_map]
    rfl

/-- A scan returns all the edges at all the positions of a batch, unless a node with an edge is at two of
them; then it is the first position alone that has its edges.  Every scan ends, and the layout of the
table makes no difference. -/
theorem rel_scan_exact_iff (hvalid : q.table.Valid) (scan : Nat) (s : LanceRelTableScanState V) :
    (q.EmitsExactly scan s ↔ ∀ i ∈ q.selected, ∀ j ∈ q.selected, i ≠ j → q.nodeID i = q.nodeID j →
        ∀ entry ∈ q.table.dataset.rows.zipIdx, q.isEdge (q.nodeID i) entry = false) ∧
    (∃ emitted, q.Emits (q.initScanState scan s) emitted) ∧
    ∀ (W : Type) (q' : RelScan W) (scan' : Nat) (s' : LanceRelTableScanState W), q'.table.Valid →
      SameGraph q q' → ∀ emitted emitted', q.Emits (q.initScanState scan s) emitted →
        q'.Emits (q'.initScanState scan' s') emitted' →
        (neighbours emitted).Perm (neighbours emitted') := by
  obtain ⟨hinv, hcome⟩ := initScanState_inv hvalid scan s
  refine ⟨⟨?_, ?_⟩, ⟨_, emits_toCome hvalid hinv⟩, ?_⟩
  · intro hexact i hi j hj hne hsame
    obtain ⟨emitted, hemits, -, hedges⟩ := hexact
    rw [hemits.eq_toCome hvalid hinv, hcome] at hedges
    have hlater : ∀ k ∈ q.selected, q.boundNodeOffsets.lookup (q.nodeID k) ≠ some k →
        q.edges (q.nodeID k) = [] := by
      intro k hk hother
      have hperm := hedges k hk
      rw [returned_at hvalid k, if_neg hother] at hperm
      exact hperm.symm.eq_nil
    apply (edges_eq_nil q (q.nodeID i)).mp
    by_cases hfirst : q.boundNodeOffsets.lookup (q.nodeID i) = some i
    · rw [hsame]
      apply hlater j hj
      rw [← hsame, hfirst]
      exact fun h => hne (Option.some.inj h)
    · exact hlater i hi hfirst
  · intro hcond
    refine ⟨q.tagged q.table.dataset.rows 0, hcome ▸ emits_toCome hvalid hinv, ?_, ?_⟩
    · intro returned hreturned
      obtain ⟨entry, -, htag⟩ := mem_filterMap.mp hreturned
      obtain ⟨position, hlookup, heq⟩ := Option.map_eq_some_iff.mp htag
      rw [← heq]
      exact (mem_of_boundNodeOffsets hlookup).1
    · intro i hi
      rw [returned_at hvalid i]
      by_cases hfirst : q.boundNodeOffsets.lookup (q.nodeID i) = some i
      · rw [if_pos hfirst]
      · rw [if_neg hfirst]
        cases hlookup : q.boundNodeOffsets.lookup (q.nodeID i) with
        | none =>
          rw [boundNodeOffsets_lookup] at hlookup
          exact absurd (decide_eq_true rfl) (List.find?_eq_none.mp hlookup i hi)
        | some j =>
          -- the node is at an earlier position as well
          obtain ⟨hj, hnode⟩ := mem_of_boundNodeOffsets hlookup
          have hne : i ≠ j := by
            intro heq
            rw [← heq] at hlookup
            exact hfirst hlookup
          rw [(edges_eq_nil q (q.nodeID i)).mpr (hcond i hi j hj hne hnode.symm)]
  · intro W q' scan' s' hvalid' hgraph emitted emitted' hemits hemits'
    obtain ⟨hinv', hcome'⟩ := initScanState_inv hvalid' scan' s'
    have hbound : q.boundNodeOffsets = q'.boundNodeOffsets := by
      unfold RelScan.boundNodeOffsets
      rw [hgraph.selected, hgraph.nodeID]
    have hneighbour : q.neighbourOf = q'.neighbourOf := by
      funext ends
      unfold RelScan.neighbourOf
      rw [hbound, hgraph.direction, hgraph.numOutputVectors, hgraph.fromNodeTableID,
        hgraph.toNodeTableID]
    rw [hemits.eq_toCome hvalid hinv, hemits'.eq_toCome hvalid' hinv', hcome, hcome',
      neighbours_tagged, neighbours_tagged, hneighbour]
    exact hgraph.graph.filterMap _

end

/-- The state of the shared code, with a search for the last entry at or before the row. -/
def columnarBase : ColumnarRelTableBase Nat where
  reset := fun _ bound => ⟨bound, none, 0, 0, 0⟩
  reset_bound := fun _ _ => rfl
  reset_cached := fun _ _ => rfl
  findSourceNodeForRowInternal := fun row indptr =>
    ((List.range indptr.length).reverse.find? fun n => indptr.getD n 0 ≤ row).getD 0
  find_source := by
    intro row indptr hhead _ _
    cases hfind : (List.range indptr.length).reverse.find? fun n => indptr.getD n 0 ≤ row with
    | some n =>
      have hmem := mem_of_find?_eq_some hfind
      have hle := @List.find?_some _ (fun n => decide (indptr.getD n 0 ≤ row)) _ _ hfind
      exact ⟨mem_range.mp (mem_reverse.mp hmem), of_decide_eq_true hle⟩
    | none =>
      cases indptr with
      | nil => cases hhead
      | cons first indptr =>
        cases hhead
        have hnot := List.find?_eq_none.mp hfind 0
          (mem_reverse.mpr (mem_range.mpr (Nat.succ_pos _)))
        exact absurd (decide_eq_true (Nat.zero_le row)) hnot

def csrTable : LanceRelTable Nat where
  layout := .csr
  dataset := ⟨["dst", "weight"],
    [fun c ↦ if c = "dst" then 1 else 7, fun c ↦ if c = "dst" then 0 else 8], by decide⟩
  indptrDataset := ⟨["indptr"], [fun _ ↦ 0, fun _ ↦ 1, fun _ ↦ 2], by decide⟩
  properties := [⟨"weight", 0, false⟩]
  tableID := 9
  fromNodeTableID := 5
  toNodeTableID := 5
  offset := fun v => v
  columns := by decide
  indptrColumns := by decide
  properties_nodup := by decide

/-- The same edges, each with its source and its target. -/
def flatTable : LanceRelTable Nat where
  layout := .flat
  dataset := ⟨["src", "dst", "weight"],
    [fun c ↦ if c = "src" then 1 else if c = "dst" then 0 else 8,
      fun c ↦ if c = "src" then 0 else if c = "dst" then 1 else 7], by decide⟩
  indptrDataset := ⟨[], [], by decide⟩
  properties := [⟨"weight", 0, false⟩]
  tableID := 9
  fromNodeTableID := 5
  toNodeTableID := 5
  offset := fun v => v
  columns := by decide
  indptrColumns := by decide
  properties_nodup := by decide

def twoPositions (table : LanceRelTable Nat) (direction : RelDataDirection) (nodeID : Nat → Nat)
    (hlt : ∀ i ∈ [0, 1], nodeID i < 2 ^ 64 - 1) : RelScan Nat where
  table := table
  base := columnarBase
  slicing := singleRows
  direction := direction
  columnIDs := [.nbrID, .relID, .property 0]
  numOutputVectors := 3
  selected := [0, 1]
  nodeID := nodeID
  nodeID_lt := hlt

theorem csrTable_valid : csrTable.Valid := fun _ => ⟨rfl, by decide, rfl⟩

theorem flatTable_valid : flatTable.Valid := fun h => LanceRelTableLayout.noConfusion h

theorem rel_scan_exact_twoPositions :
    (twoPositions csrTable .bwd (fun i => i) (by decide)).EmitsExactly 1 ⟨⟨[], none, 0, 0, 0⟩, []⟩ ∧
    ∀ emitted emitted', (twoPositions csrTable .bwd (fun i => i) (by decide)).Emits
        ((twoPositions csrTable .bwd (fun i ↦ i) (by decide)).initScanState 1 ⟨⟨[], none, 0, 0, 0⟩, []⟩)
        emitted →
      (twoPositions flatTable .bwd (fun i => i) (by decide)).Emits
        ((twoPositions flatTable .bwd (fun i ↦ i) (by decide)).initScanState 2 ⟨⟨[], none, 0, 0, 0⟩, []⟩)
        emitted' →
      (neighbours emitted).Perm (neighbours emitted') := by
  have h := rel_scan_exact_iff (twoPositions csrTable .bwd (fun i ↦ i) (by decide)) csrTable_valid 1
    ⟨⟨[], none, 0, 0, 0⟩, []⟩
  refine ⟨h.1.mpr ?_, ?_⟩
  · intro i _ j _ hne hsame
    exact absurd hsame hne
  · exact h.2.2 Nat (twoPositions flatTable .bwd (fun i => i) (by decide)) 2 ⟨⟨[], none, 0, 0, 0⟩, []⟩
      flatTable_valid ⟨rfl, rfl, rfl, rfl, rfl, rfl, by decide⟩

/-- Where two positions have one node, the second one is left without its edge. -/
theorem second_position_left_out : csrTable.Valid ∧
    ¬ (twoPositions csrTable .fwd (fun _ => 0) (by decide)).EmitsExactly 1
      ⟨⟨[], none, 0, 0, 0⟩, []⟩ := by
  refine ⟨csrTable_valid, ?_⟩
  intro hexact
  obtain ⟨hinv, hcome⟩ := initScanState_inv (q := twoPositions csrTable .fwd (fun _ ↦ 0) (by decide))
    csrTable_valid 1 ⟨⟨[], none, 0, 0, 0⟩, []⟩
  obtain ⟨emitted, hemits, -, hedges⟩ := hexact
  rw [hemits.eq_toCome csrTable_valid hinv, hcome] at hedges
  have hsecond := (hedges 1 (by decide)).length_eq
  exact absurd hsecond (by decide)

end Ladybug.Lance
