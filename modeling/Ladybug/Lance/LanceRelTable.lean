import Ladybug.Lance.LanceReader

/-!
# Scanning a Lance relationship table (`lance_rel_table.cpp`)

A table is a CSR, whose dataset has the targets of the edges, sorted by the sources, next to the dataset
of the row at which the edges of each node begin; or it is flat, with a source and a target in each row.
A scan has a batch of bound nodes, and each call returns edges of one bound node.
-/

namespace Ladybug.Lance

inductive LanceRelTableLayout where
  | csr
  | flat
  deriving DecidableEq

inductive RelDataDirection where
  | fwd
  | bwd
  deriving DecidableEq

/-- A `column_id_t`: the IDs with a meaning of their own, and those of properties. -/
inductive ColumnID where
  | invalid
  | rowIdx
  | nbrID
  | relID
  | property (id : Nat)
  deriving DecidableEq

/-- A property of a relationship table in the catalog; the internal ID is not stored. -/
structure RelProperty where
  name : String
  columnID : Nat
  isInternalID : Bool

structure LanceRelTable (V : Type) where
  layout : LanceRelTableLayout
  dataset : LanceDataset V
  /-- `indptrDatasetPath`, which a flat table has not. -/
  indptrDataset : LanceDataset V
  properties : List RelProperty
  tableID : Nat
  fromNodeTableID : Nat
  toNodeTableID : Nat
  /-- `getValue<offset_t>` -/
  offset : V → Nat
  columns : (match layout with
    | .csr => 1
    | .flat => 2) ≤ dataset.schema.length
  indptrColumns : layout = .csr → 1 ≤ indptrDataset.schema.length
  properties_nodup : (properties.map (·.columnID)).Nodup

/-- What a scan writes to one output vector for a row. -/
inductive Cell (V : Type) where
  | untouched
  | null
  | internalID (offset tableID : Nat)
  | value (v : V)
  deriving DecidableEq

section

variable {V : Type} (table : LanceRelTable V)

def LanceRelTable.column (i : Nat) : String := table.dataset.schema.getD i ""

/-- The columns of the endpoints come first, then the properties that the dataset has, in the order of
the catalog. -/
def LanceRelTable.projection : List (String × ColumnID) :=
  (match table.layout with
    | .csr => [(table.column 0, .invalid)]
    | .flat => [(table.column 0, .invalid), (table.column 1, .invalid)])
  ++ table.properties.filterMap fun prop =>
      if prop.isInternalID = true ∨ prop.name ∉ table.dataset.schema then none
      else some (prop.name, .property prop.columnID)

/-- The position in the cached batch for an output position; `none` stands for -1. -/
def LanceRelTable.outputToCached (columnID : ColumnID) : Option Nat :=
  match columnID with
  | .nbrID => some 0
  | .property id => (table.projection.map (·.2)).findIdx? (· = .property id)
  | _ => none

def LanceRelTable.outputCell (row : String → V) (globalRowIdx : Nat) (columnID : ColumnID) : Cell V :=
  match columnID with
  | .invalid => .untouched
  | .rowIdx => .untouched
  | .nbrID => .untouched
  | .relID => .internalID globalRowIdx table.tableID
  | .property id =>
    match (table.outputToCached (.property id)).bind fun cachedCol ↦ table.projection[cachedCol]? with
    | none => .null
    | some projected => .value (row projected.1)

end

structure ColumnarRelTableScanState (V : Type) where
  boundNodeOffsets : List (Nat × Nat)
  cachedBatchData : Option (List (String → V))
  currentBatchStartOffset : Nat
  currentLocalRowIdx : Nat
  csrSrcNodeIdx : Nat

structure LanceRelTableScanState (V : Type) extends ColumnarRelTableScanState V where
  /-- The batches that `next` is going to return. -/
  reader : List (List (String → V))

/-- The code outside of the extension: it resets the state that the formats share, and looks for the
source of a row, at or before which the edges of the source begin. -/
structure ColumnarRelTableBase (V : Type) where
  reset : ColumnarRelTableScanState V → List (Nat × Nat) → ColumnarRelTableScanState V
  reset_bound : ∀ s bound, (reset s bound).boundNodeOffsets = bound
  reset_cached : ∀ s bound, (reset s bound).cachedBatchData = none
  findSourceNodeForRowInternal : Nat → List Nat → Nat
  find_source : ∀ row indptr, indptr.head? = some 0 → indptr.Pairwise (· ≤ ·) →
    row < indptr.getLastD 0 → findSourceNodeForRowInternal row indptr < indptr.length
        ∧ indptr.getD (findSourceNodeForRowInternal row indptr) 0 ≤ row

/-- A scan of a table for one batch of bound nodes: the selected positions of the vector with the nodes,
and the nodes in it. -/
structure RelScan (V : Type) where
  table : LanceRelTable V
  base : ColumnarRelTableBase V
  slicing : Slicing
  direction : RelDataDirection
  columnIDs : List ColumnID
  numOutputVectors : Nat
  selected : List Nat
  nodeID : Nat → Nat
  -- no node has the offset `INVALID_OFFSET`
  nodeID_lt : ∀ i ∈ selected, nodeID i < 2 ^ 64 - 1

section

variable {V : Type} (q : RelScan V)

/-- `std::unordered_map::insert`, which keeps what is there. -/
def insertNew (bound : List (Nat × Nat)) (offset position : Nat) : List (Nat × Nat) :=
  if (bound.lookup offset).isSome then bound else bound ++ [(offset, position)]

def RelScan.boundNodeOffsets : List (Nat × Nat) :=
  q.selected.foldl (fun bound i => insertNew bound (q.nodeID i) i) []

/-- `loadIndptrData`: the first column of all the batches. -/
def RelScan.indptrData : List Nat :=
  match q.table.layout with
  | .flat => []
  | .csr =>
    (openRange q.table.indptrDataset q.slicing 0 0 (2 ^ 64 - 1)).flatMap fun batch =>
      batch.map fun row ↦ q.table.offset (row (q.table.indptrDataset.schema.getD 0 ""))

/-- The rows that can hold edges of the bound nodes: the first one, which goes through 32 bits, and how
many. -/
def RelScan.range : Nat × Nat :=
  let indptrData := q.indptrData
  if q.table.layout = .csr ∧ q.direction = .fwd ∧ indptrData ≠ [] ∧ q.boundNodeOffsets ≠ [] then
    let minNode := q.boundNodeOffsets.foldl (fun m entry => min m entry.1) (2 ^ 64 - 1)
    let maxNode := q.boundNodeOffsets.foldl (fun m entry => max m entry.1) 0
    if (minNode + 1) % 2 ^ 64 < indptrData.length then
      let endIdx := min ((maxNode + 1) % 2 ^ 64) (indptrData.length - 1)
      let startRow := indptrData.getD minNode 0 % 2 ^ 32
      (startRow, (indptrData.getD endIdx 0 + 2 ^ 64 - startRow) % 2 ^ 64)
    else (0, 2 ^ 64 - 1)
  else (0, 2 ^ 64 - 1)

def RelScan.initScanState (scan : Nat) (s : LanceRelTableScanState V) : LanceRelTableScanState V :=
  let (startRow, numRows) := q.range
  let columnar := q.base.reset s.toColumnarRelTableScanState q.boundNodeOffsets
  let indptrData := q.indptrData
  { boundNodeOffsets := columnar.boundNodeOffsets
    cachedBatchData := columnar.cachedBatchData
    currentBatchStartOffset := startRow
    currentLocalRowIdx := 0
    csrSrcNodeIdx :=
      if q.table.layout = .csr ∧ indptrData ≠ [] ∧ startRow < indptrData.getLastD 0 then
        q.base.findSourceNodeForRowInternal startRow indptrData
      else columnar.csrSrcNodeIdx
    reader := openRange q.table.dataset q.slicing scan startRow numRows }

def moveSource (indptrData : List Nat) (globalRowIdx : Nat) : (rest csrSrcNodeIdx : Nat) → Nat
  | 0, csrSrcNodeIdx => csrSrcNodeIdx
  | rest + 1, csrSrcNodeIdx =>
    if csrSrcNodeIdx + 1 < indptrData.length ∧ indptrData.getD (csrSrcNodeIdx + 1) 0 ≤ globalRowIdx then
      moveSource indptrData globalRowIdx rest (csrSrcNodeIdx + 1)
    else csrSrcNodeIdx

/-- The source cursor at a row, and the source and the target of the row; there are none where there is
no `indptr`. -/
def RelScan.endpoints (globalRowIdx : Nat) (row : String → V) (csrSrcNodeIdx : Nat) :
    Nat × Option (Nat × Nat) :=
  match q.table.layout with
  | .csr =>
    let indptrData := q.indptrData
    if indptrData = [] then (csrSrcNodeIdx, none)
    else
      let csrSrcNodeIdx := moveSource indptrData globalRowIdx indptrData.length csrSrcNodeIdx
      (csrSrcNodeIdx, some (csrSrcNodeIdx, q.table.offset (row (q.table.column 0))))
  | .flat =>
    (csrSrcNodeIdx, some (q.table.offset (row (q.table.column 0)),
      q.table.offset (row (q.table.column 1))))

def RelDataDirection.bound (direction : RelDataDirection) (ends : Nat × Nat) : Nat :=
  if direction = .fwd then ends.1 else ends.2

def RelDataDirection.nbr (direction : RelDataDirection) (ends : Nat × Nat) : Nat :=
  if direction = .fwd then ends.2 else ends.1

/-- What is written for an edge. -/
def RelScan.outputRow (nbrOffset globalRowIdx : Nat) (row : String → V) : List (Cell V) :=
  let nbrTableID :=
    if q.direction = .fwd then q.table.toNodeTableID else q.table.fromNodeTableID
  (List.range q.numOutputVectors).map fun outCol =>
    if outCol = 0 then .internalID nbrOffset nbrTableID
    else
      match q.columnIDs[outCol]? with
      | none => .untouched
      | some columnID => q.table.outputCell row globalRowIdx columnID

/-- `DEFAULT_VECTOR_CAPACITY` -/
def maxRowsPerCall : Nat := 2048

/-- The bound node of a call, once it has one, and the rows collected. -/
structure Collected (V : Type) where
  active : Option (Nat × Nat)
  rows : List (List (Cell V))

/-- The loop over the rows of the cached batch; `true` where a different bound node is encountered. -/
def RelScan.scanRows (s : LanceRelTableScanState V) (c : Collected V) :
    List (String → V) → LanceRelTableScanState V × Collected V × Bool
  | [] => (s, c, false)
  | row :: rows =>
    if maxRowsPerCall ≤ c.rows.length then (s, c, false)
    else
      let globalRowIdx := s.currentBatchStartOffset + s.currentLocalRowIdx
      let (csrSrcNodeIdx, ends) := q.endpoints globalRowIdx row s.csrSrcNodeIdx
      let here := { s with csrSrcNodeIdx }
      let next := { here with currentLocalRowIdx := s.currentLocalRowIdx + 1 }
      match ends.bind fun ends => (s.boundNodeOffsets.lookup (q.direction.bound ends)).map
          fun position => (ends, position) with
      | none => RelScan.scanRows next c rows
      | some (ends, position) =>
        let offset := q.direction.bound ends
        let output := q.outputRow (q.direction.nbr ends) globalRowIdx row
        match c.active with
        | none => RelScan.scanRows next ⟨some (offset, position), c.rows ++ [output]⟩ rows
        | some active =>
          if offset = active.1 then
            RelScan.scanRows next ⟨some active, c.rows ++ [output]⟩ rows
          else (here, c, true)

/-- The loop of a call from where the cached batch is used up. -/
def RelScan.fillAndScan (s : LanceRelTableScanState V) (c : Collected V) :
    List (List (String → V)) → LanceRelTableScanState V × Collected V
  | [] =>
    if maxRowsPerCall ≤ c.rows.length then ({ s with reader := [] }, c)
    else
      ({ s with
          currentBatchStartOffset := s.currentBatchStartOffset + s.currentLocalRowIdx
          currentLocalRowIdx := 0
          cachedBatchData := some []
          reader := [] }, c)
  | batch :: reader =>
    if maxRowsPerCall ≤ c.rows.length then ({ s with reader := batch :: reader }, c)
    else
      let s := { s with
        currentBatchStartOffset := s.currentBatchStartOffset + s.currentLocalRowIdx
        currentLocalRowIdx := 0
        cachedBatchData := some batch
        reader := reader }
      if batch = [] then (s, c)
      else
        let (s, c, different) := q.scanRows s c batch
        if different then (s, c) else RelScan.fillAndScan s c reader

/-- `scanCSR` and `scanFlat`: the position of the bound node and the rows, or `false`. -/
def RelScan.scanInternal (s : LanceRelTableScanState V) :
    LanceRelTableScanState V × Option (Nat × List (List (Cell V))) :=
  if s.boundNodeOffsets = [] then (s, none)
  else
    let (s, c) :=
      match s.cachedBatchData with
      | none => q.fillAndScan s ⟨none, []⟩ s.reader
      | some batch =>
        if s.currentLocalRowIdx = batch.length then q.fillAndScan s ⟨none, []⟩ s.reader
        else
          let (s, c, different) := q.scanRows s ⟨none, []⟩ (batch.drop s.currentLocalRowIdx)
          if different then (s, c) else q.fillAndScan s c s.reader
    (s, c.active.map fun active => (active.2, c.rows))

/-- The calls until one returns `false`, and the positions and rows that the others return. -/
inductive RelScan.Emits : LanceRelTableScanState V → List (Nat × List (Cell V)) → Prop
  | done {s s' : LanceRelTableScanState V} : q.scanInternal s = (s', none) → RelScan.Emits s []
  | more {s s' : LanceRelTableScanState V} {position : Nat} {rows : List (List (Cell V))}
      {emitted : List (Nat × List (Cell V))} : q.scanInternal s = (s', some (position, rows)) →
      RelScan.Emits s' emitted → RelScan.Emits s (rows.map (fun row => (position, row)) ++ emitted)

end

end Ladybug.Lance
