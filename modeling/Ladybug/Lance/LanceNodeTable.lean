import Ladybug.Base.Runs
import Ladybug.Lance.LanceReader

/-!
# Scanning a Lance node table (`lance_node_table.cpp`)

The rows are cut into morsels, which the threads of a scan pull from a shared counter.  A thread reads the
batches of its morsel and gives every row that the semi-mask keeps its position as node offset.
-/

namespace Ladybug.Lance

def morselTargetRows : Nat := 8192

def maxMorsels : Nat := 4096

def getNumBatches (totalRows : Nat) : Nat :=
  if totalRows = 0 then 1
  else min ((totalRows + morselTargetRows - 1) / morselTargetRows) maxMorsels

def morselStart (assignedMorsel : Nat) : Nat := assignedMorsel * morselTargetRows

def morselLimit (totalRows assignedMorsel : Nat) : Nat :=
  if totalRows > morselStart assignedMorsel then
    min morselTargetRows (totalRows - morselStart assignedMorsel)
  else 0

section

variable {V : Type} (schema : List String) (properties : List Property)

/-- The columns that are read from the dataset: those of the requested columns whose property is in the
catalog and in the dataset.  `none` stands for the column IDs that are skipped. -/
def readerColumns (columnIDs : List (Option Nat)) : List Property :=
  columnIDs.filterMap fun columnID =>
    (columnID.bind fun id => properties.find? fun prop => prop.columnID = id).filter fun prop =>
      decide (prop.name ∈ schema)

def outputValues (columnIDs : List (Option Nat)) (row : String → V) : List (Option V) :=
  let readerColumnIDs := readerColumns schema properties columnIDs
  if readerColumnIDs = [] then []
  else columnIDs.map fun columnID =>
    (readerColumnIDs.find? fun prop => some prop.columnID = columnID).map fun prop => row prop.name

end

structure LanceNodeTableScanState (V : Type) where
  reader : List (List (String → V))
  morselStart : Nat
  morselConsumed : Nat
  scanCompleted : Bool

def LanceNodeTableScanState.created {V : Type} : LanceNodeTableScanState V := ⟨[], 0, 0, true⟩

/-- `LanceNodeTableScanSharedState` -/
structure SharedState where
  currentMorselIdx : Nat
  numMorsels : Nat

def SharedState.getNextMorsel (s : SharedState) : Option (Nat × SharedState) :=
  if s.currentMorselIdx < s.numMorsels then
    some (s.currentMorselIdx, { s with currentMorselIdx := s.currentMorselIdx + 1 })
  else none

structure NodeScan (V : Type) where
  dataset : LanceDataset V
  slicing : Slicing
  properties : List Property
  columnIDs : List (Option Nat)
  semiMask : Nat → Bool
  /-- `NodeTable::applySemiMaskFilter`: the positions of a batch that are selected. -/
  applySemiMaskFilter (startOffset rowsRead : Nat) : List Nat
  mem_applySemiMaskFilter : ∀ startOffset rowsRead i,
    i ∈ applySemiMaskFilter startOffset rowsRead ↔ i < rowsRead ∧ semiMask (startOffset + i) = true
  applySemiMaskFilter_lt : ∀ startOffset rowsRead,
    (applySemiMaskFilter startOffset rowsRead).Pairwise (· < ·)

section

variable {V : Type} (q : NodeScan V)

/-- An offset with what is written for it. -/
def NodeScan.output (row : Nat × (String → V)) : Nat × List (Option V) :=
  (row.1, outputValues q.dataset.schema q.properties q.columnIDs row.2)

def initReaderForMorsel (scan : Nat) (s : SharedState) (st : LanceNodeTableScanState V) :
    SharedState × LanceNodeTableScanState V :=
  match s.getNextMorsel with
  | none => (s, { st with scanCompleted := true })
  | some (assignedMorsel, s) =>
    let start := morselStart assignedMorsel
    let limit := morselLimit q.dataset.rows.length assignedMorsel
    (s, ⟨openRange q.dataset q.slicing scan start limit, start, 0, false⟩)

def selectedRows (startOffset : Nat) (batch : List (String → V)) : List (Nat × (String → V)) :=
  (q.applySemiMaskFilter startOffset batch.length).filterMap fun sourceRow =>
    batch[sourceRow]?.map fun row => (startOffset + sourceRow, row)

/-- `scanInternal`: batches without selected rows are passed over. -/
def scanInternal (start : Nat) : (consumed : Nat) → List (List (String → V)) →
    List (Nat × (String → V)) × LanceNodeTableScanState V
  | consumed, [] => ([], ⟨[], start, consumed, true⟩)
  | consumed, batch :: reader =>
    let selected := selectedRows q (start + consumed) batch
    if selected = [] then scanInternal start (consumed + batch.length) reader
    else (selected, ⟨reader, start, consumed + batch.length, false⟩)

end

structure ScanRun (V : Type) where
  shared : SharedState
  threads : List (LanceNodeTableScanState V)
  emitted : List (Nat × List (Option V))

inductive ScanStep where
  /-- A thread whose morsel is done pulls the next one. -/
  | initScanState (thread scan : Nat)
  | scanInternal (thread : Nat)

section

variable {V : Type} (q : NodeScan V)

/-- `initializeScanCoordination` with a number of threads. -/
def NodeScan.start (threads : Nat) : ScanRun V where
  shared := ⟨0, getNumBatches q.dataset.rows.length⟩
  threads := List.replicate threads .created
  emitted := []

def NodeScan.step (r : ScanRun V) : ScanStep → ScanRun V
  | .initScanState i scan =>
    match r.threads[i]? with
    | none => r
    | some st =>
      let (shared, st) := initReaderForMorsel q scan r.shared st
      { r with shared, threads := r.threads.set i st }
  | .scanInternal i =>
    match r.threads[i]? with
    | none => r
    | some st =>
      if st.scanCompleted then r
      else
        let (selected, st) := Lance.scanInternal q st.morselStart st.morselConsumed st.reader
        { r with threads := r.threads.set i st, emitted := r.emitted ++ selected.map q.output }

/-- A thread goes to its next morsel when it has reached the end of the last one. -/
def Allowed (r : ScanRun V) : ScanStep → Prop
  | .initScanState i _ => ∀ st, r.threads[i]? = some st → st.scanCompleted = true
  | .scanInternal _ => True

def ScanRun.Complete (r : ScanRun V) : Prop :=
  r.shared.currentMorselIdx = r.shared.numMorsels ∧ ∀ st ∈ r.threads, st.scanCompleted = true

end

end Ladybug.Lance
