import Ladybug.Base.Runs
import Ladybug.Base.Snapshots
import Mathlib.Algebra.Order.Field.Rat

/-!
# The statistics of the index (`getStats`, `updateStats` of `fts/src/index/fts_index.cpp`)

The number of documents and their average length are shared by all transactions; what a transaction
changes is kept apart until it commits.  The tables of the index are versioned: the terms of the rows
that a transaction sees are those of its snapshot, under its own changes.
-/

namespace Ladybug.Fts

def idxBound : Nat := 2 ^ 32

structure FtsStatsDelta where
  numDocs : Int := 0
  totalDocLen : ℚ := 0
  numCheckpointedNodes : Nat := 0

structure FtsStatsState (I : Type) where
  numDocs : Nat
  avgDocLen : ℚ
  numCheckpointedNodes : Nat
  deltas : I → Option FtsStatsDelta

section

variable {I : Type} [DecidableEq I]

/-- `static_cast<idx_t>`. -/
def toIdx (n : Int) : Nat := (n % idxBound).toNat

def getStats (stats : FtsStatsState I) (i : I) : Nat × ℚ :=
  let delta := (stats.deltas i).getD {}
  let numDocs := (stats.numDocs : Int) + delta.numDocs
  let totalDocLen := stats.avgDocLen * stats.numDocs + delta.totalDocLen
  (toIdx numDocs, if numDocs = 0 then 0 else totalDocLen / numDocs)

def updateStats (stats : FtsStatsState I) (i : I) (numDocs : Int) (totalDocLen : ℚ)
    (numCheckpointedNodes : Nat) : FtsStatsState I :=
  if numDocs = 0 ∧ totalDocLen = 0 ∧ numCheckpointedNodes = 0 then stats
  else
    let delta := (stats.deltas i).getD {}
    { stats with
      deltas := Function.update stats.deltas i (some {
        numDocs := delta.numDocs + numDocs
        totalDocLen := delta.totalDocLen + totalDocLen
        numCheckpointedNodes := max delta.numCheckpointedNodes numCheckpointedNodes }) }

/-- The callback at a commit; it is there if the transaction has called `updateStats`. -/
def commitStats (stats : FtsStatsState I) (i : I) : FtsStatsState I :=
  match stats.deltas i with
  | none => stats
  | some delta =>
    let committedNumDocs := (stats.numDocs : Int) + delta.numDocs
    let committedTotalDocLen := stats.avgDocLen * stats.numDocs + delta.totalDocLen
    { numDocs := toIdx committedNumDocs
      avgDocLen := if committedNumDocs = 0 then 0 else committedTotalDocLen / committedNumDocs
      numCheckpointedNodes := max stats.numCheckpointedNodes delta.numCheckpointedNodes
      deltas := Function.update stats.deltas i none }

def rollbackStats (stats : FtsStatsState I) (i : I) : FtsStatsState I :=
  { stats with deltas := Function.update stats.deltas i none }

/-- `numDocs - df` of the score (`query_fts_index.cpp`), which has 64 bits. -/
def docsWithout (numDocs df : Nat) : Nat := (numDocs + (2 ^ 64 - df % 2 ^ 64)) % 2 ^ 64

end

section

variable {I T : Type} [DecidableEq I] [DecidableEq T]

/-- The state of the loop of `insert`: the documents of the transaction and the local counters. -/
structure InsertLoop (T : Type) where
  txn : Txn Nat (List T)
  numInsertedDocs : Nat := 0
  totalInsertedDocLen : Nat := 0
  numCheckpointedNodes : Nat := 0

/-- One row: its offset and its terms.  The total length has 32 bits. -/
def InsertLoop.row (l : InsertLoop T) (r : Nat × List T) : InsertLoop T :=
  let l := { l with numCheckpointedNodes := max l.numCheckpointedNodes (r.1 + 1) }
  if r.2 = [] then l
  else { l with
    txn := l.txn.write r.1 r.2
    totalInsertedDocLen := (l.totalInsertedDocLen + r.2.length) % 2 ^ 32
    numInsertedDocs := (l.numInsertedDocs + 1) % idxBound }

structure DeleteLoop (T : Type) where
  txn : Txn Nat (List T)
  numDeletedDocs : Nat := 0
  totalDeletedDocLen : Nat := 0

def DeleteLoop.row (l : DeleteLoop T) (offset : Nat) : DeleteLoop T :=
  if l.txn.view offset = [] then l
  else {
    txn := l.txn.write offset []
    totalDeletedDocLen := l.totalDeletedDocLen + (l.txn.view offset).length
    numDeletedDocs := (l.numDeletedDocs + 1) % idxBound }

/-- The terms of the rows of the node table, as the transactions see them, and the statistics. -/
structure StatsSystem (I T : Type) where
  docs : Snapshots I Nat (List T)
  numTotalRows : Nat
  stats : FtsStatsState I

inductive StatsAction (I T : Type) where
  | begin (i : I)
  | insert (i : I) (rows : List (Nat × List T))
  | delete (i : I) (offsets : List Nat)
  | getStats (i : I)
  | commit (i : I)
  | rollback (i : I)

/-- An update is a deletion and an insertion of the same row. -/
def StatsSystem.step (s : StatsSystem I T) : StatsAction I T → StatsSystem I T
  | .begin i => { s with docs := s.docs.start i }
  | .insert i rows =>
    match s.docs.txns i with
    | none => s
    | some t =>
      let l := rows.foldl InsertLoop.row { txn := t }
      { docs := s.docs.set i l.txn
        numTotalRows := max s.numTotalRows l.numCheckpointedNodes
        stats := updateStats s.stats i l.numInsertedDocs l.totalInsertedDocLen
          l.numCheckpointedNodes }
  | .delete i offsets =>
    match s.docs.txns i with
    | none => s
    | some t =>
      let l := offsets.foldl DeleteLoop.row { txn := t }
      { s with
        docs := s.docs.set i l.txn
        stats := updateStats s.stats i (-l.numDeletedDocs) (-l.totalDeletedDocLen) 0 }
  | .getStats _ => s
  | .commit i =>
    match s.docs.txns i with
    | none => s
    | some t => { s with docs := s.docs.commit i t, stats := commitStats s.stats i }
  | .rollback i => { s with docs := s.docs.rollback i, stats := rollbackStats s.stats i }

/-- The documents among the rows below a bound. -/
def numDocsOf (n : Nat) (c : Nat → List T) : Nat :=
  ∑ o ∈ Finset.range n, if c o = [] then 0 else 1

def totalLenOf (n : Nat) (c : Nat → List T) : Nat := ∑ o ∈ Finset.range n, (c o).length

def rowTerms (rows : List (List T)) (o : Nat) : List T := rows.getD o []

/-- The state after `CREATE_FTS_INDEX`, which counts the documents of the table. -/
def StatsSystem.created (rows : List (List T)) : StatsSystem I T where
  docs := ⟨rowTerms rows, fun _ => none⟩
  numTotalRows := rows.length
  stats :=
    let numDocs := numDocsOf rows.length (rowTerms rows) % idxBound
    { numDocs
      avgDocLen := if numDocs = 0 then 0 else (totalLenOf rows.length (rowTerms rows) : ℚ) / numDocs
      numCheckpointedNodes := rows.length
      deltas := fun _ => none }

/-- What the tables let a transaction do: it is active, it inserts rows that have no document and
deletes rows once, and it does not write a row that another transaction has written. -/
def StatsSystem.Admissible (s : StatsSystem I T) : StatsAction I T → Prop
  | .begin i => s.docs.txns i = none
  | .insert i rows => ∃ t, s.docs.txns i = some t ∧ (rows.map Prod.fst).Nodup ∧
      ∀ r ∈ rows, r.2 ≠ [] → t.view r.1 = [] ∧ s.docs.Writable i t r.1
  | .delete i offsets => ∃ t, s.docs.txns i = some t ∧
      ∀ o ∈ offsets, t.view o ≠ [] → s.docs.Writable i t o
  | .getStats i => ∃ t, s.docs.txns i = some t
  | .commit i => ∃ t, s.docs.txns i = some t
  | .rollback i => ∃ t, s.docs.txns i = some t

end

end Ladybug.Fts
