import Mathlib.Data.List.AList
import Mathlib.Data.List.Dedup
import Ladybug.Sqlite.BtreePageDecoder

/-!
# The operation resolver (`cdc/op_resolver.h`, `cdc/op_resolver.cpp`)

The resolver keeps, for every table, the rowids of every leaf page with a hash of its image, and
the last-seen primary keys and records.  `applyFrames` turns the pages of a commit into row
operations; `fullDiff` compares the memory with the whole image (`bootstrap`, `reconcile`).
-/

namespace Ladybug.Sqlite

open Bytes

-- FNV-1a/64 over a page image
def hashImage (image : Bytes) : UInt64 :=
  image.foldl (fun h b => (h ^^^ b.toUInt64) * 1099511628211) 14695981039346656037

structure TableSchema where
  name : String
  rootPage : UInt32 := 0
  withoutRowid : Bool := false
  pkRecordIndex : Int := -1
  pkFromRowid : Bool := true
  retainRecords : Bool := false
  deriving DecidableEq

structure RowOp where
  table : String
  rowid : Int64
  values : List SqliteValue
  deriving DecidableEq

/-- The `hasIdentity` and `hasRecord` flags of the source are `isSome` here. -/
structure RowDelete where
  table : String
  rowid : Int64
  identity : Option SqliteValue := none
  record : Option (List SqliteValue) := none
  deriving DecidableEq

structure OpBatch where
  upserts : List RowOp := []
  deletes : List RowDelete := []
  droppedTables : List String := []
  skippedTables : List String := []
  deriving DecidableEq

structure WalClock where
  salt1 : UInt32 := 0
  salt2 : UInt32 := 0
  appliedFrames : Nat := 0
  deriving DecidableEq

def walRestarted (clock : WalClock) (header : WalHeader) : Bool :=
  if clock.salt1 = 0 ∧ clock.salt2 = 0 then false
  else clock.salt1 ≠ header.salt1 ∨ clock.salt2 ≠ header.salt2

structure PageState where
  rowids : List Int64
  imageHash : UInt64
  nodup : rowids.Nodup

abbrev Pages := AList fun _ : UInt32 => PageState

-- `identities` and `records` are only looked up, set and erased, never iterated for output
structure TableState where
  rootPage : UInt32
  pkRecordIndex : Int
  pkFromRowid : Bool
  retainRecords : Bool
  pages : Pages := ∅
  identities : Int64 → Option SqliteValue := fun _ => none
  records : Int64 → Option (List SqliteValue) := fun _ => none

abbrev Tables := AList fun _ : String => TableState

structure OpResolver where
  tables : Tables := ∅

def PageState.ofRows (rows : List DecodedRow) (hash : UInt64) : PageState where
  rowids := (rows.map DecodedRow.rowid).dedup
  imageHash := hash
  nodup := List.nodup_dedup _

def TableState.ofSchema (schema : TableSchema) : TableState where
  rootPage := schema.rootPage
  pkRecordIndex := schema.pkRecordIndex
  pkFromRowid := schema.pkFromRowid
  retainRecords := schema.retainRecords

def findSchema (schemas : List TableSchema) (name : String) : Option TableSchema :=
  schemas.find? fun s => s.name = name

/-- The primary key value a state retains for a row, where it retains one. -/
def TableState.pkValue (state : TableState) (values : List SqliteValue) : Option SqliteValue :=
  if ¬ state.pkFromRowid ∧ 0 ≤ state.pkRecordIndex then values[state.pkRecordIndex.toNat]?
  else none

def trackRow (state : TableState) (row : DecodedRow) : TableState :=
  { state with
    identities := match state.pkValue row.values with
      | some v => Function.update state.identities row.rowid (some v)
      | none => state.identities
    records := if state.retainRecords then
        Function.update state.records row.rowid (some row.values)
      else state.records }

def rowDelete (table : String) (state : TableState) (rowid : Int64) : RowDelete where
  table := table
  rowid := rowid
  identity := state.identities rowid
  record := state.records rowid

def TableState.forget (state : TableState) (rowid : Int64) : TableState :=
  { state with
    identities := Function.update state.identities rowid none
    records := Function.update state.records rowid none }

def emitDelete (table : String) (acc : TableState × List RowDelete) (rowid : Int64) :
    TableState × List RowDelete :=
  (acc.1.forget rowid, acc.2 ++ [rowDelete table acc.1 rowid])

def rowOp (table : String) (row : DecodedRow) : RowOp where
  table := table
  rowid := row.rowid
  values := row.values

def decodeLeaf (pageNo : UInt32) (fetcher : PageFetcher) (pageSize : Nat) :
    Except Stop (List DecodedRow × UInt64) :=
  match fetcher pageNo with
  | none => .error (.error ("Page " ++ toString pageNo.toNat ++ " unavailable"))
  | some image => do
      let bytes ← readSlice image 0 pageSize
      let rows ← decodeTableLeafPage image pageSize pageSize 0 1 fetcher
      return (rows, hashImage bytes)

def emitTable (table : String) (state : TableState) (deletes : List RowDelete) :
    TableState × List RowDelete :=
  (state.pages.entries.flatMap fun e => e.2.rowids).foldl (emitDelete table) (state, deletes)

def dropTable (acc : OpResolver × OpBatch) (e : Sigma fun _ : String => TableState) :
    OpResolver × OpBatch :=
  (⟨acc.1.tables.erase e.1⟩, { acc.2 with
      droppedTables := acc.2.droppedTables ++ [e.1]
      deletes := (emitTable e.1 e.2 acc.2.deletes).2 })

-- the first loop: tables that no schema names lose their state, their rows become deletes
def dropVanished (schemas : List TableSchema) (r : OpResolver) : OpResolver × OpBatch :=
  (r.tables.entries.filter fun e => findSchema schemas e.1 = none).foldl dropTable (r, {})

def skipTable (schema : TableSchema) (acc : OpResolver × OpBatch) : OpResolver × OpBatch :=
  (⟨acc.1.tables.erase schema.name⟩,
    { acc.2 with skippedTables := acc.2.skippedTables ++ [schema.name] })

-- the order of `byTableRowid`
def opLe (a b : RowOp) : Prop := a.table < b.table ∨ (a.table = b.table ∧ a.rowid ≤ b.rowid)

def deleteLe (a b : RowDelete) : Prop :=
  a.table < b.table ∨ (a.table = b.table ∧ a.rowid ≤ b.rowid)

instance : DecidableRel opLe := fun _ _ => inferInstanceAs (Decidable (_ ∨ _))

instance : DecidableRel deleteLe := fun _ _ => inferInstanceAs (Decidable (_ ∨ _))

def OpBatch.sorted (b : OpBatch) : OpBatch where
  upserts := b.upserts.insertionSort opLe
  deletes := b.deletes.insertionSort deleteLe
  droppedTables := b.droppedTables.insertionSort (· ≤ ·)
  skippedTables := b.skippedTables.insertionSort (· ≤ ·)

/-- What a call leaves behind when it stops: the error and the memory as mutated so far. -/
abbrev Halt := Stop × OpResolver

/-- The schema loop and the final sorts. -/
def resolveSchemas (table : TableSchema → OpResolver × OpBatch → Except Halt (OpResolver × OpBatch))
    (schemas : List TableSchema) (r : OpResolver) : Except Stop OpBatch × OpResolver :=
  match schemas.foldlM (fun acc schema => table schema acc) (dropVanished schemas r) with
  | .ok (r', batch) => (.ok batch.sorted, r')
  | .error (stop, r') => (.error stop, r')

/-- The work on one table: its state, the row operations so far, and `upsertedRowids`. -/
structure Work where
  state : TableState
  upserts : List RowOp
  deletes : List RowDelete
  upserted : List Int64

def Work.emitDeletes (table : String) (w : Work) (rowids : List Int64) : Work :=
  let acc := rowids.foldl (emitDelete table) (w.state, w.deletes)
  { w with state := acc.1, deletes := acc.2 }

def Work.emitRows (table : String) (w : Work) (rows : List DecodedRow) : Work :=
  { w with
    upserts := w.upserts ++ rows.map (rowOp table)
    upserted := w.upserted ++ rows.map DecodedRow.rowid }

def Work.setPages (w : Work) (pages : Pages) : Work :=
  { w with state := { w.state with pages } }

def Work.trackRows (w : Work) (rows : List DecodedRow) : Work :=
  { w with state := rows.foldl trackRow w.state }

/-- Decodes a page, tracks its rows and emits them as upserts. -/
def loadPage (table : String) (fetcher : PageFetcher) (pageSize : Nat) (w : Work)
    (pageNo : UInt32) : Except Stop Work := do
  let decoded ← decodeLeaf pageNo fetcher pageSize
  let w := (w.trackRows decoded.1).emitRows table decoded.1
  return w.setPages (w.state.pages.insert pageNo (PageState.ofRows decoded.1 decoded.2))

-- removed pages: all their rowids are candidate deletes
def removePage (table : String) (leaves : List UInt32) (w : Work)
    (e : Sigma fun _ : UInt32 => PageState) : Work :=
  if e.1 ∈ leaves then w
  else
    let w := w.emitDeletes table (e.2.rowids.filter (· ∉ w.upserted))
    w.setPages (w.state.pages.erase e.1)

def refreshLeaf (table : String) (pageNo : UInt32) (old : List Int64)
    (decoded : List DecodedRow × UInt64) (w : Work) : Work :=
  let fresh := PageState.ofRows decoded.1 decoded.2
  let w := w.trackRows decoded.1
  let w := w.emitDeletes table (old.filter fun r => r ∉ fresh.rowids ∧ r ∉ w.upserted)
  let w := w.emitRows table decoded.1
  w.setPages (w.state.pages.insert pageNo fresh)

def visitLeaf (table : String) (dirty : List UInt32) (fetcher : PageFetcher) (pageSize : Nat)
    (w : Work) (pageNo : UInt32) : Except (Stop × Work) Work :=
  match w.state.pages.lookup pageNo with
  | some page =>
    if pageNo ∉ dirty then .ok w   -- clean page: state already current
    else
      match decodeLeaf pageNo fetcher pageSize with
      | .ok decoded => .ok (refreshLeaf table pageNo page.rowids decoded w)
      | .error stop => .error (stop, w)
  | none =>
    match decodeLeaf pageNo fetcher pageSize with
    | .ok decoded => .ok (refreshLeaf table pageNo [] decoded w)
    | .error stop => .error (stop, w)

/-- A row moved from page A to page B in one batch was emitted as a delete too: retract it. -/
def Work.retract (table : String) (w : Work) : Work :=
  { w with deletes := w.deletes.filter fun d => ¬ (d.table = table ∧ d.rowid ∈ w.upserted) }

def OpResolver.setTable (r : OpResolver) (name : String) (state : TableState) : OpResolver :=
  ⟨r.tables.insert name state⟩

def Work.store (table : String) (w : Work) (acc : OpResolver × OpBatch) : OpResolver × OpBatch :=
  (acc.1.setTable table w.state, { acc.2 with upserts := w.upserts, deletes := w.deletes })

-- the branch of a table tracked under the same root
def updateTable (dirty : List UInt32) (fetcher : PageFetcher) (pageSize : Nat)
    (schema : TableSchema) (state : TableState) (acc : OpResolver × OpBatch) :
    Except Halt (OpResolver × OpBatch) :=
  match collectLeafPages schema.rootPage fetcher pageSize with
  | .error stop => .error (stop, acc.1)
  | .ok leaves =>
    let w : Work := ⟨state, acc.2.upserts, acc.2.deletes, []⟩
    let w := state.pages.entries.foldl (removePage schema.name leaves) w
    match leaves.foldlM (visitLeaf schema.name dirty fetcher pageSize) w with
    | .ok w => .ok ((w.retract schema.name).store schema.name acc)
    -- the state is updated in place, so a failure keeps what was done
    | .error (stop, w) => .error (stop, acc.1.setTable schema.name w.state)

def emitOld (table : String) (old : Option TableState) (deletes : List RowDelete) :
    List RowDelete :=
  match old with
  | some state => (emitTable table state deletes).2
  | none => deletes

-- the branch of a new table or a rebuilt root: old rows become deletes, every row an upsert
def rebuildTable (fetcher : PageFetcher) (pageSize : Nat) (schema : TableSchema)
    (old : Option TableState) (acc : OpResolver × OpBatch) : Except Halt (OpResolver × OpBatch) :=
  let deletes := emitOld schema.name old acc.2.deletes
  let r : OpResolver := ⟨acc.1.tables.erase schema.name⟩
  let loaded := do
    let leaves ← collectLeafPages schema.rootPage fetcher pageSize
    leaves.foldlM (loadPage schema.name fetcher pageSize)
      ⟨TableState.ofSchema schema, acc.2.upserts, deletes, []⟩
  match loaded with
  | .ok w => .ok (w.store schema.name (r, acc.2))
  | .error stop => .error (stop, r)

def applyTable (dirty : List UInt32) (fetcher : PageFetcher) (pageSize : Nat)
    (schema : TableSchema) (acc : OpResolver × OpBatch) : Except Halt (OpResolver × OpBatch) :=
  if schema.withoutRowid then .ok (skipTable schema acc)
  else
    match acc.1.tables.lookup schema.name with
    | some state =>
      if state.rootPage ≠ schema.rootPage then
        rebuildTable fetcher pageSize schema (some state) acc
      else updateTable dirty fetcher pageSize schema state acc
    | none => rebuildTable fetcher pageSize schema none acc

def OpResolver.applyFrames (r : OpResolver) (schemas : List TableSchema) (dirtyPages : List UInt32)
    (fetcher : PageFetcher) (pageSize : Nat) : Except Stop OpBatch × OpResolver :=
  resolveSchemas (applyTable dirtyPages fetcher pageSize) schemas r

def diffLeaf (table : String) (fetcher : PageFetcher) (pageSize : Nat) (old : Option TableState)
    (w : Work) (pageNo : UInt32) : Except Stop Work :=
  match fetcher pageNo with
  | none => .error (.error ("Page " ++ toString pageNo.toNat ++ " unavailable"))
  | some image => do
      let bytes ← readSlice image 0 pageSize
      match old.bind fun state => state.pages.lookup pageNo with
      | some page =>
        if page.imageHash = hashImage bytes then
          return w.setPages (w.state.pages.insert pageNo page)
        else loadPage table fetcher pageSize w pageNo
      | none => loadPage table fetcher pageSize w pageNo

-- `emplace` keeps what the new state already retains
def Work.carry (w : Work) (old : TableState) : Work :=
  { w with
    state := { w.state with
      identities := fun r => (w.state.identities r).or (old.identities r)
      records := fun r => (w.state.records r).or (old.records r) } }

def vanishedRows (old : TableState) (w : Work) : List Int64 :=
  old.pages.entries.flatMap fun e => e.2.rowids.filter fun r =>
    ¬ (∃ page ∈ w.state.pages.lookup e.1, r ∈ page.rowids) ∧ r ∉ w.upserted

/-- The old state a diff may consult: the tracked one, when its root is unchanged. -/
def comparableState (r : OpResolver) (schema : TableSchema) (blind : Bool) : Option TableState :=
  if blind then none
  else (r.tables.lookup schema.name).filter fun state => state.rootPage = schema.rootPage

def diffTable (fetcher : PageFetcher) (pageSize : Nat) (blind : Bool) (schema : TableSchema)
    (acc : OpResolver × OpBatch) : Except Halt (OpResolver × OpBatch) :=
  if schema.withoutRowid then .ok (skipTable schema acc)
  else
    let old := comparableState acc.1 schema blind
    let walked := do
      let leaves ← collectLeafPages schema.rootPage fetcher pageSize
      leaves.foldlM (diffLeaf schema.name fetcher pageSize old)
        ⟨TableState.ofSchema schema, acc.2.upserts, acc.2.deletes, []⟩
    match walked with
    | .error stop => .error (stop, acc.1)
    | .ok w =>
      let w := match old with
        | some state => (w.carry state).emitDeletes schema.name (vanishedRows state w)
        | none => w
      .ok (w.store schema.name acc)

def OpResolver.fullDiff (r : OpResolver) (schemas : List TableSchema) (fetcher : PageFetcher)
    (pageSize : Nat) (blind : Bool) : Except Stop OpBatch × OpResolver :=
  resolveSchemas (diffTable fetcher pageSize blind) schemas r

def OpResolver.bootstrap (r : OpResolver) (schemas : List TableSchema) (fetcher : PageFetcher)
    (pageSize : Nat) : Except Stop OpBatch × OpResolver :=
  r.fullDiff schemas fetcher pageSize true

def OpResolver.reconcile (r : OpResolver) (schemas : List TableSchema) (fetcher : PageFetcher)
    (pageSize : Nat) : Except Stop OpBatch × OpResolver :=
  r.fullDiff schemas fetcher pageSize false

end Ladybug.Sqlite
