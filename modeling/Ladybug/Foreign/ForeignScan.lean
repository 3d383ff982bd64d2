import Ladybug.Base.Markup

/-!
# Scans of foreign tables (`sqlite/src/function/sqlite_scan.cpp`,
`pg_client/src/function/pg_client_scan.cpp`)

A scan runs one query that the planner's predicates, order and limit are pushed down into, and its
workers claim morsels of the result.  Under a node pattern the first column of the output is the node's
internal ID, made from the row's position in the result.
-/

namespace Ladybug.ForeignScan

open Markup (ascii)

/-- What the planner hands down to a scan.  A predicate is given by its text; the predicates of a column
may be none. -/
structure PushDown where
  columnPredicates : List (Option Bytes)
  orderBy : Bytes
  limitNum : Option Nat
  columnSkips : List Bool

structure ScanBindData where
  query : Bytes
  columnNames : List Bytes
  /-- The unique names of the bound columns. -/
  columns : List Bytes
  pushDown : PushDown
  /-- The number of vectors in the output chunk. -/
  numColumns : Nat

structure Select where
  query : Bytes
  items : List Bytes
  predicates : List Bytes
  orderBy : Bytes
  limit : Option Nat

def decimal (n : Nat) : Bytes := ascii (toString n)

/-- The query's text; the items go where the template has its braces. -/
def Select.text (s : Select) : Bytes :=
  let q := match Markup.find (ascii "\x7b\x7d") s.query with
    | some pos => s.query.take pos ++ (ascii ",").intercalate s.items ++ s.query.drop (pos + 2)
    | none => s.query
  q ++ (if s.predicates.isEmpty then [] else ascii " WHERE " ++ (ascii " AND ").intercalate s.predicates) ++
    s.orderBy ++ (match s.limit with | some n => ascii " LIMIT " ++ decimal n | none => [])

def quoteIdentifier (name : Bytes) : Bytes :=
  ascii "\"" ++ name.flatMap (fun c ↦ if c = '"'.toUInt8 then [c, c] else [c]) ++ ascii "\""

inductive Connector where
  | sqlite
  | pgClient
  deriving DecidableEq

/-- The end of an internal ID's unique name. -/
def idSuffix : Bytes := ascii "._ID"

def hasInternalIDColumn : Connector → ScanBindData → Bool
  | .sqlite, b =>
    if b.columns.length ≤ b.columnNames.length then false
    else match b.columns.head? with
      | some first => decide (idSuffix <:+ first)
      | none => false
  | .pgClient, b => decide (b.columnNames.length < b.numColumns)

def isSkipped (b : ScanBindData) (boundIdx : Nat) : Bool :=
  (b.pushDown.columnSkips[boundIdx]?).getD false

def getColumnIndicesToSelect (b : ScanBindData) : List Nat :=
  if b.columns.length = b.pushDown.columnSkips.countP id then [0]
  else (List.range b.columns.length).filter fun i =>
    !(isSkipped b i && !(decide (i = 0) && hasInternalIDColumn .sqlite b))

def boundIdxToSqliteIdx (b : ScanBindData) (boundIdx : Nat) : Nat :=
  if hasInternalIDColumn .sqlite b then boundIdx - 1 else boundIdx

def selectItems : Connector → ScanBindData → List Bytes
  | .sqlite, b =>
    let items := ((getColumnIndicesToSelect b).filter fun i =>
      !(hasInternalIDColumn .sqlite b && decide (i = 0))).map fun i =>
        (b.columnNames[boundIdxToSqliteIdx b i]?).getD []
    -- a query needs some item, even one that the scan ignores
    if items.isEmpty then [quoteIdentifier ((b.columnNames[0]?).getD [])] else items
  | .pgClient, b => b.columnNames

def select (c : Connector) (b : ScanBindData) : Select where
  query := b.query
  items := selectItems c b
  predicates := b.pushDown.columnPredicates.filterMap id
  orderBy := b.pushDown.orderBy
  limit := b.pushDown.limitNum

def getSQL (c : Connector) (b : ScanBindData) : Bytes := (select c b).text

/-- What a database makes of the texts in a query.  Where a query asks for no order, its rows come in a
fixed one. -/
structure Database (Row Cell : Type) where
  holds : Bytes → Row → Bool
  evaluate : Bytes → Row → Cell
  columnName : Bytes → Bytes
  arrange : Bytes → List (Row × Nat) → List (Row × Nat)
  arrange_perm : ∀ orderBy rows, (arrange orderBy rows).Perm rows

section

variable {Row Cell : Type}

def Database.rowsOf (db : Database Row Cell) (table : List Row) (s : Select) : List (Row × Nat) :=
  let kept := table.zipIdx.filter fun row => s.predicates.all fun p => db.holds p row.1
  let arranged := db.arrange s.orderBy kept
  match s.limit with
  | none => arranged
  | some n => arranged.take n

def Database.numbersOf (db : Database Row Cell) (table : List Row) (s : Select) : List Nat :=
  (db.rowsOf table s).map Prod.snd

structure QueryResult (Cell : Type) where
  columnNames : List Bytes
  rows : List (List Cell × Nat)

def Database.executeQuery (db : Database Row Cell) (table : List Row) (s : Select) :
    QueryResult Cell where
  columnNames := s.items.map db.columnName
  rows := (db.rowsOf table s).map fun row => (s.items.map fun item => db.evaluate item row.1, row.2)

inductive ColumnData (Cell : Type) where
  | internalId (ids : List Nat)
  | cells (values : List (Option Cell))
  | nulls

def columnOf (result : QueryResult Cell) (start size col : Nat) : ColumnData Cell :=
  .cells (((result.rows.drop start).take size).map fun row => row.1[col]?)

def sqliteColumns (b : ScanBindData) (result : QueryResult Cell) (start size : Nat)
    (compactOutput : Bool) : List Nat → Nat → Nat → List (Nat × ColumnData Cell)
  | [], _, _ => []
  | boundIdx :: rest, resultPos, compactPos =>
    let outIdx := if compactOutput then compactPos else boundIdx
    let isId := hasInternalIDColumn .sqlite b && decide (boundIdx = 0)
    if b.numColumns ≤ outIdx then
      sqliteColumns b result start size compactOutput rest
        (if isId then resultPos else resultPos + 1) (compactPos + 1)
    else if isId then
      (outIdx, .internalId (List.range' start size)) ::
        sqliteColumns b result start size compactOutput rest resultPos (compactPos + 1)
    else
      (outIdx, if result.columnNames.length ≤ resultPos then .nulls
        else columnOf result start size resultPos) ::
        sqliteColumns b result start size compactOutput rest (resultPos + 1) (compactPos + 1)

def resultColMap (result : QueryResult Cell) (name : Bytes) : Option Nat :=
  (result.columnNames.zipIdx.reverse.find? fun entry => decide (entry.1 = name)).map Prod.snd

def pgColumn (b : ScanBindData) (result : QueryResult Cell) (start size colIdx : Nat) :
    ColumnData Cell :=
  if hasInternalIDColumn .pgClient b && decide (colIdx = 0) then
    .internalId (List.range' start size)
  else
    let pgColIdx := if hasInternalIDColumn .pgClient b then colIdx - 1 else colIdx
    match b.columnNames[pgColIdx]? with
    | none => .nulls
    | some name =>
      match resultColMap result name with
      | none => .nulls
      | some col => columnOf result start size col

/-- The vectors of a chunk, by their places in it. -/
def fill (c : Connector) (b : ScanBindData) (result : QueryResult Cell) (start size : Nat) :
    List (Nat × ColumnData Cell) :=
  match c with
  | .sqlite =>
    let compactOutput := decide (b.numColumns < b.columns.length)
    let selected := getColumnIndicesToSelect b
    sqliteColumns b result start size compactOutput selected 0 0 ++ if compactOutput then []
      else ((List.range (min b.columns.length b.numColumns)).filter fun i =>
        !selected.contains i).map fun i => (i, .nulls)
  | .pgClient => (List.range b.numColumns).map fun i => (i, pgColumn b result start size i)

structure Morsel where
  startOffset : Nat
  batchSize : Nat
  deriving DecidableEq

/-- What the output says of a row: its number in the table and the internal ID it is given. -/
structure Identity where
  row : Nat
  id : Nat
  deriving DecidableEq

def identitiesOf (columns : List (Nat × ColumnData Cell)) (result : QueryResult Cell)
    (m : Morsel) : List Identity :=
  match columns.lookup 0 with
  | some (.internalId ids) =>
    List.zipWith (fun row id => ⟨row.2, id⟩) ((result.rows.drop m.startOffset).take m.batchSize) ids
  | _ => []

/-- The shared state, the morsels that workers have claimed but not yet filled, and what was returned. -/
structure ScanState where
  currentOffset : Nat
  claimed : List Morsel
  returned : List Identity

def claim (vectorCapacity : Nat) (result : QueryResult Cell) (s : ScanState) : Option ScanState :=
  if result.rows.length ≤ s.currentOffset then none
  else
    let batchSize := min (result.rows.length - s.currentOffset) vectorCapacity
    some { s with
      currentOffset := s.currentOffset + batchSize
      claimed := ⟨s.currentOffset, batchSize⟩ :: s.claimed }

/-- The states of a scan: any number of workers claim morsels and fill them, in any order. -/
inductive ScanRun (c : Connector) (b : ScanBindData) (vectorCapacity : Nat)
    (result : QueryResult Cell) : ScanState → Prop where
  | start : ScanRun c b vectorCapacity result ⟨0, [], []⟩
  | claim {s s' : ScanState} (run : ScanRun c b vectorCapacity result s)
      (step : claim vectorCapacity result s = some s') : ScanRun c b vectorCapacity result s'
  | fill {s : ScanState} {m : Morsel} (run : ScanRun c b vectorCapacity result s)
      (mine : m ∈ s.claimed) : ScanRun c b vectorCapacity result
        { s with
          claimed := s.claimed.erase m
          returned := s.returned ++
            identitiesOf (fill c b result m.startOffset m.batchSize) result m }

/-- Every worker has been told that there is nothing left. -/
def ScanState.Finished (s : ScanState) (result : QueryResult Cell) : Prop :=
  result.rows.length ≤ s.currentOffset ∧ s.claimed = []

end

end Ladybug.ForeignScan
