import Ladybug.Base.KeyedMaps
import Ladybug.Sqlite.SyncEngine

/-!
# Which tables are synced (`cdc/sync_mapping.cpp`, `function/sync_engine.cpp`)

A tick loads the tables of the live connection, infers mappings from the naming convention and merges
them with the explicit registrations.  The planner's tables and mappings carry more than what the
statement builder reads, so they extend the ones of `SyncCypher`.  An unordered map is an `AList`,
whose entries stand in the order a loop over the map meets them.
-/

namespace Ladybug.Sqlite.Planning

structure ColumnInfo where
  name : String
  declaredType : String := ""
  -- 1-based, 0 = not in the primary key
  pkOrder : Int := 0
  deriving DecidableEq

structure SyncForeignKey where
  fromColumn : String
  referencedTable : String
  deriving DecidableEq

/-- A row of `sqlite_master`, and what the connector reports about its table.  A cell of another
storage class reads as 0 or as the empty string. -/
structure MasterRow where
  name : String
  rootpage : UInt32 := 0
  sql : String := ""
  columns : List ColumnInfo := []
  foreignKeys : List SyncForeignKey := []
  deriving DecidableEq

structure SyncColumn extends Sqlite.SyncColumn where
  isPrimaryKey : Bool := false
  deriving DecidableEq

structure SyncTable where
  name : String
  columns : List SyncColumn
  -- position of a single INTEGER PRIMARY KEY column, else -1
  ipkIndex : Int := -1
  foreignKeys : List SyncForeignKey := []
  withoutRowid : Bool := false
  deriving DecidableEq

def isIntDecl (decltype : String) : Bool := containsWord decltype.toUpper "INT"

/-- The counters of the loops over primary key columns: the last one met stays. -/
structure PkScan where
  pkCols : Nat := 0
  pkIdx : Int := -1
  pkIsInt : Bool := false
  deriving DecidableEq

def PkScan.column (scan : PkScan) (col : SyncColumn × Nat) : PkScan :=
  if col.1.isPrimaryKey then
    { pkCols := scan.pkCols + 1, pkIdx := col.2, pkIsInt := isIntDecl col.1.decltype }
  else scan

def scanPrimaryKey (columns : List SyncColumn) : PkScan :=
  columns.zipIdx.foldl PkScan.column {}

def syncColumn (info : ColumnInfo) : SyncColumn where
  name := info.name
  decltype := info.declaredType
  isPrimaryKey := 0 < info.pkOrder

def loadTable (row : MasterRow) : Option (SyncTable × TableSchema) :=
  if row.columns = [] ∨ row.rootpage = 0 then none
  else
    let columns := row.columns.map syncColumn
    let scan := scanPrimaryKey columns
    let withoutRowid := containsWord row.sql "WITHOUT ROWID"
    some (
      { name := row.name
        columns
        ipkIndex := if scan.pkCols = 1 ∧ scan.pkIsInt then scan.pkIdx else -1
        foreignKeys := row.foreignKeys
        withoutRowid },
      { name := row.name
        rootPage := row.rootpage
        withoutRowid
        pkRecordIndex := if scan.pkCols = 1 then scan.pkIdx else -1
        pkFromRowid := if scan.pkCols = 1 then scan.pkIsInt else true })

def syncTables (rows : List MasterRow) : List SyncTable := (rows.filterMap loadTable).map Prod.fst

def resolverSchemas (rows : List MasterRow) : List TableSchema :=
  (rows.filterMap loadTable).map Prod.snd

structure TableMapping extends Sqlite.TableMapping where
  srcTable : String := ""
  dstTable : String := ""
  srcPkFromRowid : Bool := false
  dstPkFromRowid : Bool := false
  csrContract : Bool := false
  deriving DecidableEq

structure SkippedTable where
  name : String
  reason : String
  deriving DecidableEq

structure MappingResult where
  mappings : List TableMapping := []
  skipped : List SkippedTable := []
  deriving DecidableEq

abbrev ByTable (α : Type) := AList fun _ : String => α

def mappingsByTable (mappings : List TableMapping) : ByTable TableMapping :=
  indexed (fun m => m.sqliteTable) mappings

def tableByName (tables : List SyncTable) : ByTable SyncTable := indexed SyncTable.name tables

-- a prefix of a lowered name
def startsWithLower (name start : String) : Bool := decide (start.toList <+: name.toLower.toList)

def isSrcColumn (name : String) : Bool := startsWithLower name "src"

def isDstColumn (name : String) : Bool := startsWithLower name "dst" ∨ startsWithLower name "dest"

def columnName (columns : List SyncColumn) (i : Nat) : String :=
  match columns[i]? with
  | some col => col.name
  | none => ""

def findCol (columns : List SyncColumn) (col : String) : Option Nat :=
  columns.findIdx? fun c => c.name = col

def decltypeOf (columns : List SyncColumn) (pkCol : String) : String :=
  match columns.find? fun c => c.name = pkCol with
  | some col => col.decltype
  | none => ""

def mapNode (table : SyncTable) : Except String TableMapping :=
  if table.withoutRowid then .error "WITHOUT ROWID tables are not supported"
  else if 0 ≤ table.ipkIndex then
    .ok {
      sqliteTable := table.name
      label := table.name
      idFromRowid := true
      idRecordIndex := table.ipkIndex.toNat
      idColumn := columnName table.columns table.ipkIndex.toNat }
  else
    let scan := scanPrimaryKey table.columns
    if scan.pkCols ≠ 1 then .error "node table requires a single-column primary key"
    else .ok {
      sqliteTable := table.name
      label := table.name
      idFromRowid := false
      idRecordIndex := scan.pkIdx.toNat
      idColumn := columnName table.columns scan.pkIdx.toNat }

def isNodeName (name : String) : Bool := startsWithLower name "node_"

def isEdgeName (name : String) : Bool :=
  startsWithLower name "rel_" ∨ startsWithLower name "csr_rel_"

def inferNode (out : MappingResult) (table : SyncTable) : MappingResult :=
  if ¬ isNodeName table.name then out
  else match mapNode table with
    | .ok mapping => { out with mappings := out.mappings ++ [mapping] }
    | .error reason => { out with skipped := out.skipped ++ [⟨table.name, reason⟩] }

def endpointKeys (foreignKeys : List SyncForeignKey) :
    Option SyncForeignKey × Option SyncForeignKey :=
  foreignKeys.foldl (fun (ends : Option SyncForeignKey × Option SyncForeignKey) fk =>
    if isSrcColumn fk.fromColumn ∧ ends.1 = none then (some fk, ends.2)
    else if isDstColumn fk.fromColumn ∧ ends.2 = none then (ends.1, some fk)
    else ends) (none, none)

def boundEdge (edge : TableMapping) (srcNode dstNode : TableMapping)
    (decltype : String → String → String) : TableMapping :=
  { edge with
    srcLabel := srcNode.label
    srcPkColumn := srcNode.idColumn
    srcPkFromRowid := srcNode.idFromRowid
    srcPkDecltype := decltype edge.srcTable srcNode.idColumn
    dstLabel := dstNode.label
    dstPkColumn := dstNode.idColumn
    dstPkFromRowid := dstNode.idFromRowid
    dstPkDecltype := decltype edge.dstTable dstNode.idColumn }

-- the first table of the name
def findTable (tables : List SyncTable) (name : String) : Option SyncTable :=
  tables.find? fun t => t.name = name

def inferredDecltype (tables : List SyncTable) (nodeTable pkCol : String) : String :=
  match findTable tables nodeTable with
  | some t => decltypeOf t.columns pkCol
  | none => ""

def inferEdge (tables : List SyncTable) (nodes : ByTable TableMapping) (table : SyncTable) :
    Except String TableMapping :=
  match endpointKeys table.foreignKeys with
  | (some srcFk, some dstFk) =>
    match nodes.lookup srcFk.referencedTable, nodes.lookup dstFk.referencedTable with
    | some srcNode, some dstNode =>
      match findCol table.columns srcFk.fromColumn, findCol table.columns dstFk.fromColumn with
      | some srcIdx, some dstIdx =>
        .ok (boundEdge {
          kind := .edge
          sqliteTable := table.name
          label := table.name
          csrContract := startsWithLower table.name "csr_rel_"
          srcTable := srcFk.referencedTable
          dstTable := dstFk.referencedTable
          srcColIndex := srcIdx
          dstColIndex := dstIdx } srcNode dstNode (inferredDecltype tables))
      | _, _ => .error "endpoint column missing from table"
    | _, _ => .error "edge endpoints must reference mapped node tables"
  | _ => .error "edge table requires src/dst foreign keys to mapped node tables"

def inferEdgeInto (tables : List SyncTable) (nodes : ByTable TableMapping) (out : MappingResult)
    (table : SyncTable) : MappingResult :=
  if ¬ isEdgeName table.name then
    if isNodeName table.name then out
    else { out with
      skipped := out.skipped ++ [⟨table.name, "no node_/rel_ prefix; kept as foreign scan"⟩] }
  else match inferEdge tables nodes table with
    | .ok mapping => { out with mappings := out.mappings ++ [mapping] }
    | .error reason => { out with skipped := out.skipped ++ [⟨table.name, reason⟩] }

-- nodes first: the endpoints of an edge must resolve to nodes
def inferMappings (tables : List SyncTable) : MappingResult :=
  let out := tables.foldl inferNode {}
  tables.foldl (inferEdgeInto tables (mappingsByTable out.mappings)) out

structure ExplicitMapping where
  kind : String := ""
  label : String := ""
  idColumn : String := ""
  fromCol : String := ""
  toCol : String := ""
  deriving DecidableEq

/-- A tuple of the registration query, `none` for null. -/
structure MapRow where
  sqliteTable : Option String
  kind : Option String := none
  label : Option String := none
  idColumn : Option String := none
  fromCol : Option String := none
  toCol : Option String := none
  deriving DecidableEq

def readRegistration (map : ByTable ExplicitMapping) (row : MapRow) : ByTable ExplicitMapping :=
  match row.sqliteTable with
  | none => map
  | some table => map.insert table {
      kind := row.kind.getD ""
      label := row.label.getD ""
      idColumn := row.idColumn.getD ""
      fromCol := row.fromCol.getD ""
      toCol := row.toCol.getD "" }

def readRegistrations (rows : List MapRow) : ByTable ExplicitMapping :=
  rows.foldl readRegistration ∅

def labelOf (tableName : String) (exp : ExplicitMapping) : String :=
  if exp.label = "" then tableName else exp.label

-- the last column of the name
def idIndexOf (columns : List SyncColumn) (idColumn : String) : Nat :=
  columns.zipIdx.foldl (fun found col => if col.1.name = idColumn then col.2 else found) 0

def explicitIdentity (inferred : Option TableMapping) (table : SyncTable) (exp : ExplicitMapping)
    (m : TableMapping) : TableMapping :=
  let named : TableMapping :=
    let scan := scanPrimaryKey table.columns
    { m with
      idColumn := exp.idColumn
      idRecordIndex := idIndexOf table.columns exp.idColumn
      idFromRowid := scan.pkCols = 1 ∧ scan.pkIsInt }
  match inferred with
  | some inf =>
    if inf.kind = .node ∧ (exp.idColumn = "" ∨ exp.idColumn = inf.idColumn) then
      { m with
        idColumn := inf.idColumn
        idFromRowid := inf.idFromRowid
        idRecordIndex := inf.idRecordIndex }
    else named
  | none => named

/-- Pass 1, for one row: a registered table that no longer exists is ignored. -/
def explicitNode (tables : ByTable SyncTable) (inferred : ByTable TableMapping) (tableName : String)
    (exp : ExplicitMapping) : Option TableMapping :=
  if exp.kind = "edge" then none
  else (tables.lookup tableName).map fun table =>
    explicitIdentity (inferred.lookup tableName) table exp
      { sqliteTable := tableName, label := labelOf tableName exp }

def lookedUpDecltype (tables : ByTable SyncTable) (nodeTable pkCol : String) : String :=
  match tables.lookup nodeTable with
  | some t => decltypeOf t.columns pkCol
  | none => ""

def registeredEnds (foreignKeys : List SyncForeignKey) (exp : ExplicitMapping) : String × String :=
  foreignKeys.foldl (fun ends fk =>
    (if fk.fromColumn = exp.fromCol then fk.referencedTable else ends.1,
      if fk.fromColumn = exp.toCol then fk.referencedTable else ends.2)) ("", "")

/-- The registered columns are those inference found, or left out. -/
def matchesInferred (table : SyncTable) (exp : ExplicitMapping) (inf : TableMapping) : Bool :=
  inf.kind = .edge ∧ (exp.fromCol = "" ∨ exp.fromCol = columnName table.columns inf.srcColIndex) ∧
    (exp.toCol = "" ∨ exp.toCol = columnName table.columns inf.dstColIndex)

def registeredEdge (tables : ByTable SyncTable) (nodePool : ByTable TableMapping) (table : SyncTable)
    (tableName : String) (exp : ExplicitMapping) : Option TableMapping :=
  let ends := registeredEnds table.foreignKeys exp
  if ends.1 = "" ∨ ends.2 = "" then none   -- endpoints unresolvable
  else match nodePool.lookup ends.1, nodePool.lookup ends.2 with
    | some srcNode, some dstNode =>
      match findCol table.columns exp.fromCol, findCol table.columns exp.toCol with
      | some scol, some dcol =>
        some (boundEdge {
          kind := .edge
          sqliteTable := tableName
          label := labelOf tableName exp
          srcTable := ends.1
          dstTable := ends.2
          srcColIndex := scol
          dstColIndex := dcol } srcNode dstNode (lookedUpDecltype tables))
      | _, _ => none
    | _, _ => none   -- endpoints must be mapped node tables

/-- Pass 2, for one row. -/
def explicitEdge (tables : ByTable SyncTable) (inferred nodePool : ByTable TableMapping)
    (tableName : String) (exp : ExplicitMapping) : Option TableMapping :=
  if exp.kind ≠ "edge" then none
  else match tables.lookup tableName with
    | none => none
    | some table =>
      match (inferred.lookup tableName).filter (matchesInferred table exp) with
      | some inf => some { inf with label := labelOf tableName exp }
      | none => registeredEdge tables nodePool table tableName exp

/-- Every edge is bound to the final nodes, and dropped when an endpoint is not in the pool. -/
def rebind (tables : ByTable SyncTable) (nodePool : ByTable TableMapping) (m : TableMapping) :
    Option TableMapping :=
  if m.kind ≠ .edge then some m
  else match nodePool.lookup m.srcTable, nodePool.lookup m.dstTable with
    | some srcNode, some dstNode => some (boundEdge m srcNode dstNode (lookedUpDecltype tables))
    | _, _ => none

def inferredPool (inferred : ByTable TableMapping) : ByTable TableMapping :=
  inferred.entries.foldl (assign fun _ m => if m.kind = .node then some m else none) ∅

/-- The loops go over `inferred` and `explicit_` in the order of their entries. -/
def mergeMappings (tables : List SyncTable) (inferred : ByTable TableMapping)
    (explicit_ : ByTable ExplicitMapping) : List TableMapping :=
  let byName := tableByName tables
  -- pass 1 sets the pool and pushes the mapping in one round
  let node := explicitNode byName inferred
  let nodePool := explicit_.entries.foldl (assign node) (inferredPool inferred)
  let nodes := explicit_.entries.filterMap fun row => node row.1 row.2
  let edges := explicit_.entries.filterMap fun row =>
    explicitEdge byName inferred nodePool row.1 row.2
  -- pass 3: inferred tables with no explicit row
  let rest := (inferred.entries.filter fun e => e.1 ∉ explicit_).map Sigma.snd
  (nodes ++ edges ++ rest).filterMap (rebind byName nodePool)

/-- The mapping list of a tick, for some iteration order of the two maps. -/
def FinalMappings (tables : List SyncTable) (explicit_ : ByTable ExplicitMapping)
    (mappings : List TableMapping) : Prop :=
  ∃ inferred rows : AList _,
    inferred.entries.Perm (mappingsByTable (inferMappings tables).mappings).entries ∧
    rows.entries.Perm explicit_.entries ∧ mappings = mergeMappings tables inferred rows

end Ladybug.Sqlite.Planning
