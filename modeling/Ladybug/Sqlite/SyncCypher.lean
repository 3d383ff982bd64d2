import Mathlib.Data.List.Infix
import Ladybug.Base.Unescaping
import Ladybug.Sqlite.OpResolver

/-!
# The statement builder (`cdc/sync_mapping.h`, `cdc/sync_cypher.h`, `cdc/sync_cypher.cpp`)

Resolved row operations become Cypher statements: DDL, `UNWIND`-batched node and edge statements and
the cursor write.  A statement is kept as its parts; `Statement.text` is the string the source
builds from them.  A character of a text stands for one byte.
-/

namespace Ladybug.Sqlite

open Bytes

structure SyncColumn where
  name : String
  decltype : String := ""
  deriving DecidableEq

inductive MappingKind where
  | node
  | edge
  deriving DecidableEq

structure TableMapping where
  kind : MappingKind := .node
  sqliteTable : String
  label : String
  -- node identity
  idFromRowid : Bool := false
  idRecordIndex : Nat := 0
  idColumn : String := ""
  -- endpoint columns in the edge record, and the endpoint nodes' identity columns
  srcLabel : String := ""
  dstLabel : String := ""
  srcColIndex : Nat := 0
  dstColIndex : Nat := 0
  srcPkColumn : String := ""
  dstPkColumn : String := ""
  srcPkDecltype : String := ""
  dstPkDecltype : String := ""
  deriving DecidableEq

inductive CypherType where
  | int64
  | int32
  | int16
  | int8
  | double
  | float
  | boolean
  | date
  | timestamp
  | blob
  | string
  deriving DecidableEq

def CypherType.text : CypherType → String
  | .int64 => "INT64"
  | .int32 => "INT32"
  | .int16 => "INT16"
  | .int8 => "INT8"
  | .double => "DOUBLE"
  | .float => "FLOAT"
  | .boolean => "BOOLEAN"
  | .date => "DATE"
  | .timestamp => "TIMESTAMP"
  | .blob => "BLOB"
  | .string => "STRING"

def containsWord (upper word : String) : Bool := decide (word.toList <:+: upper.toList)

def cypherTypeForDecl (decltype : String) : CypherType :=
  let upper := decltype.toUpper
  if upper = "" ∨ upper = "NULL" ∨ containsWord upper "BLOB" then .blob
  else if upper = "DATE" ∨ "DATE(".toList <+: upper.toList then .date
  else if containsWord upper "DATETIME" ∨ containsWord upper "TIMESTAMP" then .timestamp
  else if containsWord upper "INT" then .int64
  else if upper = "BOOLEAN" ∨ upper = "BOOL" then .int64
  else if containsWord upper "CHAR" ∨ containsWord upper "CLOB" ∨ containsWord upper "TEXT" then
    .string
  else if containsWord upper "REAL" ∨ containsWord upper "FLOA" ∨ containsWord upper "DOUB" then
    .double
  else .string   -- NUMERIC, DECIMAL and anything unknown

structure BoundColumn where
  name : String
  type : CypherType
  recordIndex : Nat
  deriving DecidableEq

structure BoundTarget where
  mapping : TableMapping
  columns : List BoundColumn
  props : List BoundColumn
  idType : CypherType := .int64
  srcIdType : CypherType := .int64
  dstIdType : CypherType := .int64
  deriving DecidableEq

def boundColumn (col : SyncColumn × Nat) : BoundColumn where
  name := col.1.name
  type := cypherTypeForDecl col.1.decltype
  recordIndex := col.2

-- identity and endpoint columns live in the MERGE key and the MATCH patterns, not among the props
def isProp (mapping : TableMapping) (col : BoundColumn) : Bool :=
  match mapping.kind with
  | .node =>
    if mapping.idFromRowid then col.name ≠ mapping.idColumn
    else col.recordIndex ≠ mapping.idRecordIndex
  | .edge => col.recordIndex ≠ mapping.srcColIndex ∧ col.recordIndex ≠ mapping.dstColIndex

def bindTarget (mapping : TableMapping) (recordColumns : List SyncColumn) : BoundTarget :=
  let columns := recordColumns.zipIdx.map boundColumn
  { mapping
    columns
    props := columns.filter (isProp mapping)
    idType := if mapping.idFromRowid then .int64
      else match columns[mapping.idRecordIndex]? with
        | some col => col.type
        | none => .int64
    srcIdType := cypherTypeForDecl mapping.srcPkDecltype
    dstIdType := cypherTypeForDecl mapping.dstPkDecltype }

/-- `std::to_chars` on the double with the given bits: its shortest round-trip form. -/
class RenderDouble where
  renderDouble : UInt64 → String

def escapeChar (c : Char) : String :=
  if c = quoteChar then "''"
  else if c = '\\' then "\\\\"
  else if c = '\n' then "\\n"
  else if c = '\r' then "\\r"
  else if c = '\t' then "\\t"
  else c.toString

def escapeString (s : String) : String := String.join (s.toList.map escapeChar)

def textOfBytes (bytes : Bytes) : String :=
  String.ofList (bytes.map fun b => Char.ofNat b.toNat)

def hexDigit (n : Nat) : Char := "0123456789ABCDEF".toList.getD n '0'

-- printable ASCII raw except the quote and the backslash, everything else \xHH
def escapeByte (b : UInt8) : String :=
  if b = 0x27 then "''"
  else if b = 0x5c then "\\\\"
  else if 0x20 ≤ b ∧ b ≤ 0x7e then (Char.ofNat b.toNat).toString
  else String.ofList ['\\', 'x', hexDigit (b.toNat / 16), hexDigit (b.toNat % 16)]

def escapeBlob (bytes : Bytes) : String := String.join (bytes.map escapeByte)

def quoted (s : String) : String := "'" ++ s ++ "'"

/-- A literal, or the error of a value whose storage class does not fit the column type. -/
def renderCypherValue [RenderDouble] (value : SqliteValue) (type : CypherType) :
    Except String String :=
  match value with
  | .null => .ok "null"
  | _ =>
  match type with
  | .int64 | .int32 | .int16 | .int8 =>
    match value with
    | .integer v => .ok (toString v)
    | _ => .error "Non-integer storage in integer column"
  | .double | .float =>
    match value with
    | .integer v => .ok (toString v ++ ".0")
    | .real bits => .ok (RenderDouble.renderDouble bits)
    | _ => .error "Non-numeric storage in float column"
  | .boolean =>
    match value with
    | .integer v =>
      if v = 0 then .ok "false" else if v = 1 then .ok "true"
      else .error "Non-boolean storage in boolean column"
    | _ => .error "Non-boolean storage in boolean column"
  | .date =>
    match value with
    | .text bytes => .ok ("date(" ++ quoted (escapeString (textOfBytes bytes)) ++ ")")
    | _ => .error "Non-text storage in DATE column"
  | .timestamp =>
    match value with
    | .text bytes => .ok ("timestamp(" ++ quoted (escapeString (textOfBytes bytes)) ++ ")")
    | _ => .error "Non-text storage in TIMESTAMP column"
  | .blob =>
    match value with
    | .blob bytes | .text bytes => .ok ("BLOB(" ++ quoted (escapeBlob bytes) ++ ")")
    | _ => .error "Non-blob storage in BLOB column"
  | .string =>
    match value with
    | .integer v => .ok (quoted (toString v))
    | .real bits => .ok (quoted (RenderDouble.renderDouble bits))
    | .blob bytes => .ok (quoted (escapeBlob bytes))
    | .text bytes => .ok (quoted (escapeString (textOfBytes bytes)))
    | .null => .ok "null"

def renderIdentity [RenderDouble] (target : BoundTarget) (op : RowOp) : Except String String :=
  if target.mapping.idFromRowid then .ok (toString op.rowid)
  else match op.values[target.mapping.idRecordIndex]? with
    | none => .error "Record shorter than id column index"
    | some v => renderCypherValue v target.idType

def renderEndpoint [RenderDouble] (values : List SqliteValue) (recordIndex : Nat)
    (idType : CypherType) : Except String String :=
  match values[recordIndex]? with
  | none => .error "Record shorter than endpoint column index"
  | some v => renderCypherValue v idType

def isSimpleIdent (name : String) : Bool :=
  match name.toList with
  | [] => false
  | c :: cs => (c.isAlpha ∨ c = '_' ∨ c = '$') ∧ cs.all fun c => c.isAlphanum ∨ c = '_'

def backtick : Char := Char.ofNat 0x60

def quoteCypherIdent (name : String) : String :=
  if isSimpleIdent name then name
  else
    let body := name.toList.flatMap fun c => if c = backtick then [c, c] else [c]
    String.ofList ([backtick] ++ body ++ [backtick])

/-- A struct literal of an `UNWIND` list: field names and literals. -/
abbrev RowLit := List (String × String)

structure RelPattern where
  label : String
  srcLabel : String
  srcKey : String
  dstLabel : String
  dstKey : String
  deriving DecidableEq

inductive Statement where
  | ddl (text : String)
  | nodeUpsert (label idKey : String) (props : List String) (rows : List RowLit)
  | nodeDelete (label idKey : String) (ids : List String)
  | slotClear (label : String) (rows : List RowLit)
  | edgeCreate (rel : RelPattern) (props : List String) (rows : List RowLit)
  | edgeDelete (rel : RelPattern) (rows : List RowLit)
  | cursorUpsert (syncName : String) (salt1 salt2 : UInt32) (appliedFrames : Nat)
  deriving DecidableEq

def EDGE_RID_PROP : String := "_sqlite_rowid"

def join (parts : List String) (sep : String) : String := sep.intercalate parts

def rowText (row : RowLit) : String :=
  "\x7b" ++ join (row.map fun f ↦ quoteCypherIdent f.1 ++ ": " ++ f.2) ", " ++ "\x7d"

def unwindText (items : List String) : String := "UNWIND [" ++ join items ", " ++ "] AS row "

def keyText (key field : String) : String :=
  " \x7b" ++ quoteCypherIdent key ++ ": row." ++ quoteCypherIdent field ++ "\x7d"

def Statement.text : Statement → String
  | .ddl text => text
  | .nodeUpsert label idKey props rows =>
    let sets := props.map fun p ↦ "n." ++ quoteCypherIdent p ++ " = row." ++ quoteCypherIdent p
    unwindText (rows.map rowText) ++ "MERGE (n:" ++ quoteCypherIdent label ++
      keyText idKey idKey ++ ")" ++ if sets = [] then "" else " SET " ++ join sets ", "
  | .nodeDelete label idKey ids =>
    unwindText ids ++ "MATCH (n:" ++ quoteCypherIdent label ++ " \x7b" ++
      quoteCypherIdent idKey ++ ": row\x7d) DETACH DELETE n"
  | .slotClear label rows =>
    unwindText (rows.map rowText) ++ "MATCH ()-[e:" ++ quoteCypherIdent label ++
      keyText EDGE_RID_PROP EDGE_RID_PROP ++ "]->() DELETE e"
  | .edgeCreate rel props rows =>
    let creates := (props ++ [EDGE_RID_PROP]).map fun p =>
      quoteCypherIdent p ++ ": row." ++ quoteCypherIdent p
    unwindText (rows.map rowText) ++ "MATCH (a:" ++ quoteCypherIdent rel.srcLabel ++
      keyText rel.srcKey "src" ++ "), (b:" ++ quoteCypherIdent rel.dstLabel ++
      keyText rel.dstKey "dst" ++ ") CREATE (a)-[e:" ++ quoteCypherIdent rel.label ++ " \x7b" ++
      join creates ", " ++ "\x7d]->(b)"
  | .edgeDelete rel rows =>
    unwindText (rows.map rowText) ++ "MATCH (a:" ++ quoteCypherIdent rel.srcLabel ++
      keyText rel.srcKey "src" ++ ")-[e:" ++ quoteCypherIdent rel.label ++ "]->(b:" ++
      quoteCypherIdent rel.dstLabel ++ keyText rel.dstKey "dst" ++ ") DELETE e"
  | .cursorUpsert syncName salt1 salt2 appliedFrames =>
    "MERGE (c:__sqlite_cdc_cursor \x7bsync: " ++ quoted (escapeString syncName) ++ "\x7d) SET " ++
      "c.salt1 = " ++ toString salt1.toNat ++ ", c.salt2 = " ++ toString salt2.toNat ++
      ", c.applied = " ++ toString appliedFrames

def columnDdl (col : BoundColumn) : String := quoteCypherIdent col.name ++ " " ++ col.type.text

def buildNodeDdl (target : BoundTarget) : Statement :=
  let defs := target.columns.map columnDdl ++
    ["PRIMARY KEY(" ++ quoteCypherIdent target.mapping.idColumn ++ ")"]
  .ddl ("CREATE NODE TABLE IF NOT EXISTS " ++ quoteCypherIdent target.mapping.label ++ "(" ++
    join defs ", " ++ ")")

def buildRelDdl (target : BoundTarget) : Statement :=
  let props := target.props.map fun col ↦ ", " ++ columnDdl col
  .ddl ("CREATE REL TABLE IF NOT EXISTS " ++ quoteCypherIdent target.mapping.label ++
    "(FROM " ++ quoteCypherIdent target.mapping.srcLabel ++ " TO " ++
    quoteCypherIdent target.mapping.dstLabel ++ String.join props ++ ", " ++
    quoteCypherIdent EDGE_RID_PROP ++ " INT64)")

def buildCursorDdl : Statement :=
  .ddl ("CREATE NODE TABLE IF NOT EXISTS __sqlite_cdc_cursor(sync STRING, salt1 INT64, salt2 " ++
    "INT64, applied INT64, PRIMARY KEY(sync))")

/-- The slices `[begin, end)` of the loop `for (begin = 0; begin < size; begin += n)`. -/
def chunks {α : Type} (n : Nat) (xs : List α) : List (List α) :=
  (List.range ((xs.length + n - 1) / n)).map fun i => (xs.drop (i * n)).take n

/-- The loop over chunks: operations without an item are skipped, so are chunks without items. -/
def batched {α β : Type} (batchSize : Nat) (item : α → Option β) (build : List β → List Statement)
    (ops : List α) : List Statement :=
  (chunks (if batchSize = 0 then 1 else batchSize) ops).flatMap fun chunk =>
    let items := chunk.filterMap item
    if items.isEmpty then [] else build items

variable [RenderDouble]

/-- The fields of the properties that are in the record and render. -/
def BoundTarget.propFields (target : BoundTarget) (values : List SqliteValue) : RowLit :=
  target.props.filterMap fun p =>
    match values[p.recordIndex]? with
    | none => none
    | some v => (renderCypherValue v p.type).toOption.map fun lit => (p.name, lit)

def nodeRow (target : BoundTarget) (op : RowOp) : Option RowLit :=
  match renderIdentity target op with
  | .error _ => none
  | .ok lit => some ((target.mapping.idColumn, lit) :: target.propFields op.values)

def buildNodeUpserts (target : BoundTarget) (ops : List RowOp) (batchSize : Nat := 500) :
    List Statement :=
  batched batchSize (nodeRow target)
    (fun rows => [.nodeUpsert target.mapping.label target.mapping.idColumn
      (target.props.map BoundColumn.name) rows]) ops

/-- Rowid-sourced identities come from the rowid, others from the value the resolver retained. -/
def deleteId (target : BoundTarget) (op : RowDelete) : Option String :=
  if target.mapping.idFromRowid then some (toString op.rowid)
  else match op.identity with
    | some v => (renderCypherValue v target.idType).toOption
    | none => none

def buildNodeDeletes (target : BoundTarget) (ops : List RowDelete) (batchSize : Nat := 2000) :
    List Statement :=
  batched batchSize (deleteId target)
    (fun ids => [.nodeDelete target.mapping.label target.mapping.idColumn ids]) ops

def BoundTarget.rel (target : BoundTarget) : RelPattern where
  label := target.mapping.label
  srcLabel := target.mapping.srcLabel
  srcKey := target.mapping.srcPkColumn
  dstLabel := target.mapping.dstLabel
  dstKey := target.mapping.dstPkColumn

def BoundTarget.endpoints (target : BoundTarget) (values : List SqliteValue) :
    Except String (String × String) := do
  let src ← renderEndpoint values target.mapping.srcColIndex target.srcIdType
  let dst ← renderEndpoint values target.mapping.dstColIndex target.dstIdType
  return (src, dst)

def edgeRow (target : BoundTarget) (op : RowOp) : Option RowLit :=
  match target.endpoints op.values with
  | .error _ => none
  | .ok ends => some ([("src", ends.1), ("dst", ends.2), (EDGE_RID_PROP, toString op.rowid)] ++
      target.propFields op.values)

-- slot clear first: a reused rowid may point at other endpoints than the edge in the slot
def buildEdgeUpserts (target : BoundTarget) (ops : List RowOp) (batchSize : Nat := 500) :
    List Statement :=
  batched batchSize (edgeRow target) (fun rows => [.slotClear target.mapping.label rows,
      .edgeCreate target.rel (target.props.map BoundColumn.name) rows]) ops

def edgeEnds (target : BoundTarget) (op : RowOp) : Option RowLit :=
  match target.endpoints op.values with
  | .error _ => none
  | .ok ends => some [("src", ends.1), ("dst", ends.2)]

def buildEdgeDeletes (target : BoundTarget) (ops : List RowOp) (batchSize : Nat := 2000) :
    List Statement :=
  batched batchSize (edgeEnds target) (fun rows => [.edgeDelete target.rel rows]) ops

def buildCursorUpsert (syncName : String) (salt1 salt2 : UInt32) (appliedFrames : Nat) :
    Statement :=
  .cursorUpsert syncName salt1 salt2 appliedFrames

end Ladybug.Sqlite
