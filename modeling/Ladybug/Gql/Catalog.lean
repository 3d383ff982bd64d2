import Ladybug.Base.Markup

/-!
# The GQL catalog (`gql/src/gql_transformer.cpp`)

A catalog lists logical schema paths and, under logical paths, graphs and graph types with the names
the engine knows them by.  Names and paths are bytes as the query spells them; the parse tree's nodes
are given by their source texts.  `bindFunc` always passes a registry and a catalog, so the branches
for missing ones are left out.
-/

namespace Ladybug.GqlCatalog

open Markup (ascii)

structure GraphTypeProp where
  name : Bytes
  type : Bytes
  deriving DecidableEq

structure GraphTypeNode where
  name : Bytes
  props : List GraphTypeProp
  deriving DecidableEq

structure GraphTypeEdge where
  name : Bytes
  source : Bytes
  target : Bytes
  props : List GraphTypeProp
  deriving DecidableEq

structure GraphTypeSpec where
  nodes : List GraphTypeNode
  edges : List GraphTypeEdge
  deriving DecidableEq

abbrev GraphTypeRegistry := Std.ExtTreeMap Bytes GraphTypeSpec

inductive MemberKind where
  | graph
  | graphType
  deriving DecidableEq

structure Member where
  physical : Bytes
  kind : MemberKind
  deriving DecidableEq

structure SchemaCatalog where
  schemas : Std.ExtTreeSet Bytes
  members : Std.ExtTreeMap Bytes Member
  physicalToLogical : Std.ExtTreeMap Bytes Bytes

def SchemaCatalog.empty : SchemaCatalog := ⟨∅, ∅, ∅⟩

structure CatalogState where
  registry : GraphTypeRegistry
  catalog : SchemaCatalog

def CatalogState.empty : CatalogState := ⟨∅, .empty⟩

def unsupported (feature : Bytes) : Bytes := ascii "GQL feature not supported: " ++ feature

def schemaError (message : Bytes) : Bytes := ascii "[42000] " ++ message

def slash : UInt8 := '/'.toUInt8

def doubleQuote : UInt8 := '"'.toUInt8

def singleQuote : UInt8 := '\''.toUInt8

def graveAccent : UInt8 := 0x60

def dollar : UInt8 := '$'.toUInt8

/-- `std::isspace` in the C locale. -/
def isSpace (c : UInt8) : Bool := c == 0x20 || (0x09 ≤ c && c ≤ 0x0d)

/-- `std::toupper` in the C locale. -/
def toUpper (c : UInt8) : UInt8 := if 0x61 ≤ c && c ≤ 0x7a then c - 0x20 else c

def upperCopy (s : Bytes) : Bytes := s.map toUpper

def iequals (a b : Bytes) : Bool := decide (upperCopy a = upperCopy b)

/-- One layer of delimiting quotes is taken away. -/
def stripDelims (s : Bytes) : Bytes :=
  if 2 ≤ s.length ∧ ((s.head? = some doubleQuote ∧ s.getLast? = some doubleQuote) ∨
      (s.head? = some graveAccent ∧ s.getLast? = some graveAccent)) then
    (s.drop 1).take (s.length - 2)
  else s

/-- The loop of `normalizePathWhitespace`; `quote` is the character that ends the quoted text. -/
def dropUnquotedSpace : Option UInt8 → Bytes → Bytes
  | _, [] => []
  | some q, c :: cs => c :: dropUnquotedSpace (if c = q then none else some q) cs
  | none, c :: cs =>
    if c = doubleQuote ∨ c = singleQuote ∨ c = graveAccent then
      c :: dropUnquotedSpace (some c) cs
    else if isSpace c then dropUnquotedSpace none cs
    else c :: dropUnquotedSpace none cs

def normalizePathWhitespace (raw : Bytes) : Bytes := dropUnquotedSpace none raw

/-- The parts between slashes that the loops over a path stop at: empty ones are passed over. -/
def pathSegments (path : Bytes) : List Bytes :=
  (path.splitOn slash).filter fun segment => !segment.isEmpty

def reservedPrefix : Bytes := ascii "_gqlsch__"

def manglePhysical (logicalPath : Bytes) : Bytes :=
  reservedPrefix ++ (ascii "__").intercalate (pathSegments logicalPath)

def checkReservedPrefix (identifier : Bytes) : Except Bytes Unit :=
  if reservedPrefix <+: identifier then
    .error (unsupported
      (ascii "identifier with reserved _gqlsch__ prefix (" ++ identifier ++ ascii ")"))
  else .ok ()

def checkReservedInPath (path : Bytes) : Except Bytes Unit :=
  (pathSegments path).forM fun segment => checkReservedPrefix (stripDelims segment)

def directoriesAbove (path : Bytes) : List Bytes :=
  ((List.range path.length).filter fun i => decide (1 ≤ i) && path[i]? == some slash).map path.take

namespace SchemaCatalog

def directories (catalog : SchemaCatalog) : Std.ExtTreeSet Bytes :=
  .ofList (catalog.schemas.toList.flatMap directoriesAbove) compare

def isDirectory (catalog : SchemaCatalog) (path : Bytes) : Bool := catalog.directories.contains path

def hasMembersUnder (catalog : SchemaCatalog) (path : Bytes) : Bool :=
  catalog.members.keys.any fun logical => decide (path ++ [slash] <+: logical)

def addMember (catalog : SchemaCatalog) (logical physical : Bytes) (kind : MemberKind) :
    SchemaCatalog :=
  -- a stale reverse entry of the path goes first
  let reverse := match catalog.members[logical]? with
    | some old => catalog.physicalToLogical.erase old.physical
    | none => catalog.physicalToLogical
  { catalog with
    members := catalog.members.insert logical ⟨physical, kind⟩
    physicalToLogical := reverse.insert physical logical }

def removeMemberByLogical (catalog : SchemaCatalog) (logical : Bytes) : SchemaCatalog :=
  match catalog.members[logical]? with
  | some old =>
    { catalog with
      members := catalog.members.erase logical
      physicalToLogical := catalog.physicalToLogical.erase old.physical }
  | none => catalog

end SchemaCatalog

def resolvePhysical (catalog : SchemaCatalog) (logicalPath : Bytes) (createMapping : Bool)
    (kind : MemberKind) : Except Bytes (Bytes × SchemaCatalog) := do
  checkReservedInPath logicalPath
  match catalog.members[logicalPath]? with
  | some found => .ok (found.physical, catalog)
  | none =>
    let physical := manglePhysical logicalPath
    if createMapping then .ok (physical, catalog.addMember logicalPath physical kind)
    else .ok (physical, catalog)

def schemaPathText (text : Bytes) : Except Bytes Bytes := do
  let path := normalizePathWhitespace text
  if path.head? ≠ some slash then
    .error (unsupported (ascii "relative schema path (" ++ path ++ ascii ")"))
  checkReservedInPath path
  .ok path

structure CatalogObjectParentReference where
  schemaReference : Option Bytes
  objectNames : List Bytes
  deriving DecidableEq

/-- A name with an optional parent (`catalogGraphParentAndName`, `catalogGraphTypeParentAndName`, or a
`graphReference` with a parent), by the source texts of the whole and of its last name. -/
structure ParentAndName where
  whole : Bytes
  parent : Option CatalogObjectParentReference
  name : Bytes
  deriving DecidableEq

def withSlash (path : Bytes) : Bytes := if path.getLast? = some slash then path else path ++ [slash]

def appendName (path name : Bytes) : Bytes :=
  withSlash path ++ stripDelims (normalizePathWhitespace name)

def dottedRoot (schemaReference : Option Bytes) : Except Bytes Bytes :=
  match schemaReference with
  | none => .ok []
  | some text =>
    let path := normalizePathWhitespace text
    if path.head? = some dollar then .error (unsupported (ascii "schema reference parameter"))
    else if path.head? ≠ some slash then
      .error (unsupported (ascii "relative schema reference not supported"))
    else .ok path

def qualifiedCatalogPath (whole : Bytes) (parent : CatalogObjectParentReference) (finalName : Bytes) :
    Except Bytes Bytes :=
  if parent.objectNames.isEmpty then
    -- root-anchored without a dotted tail: the spelling stays byte for byte
    let logical := normalizePathWhitespace whole
    if logical.head? ≠ some slash then
      .error (unsupported (ascii "relative schema reference not supported"))
    else .ok logical
  else do
    let path ← dottedRoot parent.schemaReference
    .ok (appendName (parent.objectNames.foldl appendName path) finalName)

end Ladybug.GqlCatalog
