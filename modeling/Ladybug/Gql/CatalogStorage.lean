import Ladybug.Base.Records
import Ladybug.Gql.Catalog

/-!
# The stored catalog (`gql/src/gql_transformer.cpp`)

Between two calls the registry and the catalog are one string: a line for each graph type, node type,
edge type, schema and member, its fields between tabs.  Both readers go over all lines and take those
with their own letters.  Nothing is escaped, so what is read back is exact when no field holds a
separator, and only then.
-/

namespace Ladybug.GqlCatalog

open Markup (ascii)
open Records

def tab : UInt8 := 0x09

def newline : UInt8 := 0x0a

def colon : UInt8 := ':'.toUInt8

/-- A line, without its newline. -/
def record (fields : List Bytes) : Bytes := [tab].intercalate fields

def ended (ls : List Bytes) : Bytes := ls.flatMap (· ++ [newline])

def propField (p : GraphTypeProp) : Bytes := p.name ++ colon :: p.type

def nodeLine (n : GraphTypeNode) : Bytes :=
  record (ascii "N" :: n.name :: n.props.map propField)

def edgeLine (e : GraphTypeEdge) : Bytes :=
  record (ascii "E" :: e.name :: e.source :: e.target :: e.props.map propField)

def typeLines (entry : Bytes × GraphTypeSpec) : List Bytes :=
  record [ascii "T", entry.1] :: (entry.2.nodes.map nodeLine ++ entry.2.edges.map edgeLine)

def serializeGraphTypes (registry : GraphTypeRegistry) : Bytes :=
  ended (registry.toList.flatMap typeLines)

def kindLetter : MemberKind → Bytes
  | .graph => ascii "G"
  | .graphType => ascii "T"

def schemaLine (path : Bytes) : Bytes := record [ascii "Z", path]

def memberLine (entry : Bytes × Member) : Bytes :=
  record [ascii "M", entry.1, entry.2.physical, kindLetter entry.2.kind]

def serializeSchemaCatalog (catalog : SchemaCatalog) : Bytes :=
  ended (catalog.schemas.toList.map schemaLine ++ catalog.members.toList.map memberLine)

/-- The registry read so far, and the key of the entry that `current` points to. -/
structure GraphTypeReader where
  registry : GraphTypeRegistry
  current : Option Bytes

def readProp (part : Bytes) : Option GraphTypeProp :=
  (part.findIdx? (· == colon)).map fun i => ⟨part.take i, part.drop (i + 1)⟩

def GraphTypeReader.modify (reader : GraphTypeReader) (f : GraphTypeSpec → GraphTypeSpec) :
    GraphTypeReader :=
  match reader.current with
  | none => reader
  | some key =>
    { reader with
      registry := reader.registry.insert key (f (reader.registry[key]?.getD ⟨[], []⟩)) }

def readGraphTypeLine (reader : GraphTypeReader) (line : Bytes) : GraphTypeReader :=
  match line.splitOn tab with
  | tag :: name :: rest =>
    if tag = ascii "T" then ⟨reader.registry.insert name ⟨[], []⟩, some name⟩
    else if tag = ascii "N" then
      reader.modify fun spec =>
        { spec with nodes := spec.nodes ++ [⟨name, rest.filterMap readProp⟩] }
    else if tag = ascii "E" then
      match rest with
      | source :: target :: props =>
        reader.modify fun spec =>
          { spec with edges := spec.edges ++ [⟨name, source, target, props.filterMap readProp⟩] }
      | _ => reader
    else reader
  | _ => reader

def deserializeGraphTypes (data : Bytes) : GraphTypeRegistry :=
  ((lines newline data).foldl readGraphTypeLine ⟨∅, none⟩).registry

def readMember (catalog : SchemaCatalog) (parts : List Bytes) : SchemaCatalog :=
  match parts with
  | [logical, physical, kind] =>
    catalog.addMember logical physical (if kind = ascii "T" then .graphType else .graph)
  | _ => catalog

def readCatalogLine (catalog : SchemaCatalog) (line : Bytes) : SchemaCatalog :=
  match line with
  | letter :: c :: rest =>
    if c ≠ tab then catalog
    else if letter = 'Z'.toUInt8 then { catalog with schemas := catalog.schemas.insert rest }
    else if letter = 'M'.toUInt8 then readMember catalog (rest.splitOn tab)
    else catalog
  | _ => catalog

def deserializeSchemaCatalog (data : Bytes) : SchemaCatalog :=
  (lines newline data).foldl readCatalogLine .empty

/-- What `bindFunc` stores after a translation. -/
def storeCatalog (st : CatalogState) : Bytes :=
  serializeGraphTypes st.registry ++ serializeSchemaCatalog st.catalog

/-- What `bindFunc` works on. -/
def loadCatalog (data : Bytes) : CatalogState :=
  ⟨deserializeGraphTypes data, deserializeSchemaCatalog data⟩

def storedLines (st : CatalogState) : List Bytes :=
  st.registry.toList.flatMap typeLines ++
    (st.catalog.schemas.toList.map schemaLine ++ st.catalog.members.toList.map memberLine)

theorem storeCatalog_eq (st : CatalogState) : storeCatalog st = ended (storedLines st) := by
  show ended _ ++ ended _ = ended _
  unfold storedLines ended
  simp only [List.flatMap_append]

/-- The logical paths by physical names, as reading the members in their order leaves them. -/
def reverseOf (members : List (Bytes × Member)) : Std.ExtTreeMap Bytes Bytes :=
  members.foldl (fun reverse entry => reverse.insert entry.2.physical entry.1) ∅

/-- A member whose line is cut into its own fields. -/
def tabless (logical : Bytes) (found : Member) : Bool :=
  decide (tab ∉ logical ∧ tab ∉ found.physical)

/-- A text that can stand between two tabs of a line. -/
structure Field (text : Bytes) : Prop where
  tab : tab ∉ text
  newline : newline ∉ text

/-- A property is stored exactly: its name ends at the first colon. -/
structure GraphTypeProp.Storable (p : GraphTypeProp) : Prop where
  name : Field p.name
  uncut : colon ∉ p.name
  type : Field p.type

structure GraphTypeNode.Storable (n : GraphTypeNode) : Prop where
  name : Field n.name
  props : ∀ p ∈ n.props, p.Storable

structure GraphTypeEdge.Storable (e : GraphTypeEdge) : Prop where
  name : Field e.name
  source : Field e.source
  target : Field e.target
  props : ∀ p ∈ e.props, p.Storable

structure GraphTypeSpec.Storable (spec : GraphTypeSpec) : Prop where
  nodes : ∀ n ∈ spec.nodes, n.Storable
  edges : ∀ e ∈ spec.edges, e.Storable

def StorableRegistry (registry : GraphTypeRegistry) : Prop :=
  ∀ key spec, registry[key]? = some spec → Field key ∧ spec.Storable

/-- Schemas and members are stored exactly; schema paths end their lines, so tabs do not split them. -/
structure StorableNames (catalog : SchemaCatalog) : Prop where
  schemas : ∀ path ∈ catalog.schemas, newline ∉ path
  members : ∀ logical found, catalog.members[logical]? = some found →
    Field logical ∧ Field found.physical

/-- No name holds a separator of the place it is stored in, and the physical names lead back as the
order of the members says. -/
structure Storable (st : CatalogState) : Prop where
  registry : StorableRegistry st.registry
  names : StorableNames st.catalog
  reverse : st.catalog.physicalToLogical = reverseOf st.catalog.members.toList

end Ladybug.GqlCatalog
