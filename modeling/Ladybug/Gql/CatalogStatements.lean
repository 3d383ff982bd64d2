import Ladybug.Gql.Catalog

/-!
# Catalog statements (`gql/src/gql_transformer.cpp`)

Each statement is translated into Cypher statements for the engine, and changes the registry of graph
types and the schema catalog.  A graph type written out in a statement is given by what
`parseGraphTypeSpecification` makes of it.
-/

namespace Ladybug.GqlCatalog

open Markup (ascii)

inductive GraphTypeReference where
  | catalog (name : ParentAndName)
  | parameter
  deriving DecidableEq

inductive GraphExpression where
  | qualified (whole : Bytes) (parent : CatalogObjectParentReference) (graphName : Bytes)
  | plain (raw : Bytes)
  deriving DecidableEq

abbrev NestedSpecification := Except Bytes GraphTypeSpec

inductive GraphTypeClause where
  | openGraphType
  | likeGraph
  | reference (ref : GraphTypeReference)
  | nested (spec : NestedSpecification)

inductive GraphTypeSource where
  | nested (spec : NestedSpecification)
  | copyOfGraphType (ref : GraphTypeReference)
  | likeGraph

structure CreateGraphStatement where
  orReplace : Bool
  ifNotExists : Bool
  parentAndName : ParentAndName
  typeClause : GraphTypeClause
  graphSource : Option GraphExpression

structure CreateGraphTypeStatement where
  orReplace : Bool
  ifNotExists : Bool
  parentAndName : ParentAndName
  graphTypeSource : GraphTypeSource

inductive CatalogStatement where
  | createSchema (ifNotExists : Bool) (path : Bytes)
  | dropSchema (ifExists : Bool) (path : Bytes)
  | createGraph (ctx : CreateGraphStatement)
  | dropGraph (ifExists : Bool) (parentAndName : ParentAndName)
  | createGraphType (ctx : CreateGraphTypeStatement)
  | dropGraphType (ifExists : Bool) (parentAndName : ParentAndName)

inductive CypherStatement where
  | createGraph (name : Bytes) (any : Bool)
  | useGraph (name : Bytes)
  | createNodeTable (node : GraphTypeNode)
  | createRelTable (name : Bytes) (endpoints : List (Bytes × Bytes)) (props : List GraphTypeProp)
  | dropGraph (ifExists : Bool) (name : Bytes)
  | emptyResult
  deriving DecidableEq

def emptyResultCypher : Bytes := ascii "WITH 0 AS _gql_r WHERE false RETURN _gql_r"

def propText (p : GraphTypeProp) : Bytes := p.name ++ ascii " " ++ p.type

def CypherStatement.text : CypherStatement → Bytes
  | .createGraph name any => ascii "CREATE GRAPH " ++ name ++ if any then ascii " ANY" else []
  | .useGraph name => ascii "USE GRAPH " ++ name
  | .createNodeTable node =>
    ascii "CREATE NODE TABLE " ++ node.name ++ ascii "(_gql_id SERIAL PRIMARY KEY" ++
      node.props.flatMap (fun p ↦ ascii ", " ++ propText p) ++ ascii ")"
  | .createRelTable name endpoints props =>
    ascii "CREATE REL TABLE " ++ name ++ ascii "(" ++ (ascii ", ").intercalate
        (endpoints.map (fun pair ↦ ascii "FROM " ++ pair.1 ++ ascii " TO " ++ pair.2) ++
          props.map propText) ++ ascii ")"
  | .dropGraph ifExists name =>
    ascii "DROP GRAPH " ++ (if ifExists then ascii "IF EXISTS " else []) ++ name
  | .emptyResult => emptyResultCypher

def cypherText (statements : List CypherStatement) : Bytes :=
  (ascii "; ").intercalate (statements.map CypherStatement.text)

def edgeTypeNames (edges : List GraphTypeEdge) : List Bytes :=
  edges.foldl (fun order e =>
    if order.any fun name => iequals name e.name then order else order ++ [e.name]) []

def createRelTable (edges : List GraphTypeEdge) (name : Bytes) : CypherStatement :=
  let pairs := edges.filter fun e => iequals e.name name
  .createRelTable name (pairs.map fun e => (e.source, e.target))
    ((pairs.head?.map GraphTypeEdge.props).getD [])

def emitGraphTypeDdl (graphName : Bytes) (spec : GraphTypeSpec) : List CypherStatement :=
  [.createGraph graphName false, .useGraph graphName] ++ spec.nodes.map .createNodeTable ++
    (edgeTypeNames spec.edges).map (createRelTable spec.edges) ++ [.emptyResult]

/-- Whether the engine has a graph under a name, and whether it is an open one. -/
abbrev AnyGraphResolver := Bytes → Option Bool

def engineGraphAtLogicalPath (anyGraphResolver : Option AnyGraphResolver) (logicalPath : Bytes) :
    Bool :=
  match anyGraphResolver with
  | none => false
  | some resolve =>
    if (resolve (manglePhysical logicalPath)).isSome then true
    -- schemas under the root collide with flat graph names too
    else if 1 < logicalPath.length ∧ logicalPath.head? = some slash ∧
        slash ∉ logicalPath.drop 1 then
      (resolve (logicalPath.drop 1)).isSome
    else false

def findGraphType (registry : GraphTypeRegistry) (name : Bytes) : Option GraphTypeSpec :=
  registry[upperCopy name]?

def notDefined (name : Bytes) : Bytes := ascii "Graph type " ++ name ++ ascii " is not defined"

def alreadyExists (name : Bytes) : Bytes := ascii "Graph type " ++ name ++ ascii " already exists"

def graphTypeRefName (catalog : SchemaCatalog) : GraphTypeReference → Except Bytes Bytes
  | .parameter => .error (unsupported (ascii "graph type reference parameter"))
  | .catalog ref =>
    match ref.parent with
    | some parent => do
        let logical ← qualifiedCatalogPath ref.whole parent ref.name
        let resolved ← resolvePhysical catalog logical false .graphType
        .ok resolved.1
    | none => do
        checkReservedPrefix (stripDelims ref.name)
        .ok ref.name

def rewriteGraphExpression (catalog : SchemaCatalog) : GraphExpression → Except Bytes Bytes
  | .plain raw => do
      checkReservedPrefix (stripDelims (normalizePathWhitespace raw))
      .ok raw
  | .qualified whole parent graphName => do
      let logical ← qualifiedCatalogPath whole parent graphName
      checkReservedInPath logical
      let resolved ← resolvePhysical catalog logical false .graph
      .ok resolved.1

def qualifiedPath (ref : ParentAndName) : Except Bytes (Option Bytes) :=
  match ref.parent with
  | none => .ok none
  | some parent => do
      let logical ← qualifiedCatalogPath ref.whole parent ref.name
      .ok (some logical)

def rootLogical (name : Bytes) : Bytes := slash :: name

/-- The engine's name for what a statement creates.  A qualified name is mapped through the catalog; a
bare one is registered under the root, unless the path is taken. -/
def registerName (catalog : SchemaCatalog) (logical : Option Bytes) (name : Bytes)
    (kind : MemberKind) : Except Bytes (Bytes × SchemaCatalog) :=
  match logical with
  | some path => resolvePhysical catalog path true kind
  | none => do
      checkReservedPrefix (stripDelims name)
      if (rootLogical name) ∈ catalog.members then .ok (name, catalog)
      else .ok (name, catalog.addMember (rootLogical name) name kind)

def forgetName (catalog : SchemaCatalog) (logical : Option Bytes) (name : Bytes)
    (kind : MemberKind) : Except Bytes (Bytes × SchemaCatalog) :=
  match logical with
  | some path => do
      let resolved ← resolvePhysical catalog path false kind
      .ok (resolved.1, catalog.removeMemberByLogical path)
  | none => do
      checkReservedPrefix (stripDelims name)
      if catalog.physicalToLogical[name]? = some (rootLogical name) then
        .ok (name, catalog.removeMemberByLogical (rootLogical name))
      else .ok (name, catalog)

/-- What a translation leaves: the Cypher, the state to be stored, and what `rewriteFunc` reads. -/
structure Translation where
  cypher : List CypherStatement
  state : CatalogState
  sawIfNotExistsCreateGraph : Bool
  createGraphName : Bytes

def Translation.quiet (state : CatalogState) : Translation := ⟨[.emptyResult], state, false, []⟩

def kindText : MemberKind → Bytes
  | .graph => ascii " identifies a graph"
  | .graphType => ascii " identifies a graph type"

def schemaName (path rest : Bytes) : Bytes := schemaError (ascii "Schema name " ++ path ++ rest)

def translateCreateSchemaStatement (anyGraphResolver : Option AnyGraphResolver) (st : CatalogState)
    (ifNotExists : Bool) (text : Bytes) : Except Bytes Translation := do
  let path ← schemaPathText text
  if path ∈ st.catalog.schemas then
    if ifNotExists then .ok (.quiet st)
    else .error (schemaError (ascii "Schema " ++ path ++ ascii " already exists"))
  else if st.catalog.isDirectory path then
    .error (schemaName path (ascii " identifies a directory"))
  else match st.catalog.members[path]? with
  | some found => .error (schemaName path (kindText found.kind))
  | none =>
    if engineGraphAtLogicalPath anyGraphResolver path then
      .error (schemaName path (ascii " identifies a graph"))
    else .ok (.quiet
      { st with catalog := { st.catalog with schemas := st.catalog.schemas.insert path } })

def translateDropSchemaStatement (anyGraphResolver : Option AnyGraphResolver) (st : CatalogState)
    (ifExists : Bool) (text : Bytes) : Except Bytes Translation := do
  let path ← schemaPathText text
  if st.catalog.isDirectory path then
    .error (schemaName path (ascii " identifies a directory"))
  else match st.catalog.members[path]? with
  | some found => .error (schemaName path (kindText found.kind))
  | none =>
    if engineGraphAtLogicalPath anyGraphResolver path then
      .error (schemaName path (ascii " identifies a graph"))
    else if path ∉ st.catalog.schemas then
      if ifExists then .ok (.quiet st)
      else .error (schemaError (ascii "Schema " ++ path ++ ascii " does not exist"))
    else if st.catalog.hasMembersUnder path then
      .error (schemaError (ascii "Cannot drop schema " ++ path ++ ascii ": schema is not empty"))
    else .ok (.quiet
      { st with catalog := { st.catalog with schemas := st.catalog.schemas.erase path } })

def createGraphNamedType (st : CatalogState) (ctx : CreateGraphStatement) :
    Except Bytes Translation :=
  match ctx.typeClause, ctx.graphSource with
  | .reference ref, some source => do
      let typeName ← graphTypeRefName st.catalog ref
      let typeLogical ← match ref with
        | .catalog named => qualifiedPath named
        | .parameter => .ok none
      let other ← rewriteGraphExpression st.catalog source
      match findGraphType st.registry other with
      | none => .error (notDefined other)
      | some srcSpec =>
        if (upperCopy typeName) ∈ st.registry then .error (alreadyExists typeName)
        else .ok (.quiet
          { registry := st.registry.insert (upperCopy typeName) srcSpec
            catalog := st.catalog.addMember (typeLogical.getD (rootLogical typeName)) typeName
              .graphType })
  | _, _ => .error (unsupported
      (ascii "CREATE GRAPH named TYPE (quote the name: CREATE GRAPH \"TYPE\" ...)"))

def graphDdl (st : CatalogState) (catalog : SchemaCatalog) (name : Bytes) :
    GraphTypeClause → Except Bytes (List CypherStatement)
  | .openGraphType => .ok [.createGraph name true, .emptyResult]
  | .likeGraph => .error (unsupported (ascii "CREATE GRAPH ... LIKE <graph>"))
  | .reference ref => do
      let typeName ← graphTypeRefName catalog ref
      match findGraphType st.registry typeName with
      | none => .error (notDefined typeName)
      | some spec => .ok (emitGraphTypeDdl name spec)
  | .nested specification => do
      let spec ← specification
      .ok (emitGraphTypeDdl name spec)

def translateCreateGraphStatement (st : CatalogState) (ctx : CreateGraphStatement) :
    Except Bytes Translation :=
  if ctx.orReplace then .error (unsupported (ascii "CREATE OR REPLACE GRAPH"))
  else do
    let logical ← qualifiedPath ctx.parentAndName
    if iequals ctx.parentAndName.name (ascii "TYPE") then createGraphNamedType st ctx
    else if ctx.graphSource.isSome then
      .error (unsupported (ascii "CREATE GRAPH ... AS COPY OF <graph>"))
    else do
      let registered ← registerName st.catalog logical ctx.parentAndName.name .graph
      let cypher ← graphDdl st registered.2 registered.1 ctx.typeClause
      .ok ⟨cypher, { st with catalog := registered.2 }, ctx.ifNotExists, registered.1⟩

def graphTypeSpecOf (st : CatalogState) (catalog : SchemaCatalog) :
    GraphTypeSource → Except Bytes GraphTypeSpec
  | .nested specification => specification
  | .copyOfGraphType ref => do
      let other ← graphTypeRefName catalog ref
      match findGraphType st.registry other with
      | none => .error (notDefined other)
      | some srcSpec => .ok srcSpec
  | .likeGraph => .error (unsupported (ascii "CREATE GRAPH TYPE ... LIKE <graph>"))

def translateCreateGraphTypeStatement (st : CatalogState) (ctx : CreateGraphTypeStatement) :
    Except Bytes Translation := do
  let logical ← qualifiedPath ctx.parentAndName
  let registered ← registerName st.catalog logical ctx.parentAndName.name .graphType
  let spec ← graphTypeSpecOf st registered.2 ctx.graphTypeSource
  let key := upperCopy registered.1
  if key ∈ st.registry ∧ ctx.orReplace = false then
    -- the member stays registered
    if ctx.ifNotExists then .ok (.quiet { st with catalog := registered.2 })
    else .error (alreadyExists registered.1)
  else .ok (.quiet ⟨st.registry.insert key spec, registered.2⟩)

def translateDropGraphTypeStatement (st : CatalogState) (ifExists : Bool) (ref : ParentAndName) :
    Except Bytes Translation := do
  let logical ← qualifiedPath ref
  let forgotten ← forgetName st.catalog logical ref.name .graphType
  if (upperCopy forgotten.1) ∈ st.registry then
    .ok (.quiet ⟨st.registry.erase (upperCopy forgotten.1), forgotten.2⟩)
  else if ifExists then .ok (.quiet { st with catalog := forgotten.2 })
  else .error (ascii "Graph type " ++ forgotten.1 ++ ascii " does not exist")

def translateDropGraphStatement (st : CatalogState) (ifExists : Bool) (ref : ParentAndName) :
    Except Bytes Translation := do
  let logical ← qualifiedPath ref
  let forgotten ← forgetName st.catalog logical ref.name .graph
  .ok ⟨[.dropGraph ifExists forgotten.1, .emptyResult], { st with catalog := forgotten.2 }, false, []⟩

def translateLinearCatalog (anyGraphResolver : Option AnyGraphResolver) (st : CatalogState) :
    CatalogStatement → Except Bytes Translation
  | .createGraph ctx => translateCreateGraphStatement st ctx
  | .dropGraph ifExists ref => translateDropGraphStatement st ifExists ref
  | .createSchema ifNotExists path =>
    translateCreateSchemaStatement anyGraphResolver st ifNotExists path
  | .dropSchema ifExists path => translateDropSchemaStatement anyGraphResolver st ifExists path
  | .createGraphType ctx => translateCreateGraphTypeStatement st ctx
  | .dropGraphType ifExists ref => translateDropGraphTypeStatement st ifExists ref

end Ladybug.GqlCatalog
