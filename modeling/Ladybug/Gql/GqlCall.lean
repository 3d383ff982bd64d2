import Ladybug.Gql.CatalogStatements

/-!
# A call of `GQL` (`gql/src/function/gql_function.cpp`)

`bindFunc` translates a statement and stores the catalog that the translation leaves.  Then
`rewriteFunc` gives the Cypher that the engine runs in place of the call, statement by statement.
-/

namespace Ladybug.GqlCatalog

open Markup (ascii)

/-- What ends a quoted text in Cypher. -/
def closingQuote (quote : UInt8) : UInt8 := if quote = doubleQuote then graveAccent else quote

/-- The loop of `normalizeDelimitedIdents`; `quote` is the character that ends the quoted text. -/
def normalizeQuoted : Option UInt8 → Bytes → Bytes
  | none, [] => []
  -- an open identifier is closed, an open literal is not
  | some quote, [] => if quote = doubleQuote then [graveAccent] else []
  | none, c :: cs =>
    if c = singleQuote ∨ c = graveAccent ∨ c = doubleQuote then
      closingQuote c :: normalizeQuoted (some c) cs
    else c :: normalizeQuoted none cs
  | some quote, c :: cs =>
    if c = quote then
      match cs with
      | [] => [closingQuote quote]
      | d :: ds =>
        if d = quote then
          (if quote = doubleQuote then [d] else [c, d]) ++ normalizeQuoted (some quote) ds
        else closingQuote quote :: normalizeQuoted none (d :: ds)
    else
      (if quote = doubleQuote ∧ c = graveAccent then [c, c] else [c]) ++
        normalizeQuoted (some quote) cs

def normalizeDelimitedIdents (text : Bytes) : Bytes := normalizeQuoted none text

example : normalizeDelimitedIdents (ascii "\"a`b\"\"c\".x = '\"'") = ascii "`a``b\"c`.x = '\"'" := by
  decide +kernel

structure EngineGraph where
  name : Bytes
  any : Bool
  fromCall : Bool
  deriving DecidableEq

/-- The engine, apart from its list of graphs. -/
structure Engine where
  /-- The name that Cypher reads in a spelling, if it is one name. -/
  readName : Bytes → Option Bytes
  /-- What names are compared by. -/
  fold : Bytes → Bytes
  /-- Whether the Cypher parser accepts a text. -/
  accepts : Bytes → Bool
  inUse : EngineGraph → Bool
  /-- Whether the first of the statements that are left fails, if it is about no graph. -/
  fails : List CypherStatement → Bool

namespace Engine

def graphName (e : Engine) (spelled : Bytes) : Option Bytes :=
  (e.readName (normalizeDelimitedIdents spelled)).map e.fold

def hasName (e : Engine) (n : Bytes) (g : EngineGraph) : Bool := decide (e.fold g.name = n)

/-- One statement; `none` if it fails, which has no effect. -/
def execute (e : Engine) (graphs : List EngineGraph) (left : List CypherStatement) :
    CypherStatement → Option (List EngineGraph)
  | .createGraph name any =>
    match e.readName (normalizeDelimitedIdents name) with
    | none => none
    | some n =>
      if graphs.any (e.hasName (e.fold n)) then none else some (graphs ++ [⟨n, any, true⟩])
  | .dropGraph ifExists name =>
    match e.graphName name with
    | none => none
    | some n =>
      match graphs.find? (e.hasName n) with
      | none => if ifExists then some graphs else none
      | some g => if e.inUse g then none else some (graphs.filter fun g => !e.hasName n g)
  | _ => if e.fails left then none else some graphs

/-- The graphs after the statements up to the first that fails, and how many were carried out. -/
def run (e : Engine) : List EngineGraph → List CypherStatement → List EngineGraph × Nat
  | graphs, [] => (graphs, 0)
  | graphs, stmt :: rest =>
    match e.execute graphs (stmt :: rest) stmt with
    | none => (graphs, 0)
    | some graphs' => ((e.run graphs' rest).1, (e.run graphs' rest).2 + 1)

/-- A text that does not parse is not run at all. -/
def query (e : Engine) (graphs : List EngineGraph) (cypher : List CypherStatement) :
    List EngineGraph × Nat :=
  if e.accepts (normalizeDelimitedIdents (cypherText cypher)) then e.run graphs cypher
  else (graphs, 0)

end Engine

def resolveAnyGraph (graphs : List EngineGraph) (currentAny : Bool) : AnyGraphResolver :=
  fun name =>
    if name.isEmpty then some currentAny
    else if upperCopy name = ascii "MAIN" then some false
    else (graphs.find? fun g => iequals g.name name).map EngineGraph.any

def rewriteFunc (graphs : List EngineGraph) (t : Translation) : List CypherStatement :=
  if t.sawIfNotExistsCreateGraph ∧ t.createGraphName ≠ [] ∧
      graphs.any fun g => decide (g.name = t.createGraphName) then [.emptyResult]
  else t.cypher

/-- The catalog of the extension and the graphs of the engine. -/
structure System where
  state : CatalogState
  graphs : List EngineGraph

structure CallResult where
  system : System
  cypher : List CypherStatement
  executed : Nat

def callGql (e : Engine) (currentAny : Bool) (sys : System) (stmt : CatalogStatement) : CallResult :=
  match translateLinearCatalog (some (resolveAnyGraph sys.graphs currentAny)) sys.state stmt with
  | .error _ => ⟨sys, [], 0⟩
  | .ok t =>
    let cypher := rewriteFunc sys.graphs t
    let ran := e.query sys.graphs cypher
    -- the catalog is stored before the Cypher runs
    ⟨⟨t.state, ran.1⟩, cypher, ran.2⟩

end Ladybug.GqlCatalog
