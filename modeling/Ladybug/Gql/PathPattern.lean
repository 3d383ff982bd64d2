import Ladybug.Gql.PathTerm

/-!
# Path patterns and graph patterns (`gql/src/gql_transformer.cpp`)

A prefix of a path pattern becomes the type of its recursive slots, and where that does not say enough a
filter on a path variable.  The conditions that the patterns of a `MATCH` bring along are gathered in the
order in which they are translated.
-/

namespace Ladybug.GqlPath

inductive PathMode where
  | walk
  | trail
  | simple
  | acyclic
  deriving DecidableEq

inductive PathSearch where
  | allPathSearch (pathMode : Option PathMode)
  | anyPathSearch (numberOfPaths : Bool) (pathMode : Option PathMode)
  | allShortestPathSearch (pathMode : Option PathMode)
  | anyShortestPathSearch (pathMode : Option PathMode)
  | countedShortestPathSearch (pathMode : Option PathMode)
  | countedShortestGroupSearch (pathMode : Option PathMode)
  deriving DecidableEq

inductive PathPatternPrefix where
  | pathModePrefix (pathMode : PathMode)
  | pathSearchPrefix (search : PathSearch)
  deriving DecidableEq

/-- `iC_RecursiveType`; `none` is the empty text. -/
inductive RecType where
  | trail
  | acyclic
  | simple
  | shortest
  | allShortest
  deriving DecidableEq

def translatePathPatternPrefix : PathPatternPrefix → Except String (Option RecType)
  | .pathModePrefix .simple => .ok (some .simple)
  | .pathModePrefix .trail => .ok (some .trail)
  | .pathModePrefix .acyclic => .ok (some .acyclic)
  | .pathModePrefix .walk => .ok none
  | .pathSearchPrefix (.allPathSearch _) => unsupported "ALL PATHS search prefix"
  | .pathSearchPrefix (.anyPathSearch numberOfPaths _) =>
    if numberOfPaths then unsupported "ANY <k> PATHS search prefix"
    else unsupported "ANY PATHS search prefix"
  | .pathSearchPrefix (.countedShortestPathSearch _) =>
    unsupported "SHORTEST <k>/GROUP(S) search prefix"
  | .pathSearchPrefix (.countedShortestGroupSearch _) =>
    unsupported "SHORTEST <k>/GROUP(S) search prefix"
  -- the path mode of a search is not looked at
  | .pathSearchPrefix (.allShortestPathSearch _) => .ok (some .allShortest)
  | .pathSearchPrefix (.anyShortestPathSearch _) => .ok (some .shortest)

def slotType : Option RecType → Option RecType
  | some .simple => some .acyclic
  | recType => recType

def RangeLiteral.text : RangeLiteral → String
  | .exactly bound => bound
  | .between lower upper => lower ++ ".." ++ upper.getD ""

section

variable {Cond : Type}

def edgeSlots (chain : List (Slot Cond)) : List (EdgeSlot Cond) :=
  chain.filterMap fun
    | .node _ => none
    | .edge slot => some slot

def checkSearch (recType : Option RecType) (chain : List (Slot Cond)) : Except String Unit :=
  if recType = some .shortest ∨ recType = some .allShortest then
    match edgeSlots chain with
    | [] => .ok ()
    | [slot] =>
      match slot.range with
      | none => .ok ()
      | some range =>
        if range.text.toList.head? = some '0' then
          unsupported "shortest path with lower bound 0 (empty paths)"
        else .ok ()
    | _ => unsupported "path mode/search prefix on multi-hop pattern"
  else .ok ()

inductive PathFilter where
  | isTrail
  | isAcyclic
  | isSimple
  deriving DecidableEq

def pathFilter (recType : Option RecType) (edgeCount : Nat) : Option PathFilter :=
  match recType with
  | some .trail => if 1 < edgeCount then some .isTrail else none
  | some .acyclic => some .isAcyclic
  | some .simple => if 0 < edgeCount then some .isSimple else none
  | _ => none

structure PathPattern (Cond : Type) where
  pathVariable : Option Name
  pathPatternPrefix : Option PathPatternPrefix
  /-- `none` is a union or a multiset alternation. -/
  pathTerm : Option (PathTerm Cond)

/-- A condition that a pattern brings along. -/
inductive Predicate (Cond : Type) where
  | element (condition : Where Cond)
  | filter (predicate : PathFilter) (var : Name)

/-- The counters of generated names, which run through a statement. -/
structure Counters where
  autoVarLenIdx : Nat
  autoLabelIdx : Nat
  autoPathIdx : Nat
  deriving DecidableEq

structure PathText (Cond : Type) where
  var : Option Name
  slotType : Option RecType
  chain : List (Slot Cond)

structure PathTranslation (Cond : Type) where
  path : PathText Cond
  wheres : List (Predicate Cond)
  qppiWithSuffixes : List WithSuffix
  counters : Counters

def translatePathPattern (qppiUnrollCounts : Nat → Option Nat) (forcedRecType : Option RecType)
    (counters : Counters) (pattern : PathPattern Cond) : Except String (PathTranslation Cond) := do
  let prefixType ← pattern.pathPatternPrefix.elim (.ok none) translatePathPatternPrefix
  let recType := prefixType.or forcedRecType
  match pattern.pathTerm with
  | none => unsupported "path pattern union/multiset alternation"
  | some term => do
      let body ← translatePathTerm qppiUnrollCounts counters.autoVarLenIdx counters.autoLabelIdx term
      let _ ← checkSearch recType body.chain
      let wheres := body.wheres.map .element
      let counters := ⟨body.autoVarLenIdx, body.autoLabelIdx, counters.autoPathIdx⟩
      match pathFilter recType (edgeSlots body.chain).length, pattern.pathVariable with
      | none, var =>
        .ok ⟨⟨var, slotType recType, body.chain⟩, wheres, body.qppiWithSuffixes, counters⟩
      | some predicate, some var =>
        .ok ⟨⟨some var, slotType recType, body.chain⟩, wheres ++ [.filter predicate var],
          body.qppiWithSuffixes, counters⟩
      | some predicate, none =>
        let var := generated "_gql_pp" counters.autoPathIdx
        .ok ⟨⟨some var, slotType recType, body.chain⟩, wheres ++ [.filter predicate var],
          body.qppiWithSuffixes, { counters with autoPathIdx := counters.autoPathIdx + 1 }⟩

inductive MatchMode where
  | repeatableElements
  | differentEdges
  deriving DecidableEq

structure GraphPattern (Cond : Type) where
  matchMode : Option MatchMode
  keepClause : Bool
  pathPatternList : List (PathPattern Cond)
  graphPatternWhereClause : Option Cond

structure GraphTranslation (Cond : Type) where
  paths : List (PathText Cond)
  wheres : List (Predicate Cond)
  qppiWithSuffixes : List WithSuffix
  counters : Counters

def translatePathPatterns (qppiUnrollCounts : Nat → Option Nat) (forcedRecType : Option RecType) :
    Counters → List (PathPattern Cond) → Except String (GraphTranslation Cond)
  | counters, [] => .ok ⟨[], [], [], counters⟩
  | counters, pattern :: patterns => do
      let path ← translatePathPattern qppiUnrollCounts forcedRecType counters pattern
      let rest ← translatePathPatterns qppiUnrollCounts forcedRecType path.counters patterns
      .ok ⟨path.path :: rest.paths, path.wheres ++ rest.wheres,
        path.qppiWithSuffixes ++ rest.qppiWithSuffixes, rest.counters⟩

def forcedRecType (pattern : GraphPattern Cond) : Except String (Option RecType) :=
  match pattern.matchMode with
  | some .differentEdges =>
    if 1 < pattern.pathPatternList.length then
      unsupported "DIFFERENT EDGES over multiple path patterns"
    else .ok (some .trail)
  | _ => .ok none

def translateGraphPattern (qppiUnrollCounts : Nat → Option Nat) (counters : Counters)
    (pattern : GraphPattern Cond) : Except String (GraphTranslation Cond) := do
  let recType ← forcedRecType pattern
  if pattern.keepClause then unsupported "KEEP clause"
  else
    let paths ← translatePathPatterns qppiUnrollCounts recType counters pattern.pathPatternList
    .ok { paths with wheres := paths.wheres ++
      pattern.graphPatternWhereClause.toList.map fun condition ↦ .element (.searchCondition condition) }

structure MatchStatement (Cond : Type) where
  optional : Bool
  block : Bool
  graphPatternYieldClause : Bool
  graphPattern : GraphPattern Cond

/-- The clause before its `WHERE`: its keyword, its paths and the items of its trailing `WITH *`. -/
structure MatchText (Cond : Type) where
  optional : Bool
  paths : List (PathText Cond)
  withItems : List WithSuffix
  wheres : List (Predicate Cond)
  counters : Counters

def translateMatchStatement (qppiUnrollCounts : Nat → Option Nat) (counters : Counters)
    (statement : MatchStatement Cond) : Except String (MatchText Cond) :=
  if statement.optional && statement.block then unsupported "OPTIONAL MATCH block form"
  else if statement.graphPatternYieldClause then unsupported "MATCH ... YIELD"
  else do
    let pattern ← translateGraphPattern qppiUnrollCounts counters statement.graphPattern
    if !pattern.qppiWithSuffixes.isEmpty && statement.optional then
      unsupported "quantified path pattern edge binding inside OPTIONAL MATCH"
    else .ok ⟨statement.optional, pattern.paths, pattern.qppiWithSuffixes, pattern.wheres,
      pattern.counters⟩

structure SelectStatement (Cond : Type) where
  matchStatement : Option (MatchStatement Cond)
  whereClause : Option Cond

inductive Statement (Cond : Type) where
  | matchStatement (statement : MatchStatement Cond)
  | selectStatement (statement : SelectStatement Cond)

def gatherWheres (qppiUnrollCounts : Nat → Option Nat) (counters : Counters) :
    Statement Cond → Except String (List (Predicate Cond))
  | .matchStatement statement => do
      let text ← translateMatchStatement qppiUnrollCounts counters statement
      .ok text.wheres
  | .selectStatement statement => do
      let wheres ← match statement.matchStatement with
        | none => .ok []
        | some inner => (translateMatchStatement qppiUnrollCounts counters inner).map (·.wheres)
      .ok (wheres ++ statement.whereClause.toList.map fun condition ↦ .element (.searchCondition condition))

end

end Ladybug.GqlPath
