import Ladybug.Base.Bytes

/-!
# Path terms (`gql/src/gql_transformer.cpp`)

A path term is flattened into a row of node and edge events, in which quantified interiors are unrolled
under generated names; neighbouring nodes are merged, and what is left is the chain of a Cypher pattern.
-/

namespace Ladybug.GqlPath

abbrev Name := String

/-! ## 1. Parse trees -/

inductive LabelTree where
  | labelName (text : String)
  | negation (e : LabelTree)
  | conjunction (l r : LabelTree)
  | disjunction (l r : LabelTree)
  | parenthesized (e : LabelTree)
  | wildcard
  deriving DecidableEq

structure LabelExpression where
  text : String
  tree : LabelTree
  deriving DecidableEq

def LabelExpression.isName (e : LabelExpression) : Bool :=
  match e.tree with
  | .labelName _ => true
  | _ => false

inductive ElementPatternPredicate (Cond : Type) where
  | elementPatternWhereClause (searchCondition : Cond)
  | elementPropertySpecification (text : String)
  deriving DecidableEq

structure ElementPatternFiller (Cond : Type) where
  elementVariableDeclaration : Option Name
  isLabelExpression : Option LabelExpression
  elementPatternPredicate : Option (ElementPatternPredicate Cond)
  deriving DecidableEq

inductive FullEdgePattern where
  | fullEdgePointingLeft
  | fullEdgeUndirected
  | fullEdgePointingRight
  | fullEdgeLeftOrUndirected
  | fullEdgeUndirectedOrRight
  | fullEdgeLeftOrRight
  | fullEdgeAnyDirection
  deriving DecidableEq

inductive AbbreviatedEdgePattern where
  | leftArrow
  | tilde
  | rightArrow
  | leftArrowTilde
  | tildeRightArrow
  | leftMinusRight
  | minusSign
  deriving DecidableEq

inductive EdgePattern (Cond : Type) where
  | fullEdgePattern (spelling : FullEdgePattern) (filler : ElementPatternFiller Cond)
  | abbreviatedEdgePattern (spelling : AbbreviatedEdgePattern)
  deriving DecidableEq

/-- The bounds are the texts of unsigned integers. -/
inductive GraphPatternQuantifier where
  | asterisk
  | plusSign
  | fixedQuantifier (unsignedInteger : String)
  | generalQuantifier (lowerBound upperBound : Option String)
  deriving DecidableEq

mutual

inductive PathTerm (Cond : Type) where
  | nil
  | cons (pathFactor : PathFactor Cond) (rest : PathTerm Cond)

/-- `ctx` is the node of the parse tree by which the unroll counts know a quantified factor. -/
inductive PathFactor (Cond : Type) where
  | pfPathPrimary (pathPrimary : PathPrimary Cond)
  | pfQuantifiedPathPrimary (ctx : Nat) (pathPrimary : PathPrimary Cond)
      (graphPatternQuantifier : GraphPatternQuantifier)
  | pfQuestionedPathPrimary (pathPrimary : PathPrimary Cond)

/-- Of a parenthesized pattern: whether it has a subpath variable, a path mode and a `WHERE`, and its
path term, or that it is an alternation. -/
inductive PathPrimary (Cond : Type) where
  | nodePattern (elementPatternFiller : ElementPatternFiller Cond)
  | edgePattern (edge : EdgePattern Cond)
  | parenthesized (subpathVariable pathMode whereClause : Bool) (pathTerm : PathTerm Cond)
  | parenthesizedAlternation (subpathVariable pathMode whereClause : Bool)
  | simplifiedPathPattern

end

/-! ## 2. Bounds -/

def parseQuantBound (text : String) : Option Nat :=
  if text.toList.isEmpty ∨ 5 < text.toList.length then none
  else if text.toList.all Char.isDigit then
    some (text.toList.foldl (fun value c => value * 10 + (c.toNat - '0'.toNat)) 0)
  else none

inductive RangeLiteral where
  | exactly (bound : String)
  | between (lower : String) (upper : Option String)
  deriving DecidableEq

def quantifierRange : GraphPatternQuantifier → RangeLiteral
  | .asterisk => .between "0" none
  | .plusSign => .between "1" none
  | .fixedQuantifier n => .exactly n
  | .generalQuantifier lower upper => .between (lower.getD "0") upper

/-- How a quantified or questioned factor is repeated. -/
inductive Quantification where
  | quantified (ctx : Nat) (quantifier : GraphPatternQuantifier)
  | questioned
  deriving DecidableEq

def Quantification.range : Quantification → RangeLiteral
  | .quantified _ quantifier => quantifierRange quantifier
  | .questioned => .between "0" (some "1")

/-- `unroll` when the count varies, and the statement supplies it. -/
inductive MultiHopCount where
  | unroll
  | fixed (count : Nat)
  deriving DecidableEq

def kUnbounded : String := "unbounded quantified path pattern over a multi-edge interior"

def kLowerZero : String := "quantified path pattern with lower bound 0 over a multi-edge interior"

def kTooWide : String := "quantified path pattern quantifier range too wide"

def quantifyMultiHopCount : Quantification → Except String MultiHopCount
  | .questioned => .error kLowerZero
  | .quantified _ .asterisk => .error kUnbounded
  | .quantified _ .plusSign => .error kUnbounded
  | .quantified _ (.fixedQuantifier text) =>
    match parseQuantBound text with
    | none => .error kTooWide
    | some n =>
      if n = 0 then .error kLowerZero
      else if 1000 < n then .error kTooWide
      else .ok (.fixed n)
  | .quantified _ (.generalQuantifier lower upper) =>
    match lower.elim (some 0) parseQuantBound with
    | none => .error kTooWide
    | some lo =>
      match upper with
      | none => .error kUnbounded
      | some upper =>
        match parseQuantBound upper with
        | none => .error kTooWide
        | some hi =>
          if hi < lo then .error kTooWide
          else if lo = 0 then .error kLowerZero
          else if 4 < hi - lo then .error kTooWide
          else if 1000 < lo then .error kTooWide
          else if lo = hi then .ok (.fixed lo)
          else .ok .unroll

/-! ## 3. Edges -/

inductive EdgeDir where
  | left
  | right
  | both
  deriving DecidableEq

structure EdgeShape (Cond : Type) where
  dir : EdgeDir
  filler : Option (ElementPatternFiller Cond)

def edgeShape {Cond : Type} : EdgePattern Cond → EdgeShape Cond
  | .fullEdgePattern .fullEdgePointingLeft filler => ⟨.left, some filler⟩
  | .fullEdgePattern .fullEdgePointingRight filler => ⟨.right, some filler⟩
  | .fullEdgePattern _ filler => ⟨.both, some filler⟩
  | .abbreviatedEdgePattern .leftArrow => ⟨.left, none⟩
  | .abbreviatedEdgePattern _ => ⟨.both, none⟩

def edgeVariable {Cond : Type} (edge : EdgePattern Cond) : Option Name :=
  (edgeShape edge).filler.bind (·.elementVariableDeclaration)

/-! ## 4. Events -/

section

variable {Cond : Type}

structure NodeEvent (Cond : Type) where
  nodeFiller : Option (ElementPatternFiller Cond)
  nodeDeclared : Option Name
  nodeName : Option Name
  nodeSynth : Bool
  nodeInterior : Bool

structure EdgeEvent (Cond : Type) where
  edge : EdgePattern Cond
  range : Option RangeLiteral
  renameTo : Option Name

inductive FlatEvent (Cond : Type) where
  | node (event : NodeEvent Cond)
  | edge (event : EdgeEvent Cond)

/-- An item of the trailing `WITH`. -/
inductive WithSuffix where
  | relationships (slot orig : Name)
  | list (names : List Name) (orig : Name)
  deriving DecidableEq

def generated (stem : String) (index : Nat) : Name := stem ++ index.repr

def namesOf (reps : List (Name × List Name)) (orig : Name) : List Name := (reps.lookup orig).getD []

def setNames : List (Name × List Name) → Name → List Name → List (Name × List Name)
  | [], orig, names => [(orig, names)]
  | entry :: reps, orig, names =>
    if entry.1 = orig then (orig, names) :: reps else entry :: setNames reps orig names

structure FlattenState where
  autoVarLenIdx : Nat
  qppiWithSuffixes : List WithSuffix
  interiorNodeReps : List (Name × List Name)

def unsupported {α : Type} (feature : String) : Except String α := .error feature

def labelKeyOf (filler : Option (ElementPatternFiller Cond)) : Option String :=
  filler.bind fun f => f.isLabelExpression.map LabelExpression.text

def propsKeyOf (filler : Option (ElementPatternFiller Cond)) : Option String :=
  filler.bind fun f => f.elementPatternPredicate.bind fun
    | .elementPropertySpecification text => some text
    | .elementPatternWhereClause _ => none

/-- A slot of the recursive form that declares a variable is renamed, and the variable bound to the list
of its relationships. -/
def renameSlot (st : FlattenState) (event : EdgeEvent Cond) : EdgeEvent Cond × FlattenState :=
  match edgeVariable event.edge with
  | none => (event, st)
  | some orig =>
    let name := generated "_gql_ve" st.autoVarLenIdx
    ({ event with renameTo := some name },
      { st with
        autoVarLenIdx := st.autoVarLenIdx + 1
        qppiWithSuffixes := st.qppiWithSuffixes ++ [.relationships name orig] })

def edgesOf (events : List (FlatEvent Cond)) : List (EdgeEvent Cond) :=
  events.filterMap fun
    | .node _ => none
    | .edge event => some event

/-- A node that cannot be left to a recursive slot. -/
def hasNodeFiller : FlatEvent Cond → Bool
  | .node event =>
    event.nodeDeclared.isSome || (labelKeyOf event.nodeFiller).isSome ||
      (propsKeyOf event.nodeFiller).isSome
  | .edge _ => false

/-- The counters and the names of the repetitions while an interior is unrolled. -/
structure RepState where
  autoVarLenIdx : Nat
  repNames : List (Name × List Name)
  interiorNodeReps : List (Name × List Name)

def nameFor (st : RepState) (orig : Name) (rep : Nat) : Name × RepState :=
  let names := namesOf st.repNames orig
  let missing := rep + 1 - names.length
  let filled := names ++ (List.range missing).map fun i ↦ generated "_gql_ue" (st.autoVarLenIdx + i)
  (filled.getD rep "",
    { st with
      autoVarLenIdx := st.autoVarLenIdx + missing
      repNames := setNames st.repNames orig filled })

def copyEvent (rep : Nat) (st : RepState) : FlatEvent Cond → FlatEvent Cond × RepState
  | .edge event =>
    match edgeVariable event.edge with
    | none => (.edge event, st)
    | some orig =>
      let (name, st) := nameFor st orig rep
      (.edge { event with renameTo := some name }, st)
  | .node event =>
    match event.nodeDeclared with
    | none => (.node { event with nodeInterior := true }, st)
    | some orig =>
      let name := generated "_gql_vn" st.autoVarLenIdx
      (.node { event with
          nodeSynth := true
          nodeName := some name
          nodeInterior := true },
        { st with
          autoVarLenIdx := st.autoVarLenIdx + 1
          interiorNodeReps := setNames st.interiorNodeReps orig
            (namesOf st.interiorNodeReps orig ++ [name]) })

def copyEvents (rep : Nat) : RepState → List (FlatEvent Cond) → List (FlatEvent Cond) × RepState
  | st, [] => ([], st)
  | st, event :: events =>
    let (copy, st) := copyEvent rep st event
    let (copies, st) := copyEvents rep st events
    (copy :: copies, st)

def repeatInterior (inner : List (FlatEvent Cond)) :
    (repeats rep : Nat) → RepState → List (FlatEvent Cond) × RepState
  | 0, _, st => ([], st)
  | repeats + 1, rep, st =>
    let (copies, st) := copyEvents rep st inner
    let (rest, st) := repeatInterior inner repeats (rep + 1) st
    (copies ++ rest, st)

/-- How often an interior is unrolled; `qppiUnrollCounts` is the map of the statement's driver. -/
def repeatsOf (qppiUnrollCounts : Nat → Option Nat) (quant : Quantification) : Except String Nat := do
  match ← quantifyMultiHopCount quant with
  | .fixed count => .ok count
  | .unroll =>
    match quant with
    | .questioned => unsupported "quantified path pattern expansion count unavailable"
    | .quantified ctx _ =>
      match qppiUnrollCounts ctx with
      | none => unsupported "quantified path pattern expansion count unavailable"
      | some count =>
        if count < 1 then unsupported "quantified path pattern expansion count unavailable"
        else .ok count

def quantifyInterior (qppiUnrollCounts : Nat → Option Nat) (quant : Quantification)
    (inner : List (FlatEvent Cond)) (st : FlattenState) :
    Except String (List (FlatEvent Cond) × FlattenState) := do
  let edges := edgesOf inner
  if edges.any fun e ↦ e.range.isSome then unsupported "nested quantified path pattern"
  else
    match edges.getLast? with
    | none => unsupported "quantified path pattern with multiple edges"
    | some edge =>
      if edges.length = 1 ∧ inner.any hasNodeFiller = false then
        let (edge, st) := renameSlot st { edge with range := some quant.range }
        let bare : FlatEvent Cond := .node ⟨none, none, none, false, true⟩
        .ok ([bare, .edge edge, bare], st)
      else
        let repeats ← repeatsOf qppiUnrollCounts quant
        let (events, rst) := repeatInterior inner repeats 0
          ⟨st.autoVarLenIdx, [], st.interiorNodeReps⟩
        .ok (events,
          { autoVarLenIdx := rst.autoVarLenIdx
            qppiWithSuffixes := st.qppiWithSuffixes ++
              rst.repNames.map fun entry => .list entry.2 entry.1
            interiorNodeReps := rst.interiorNodeReps })

mutual

def flatten (qppiUnrollCounts : Nat → Option Nat) (quantifiedOuter : Bool) :
    PathTerm Cond → FlattenState → Except String (List (FlatEvent Cond) × FlattenState)
  | .nil, st => .ok ([], st)
  | .cons factor rest, st => do
      let (events, st) ← flattenFactor qppiUnrollCounts quantifiedOuter factor st
      let (restEvents, st) ← flatten qppiUnrollCounts quantifiedOuter rest st
      .ok (events ++ restEvents, st)

def flattenFactor (qppiUnrollCounts : Nat → Option Nat) (quantifiedOuter : Bool) :
    PathFactor Cond → FlattenState → Except String (List (FlatEvent Cond) × FlattenState)
  | .pfPathPrimary primary, st =>
    flattenPrimary qppiUnrollCounts quantifiedOuter none primary st
  | .pfQuantifiedPathPrimary ctx primary quantifier, st =>
    flattenPrimary qppiUnrollCounts quantifiedOuter (some (.quantified ctx quantifier)) primary st
  | .pfQuestionedPathPrimary primary, st =>
    flattenPrimary qppiUnrollCounts quantifiedOuter (some .questioned) primary st

def flattenPrimary (qppiUnrollCounts : Nat → Option Nat) (quantifiedOuter : Bool)
    (quantified : Option Quantification) :
    PathPrimary Cond → FlattenState → Except String (List (FlatEvent Cond) × FlattenState)
  | .nodePattern filler, st =>
    if quantified.isSome then unsupported "quantified path pattern over a node pattern"
    else
      .ok ([.node ⟨some filler, filler.elementVariableDeclaration,
        filler.elementVariableDeclaration, false, quantifiedOuter⟩], st)
  | .edgePattern edge, st =>
    match quantified with
    | none => .ok ([.edge ⟨edge, none, none⟩], st)
    | some quant =>
      if quantifiedOuter then unsupported "nested quantified path pattern"
      else
        let (event, st) := renameSlot st ⟨edge, some quant.range, none⟩
        .ok ([.edge event], st)
  | .parenthesized subpathVariable pathMode whereClause term, st =>
    if subpathVariable then unsupported "subpath variable in parenthesized path pattern"
    else if pathMode then unsupported "path mode inside parenthesized path pattern"
    else if whereClause then unsupported "WHERE inside parenthesized path pattern"
    else
      match quantified with
      | none => flatten qppiUnrollCounts quantifiedOuter term st
      | some quant =>
        if quantifiedOuter then unsupported "nested quantified path pattern"
        else do
          let (inner, st) ← flatten qppiUnrollCounts true term st
          quantifyInterior qppiUnrollCounts quant inner st
  | .parenthesizedAlternation subpathVariable pathMode whereClause, _ =>
    if subpathVariable then unsupported "subpath variable in parenthesized path pattern"
    else if pathMode then unsupported "path mode inside parenthesized path pattern"
    else if whereClause then unsupported "WHERE inside parenthesized path pattern"
    else if quantified.isSome && quantifiedOuter then unsupported "nested quantified path pattern"
    else unsupported "path pattern union/multiset alternation"
  | .simplifiedPathPattern, _ => unsupported "simplified path pattern (-/.../-)"

end

/-! ## 5. Merging and emission -/

/-- `resolveName`; each step of the loop uses up an entry. -/
def follow (nodeAlias : List (Name × Name)) : Nat → Name → Name
  | 0, name => name
  | fuel + 1, name =>
    match nodeAlias.lookup name with
    | none => name
    | some next => if next = name then name else follow nodeAlias fuel next

def resolveName (nodeAlias : List (Name × Name)) (name : Name) : Name :=
  follow nodeAlias nodeAlias.length name

def mergeNames (acc b : NodeEvent Cond) : Except String (Option Name × Bool × List (Name × Name)) :=
  if acc.nodeName = b.nodeName then .ok (acc.nodeName, acc.nodeSynth, [])
  else
    match acc.nodeName, b.nodeName with
    | none, right => .ok (right, b.nodeSynth, [])
    | left, none => .ok (left, acc.nodeSynth, [])
    | some left, some right =>
      if acc.nodeSynth && !b.nodeSynth then .ok (some right, false, [(left, right)])
      else if !acc.nodeSynth && b.nodeSynth then .ok (some left, false, [(right, left)])
      -- the left name stays, and no longer counts as generated
      else if acc.nodeSynth && b.nodeSynth then .ok (some left, false, [(right, left)])
      else unsupported "juxtaposed node patterns (distinct variables)"

def mergeFillers (acc b : NodeEvent Cond) : Except String (Option (ElementPatternFiller Cond)) :=
  let lLab := labelKeyOf acc.nodeFiller
  let rLab := labelKeyOf b.nodeFiller
  let lPrp := propsKeyOf acc.nodeFiller
  let rPrp := propsKeyOf b.nodeFiller
  if lLab = rLab ∧ lPrp = rPrp then .ok acc.nodeFiller
  else if lLab = none ∧ lPrp = none then .ok b.nodeFiller
  else if rLab = none ∧ rPrp = none then .ok acc.nodeFiller
  else if acc.nodeInterior || b.nodeInterior then
    unsupported "quantified interior junction with conflicting labels/properties"
  else unsupported "juxtaposed node patterns (distinct variables)"

def mergeNode (acc b : NodeEvent Cond) : Except String (NodeEvent Cond × List (Name × Name)) := do
  let (name, synth, aliases) ← mergeNames acc b
  let filler ← mergeFillers acc b
  .ok ({ acc with nodeFiller := filler, nodeName := name, nodeSynth := synth }, aliases)

structure NodeSlot where
  name : Option Name
  label : Option String
  props : Option String
  deriving DecidableEq

structure EdgeSlot (Cond : Type) where
  pattern : EdgePattern Cond
  name : Option Name
  label : Option String
  props : Option String
  dir : EdgeDir
  range : Option RangeLiteral

inductive Slot (Cond : Type) where
  | node (slot : NodeSlot)
  | edge (slot : EdgeSlot Cond)

/-- A condition that follows the pattern. -/
inductive Where (Cond : Type) where
  | labels (expr : LabelTree) (var : Name)
  | searchCondition (condition : Cond)

/-- `translateFiller` of a node; a compound label needs a name, and becomes a condition. -/
def renderNode (autoLabelIdx : Nat) (event : NodeEvent Cond) : NodeSlot × List (Where Cond) × Nat :=
  match event.nodeFiller with
  | none => (⟨event.nodeName, none, none⟩, [], autoLabelIdx)
  | some filler =>
    let wheres : List (Where Cond) :=
      match filler.elementPatternPredicate with
      | some (.elementPatternWhereClause condition) => [.searchCondition condition]
      | _ => []
    let props := propsKeyOf (some filler)
    let var := event.nodeName.or filler.elementVariableDeclaration
    match filler.isLabelExpression with
    | none => (⟨var, none, props⟩, wheres, autoLabelIdx)
    | some expr =>
      if expr.isName then (⟨var, some expr.text, props⟩, wheres, autoLabelIdx)
      else
        match var with
        | some var => (⟨some var, none, props⟩, .labels expr.tree var :: wheres, autoLabelIdx)
        | none =>
          let var := generated "_gql_nl" autoLabelIdx
          (⟨some var, none, props⟩, .labels expr.tree var :: wheres, autoLabelIdx + 1)

def translateEdgePattern (event : EdgeEvent Cond) : Except String (EdgeSlot Cond) :=
  let shape := edgeShape event.edge
  match shape.filler with
  | none => .ok ⟨event.edge, none, none, none, shape.dir, event.range⟩
  | some filler =>
    if (filler.isLabelExpression.map LabelExpression.isName) = some false then
      unsupported "label expression on edge pattern"
    else
      match filler.elementPatternPredicate with
      | some (.elementPatternWhereClause _) => unsupported "inline WHERE on an edge pattern"
      | _ => .ok ⟨event.edge, event.renameTo.or filler.elementVariableDeclaration,
          filler.isLabelExpression.map LabelExpression.text, propsKeyOf (some filler), shape.dir,
          event.range⟩

/-- Only an edge pattern written in full is emitted with a direction to the right: the abbreviated `->`
becomes `--`. -/
theorem translateEdgePattern_right {event : EdgeEvent Cond} {slot : EdgeSlot Cond}
    (h : translateEdgePattern event = .ok slot) :
    slot.dir = .right ↔ ∃ filler, event.edge = .fullEdgePattern .fullEdgePointingRight filler := by
  have hdir : slot.dir = (edgeShape event.edge).dir := by
    unfold translateEdgePattern at h
    dsimp only at h
    repeat' split at h
    all_goals cases h
    all_goals rfl
  rw [hdir]
  rcases event.edge with ⟨spelling, filler⟩ | ⟨spelling⟩ <;> cases spelling <;> simp [edgeShape]

structure Emission (Cond : Type) where
  chain : List (Slot Cond)
  wheres : List (Where Cond)
  nodeAlias : List (Name × Name)
  autoLabelIdx : Nat

def emitChain : (pending : Option (NodeEvent Cond)) → (nodeAlias : List (Name × Name)) →
    (autoLabelIdx : Nat) → List (FlatEvent Cond) → Except String (Emission Cond)
  | none, nodeAlias, autoLabelIdx, [] => .ok ⟨[], [], nodeAlias, autoLabelIdx⟩
  | some node, nodeAlias, autoLabelIdx, [] =>
    let (slot, wheres, autoLabelIdx) := renderNode autoLabelIdx node
    .ok ⟨[.node slot], wheres, nodeAlias, autoLabelIdx⟩
  | none, nodeAlias, autoLabelIdx, .node node :: events =>
    emitChain (some node) nodeAlias autoLabelIdx events
  | some node, nodeAlias, autoLabelIdx, .node b :: events => do
      let (merged, aliases) ← mergeNode node b
      emitChain (some merged) (aliases ++ nodeAlias) autoLabelIdx events
  | pending, nodeAlias, autoLabelIdx, .edge event :: events => do
      let (slot, wheres, autoLabelIdx) :=
        match pending with
        | none => (⟨none, none, none⟩, [], autoLabelIdx)
        | some node => renderNode autoLabelIdx node
      let edge ← translateEdgePattern event
      let rest ← emitChain none nodeAlias autoLabelIdx events
      .ok ⟨.node slot :: .edge edge :: rest.chain, wheres ++ rest.wheres, rest.nodeAlias,
        rest.autoLabelIdx⟩

/-- The pattern of a path term, its conditions, the items of the trailing `WITH`, and the counters of
generated names. -/
structure Translation (Cond : Type) where
  chain : List (Slot Cond)
  wheres : List (Where Cond)
  qppiWithSuffixes : List WithSuffix
  autoVarLenIdx : Nat
  autoLabelIdx : Nat

def translatePathTerm (qppiUnrollCounts : Nat → Option Nat) (autoVarLenIdx autoLabelIdx : Nat)
    (term : PathTerm Cond) : Except String (Translation Cond) := do
  let (events, st) ← flatten qppiUnrollCounts false term ⟨autoVarLenIdx, [], []⟩
  let emission ← emitChain none [] autoLabelIdx events
  .ok ⟨emission.chain, emission.wheres, st.qppiWithSuffixes ++ st.interiorNodeReps.map fun entry =>
      .list (entry.2.map (resolveName emission.nodeAlias)) entry.1, st.autoVarLenIdx,
      emission.autoLabelIdx⟩

/-! ## 6. The statement's driver -/

mutual

/-- `qppiInteriorExpandable`: the number of edges of an interior, and whether a node of it has a filler;
`none` where it returns `false`. -/
def interiorShape : PathTerm Cond → Option (Nat × Bool)
  | .nil => some (0, false)
  | .cons factor rest =>
    match interiorShapeOfFactor factor, interiorShape rest with
    | some (edges, nodeFillers), some (edges', nodeFillers') =>
      some (edges + edges', nodeFillers || nodeFillers')
    | _, _ => none

def interiorShapeOfFactor : PathFactor Cond → Option (Nat × Bool)
  | .pfPathPrimary primary => interiorShapeOfPrimary primary
  | .pfQuantifiedPathPrimary _ _ _ => none
  | .pfQuestionedPathPrimary _ => none

def interiorShapeOfPrimary : PathPrimary Cond → Option (Nat × Bool)
  | .nodePattern filler =>
    match filler.elementPatternPredicate with
    | some (.elementPatternWhereClause _) => none
    | predicate =>
      some (0, filler.elementVariableDeclaration.isSome || filler.isLabelExpression.isSome ||
        predicate.isSome)
  | .edgePattern _ => some (1, false)
  | .parenthesized subpathVariable pathMode whereClause term =>
    if subpathVariable || pathMode || whereClause then none else interiorShape term
  | .parenthesizedAlternation _ _ _ => none
  | .simplifiedPathPattern => none

end

/-- A ranged factor whose repetitions the statement is translated once for each count of. -/
structure UnrollFactor where
  factor : Nat
  lo : Nat
  hi : Nat
  deriving DecidableEq

/-- Whether the interior of a quantified primary is unrolled. -/
def expands (primary : PathPrimary Cond) : Bool :=
  match primary with
  | .parenthesized _ _ _ _ =>
    match interiorShapeOfPrimary primary with
    | none => false
    | some (edges, nodeFillers) => !(edges == 0 || (edges == 1 && !nodeFillers))
  | _ => false

def classifyQuantifiedFactor (primary : PathPrimary Cond) (quant : Quantification) :
    Except String (List UnrollFactor) :=
  if expands primary then do
    match ← quantifyMultiHopCount quant with
    | .fixed _ => .ok []
    | .unroll =>
      match quant with
      | .quantified ctx (.generalQuantifier lower (some upper)) =>
        .ok [⟨ctx, (lower.elim (some 0) parseQuantBound).getD 0, (parseQuantBound upper).getD 0⟩]
      | _ => .ok []
  else .ok []

/-- What the prescan gathers: each declared variable, with whether it is under a quantifier, and the
ranged factors. -/
structure Prescan where
  bindingUse : List (Name × Bool)
  unrollFactors : List UnrollFactor

def Prescan.append (a b : Prescan) : Prescan :=
  ⟨a.bindingUse ++ b.bindingUse, a.unrollFactors ++ b.unrollFactors⟩

def prescanFiller (inQuantifiedInterior : Bool) (filler : ElementPatternFiller Cond) :
    Except String Prescan :=
  match filler.elementPatternPredicate with
  | some (.elementPatternWhereClause _) =>
    if inQuantifiedInterior then unsupported "inline WHERE in a quantified interior"
    else .ok ⟨filler.elementVariableDeclaration.toList.map (·, inQuantifiedInterior), []⟩
  | _ => .ok ⟨filler.elementVariableDeclaration.toList.map (·, inQuantifiedInterior), []⟩

mutual

def prescan (inQuantifiedInterior : Bool) : PathTerm Cond → Except String Prescan
  | .nil => .ok ⟨[], []⟩
  | .cons factor rest => do
      let a ← prescanFactor inQuantifiedInterior factor
      let b ← prescan inQuantifiedInterior rest
      .ok (a.append b)

def prescanFactor (inQuantifiedInterior : Bool) : PathFactor Cond → Except String Prescan
  | .pfPathPrimary primary => prescanPrimary inQuantifiedInterior primary
  | .pfQuantifiedPathPrimary ctx primary quantifier => do
      let factors ←
        if inQuantifiedInterior then .ok []
        else classifyQuantifiedFactor primary (.quantified ctx quantifier)
      let interior ← prescanPrimary true primary
      .ok (Prescan.append ⟨[], factors⟩ interior)
  | .pfQuestionedPathPrimary primary => do
      let factors ←
        if inQuantifiedInterior then .ok [] else classifyQuantifiedFactor primary .questioned
      let interior ← prescanPrimary true primary
      .ok (Prescan.append ⟨[], factors⟩ interior)

def prescanPrimary (inQuantifiedInterior : Bool) : PathPrimary Cond → Except String Prescan
  | .nodePattern filler => prescanFiller inQuantifiedInterior filler
  | .edgePattern edge =>
    match (edgeShape edge).filler with
    | none => .ok ⟨[], []⟩
    | some filler => prescanFiller inQuantifiedInterior filler
  | .parenthesized _ _ _ term => prescan inQuantifiedInterior term
  | .parenthesizedAlternation _ _ _ => .ok ⟨[], []⟩
  | .simplifiedPathPattern => .ok ⟨[], []⟩

end

/-- The prescan of a statement of one path term, and its check that a variable that is bound to a list is
declared once. -/
def prescanTerm (term : PathTerm Cond) : Except String (List UnrollFactor) := do
  let found ← prescan false term
  if found.bindingUse.any fun use =>
      use.2 && decide (1 < (found.bindingUse.map Prod.fst).count use.1) then
    unsupported "quantified interior binding reused as a pattern variable"
  else .ok found.unrollFactors

end

end Ladybug.GqlPath
