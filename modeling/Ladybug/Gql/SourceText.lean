import Ladybug.Base.Markup
import Ladybug.Base.TextSpans

/-!
# Source text (`gql/src/gql_transformer.cpp`)

The transformer holds the bytes of a query, and cuts them at the indices that the tokens of the parse
tree report.
-/

namespace Ladybug.GqlText

open TextSpans (Splice)

structure Token where
  startIndex : Nat
  stopIndex : Nat
  deriving DecidableEq

/-- The rules that the transformer tells apart when it splices.  A list records whether
`listNeedsCheckedGuard` holds of it. -/
inductive RuleKind where
  | comparisonExprAlt
  | labeledPredicate
  | listValueConstructorByEnumeration (needsCheckedGuard : Bool)
  | aggregateFunction
  | isOrColon (is : Bool)
  | labelSetSpecification (names : Nat)
  | other
  deriving DecidableEq

inductive ParseTree where
  | token (t : Token)
  | rule (kind : RuleKind) (children : List ParseTree)

namespace ParseTree

mutual

def tokens : ParseTree → List Token
  | .token t => [t]
  | .rule _ children => tokensOf children

def tokensOf : List ParseTree → List Token
  | [] => []
  | child :: children => tokens child ++ tokensOf children

end

def kind : ParseTree → RuleKind
  | .token _ => .other
  | .rule kind _ => kind

def startIndex (node : ParseTree) : Nat := (node.tokens.head?.map Token.startIndex).getD 0

def stopIndex (node : ParseTree) : Nat := (node.tokens.getLast?.map Token.stopIndex).getD 0

end ParseTree

/-- `substr` of a string, from a position on it. -/
def substr (s : Bytes) (pos len : Nat) : Bytes := (s.drop pos).take len

def spanText (query : Bytes) (ctx : ParseTree) : Bytes :=
  if ctx.tokens.isEmpty then []
  else
    let startIdx := ctx.startIndex
    let stopIdx := ctx.stopIndex
    if query.length < startIdx ∨ query.length < stopIdx + 1 ∨ stopIdx < startIdx then []
    else substr query startIdx (stopIdx - startIdx + 1)

def sourceText (query : Bytes) (ctx : ParseTree) : Bytes := spanText query ctx

/-- The twin of `sourceText` for the helpers that are not members. -/
def ctxText (query : Bytes) (ctx : ParseTree) : Bytes := spanText query ctx

/-- The text of an item that the grouping of `SELECT` and `RETURN` cuts. -/
def exprText (query : Bytes) (expr : ParseTree) : Bytes :=
  substr query expr.startIndex (expr.stopIndex - expr.startIndex + 1)

/-- What `emitRewrittenExpr` emits on its own. -/
def isTarget (anyGraph collectLists : Bool) : RuleKind → Bool
  | .comparisonExprAlt => anyGraph
  | .labeledPredicate => true
  | .listValueConstructorByEnumeration needsCheckedGuard => collectLists && needsCheckedGuard
  | _ => false

mutual

/-- The top-most targets under a node: the descent stops at each, and at aggregates. -/
def collectTopRewrites (anyGraph collectLists : Bool) : ParseTree → List ParseTree
  | .token _ => []
  | .rule _ children => collectTopRewritesOf anyGraph collectLists children

def collectTopRewritesOf (anyGraph collectLists : Bool) : List ParseTree → List ParseTree
  | [] => []
  | child :: children =>
    (if isTarget anyGraph collectLists child.kind then [child]
      else if child.kind = .aggregateFunction then []
      else collectTopRewrites anyGraph collectLists child) ++
    collectTopRewritesOf anyGraph collectLists children

end

def isLabeled (node : ParseTree) : Bool := decide (node.kind = .labeledPredicate)

def isComparison (node : ParseTree) : Bool := decide (node.kind = .comparisonExprAlt)

/-- The three vectors of `collectTopRewrites`, as they are put together. -/
def spliceEntries (collected : List ParseTree) : List ParseTree :=
  collected.filter isComparison ++ collected.filter isLabeled ++
    collected.filter fun node => !isComparison node && !isLabeled node

def replaceSpan (base : Nat) (out : Bytes) (e : Splice) : Bytes :=
  if e.start < base ∨ e.stop < e.start ∨ out.length ≤ e.stop - base then out
  else out.take (e.start - base) ++ e.replacement ++
    out.drop (e.start - base + (e.stop - e.start + 1))

/-- `emitRewrittenExpr` of a rule; `emitted` gives the text of a target, by `emitComparison`,
`emitLabeledPredicate` or `emitCheckedList`. -/
def emitRewrittenExpr (query : Bytes) (anyGraph collectLists : Bool) (emitted : ParseTree → Bytes)
    (rule : ParseTree) : Bytes :=
  if isTarget anyGraph collectLists rule.kind then emitted rule
  else
    let collected := collectTopRewrites anyGraph collectLists rule
    if collected.isEmpty then sourceText query rule
    else
      let out := sourceText query rule
      if out.isEmpty then out
      else
        let entries := (spliceEntries collected).map fun node =>
          (⟨node.startIndex, node.stopIndex, emitted node⟩ : Splice)
        -- from right to left, so that a splice shifts no later one
        (entries.mergeSort fun a b => decide (b.start ≤ a.start)).foldl
          (replaceSpan rule.startIndex) out

mutual

/-- The label sets of several names under a node of an insert pattern, each with the text `joined` of
its names. -/
def labelSplices (joined : ParseTree → Bytes) : ParseTree → List Splice
  | .token _ => []
  | .rule _ children => labelSplicesOf joined none children

/-- `is` is where the `IS` in front of the next child begins, if there is one. -/
def labelSplicesOf (joined : ParseTree → Bytes) (is : Option Nat) : List ParseTree → List Splice
  | [] => []
  | child :: children =>
    (match child.kind with
      | .labelSetSpecification names =>
        if 1 < names then
          match is with
          | none => [⟨child.startIndex, child.stopIndex, joined child⟩]
          | some start => [⟨start, child.stopIndex, Markup.ascii ":" ++ joined child⟩]
        else []
      | _ => labelSplices joined child) ++
    labelSplicesOf joined (if child.kind = .isOrColon true then some child.startIndex else none)
      children

end

/-- The loop that splices from left to right, over offsets of the pattern's text. -/
def spliceForward (text : Bytes) (base : Nat) : Nat → List Splice → Bytes
  | pos, [] => text.drop pos
  | pos, s :: splices =>
    substr text pos (s.start - base - pos) ++ s.replacement ++
      spliceForward text base (s.stop - base + 1) splices

def insertText (query : Bytes) (joined : ParseTree → Bytes) (pattern : ParseTree) : Bytes :=
  let splices := labelSplices joined pattern
  let text := sourceText query pattern
  if splices.isEmpty then text
  else spliceForward text pattern.startIndex 0
    (splices.mergeSort fun a b => decide (a.start ≤ b.start))

end Ladybug.GqlText
