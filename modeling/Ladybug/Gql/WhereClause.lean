import Ladybug.Base.Conditions
import Ladybug.Gql.PathPattern
import Mathlib.Data.List.DropRight

/-!
# The `WHERE` clause of a statement (`gql/src/gql_transformer.cpp`)

The predicates that are gathered for a `MATCH` or a `SELECT` are emitted one by one and joined as texts
with ` AND ` between them.
-/

namespace Ladybug.GqlPath

open Condition List

def isSpace (c : Char) : Bool :=
  c == ' ' || c == '\t' || c == '\n' || c == '\r' || c.toNat == 11 || c.toNat == 12

def trimCopy (s : List Char) : List Char := (s.dropWhile isSpace).rdropWhile isSpace

def isQuote (c : Char) : Bool := c == '`' || c == '\'' || c == '"'

/-- The text between two equal quotes. -/
def stripQuotes (s : List Char) : List Char :=
  match s with
  | c :: rest =>
    if 2 ≤ s.length ∧ isQuote c = true ∧ s.getLast? = some c then rest.dropLast else s
  | [] => []

def labelLiteral (raw : String) : String :=
  let s := stripQuotes (trimCopy raw.toList)
  String.ofList ('\'' :: s.flatMap (fun c => if c = '\'' then ['\'', '\''] else [c]) ++ ['\''])

abbrev CypherCondition (n : Nat) := Condition String 3 n

def hasLabel (anyGraph : Bool) (var : Name) (label : String) : String :=
  let lit := labelLiteral label
  if anyGraph then "list_contains(labels(" ++ var ++ "), " ++ lit ++ ")"
  else "labels(" ++ var ++ ") = " ++ lit

def anyLabel (anyGraph : Bool) (var : Name) : String :=
  if anyGraph then "size(labels(" ++ var ++ ")) > 0" else "true"

def labelCondition (anyGraph : Bool) (var : Name) : LabelTree → CypherCondition 0
  | .labelName text => .atom (hasLabel anyGraph var text)
  | .negation e => .paren ((Condition.neg (labelCondition anyGraph var e)).lift 3)
  | .conjunction l r =>
    .paren (.single (.single
      (.op (labelCondition anyGraph var l) ((labelCondition anyGraph var r).lift 1))))
  | .disjunction l r =>
    .paren (.op ((labelCondition anyGraph var l).lift 2) ((labelCondition anyGraph var r).lift 3))
  | .parenthesized e => labelCondition anyGraph var e
  | .wildcard => .atom (anyLabel anyGraph var)

/-- `labelGraphIsAny` is unset where the kind of the graph is not known. -/
def translateLabelExpression (labelGraphIsAny : Option Bool) (expr : LabelTree) (var : Name) :
    Except String (CypherCondition 0) :=
  match labelGraphIsAny with
  | none => unsupported "label expression (graph kind not resolvable)"
  | some anyGraph => .ok (labelCondition anyGraph var expr)

inductive CompOp where
  | leftAngleBracket
  | lessThanOrEqualsOperator
  | rightAngleBracket
  | greaterThanOrEqualsOperator
  | equalsOperator
  | notEqualsOperator
  deriving DecidableEq

def CompOp.function : CompOp → String
  | .leftAngleBracket => "_gql_lt"
  | .lessThanOrEqualsOperator => "_gql_le"
  | .rightAngleBracket => "_gql_gt"
  | .greaterThanOrEqualsOperator => "_gql_ge"
  | .equalsOperator => "_gql_eq"
  | .notEqualsOperator => "_gql_ne"

/-- What stands between the boolean operators of a search condition.  A comparison has the texts that its
operands are emitted as, and the text that it is emitted as where it is left alone. -/
inductive Operand where
  | comparisonExprAlt (compOp : CompOp) (left right : String) (verbatim : String)
  | labeledPredicate (elementVariableReference : Name) (isNot : Bool) (labelExpression : LabelTree)
  | other (text : String)
  deriving DecidableEq

abbrev SearchCondition := Condition Operand 3 3

def emitComparison (compOp : CompOp) (left right : String) : String :=
  compOp.function ++ "(" ++ left ++ ", " ++ right ++ ")"

def emitLabeledPredicate (labelGraphIsAny : Option Bool) (var : Name) (isNot : Bool) (expr : LabelTree) :
    Except String (CypherCondition 0) := do
  let pred ← translateLabelExpression labelGraphIsAny expr var
  .ok (if isNot then .paren ((Condition.neg pred).lift 3) else pred)

def emitOperand (labelGraphIsAny : Option Bool) : Operand → Except String (CypherCondition 0)
  | .comparisonExprAlt compOp left right verbatim =>
    .ok (.atom (if labelGraphIsAny = some true then emitComparison compOp left right else verbatim))
  | .labeledPredicate var isNot expr => emitLabeledPredicate labelGraphIsAny var isNot expr
  | .other text => .ok (.atom text)

def emitExpr (labelGraphIsAny : Option Bool) (condition : SearchCondition) :
    Except String (CypherCondition 3) :=
  condition.replace (emitOperand labelGraphIsAny)

/-- `finishExpr` of a text: it changes operands, and no operator between them. -/
def finish (finishExpr : String → String) (condition : CypherCondition 3) :
    Except String (CypherCondition 3) :=
  condition.replace fun text => .ok (.atom (finishExpr text))

def PathFilter.text : PathFilter → Name → String
  | .isTrail, var => "IS_TRAIL(" ++ var ++ ")"
  | .isAcyclic, var => "IS_ACYCLIC(" ++ var ++ ")"
  | .isSimple, var => "_gql_is_simple(" ++ var ++ ")"

/-- The text that a predicate is pushed to the list as. -/
def emitPredicate (labelGraphIsAny : Option Bool) (finishExpr : String → String) :
    Predicate SearchCondition → Except String (CypherCondition 3)
  | .element (.labels expr var) => do
      let pred ← translateLabelExpression labelGraphIsAny expr var
      .ok (pred.lift 3)
  | .element (.searchCondition condition) => do
      let emitted ← emitExpr labelGraphIsAny condition
      finish finishExpr emitted
  | .filter predicate var => .ok ((Condition.atom (predicate.text var)).lift 3)

def emitPredicates (labelGraphIsAny : Option Bool) (finishExpr : String → String) :
    List (Predicate SearchCondition) → Except String (List (CypherCondition 3))
  | [] => .ok []
  | predicate :: predicates => do
      let piece ← emitPredicate labelGraphIsAny finishExpr predicate
      let pieces ← emitPredicates labelGraphIsAny finishExpr predicates
      .ok (piece :: pieces)

/-- What stands behind ` WHERE `; without predicates there is no clause. -/
def whereText : List (List (CondToken String)) → Option (List (CondToken String))
  | [] => none
  | first :: rest => some (joinTokens first rest)

def translateWhere (labelGraphIsAny : Option Bool) (finishExpr : String → String)
    (qppiUnrollCounts : Nat → Option Nat) (counters : Counters) (statement : Statement SearchCondition) :
    Except String (Option (List (CondToken String))) := do
  let wheres ← gatherWheres qppiUnrollCounts counters statement
  let pieces ← emitPredicates labelGraphIsAny finishExpr wheres
  .ok (whereText (pieces.map tokens))

def Passes (value : String → Truth) (clause : Option (List (CondToken String))) : Prop :=
  ∀ text, clause = some text → ∃ e : CypherCondition 3, e.tokens = text ∧ e.Accepts value

def labelTruth (anyGraph : Bool) (value : String → Truth) (var : Name) : LabelTree → Truth
  | .labelName text => value (hasLabel anyGraph var text)
  | .negation e => (labelTruth anyGraph value var e).not
  | .conjunction l r => (labelTruth anyGraph value var l).and (labelTruth anyGraph value var r)
  | .disjunction l r => (labelTruth anyGraph value var l).or (labelTruth anyGraph value var r)
  | .parenthesized e => labelTruth anyGraph value var e
  | .wildcard => value (anyLabel anyGraph var)

def operandTruth (anyGraph : Option Bool) (value : String → Truth) : Operand → Truth
  | .comparisonExprAlt compOp left right verbatim =>
    value (if anyGraph = some true then emitComparison compOp left right else verbatim)
  | .labeledPredicate var isNot expr =>
    let pred := labelTruth (anyGraph.getD false) value var expr
    if isNot then pred.not else pred
  | .other text => value text

def Predicate.truth (anyGraph : Option Bool) (finishExpr : String → String) (value : String → Truth) :
    Predicate SearchCondition → Truth
  | .element (.labels expr var) => labelTruth (anyGraph.getD false) value var expr
  | .element (.searchCondition condition) =>
    condition.truth (operandTruth anyGraph fun text => value (finishExpr text))
  | .filter predicate var => value (predicate.text var)

/-- No disjunction stands outside of the parentheses of a predicate; the predicates that the translation
writes itself are in parentheses. -/
def Predicate.tight : Predicate SearchCondition → Bool
  | .element (.searchCondition condition) => Condition.tight condition
  | _ => true

theorem labelCondition_truth (anyGraph : Bool) (value : String → Truth) (var : Name) (expr : LabelTree) :
    (labelCondition anyGraph var expr).truth value = labelTruth anyGraph value var expr := by
  induction expr with
  | labelName | wildcard => rfl
  | negation e ih => exact congrArg Truth.not ih
  | conjunction l r ihl ihr =>
    -- both sides of the operator are operands
    show ((labelCondition anyGraph var l).truth value).and
      (((labelCondition anyGraph var r).lift 1).truth value) = _
    rw [lift_truth, ihl, ihr]
    rfl
  | disjunction l r ihl ihr =>
    show (((labelCondition anyGraph var l).lift 2).truth value).or
      (((labelCondition anyGraph var r).lift 3).truth value) = _
    rw [lift_truth, lift_truth, ihl, ihr]
    rfl
  | parenthesized e ih => exact ih

section

variable {labelGraphIsAny : Option Bool} {finishExpr : String → String}

theorem translateLabelExpression_truth {expr : LabelTree} {var : Name} {pred : CypherCondition 0}
    (h : translateLabelExpression labelGraphIsAny expr var = .ok pred) (value : String → Truth) :
    pred.truth value = labelTruth (labelGraphIsAny.getD false) value var expr := by
  cases labelGraphIsAny with
  | none => cases h
  | some anyGraph =>
    cases h
    exact labelCondition_truth anyGraph value var expr

theorem emitOperand_truth {operand : Operand} {piece : CypherCondition 0}
    (h : emitOperand labelGraphIsAny operand = .ok piece) (value : String → Truth) :
    piece.truth value = operandTruth labelGraphIsAny value operand := by
  cases operand with
  | comparisonExprAlt | other =>
    cases h
    rfl
  | labeledPredicate var isNot expr =>
    obtain ⟨pred, hpred, h⟩ := bind_eq_ok.mp h
    have htruth := translateLabelExpression_truth hpred value
    cases isNot with
    | false =>
      cases h
      exact htruth
    | true =>
      cases h
      show Truth.not (pred.truth value) = _
      rw [htruth]
      rfl

variable {predicate : Predicate SearchCondition} {piece : CypherCondition 3}
  {predicates : List (Predicate SearchCondition)}

section

variable (h : emitPredicate labelGraphIsAny finishExpr predicate = .ok piece)

include h

theorem emitPredicate_truth (value : String → Truth) :
    piece.truth value = predicate.truth labelGraphIsAny finishExpr value := by
  cases predicate with
  | element condition =>
    cases condition with
    | labels expr var =>
      obtain ⟨pred, hpred, h⟩ := bind_eq_ok.mp h
      cases h
      rw [lift_truth, translateLabelExpression_truth hpred]
      rfl
    | searchCondition condition =>
      obtain ⟨emitted, hemitted, h⟩ := bind_eq_ok.mp h
      have hfinish : piece.truth value = emitted.truth fun text => value (finishExpr text) := by
        apply replace_truth _ h
        intro text c hc
        cases hc
        rfl
      rw [hfinish]
      apply replace_truth _ hemitted
      intro operand c hc
      exact emitOperand_truth hc _
  | filter predicate var =>
    cases h
    rfl

theorem emitPredicate_tight : Condition.tight piece = predicate.tight := by
  cases predicate with
  | element condition =>
    cases condition with
    | labels expr var =>
      obtain ⟨pred, _, h⟩ := bind_eq_ok.mp h
      cases h
      exact lift_tight pred 2
    | searchCondition condition =>
      obtain ⟨emitted, hemitted, h⟩ := bind_eq_ok.mp h
      exact (replace_tight h).trans (replace_tight hemitted)
  | filter predicate var =>
    cases h
    rfl

end

variable {pieces : List (CypherCondition 3)}

section

variable (h : emitPredicates labelGraphIsAny finishExpr predicates = .ok pieces)

include h

theorem pieces_accept (value : String → Truth) : (∀ e ∈ pieces, e.Accepts value) ↔
      ∀ p ∈ predicates, p.truth labelGraphIsAny finishExpr value = some true := by
  induction predicates generalizing pieces with
  | nil =>
    cases h
    simp
  | cons predicate predicates ih =>
    obtain ⟨piece, hpiece, h⟩ := bind_eq_ok.mp h
    obtain ⟨rest, hrest, h⟩ := bind_eq_ok.mp h
    cases h
    rw [forall_mem_cons, forall_mem_cons, ih hrest, ← emitPredicate_truth hpiece value]
    rfl

theorem pieces_tight : pieces.all Condition.tight = predicates.all Predicate.tight := by
  induction predicates generalizing pieces with
  | nil =>
    cases h
    rfl
  | cons predicate predicates ih =>
    obtain ⟨piece, hpiece, h⟩ := bind_eq_ok.mp h
    obtain ⟨rest, hrest, h⟩ := bind_eq_ok.mp h
    cases h
    rw [all_cons, all_cons, ih hrest, emitPredicate_tight hpiece]

theorem pieces_length : pieces.length = predicates.length := by
  induction predicates generalizing pieces with
  | nil =>
    cases h
    rfl
  | cons predicate predicates ih =>
    obtain ⟨piece, _, h⟩ := bind_eq_ok.mp h
    obtain ⟨rest, hrest, h⟩ := bind_eq_ok.mp h
    cases h
    exact congrArg (· + 1) (ih hrest)

end

end

theorem passes_nil (value : String → Truth) : Passes value (whereText []) := by
  intro text h
  cases h

theorem passes_cons (value : String → Truth) (first : CypherCondition 3)
    (rest : List (CypherCondition 3)) :
    Passes value (whereText ((first :: rest).map tokens)) ↔ (joinAll first rest).Accepts value := by
  have htokens := joinAll_tokens first rest
  constructor
  · intro h
    obtain ⟨e, he, haccepts⟩ := h _ rfl
    rw [← tokens_injective (he.trans htokens.symm)]
    exact haccepts
  · intro haccepts text htext
    cases htext
    exact ⟨joinAll first rest, htokens, haccepts⟩

def clauseAtoms (clause : Option (List (CondToken String))) : List String :=
  (clause.getD []).filterMap atomOf

theorem clauseAtoms_cons (first : CypherCondition 3) (rest : List (CypherCondition 3)) :
    clauseAtoms (whereText ((first :: rest).map tokens)) = (first :: rest).flatMap atoms := by
  rw [← joinAll_atoms, ← filterMap_tokens, joinAll_tokens]
  rfl

/-- Whether the predicates of a statement may be joined. -/
def Joinable (predicates : List (Predicate SearchCondition)) : Prop :=
  predicates.length ≤ 1 ∨ predicates.all Predicate.tight = true

/-- The clause of a statement accepts the rows on which each of its predicates is true, if there is at
most one predicate, or none with a disjunction outside of its parentheses; and where the operands of the
clause are distinct, only then. -/
theorem where_clause_conjunction (labelGraphIsAny : Option Bool) (finishExpr : String → String)
    (qppiUnrollCounts : Nat → Option Nat) (counters : Counters) (statement : Statement SearchCondition)
    {predicates : List (Predicate SearchCondition)} {clause : Option (List (CondToken String))}
    (hgather : gatherWheres qppiUnrollCounts counters statement = .ok predicates)
    (hclause : translateWhere labelGraphIsAny finishExpr qppiUnrollCounts counters statement = .ok clause) :
    (Joinable predicates → ∀ value, Passes value clause ↔
      ∀ p ∈ predicates, p.truth labelGraphIsAny finishExpr value = some true) ∧
    ((clauseAtoms clause).Nodup → (∀ value, Passes value clause ↔
      ∀ p ∈ predicates, p.truth labelGraphIsAny finishExpr value = some true) → Joinable predicates) := by
  obtain ⟨found, hfound, h⟩ := bind_eq_ok.mp hclause
  have hsame := Except.ok.inj (hgather.symm.trans hfound)
  subst hsame
  obtain ⟨pieces, hpieces, h⟩ := bind_eq_ok.mp h
  cases h
  unfold Joinable
  rw [← pieces_length hpieces, ← pieces_tight hpieces]
  have htruth := pieces_accept hpieces
  cases pieces with
  | nil =>
    refine ⟨fun _ value ↦ ⟨fun _ ↦ ?_, fun _ ↦ passes_nil value⟩, fun _ _ ↦ .inl (Nat.zero_le 1)⟩
    apply (htruth value).mp
    intro e he
    cases he
  | cons first rest =>
    have hlength : (first :: rest).length ≤ 1 ↔ rest = [] := by
      rw [length_cons, Nat.succ_le_succ_iff, Nat.le_zero, length_eq_zero_iff]
    rw [hlength, clauseAtoms_cons]
    simp only [passes_cons, ← htruth]
    refine ⟨?_, fun hatoms => (joinAll_iff hatoms).mp⟩
    rintro (rfl | htight) value
    · exact forall_mem_singleton.symm
    · exact accepts_joinAll value htight

/-- A comparison of a property with a number. -/
def equation (text : String) : Condition Operand 3 0 := .atom (.other text)

/-- `MATCH (n WHERE …) WHERE n.c = 3`. -/
def matchNode (condition : SearchCondition) : Statement SearchCondition :=
  .matchStatement ⟨false, false, false, ⟨none, false,
    [⟨none, none, some (.cons (.pfPathPrimary (.nodePattern
      ⟨some "n", none, some (.elementPatternWhereClause condition)⟩)) .nil)⟩],
    some ((equation "n.c = 3").lift 3)⟩⟩

/-- `n.a = 1 OR n.b = 2`. -/
def disjunction : SearchCondition := .op ((equation "n.a = 1").lift 2) ((equation "n.b = 2").lift 3)

theorem where_clause_conjunction_paren : Passes (fun text ↦ some (text != "n.b = 2"))
    (some ([.left, .atom "n.a = 1", .op 2, .atom "n.b = 2", .right] ++
      .op 0 :: [.atom "n.c = 3"])) := by
  refine ((where_clause_conjunction (some false) id (fun _ => none) ⟨0, 0, 0⟩
    (matchNode ((Condition.paren disjunction).lift 3)) rfl rfl).1 (.inr rfl) _).mpr ?_
  intro p hp
  rcases mem_cons.mp hp with rfl | hp
  · rfl
  · rw [mem_singleton.mp hp]
    rfl

/-- The clause `n.a = 1 OR n.b = 2 AND n.c = 3` accepts a row where `n.c` is not 3. -/
theorem disjunction_in_front : ¬ ∀ (labelGraphIsAny : Option Bool) (finishExpr : String → String)
    (qppiUnrollCounts : Nat → Option Nat) (counters : Counters) (statement : Statement SearchCondition)
    (predicates : List (Predicate SearchCondition)) (clause : Option (List (CondToken String))),
    gatherWheres qppiUnrollCounts counters statement = .ok predicates →
    translateWhere labelGraphIsAny finishExpr qppiUnrollCounts counters statement = .ok clause →
    ∀ value, Passes value clause ↔
      ∀ p ∈ predicates, p.truth labelGraphIsAny finishExpr value = some true := by
  intro h
  have hrow := (h (some false) id (fun _ => none) ⟨0, 0, 0⟩ (matchNode disjunction) _ _ rfl rfl
    fun text ↦ some (text == "n.a = 1")).mp
  have hpasses := (passes_cons (fun text ↦ some (text == "n.a = 1"))
    (.op ((Condition.atom "n.a = 1").lift 2) ((Condition.atom "n.b = 2").lift 3))
    [(Condition.atom "n.c = 3").lift 3]).mpr (by
      simp only [joinAll, lift, joined]
      rfl)
  have hlast := hrow hpasses (.element (.searchCondition ((equation "n.c = 3").lift 3)))
    (.tail _ (.head _))
  exact absurd hlast (by decide)

end Ladybug.GqlPath
