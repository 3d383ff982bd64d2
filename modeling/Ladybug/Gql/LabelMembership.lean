import Ladybug.Base.Unescaping
import Ladybug.Gql.WhereClause

/-!
# Label expressions as sets of labels

GQL asks whether the set of a node's labels satisfies an expression.  The emitted predicate asks
Cypher, for which a `NULL` cell in the column of labels makes every predicate unknown.
-/

namespace Ladybug.GqlPath

open Condition List Option

/-- The labels of a node: a cell of an `ANY` graph, or the name of its table. -/
inductive NodeLabels where
  | any (cell : Option (List String))
  | typed (label : String)

def NodeLabels.anyGraph : NodeLabels → Bool
  | .any _ => true
  | .typed _ => false

/-- A node without a recorded label has none. -/
def NodeLabels.labels : NodeLabels → List String
  | .any cell => cell.getD []
  | .typed label => [label]

/-- A question to the labels: unknown where none are recorded. -/
def NodeLabels.asks (node : NodeLabels) (cell : List String → Bool) (table : String → Bool) : Truth :=
  match node with
  | .any labels => labels.map cell
  | .typed label => some (table label)

/-- What the character behind the backslash of an escape stands for. -/
def escapedCharacter (c : Char) : Option Char :=
  if isQuote c ∨ c = '\\' then some c
  else if c = 't' then some '\t'
  else if c = 'b' then some (Char.ofNat 8)
  else if c = 'n' then some '\n'
  else if c = 'r' then some '\r'
  else if c = 'f' then some (Char.ofNat 12)
  else none

def hexDigitValue (c : Char) : Option Nat :=
  if '0' ≤ c ∧ c ≤ '9' then some (c.toNat - '0'.toNat)
  else if 'a' ≤ c ∧ c ≤ 'f' then some (c.toNat - 'a'.toNat + 10)
  else if 'A' ≤ c ∧ c ≤ 'F' then some (c.toNat - 'A'.toNat + 10)
  else none

/-- What stands between the delimiters of an identifier (`GQLLexer`). -/
inductive NamePiece where
  | character (c : Char)
  | doubledDelimiter
  | escaped (c : Char)
  | unicode (mark : Char) (digits : List Char)

namespace NamePiece

def Legal (delimiter : Char) : NamePiece → Prop
  | character c => c ≠ delimiter ∧ c ≠ '\\' ∧ c ≠ '\r' ∧ c ≠ '\n'
  | doubledDelimiter => True
  | escaped c => (escapedCharacter c).isSome
  | unicode mark digits => (mark = 'u' ∧ digits.length = 4 ∨ mark = 'U' ∧ digits.length = 6) ∧
    ∀ d ∈ digits, (hexDigitValue d).isSome

def text (delimiter : Char) : NamePiece → List Char
  | character c => [c]
  | doubledDelimiter => [delimiter, delimiter]
  | escaped c => ['\\', c]
  | unicode mark digits => '\\' :: mark :: digits

/-- The characters that a piece stands for; with `@` before the delimiter an escape is none. -/
def value (noEscape : Bool) (delimiter : Char) : NamePiece → List Char
  | character c => [c]
  | doubledDelimiter => [delimiter]
  | escaped c => if noEscape then ['\\', c] else [(escapedCharacter c).getD c]
  | unicode mark digits =>
    if noEscape then '\\' :: mark :: digits
    else [Char.ofNat (digits.foldl (fun n d => 16 * n + (hexDigitValue d).getD 0) 0)]

/-- The emitted literal spells the piece as GQL does. -/
def Clean : NamePiece → Prop
  | character _ => True
  | doubledDelimiter => False
  | escaped c => c = '\\' ∨ c = 'n' ∨ c = 'r' ∨ c = 't'
  | unicode _ _ => False

end NamePiece

/-- A label name as it is written. -/
inductive LabelName where
  | regular (name : List Char)
      (legal : ∀ c ∈ name, isSpace c = false ∧ isQuote c = false ∧ c ≠ '\\')
  | delimited (noEscape : Bool) (delimiter : Char) (pieces : List NamePiece)
      (delimits : delimiter = '"' ∨ delimiter = '`')
      (legal : ∀ piece ∈ pieces, piece.Legal delimiter)

namespace LabelName

def written : LabelName → List Char
  | regular name _ => name
  | delimited noEscape delimiter pieces _ _ => (if noEscape then ['@'] else []) ++
      delimiter :: (pieces.flatMap (NamePiece.text delimiter) ++ [delimiter])

/-- What the text stands for. -/
def characters : LabelName → List Char
  | regular name _ => name
  | delimited noEscape delimiter pieces _ _ => pieces.flatMap (NamePiece.value noEscape delimiter)

def text (name : LabelName) : String := String.ofList name.written

def value (name : LabelName) : String := String.ofList name.characters

def Clean : LabelName → Prop
  | regular _ _ => True
  | delimited noEscape _ pieces _ _ => noEscape = false ∧ ∀ piece ∈ pieces, piece.Clean

end LabelName

/-- A label expression over written names. -/
inductive NamedLabels where
  | labelName (name : LabelName)
  | negation (e : NamedLabels)
  | conjunction (l r : NamedLabels)
  | disjunction (l r : NamedLabels)
  | parenthesized (e : NamedLabels)
  | wildcard

namespace NamedLabels

/-- The tree with the source texts of its names. -/
def source : NamedLabels → LabelTree
  | labelName name => .labelName name.text
  | negation e => .negation e.source
  | conjunction l r => .conjunction l.source r.source
  | disjunction l r => .disjunction l.source r.source
  | parenthesized e => .parenthesized e.source
  | wildcard => .wildcard

def names : NamedLabels → List LabelName
  | labelName name => [name]
  | negation e => e.names
  | conjunction l r => l.names ++ r.names
  | disjunction l r => l.names ++ r.names
  | parenthesized e => e.names
  | wildcard => []

/-- The set of labels satisfies the expression. -/
def holds (labels : List String) : NamedLabels → Bool
  | labelName name => labels.contains name.value
  | negation e => !e.holds labels
  | conjunction l r => l.holds labels && r.holds labels
  | disjunction l r => l.holds labels || r.holds labels
  | parenthesized e => e.holds labels
  | wildcard => !labels.isEmpty

end NamedLabels

/-- `IS LABELED` and `IS NOT LABELED`. -/
def gqlSelects (node : NodeLabels) (isNot : Bool) (expr : NamedLabels) : Bool :=
  (expr.holds node.labels).xor isNot

def textAfter (front text : String) : Option String :=
  if front.toList <+: text.toList then
    some (String.ofList (text.toList.drop front.toList.length))
  else none

variable (u : Unescaping)

/-- Cypher's reading of a string literal. -/
def literalValue (literal : String) : Option String :=
  (u.body literal.toList.tail.dropLast).map String.ofList

/-- What Cypher makes of the four texts that stand between the operators; a literal that is
refused leaves the text unknown. -/
def atomValue (node : NodeLabels) (var : Name) (text : String) : Truth :=
  match node with
  | .any cell =>
    match textAfter ("list_contains(labels(" ++ var ++ "), ") text with
    | some rest =>
      (literalValue u (String.ofList rest.toList.dropLast)).bind fun name =>
        cell.map fun labels => labels.contains name
    | none => cell.map fun labels => decide (0 < labels.length)
  | .typed label =>
    match textAfter ("labels(" ++ var ++ ") = ") text with
    | some rest => (literalValue u rest).map (label == ·)
    | none => some true

/-- The node is in the result of a `WHERE` with the emitted predicate. -/
def Selects (node : NodeLabels) (var : Name) (isNot : Bool) (expr : LabelTree) : Prop :=
  ∃ pred, emitLabeledPredicate (some node.anyGraph) var isNot expr = .ok pred ∧
    pred.Accepts (atomValue u node var)

def LabelsAgree (node : NodeLabels) (var : Name) (isNot : Bool) (expr : NamedLabels) : Prop :=
  Selects u node var isNot expr.source ↔ gqlSelects node isNot expr = true

variable {u} {node : NodeLabels} {var : Name} {expr : NamedLabels}

theorem textAfter_append (front rest : String) : textAfter front (front ++ rest) = some rest := by
  unfold textAfter
  rw [String.toList_append, if_pos (prefix_append _ _), drop_left, String.ofList_toList]

theorem textAfter_of_ne {front text : String} {c d : Char} {rest rest' : List Char}
    (hfront : front.toList = c :: rest) (htext : text.toList = d :: rest') (hne : c ≠ d) :
    textAfter front text = none := by
  unfold textAfter
  rw [hfront, htext, if_neg]
  intro h
  exact hne (cons_prefix_cons.mp h).1

theorem atomValue_hasLabel (text : String) :
    atomValue u node var (hasLabel node.anyGraph var text) =
      (literalValue u (labelLiteral text)).bind fun name =>
        node.asks (·.contains name) (· == name) := by
  cases node with
  | any cell =>
    have hrest : textAfter ("list_contains(labels(" ++ var ++ "), ") (hasLabel true var text) =
        some (labelLiteral text ++ ")") := by
      show textAfter _ ("list_contains(labels(" ++ var ++ "), " ++ labelLiteral text ++ ")") = _
      rw [@String.append_assoc ("list_contains(labels(" ++ var ++ "), "), textAfter_append]
    have hliteral : String.ofList (labelLiteral text ++ ")").toList.dropLast = labelLiteral text := by
      rw [String.toList_append, show ")".toList = [')'] from rfl, dropLast_concat,
        String.ofList_toList]
    show atomValue u (.any cell) var (hasLabel true var text) = _
    simp only [atomValue, hrest, hliteral]
    rfl
  | typed label =>
    have hrest : textAfter ("labels(" ++ var ++ ") = ") (hasLabel false var text) =
        some (labelLiteral text) := textAfter_append _ _
    show atomValue u (.typed label) var (hasLabel false var text) = _
    simp only [atomValue, hrest]
    cases literalValue u (labelLiteral text) with
    | none | some _ => rfl

theorem atomValue_anyLabel : atomValue u node var (anyLabel node.anyGraph var) =
    node.asks (fun labels => decide (0 < labels.length)) fun _ => true := by
  cases node with
  | any cell =>
    have hnone : textAfter ("list_contains(labels(" ++ var ++ "), ") (anyLabel true var) = none := by
      show textAfter _ ("size(labels(" ++ var ++ ")) > 0") = none
      apply textAfter_of_ne
      · rw [String.toList_append, String.toList_append]
        rfl
      · rw [String.toList_append, String.toList_append]
        rfl
      · decide
    show atomValue u (.any cell) var (anyLabel true var) = _
    simp only [atomValue, hnone]
    rfl
  | typed label =>
    have hnone : textAfter ("labels(" ++ var ++ ") = ") (anyLabel false var) = none := by
      show textAfter _ "true" = none
      apply textAfter_of_ne
      · rw [String.toList_append, String.toList_append]
        rfl
      · rfl
      · decide
    show atomValue u (.typed label) var (anyLabel false var) = _
    simp only [atomValue, hnone]
    rfl

theorem asks_recorded (hnode : node ≠ .any none) (cell : List String → Bool) (table : String → Bool)
    (h : ∀ label, table label = cell [label]) : node.asks cell table = some (cell node.labels) := by
  cases node with
  | any labels =>
    cases labels with
    | none => exact absurd rfl hnode
    | some labels => rfl
  | typed label => exact congrArg some (h label)

/-- The literal of a name is read as the name. -/
def NameRead (u : Unescaping) (name : LabelName) : Prop :=
  literalValue u (labelLiteral name.text) = some name.value

/-- On a node with recorded labels the predicate is known, and says what GQL says. -/
theorem labelTruth_recorded (hnode : node ≠ .any none)
    (hnames : ∀ name ∈ expr.names, NameRead u name) :
    labelTruth node.anyGraph (atomValue u node var) var expr.source =
      some (expr.holds node.labels) := by
  induction expr with
  | labelName name =>
    show atomValue u node var (hasLabel node.anyGraph var name.text) = _
    rw [atomValue_hasLabel, hnames name mem_cons_self]
    exact asks_recorded hnode (·.contains name.value) _ fun label => by
      rw [contains_cons, Bool.beq_comm, contains_nil, Bool.or_false]
  | negation e ih =>
    show Truth.not _ = _
    rw [ih hnames]
    rfl
  | conjunction l r ihl ihr =>
    show Truth.and _ _ = _
    rw [ihl fun name h => hnames name (mem_append_left _ h),
      ihr fun name h => hnames name (mem_append_right _ h)]
    exact op_some 0 _ _
  | disjunction l r ihl ihr =>
    show Truth.or _ _ = _
    rw [ihl fun name h => hnames name (mem_append_left _ h),
      ihr fun name h => hnames name (mem_append_right _ h)]
    exact op_some 2 _ _
  | parenthesized e ih => exact ih hnames
  | wildcard =>
    show atomValue u node var (anyLabel node.anyGraph var) = _
    rw [atomValue_anyLabel,
      asks_recorded hnode (fun labels => decide (0 < labels.length)) (fun _ => true) fun _ => rfl]
    show some (decide (0 < node.labels.length)) = some (!node.labels.isEmpty)
    cases node.labels with
    | nil | cons => rfl

theorem labelTruth_null {tree : LabelTree} :
    labelTruth true (atomValue u (.any none) var) var tree = none := by
  induction tree with
  | labelName text =>
    show atomValue u (.any none) var (hasLabel true var text) = none
    rw [show true = (NodeLabels.any none).anyGraph from rfl, atomValue_hasLabel]
    cases literalValue u (labelLiteral text) with
    | none | some _ => rfl
  | negation e ih =>
    show Truth.not _ = _
    rw [ih]
    rfl
  | conjunction l r ihl ihr =>
    show Truth.and _ _ = _
    rw [ihl, ihr]
    rfl
  | disjunction l r ihl ihr =>
    show Truth.or _ _ = _
    rw [ihl, ihr]
    rfl
  | parenthesized e ih => exact ih
  | wildcard => exact @atomValue_anyLabel u (.any none) var

theorem selects_iff {tree : LabelTree} (isNot : Bool) : Selects u node var isNot tree ↔
    operandTruth (some node.anyGraph) (atomValue u node var)
      (.labeledPredicate var isNot tree) = some true := by
  have hruns : ∀ pred, emitLabeledPredicate (some node.anyGraph) var isNot tree = .ok pred →
      pred.truth (atomValue u node var) = operandTruth (some node.anyGraph)
        (atomValue u node var) (.labeledPredicate var isNot tree) :=
    fun pred hpred => @emitOperand_truth _ (.labeledPredicate var isNot tree) pred hpred _
  constructor
  · rintro ⟨pred, hpred, haccepts⟩
    exact (hruns pred hpred).symm.trans haccepts
  · intro h
    exact ⟨_, rfl, (hruns _ rfl).trans h⟩

theorem selects_name {label text : String} :
    Selects u (.any (some [label])) var false (.labelName text) ↔
      literalValue u (labelLiteral text) = some label := by
  have hvalue : operandTruth (some true) (atomValue u (.any (some [label])) var)
      (.labeledPredicate var false (.labelName text)) =
        (literalValue u (labelLiteral text)).bind fun name => some ([label].contains name) :=
    @atomValue_hasLabel u (.any (some [label])) var text
  rw [selects_iff]
  show operandTruth (some true) _ _ = _ ↔ _
  rw [hvalue]
  cases literalValue u (labelLiteral text) with
  | none => simp
  | some name => simp

theorem not_selects_null {tree : LabelTree} (isNot : Bool) :
    ¬ Selects u (.any none) var isNot tree := by
  rw [selects_iff]
  show ¬ (if isNot then Truth.not (labelTruth true _ var tree) else labelTruth true _ var tree) =
    some true
  rw [labelTruth_null]
  cases isNot with
  | false | true => decide

theorem agrees_recorded (hnode : node ≠ .any none)
    (hnames : ∀ name ∈ expr.names, NameRead u name) (isNot : Bool) :
    LabelsAgree u node var isNot expr := by
  have htruth := @labelTruth_recorded u node var expr hnode hnames
  unfold LabelsAgree gqlSelects
  rw [selects_iff]
  unfold operandTruth
  simp only [getD_some, htruth]
  cases isNot with
  | false => simp
  | true =>
    show some (!_) = some true ↔ _
    simp

theorem trimCopy_eq {s : List Char} (hhead : ∀ c ∈ s.head?, isSpace c = false)
    (hlast : ∀ c ∈ s.getLast?, isSpace c = false) : trimCopy s = s := by
  have hdrop : s.dropWhile isSpace = s := by
    cases s with
    | nil => rfl
    | cons c rest => rw [dropWhile_cons_of_neg (by simp [hhead c rfl])]
  unfold trimCopy
  rw [hdrop, rdropWhile_eq_self_iff]
  intro hne
  simp [hlast _ (getLast?_eq_some_getLast hne)]

theorem stripQuotes_of_ne {s : List Char} (hs : ∀ c ∈ s.head?, isQuote c = false) :
    stripQuotes s = s := by
  cases s with
  | nil => rfl
  | cons c rest =>
    show (if _ then _ else _) = _
    rw [if_neg (by simp [hs c rfl])]

variable {delimiter : Char}

theorem delimiter_plain (delimits : delimiter = '"' ∨ delimiter = '`') :
    isQuote delimiter = true ∧ isSpace delimiter = false ∧ delimiter ≠ quoteChar ∧
      delimiter ≠ '\\' ∧ delimiter ≠ '@' := by
  rcases delimits with rfl | rfl <;> decide

/-- What the emitted literal quotes. -/
def LabelName.quoted : LabelName → List Char
  | delimited false delimiter pieces _ _ => pieces.flatMap (NamePiece.text delimiter)
  | name => name.written

theorem stripQuotes_written (name : LabelName) :
    stripQuotes (trimCopy name.written) = name.quoted := by
  cases name with
  | regular name legal =>
    show stripQuotes (trimCopy name) = name
    rw [trimCopy_eq (fun c hc => (legal c (mem_of_mem_head? hc)).1)
      fun c hc => (legal c (mem_of_getLast? hc)).1,
      stripQuotes_of_ne fun c hc => (legal c (mem_of_mem_head? hc)).2.1]
  | delimited noEscape delimiter pieces delimits legal =>
    obtain ⟨hquote, hspace, -⟩ := delimiter_plain delimits
    have hlast : ∀ front, (front ++ delimiter ::
        (pieces.flatMap (NamePiece.text delimiter) ++ [delimiter])).getLast? = some delimiter := by
      intro front
      rw [← cons_append, ← append_assoc, getLast?_concat]
    have hend : ∀ front, ∀ c ∈ (front ++ delimiter ::
        (pieces.flatMap (NamePiece.text delimiter) ++ [delimiter])).getLast?, isSpace c = false :=
      fun front c hc => some.inj ((hlast front).symm.trans hc) ▸ hspace
    cases noEscape with
    | false =>
      show stripQuotes (trimCopy ([] ++ delimiter :: _)) = _
      rw [trimCopy_eq (by simp [hspace]) (hend [])]
      show (if _ then _ else _) = _
      rw [if_pos ⟨by simp, hquote, hlast []⟩, dropLast_concat]
      rfl
    | true =>
      show stripQuotes (trimCopy (['@'] ++ delimiter :: _)) = _
      rw [trimCopy_eq (by simp; decide) (hend _), stripQuotes_of_ne (by simp; decide)]
      rfl

theorem nameRead_iff {name : LabelName} :
    NameRead u name ↔ u.body (name.quoted.flatMap doubleQuote) = some name.characters := by
  have hbody : (labelLiteral name.text).toList.tail.dropLast = name.quoted.flatMap doubleQuote := by
    unfold labelLiteral LabelName.text
    simp only [String.toList_ofList, stripQuotes_written, cons_append, tail_cons, dropLast_concat]
    rfl
  unfold NameRead literalValue LabelName.value
  rw [hbody, ← map_some]
  exact (map_injective fun _ _ h => String.ofList_injective h).eq_iff

/-- How a reading that knows no other escapes takes a piece. -/
def NamePiece.read (delimiter : Char) : NamePiece → Option (List Char)
  | .character c => some [c]
  | .doubledDelimiter => some [delimiter, delimiter]
  | .escaped c => (knownEscape c).map ([·])
  | .unicode _ _ => none

theorem body_of_read (delimits : delimiter = '"' ∨ delimiter = '`') {piece : NamePiece}
    (hlegal : piece.Legal delimiter) {front : List Char} (hread : piece.read delimiter = some front)
    (rest : List Char) :
    u.body ((piece.text delimiter).flatMap doubleQuote ++ rest) = (u.body rest).map (front ++ ·) := by
  cases piece with
  | character c =>
    cases hread
    show u.body ((doubleQuote c ++ []) ++ rest) = _
    rw [append_nil]
    exact u.body_doubleQuote hlegal.2.1 rest
  | doubledDelimiter =>
    cases hread
    obtain ⟨-, -, hquote, hback, -⟩ := delimiter_plain delimits
    show u.body (doubleQuote delimiter ++ (doubleQuote delimiter ++ []) ++ rest) = _
    rw [append_nil, append_assoc, u.body_doubleQuote hback, u.body_doubleQuote hback, Option.map_map]
    rfl
  | escaped c =>
    obtain ⟨d, hd, rfl⟩ := map_eq_some_iff.mp hread
    have hquote : c ≠ quoteChar := by
      rintro rfl
      cases hd
    show u.body ('\\' :: ((doubleQuote c ++ []) ++ rest)) = _
    rw [append_nil, doubleQuote_of_ne hquote]
    exact u.body_escape c d rest hd
  | unicode mark digits => cases hread

theorem strictBody_of_unread {piece : NamePiece} (hlegal : piece.Legal delimiter)
    (hread : piece.read delimiter = none) (rest : List Char) :
    strict.body ((piece.text delimiter).flatMap doubleQuote ++ rest) = none := by
  have hrefused : ∀ c more, knownEscape c = none →
      strictBody ('\\' :: (doubleQuote c ++ more)) = none := by
    intro c more hc
    -- a quote after the backslash is doubled
    have hcons : ∃ more', doubleQuote c ++ more = c :: more' := by
      by_cases hquote : c = quoteChar
      · exact ⟨quoteChar :: more, by rw [hquote]; rfl⟩
      · exact ⟨more, by rw [doubleQuote_of_ne hquote]; rfl⟩
    obtain ⟨more', hmore⟩ := hcons
    rw [hmore, strictBody_escape, hc]
    rfl
  cases piece with
  | character | doubledDelimiter => cases hread
  | escaped c =>
    have htext : (NamePiece.text delimiter (.escaped c)).flatMap doubleQuote ++ rest =
        '\\' :: (doubleQuote c ++ rest) := by
      simp [NamePiece.text, doubleQuote_of_ne backslash_ne_quote]
    rw [htext]
    exact hrefused c rest (map_eq_none_iff.mp hread)
  | unicode mark digits =>
    have hmark : knownEscape mark = none := by
      rcases hlegal.1 with ⟨rfl, _⟩ | ⟨rfl, _⟩ <;> decide
    have htext : (NamePiece.text delimiter (.unicode mark digits)).flatMap doubleQuote ++ rest =
        '\\' :: (doubleQuote mark ++ (digits.flatMap doubleQuote ++ rest)) := by
      simp [NamePiece.text, doubleQuote_of_ne backslash_ne_quote]
    rw [htext]
    exact hrefused mark _ hmark

def readPieces (delimiter : Char) : List NamePiece → Option (List Char)
  | [] => some []
  | piece :: pieces => (piece.read delimiter).bind fun front =>
    (readPieces delimiter pieces).map (front ++ ·)

theorem readPieces_cons {piece : NamePiece} {pieces : List NamePiece} {t : List Char}
    (h : readPieces delimiter (piece :: pieces) = some t) : ∃ front back,
      piece.read delimiter = some front ∧ readPieces delimiter pieces = some back ∧
        t = front ++ back := by
  obtain ⟨front, hfront, h⟩ := bind_eq_some_iff.mp h
  obtain ⟨back, hback, rfl⟩ := map_eq_some_iff.mp h
  exact ⟨front, back, hfront, hback, rfl⟩

section

variable (delimits : delimiter = '"' ∨ delimiter = '`') {pieces : List NamePiece}
  (hlegal : ∀ piece ∈ pieces, piece.Legal delimiter)
include delimits hlegal

theorem body_pieces {t : List Char} (hread : readPieces delimiter pieces = some t)
    (rest : List Char) :
    u.body ((pieces.flatMap (NamePiece.text delimiter)).flatMap doubleQuote ++ rest) =
      (u.body rest).map (t ++ ·) := by
  induction pieces generalizing t with
  | nil =>
    cases hread
    exact map_id_apply.symm
  | cons piece pieces ih =>
    obtain ⟨front, back, hfront, hback, rfl⟩ := readPieces_cons hread
    obtain ⟨hpiece, hrest⟩ := forall_mem_cons.mp hlegal
    rw [flatMap_cons, flatMap_append, append_assoc, body_of_read delimits hpiece hfront,
      ih hrest hback, Option.map_map]
    simp only [append_assoc]
    rfl

theorem strictBody_pieces {rest s : List Char}
    (h : strict.body ((pieces.flatMap (NamePiece.text delimiter)).flatMap doubleQuote ++ rest) =
      some s) : ∃ t, readPieces delimiter pieces = some t := by
  induction pieces generalizing s with
  | nil => exact ⟨[], rfl⟩
  | cons piece pieces ih =>
    obtain ⟨hpiece, hrest⟩ := forall_mem_cons.mp hlegal
    rw [flatMap_cons, flatMap_append, append_assoc] at h
    cases hread : piece.read delimiter with
    | none =>
      rw [strictBody_of_unread hpiece hread] at h
      cases h
    | some front =>
      rw [body_of_read delimits hpiece hread] at h
      obtain ⟨s', hs', -⟩ := map_eq_some_iff.mp h
      obtain ⟨back, hback⟩ := ih hrest hs'
      refine ⟨front ++ back, ?_⟩
      unfold readPieces
      rw [hread, hback]
      rfl

end

theorem readPieces_of_clean {pieces : List NamePiece} (hclean : ∀ piece ∈ pieces, piece.Clean) :
    readPieces delimiter pieces = some (pieces.flatMap (NamePiece.value false delimiter)) := by
  induction pieces with
  | nil => rfl
  | cons piece pieces ih =>
    obtain ⟨hpiece, hrest⟩ := forall_mem_cons.mp hclean
    have hread : piece.read delimiter = some (piece.value false delimiter) := by
      cases piece with
      | character c => rfl
      | escaped c => rcases hpiece with rfl | rfl | rfl | rfl <;> rfl
      | doubledDelimiter | unicode _ _ => exact hpiece.elim
    unfold readPieces
    rw [hread, ih hrest]
    rfl

-- the reading is as long as the name only where no delimiter is doubled
theorem readPieces_length {pieces : List NamePiece} {t : List Char}
    (h : readPieces delimiter pieces = some t) :
    pieces.length ≤ t.length ∧ (t.length ≤ pieces.length → ∀ piece ∈ pieces, piece.Clean) := by
  induction pieces generalizing t with
  | nil => exact ⟨Nat.zero_le _, fun _ => forall_mem_nil _⟩
  | cons piece pieces ih =>
    obtain ⟨front, back, hfront, hback, rfl⟩ := readPieces_cons h
    have hrest := ih hback
    have hpiece : 1 ≤ front.length ∧ (front.length ≤ 1 → piece.Clean) := by
      cases piece with
      | character c =>
        cases hfront
        exact ⟨le_refl 1, fun _ => trivial⟩
      | doubledDelimiter =>
        cases hfront
        exact ⟨by simp, fun hle => absurd hle (by simp)⟩
      | escaped c =>
        obtain ⟨d, hd, rfl⟩ := map_eq_some_iff.mp hfront
        refine ⟨le_refl 1, fun _ => ?_⟩
        unfold knownEscape at hd
        show _ ∨ _
        grind
      | unicode mark digits => cases hfront
    simp only [length_append, length_cons, forall_mem_cons]
    exact ⟨by omega, fun hle => ⟨hpiece.2 (by omega), hrest.2 (by omega)⟩⟩

theorem value_length (pieces : List NamePiece) :
    (pieces.flatMap (NamePiece.value false delimiter)).length = pieces.length := by
  induction pieces with
  | nil => rfl
  | cons piece pieces ih =>
    rw [flatMap_cons, length_append, ih, length_cons, Nat.add_comm]
    cases piece <;> rfl

-- neither reading of an escape holds the mark of a name without escapes
theorem readPieces_count (hat : delimiter ≠ '@') {pieces : List NamePiece}
    (hlegal : ∀ piece ∈ pieces, piece.Legal delimiter) {t : List Char}
    (h : readPieces delimiter pieces = some t) :
    t.count '@' = (pieces.flatMap (NamePiece.value true delimiter)).count '@' := by
  induction pieces generalizing t with
  | nil =>
    cases h
    rfl
  | cons piece pieces ih =>
    obtain ⟨front, back, hfront, hback, rfl⟩ := readPieces_cons h
    obtain ⟨hpiece, hrest⟩ := forall_mem_cons.mp hlegal
    have hcount : front.count '@' = (piece.value true delimiter).count '@' := by
      cases piece with
      | character c =>
        cases hfront
        rfl
      | doubledDelimiter =>
        cases hfront
        simp [NamePiece.value, hat]
      | escaped c =>
        have hc : c ≠ '@' := by
          rintro rfl
          cases hpiece
        obtain ⟨d, hd, rfl⟩ := map_eq_some_iff.mp hfront
        have hd' : d ≠ '@' := by
          rintro rfl
          unfold knownEscape at hd
          split_ifs at hd <;> cases hd
        simp [NamePiece.value, hc, hd']
      | unicode mark digits => cases hfront
    rw [flatMap_cons, count_append, count_append, hcount, ih hrest hback]

theorem LabelName.Clean.read {name : LabelName} (hclean : name.Clean) : NameRead u name := by
  rw [nameRead_iff]
  cases name with
  | regular name legal =>
    show u.body (name.flatMap doubleQuote) = some name
    induction name with
    | nil => exact u.body_nil
    | cons c rest ih =>
      obtain ⟨hc, hrest⟩ := forall_mem_cons.mp legal
      rw [flatMap_cons, u.body_doubleQuote hc.2.2, ih hrest trivial]
      rfl
  | delimited noEscape delimiter pieces delimits legal =>
    obtain ⟨rfl, hpieces⟩ := hclean
    have hbody := @body_pieces u _ delimits _ legal _ (readPieces_of_clean hpieces) []
    rw [append_nil, u.body_nil] at hbody
    exact hbody.trans (congrArg some (append_nil _))

theorem LabelName.clean_of_read {name : LabelName} (hread : NameRead strict name) : name.Clean := by
  rw [nameRead_iff] at hread
  cases name with
  | regular name legal => trivial
  | delimited noEscape delimiter pieces delimits legal =>
    obtain ⟨-, -, hquote, hback, hat⟩ := delimiter_plain delimits
    cases noEscape with
    | false =>
      have hread' : strict.body ((pieces.flatMap (NamePiece.text delimiter)).flatMap doubleQuote ++
          []) = some (pieces.flatMap (NamePiece.value false delimiter)) := by
        rw [append_nil]
        exact hread
      obtain ⟨t, ht⟩ := strictBody_pieces delimits legal hread'
      rw [body_pieces delimits legal ht, strict.body_nil, map_some, append_nil] at hread'
      have hlength := congrArg length (some.inj hread')
      rw [value_length] at hlength
      exact ⟨rfl, (readPieces_length ht).2 hlength.le⟩
    | true =>
      have hread' : strict.body (doubleQuote '@' ++ (doubleQuote delimiter ++
          ((pieces.flatMap (NamePiece.text delimiter)).flatMap doubleQuote ++
            (doubleQuote delimiter ++ [])))) =
          some (pieces.flatMap (NamePiece.value true delimiter)) := by
        refine Eq.trans (congrArg strict.body ?_) hread
        simp [LabelName.quoted, LabelName.written]
      rw [strict.body_doubleQuote (by decide), strict.body_doubleQuote hback] at hread'
      obtain ⟨s, hs, hs'⟩ := map_eq_some_iff.mp hread'
      obtain ⟨s', hbody, rfl⟩ := map_eq_some_iff.mp hs
      obtain ⟨t, ht⟩ := strictBody_pieces delimits legal hbody
      rw [body_pieces delimits legal ht, strict.body_doubleQuote hback, strict.body_nil] at hbody
      cases hbody
      have hcount := congrArg (count '@') hs'
      rw [← readPieces_count hat legal ht, count_cons_self, count_cons_of_ne hat, count_append] at hcount
      omega

/-- A node without recorded labels is never selected.  Elsewhere expressions over some names mean
membership, under every reading of the literals, exactly when the names are clean. -/
theorem label_expressions_membership (names : Set LabelName) :
    (∀ u var isNot expr, LabelsAgree u (.any none) var isNot expr ↔
      gqlSelects (.any none) isNot expr = false) ∧
    ((∀ u (expr : NamedLabels), (∀ name ∈ expr.names, name ∈ names) →
        ∀ node ≠ NodeLabels.any none, ∀ var isNot, LabelsAgree u node var isNot expr) ↔
      ∀ name ∈ names, name.Clean) := by
  constructor
  · intro u var isNot expr
    unfold LabelsAgree
    rw [iff_false_left (not_selects_null isNot), Bool.not_eq_true]
  · constructor
    · intro h name hname
      have hagrees := h strict (.labelName name) (fun n hn => mem_singleton.mp hn ▸ hname)
        (.any (some [name.value])) (by simp) "n" false
      exact LabelName.clean_of_read (selects_name.mp
        (hagrees.mpr (by simp [gqlSelects, NamedLabels.holds, NodeLabels.labels])))
    · intro hnames u expr hexpr node hnode var isNot
      exact agrees_recorded hnode (fun name hn => (hnames name (hexpr name hn)).read) isNot

def labelA : LabelName := .regular ['A'] (by simp; decide)

/-- A node without recorded labels has no label `A`, and yet `!A` does not select it. -/
theorem label_expressions_null : ¬ ∀ (u : Unescaping) (node : NodeLabels) (var : Name)
    (isNot : Bool) (expr : NamedLabels), LabelsAgree u node var isNot expr := by
  intro h
  exact not_selects_null false
    ((h strict (.any none) "n" false (.negation (.labelName labelA))).mpr rfl)

end Ladybug.GqlPath
