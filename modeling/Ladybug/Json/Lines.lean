import Ladybug.Json.JsonScan
import Mathlib.Data.List.Forall2
import Mathlib.Data.List.TakeWhile

/-!
# Files of lines

What a line is to the scan, and what a text of lines contains.  A parser reads a value wherever it
stands between white space and something that ends it.
-/

namespace Ladybug.JsonScan

open Markup List

variable {Doc : Type} {parser : Parser Doc}

/-- The white space of JSON. -/
def isBlank (c : UInt8) : Bool := c == ' '.toUInt8 || c == '\t'.toUInt8 || c == newline || c == 13

variable {c : UInt8} {line front back : Bytes}

theorem isSpace_of_isBlank (h : isBlank c = true) : isSpace c = true := by
  unfold isBlank at h
  simp only [Bool.or_eq_true, beq_iff_eq] at h
  rcases h with ((rfl | rfl) | rfl) | rfl
  all_goals decide

/-- What may follow a value. -/
def Delimited (rest : Bytes) : Prop :=
  ∀ c tail, rest = c :: tail → isBlank c = true ∨ isSeparator c = true

/-- The parser reads this value behind white space, where the text does not go on or is delimited,
and reading changes only what it reads. -/
structure Parser.Reads (parser : Parser Doc) (value : Bytes) (doc : Doc) : Prop where
  starts : ∃ c rest, value = c :: rest ∧ isSpace c = false
  read : ∀ front rest after : Bytes, front.all isBlank = true → Delimited rest →
    (rest = [] → padding <+: after) →
      parser.read (front ++ (value ++ rest)) after = .ok (doc, front.length + value.length)

/-- Reading in place keeps the size of the text and what is behind the bytes read. -/
structure Parser.Lawful (parser : Parser Doc) : Prop where
  length : ∀ text after, (parser.inPlace text after).length = text.length
  behind : ∀ text after doc n, parser.read text after = .ok (doc, n) →
    (parser.inPlace text after).drop n = text.drop n

inductive IsLine (parser : Parser Doc) : Bytes → Option Doc → Prop
  | blank {line : Bytes} : line.all isBlank = true → IsLine parser line none
  | value {front value back : Bytes} {doc : Doc} :
      front.all isBlank = true → back.all isBlank = true → parser.Reads value doc →
        IsLine parser (front ++ (value ++ back)) (some doc)

theorem not_blank_of_reads {value : Bytes} {doc : Doc} (h : parser.Reads value doc)
    (front back : Bytes) : (front ++ (value ++ back)).all isBlank = false := by
  obtain ⟨c, rest, rfl, hc⟩ := h.starts
  cases hb : isBlank c with
  | false => simp [hb]
  | true => rw [isSpace_of_isBlank hb] at hc; cases hc

theorem delimited_of_blank {rest : Bytes} (h : rest.all isBlank = true) : Delimited rest := by
  rintro c tail rfl
  rw [all_cons, Bool.and_eq_true] at h
  exact .inl h.1

def lineDoc (parser : Parser Doc) (line : Bytes) : Option Doc :=
  if line.all isBlank then none
  else
    match parser.read line padding with
    | .ok (doc, _) => some doc
    | .error _ => none

theorem IsLine.doc {doc : Option Doc} (h : IsLine parser line doc) : lineDoc parser line = doc := by
  unfold lineDoc
  cases h with
  | blank hblank => rw [if_pos hblank]
  | @value front value back doc hfront hback hreads =>
    rw [if_neg (by rw [not_blank_of_reads hreads]; decide),
      hreads.read front back padding hfront (delimited_of_blank hback) (fun _ => prefix_rfl)]

theorem IsLine.cons {c : UInt8} {line : Bytes} {doc : Option Doc} (hc : isBlank c = true)
    (h : IsLine parser line doc) : IsLine parser (c :: line) doc := by
  cases h with
  | blank hblank =>
    apply IsLine.blank
    rw [all_cons, hc, hblank]
    rfl
  | @value front value back doc hfront hback hreads =>
    rw [← cons_append]
    apply IsLine.value _ hback hreads
    rw [all_cons, hc, hfront]
    rfl

def ValidLine (parser : Parser Doc) (line : Bytes) : Prop := ∃ doc, IsLine parser line doc

theorem ValidLine.skip (hc : isBlank c = true) (h : ValidLine parser (c :: line)) :
    ValidLine parser line ∧ lineDoc parser (c :: line) = lineDoc parser line := by
  obtain ⟨doc, hline⟩ := h
  have hrest : IsLine parser line doc := by
    generalize htext : c :: line = text at hline
    cases hline with
    | blank hblank =>
      rw [← htext, all_cons, Bool.and_eq_true] at hblank
      exact .blank hblank.2
    | @value front value back doc hfront hback hreads =>
      cases front with
      | nil =>
        obtain ⟨c', rest, rfl, hc'⟩ := hreads.starts
        have heq : c = c' := (cons_eq_cons.mp htext).1
        rw [← heq, isSpace_of_isBlank hc] at hc'
        cases hc'
      | cons c' front =>
        obtain ⟨rfl, rfl⟩ := cons_eq_cons.mp htext
        rw [all_cons, Bool.and_eq_true] at hfront
        exact .value hfront.2 hback hreads
  refine ⟨⟨doc, hrest⟩, ?_⟩
  rw [hline.doc, hrest.doc]

def linesOf (text : Bytes) : List Bytes := text.splitOn newline

def docsOf (parser : Parser Doc) (text : Bytes) : List Doc :=
  (linesOf text).filterMap (lineDoc parser)

def completeLines (text : Bytes) : List Bytes := (linesOf text).dropLast

def completeDocs (parser : Parser Doc) (text : Bytes) : List Doc :=
  (completeLines text).filterMap (lineDoc parser)

def ValidLines (parser : Parser Doc) (text : Bytes) : Prop :=
  ∀ line ∈ linesOf text, ValidLine parser line

def ValidComplete (parser : Parser Doc) (text : Bytes) : Prop :=
  ∀ line ∈ completeLines text, ValidLine parser line

theorem linesOf_ne_nil (text : Bytes) : linesOf text ≠ [] :=
  splitOnP_ne_nil (· == newline) text

variable {text : Bytes}

theorem linesOf_of_notMem (h : newline ∉ text) : linesOf text = [text] := by
  apply splitOnP_eq_singleton
  intro c hc
  exact beq_eq_false_iff_ne.mpr fun heq => h (heq ▸ hc)

theorem linesOf_newline (front back : Bytes) :
    linesOf (front ++ newline :: back) = linesOf front ++ linesOf back :=
  splitOnP_append_cons front back (beq_self_eq_true newline)

theorem completeLines_of_notMem (h : newline ∉ text) : completeLines text = [] := by
  unfold completeLines
  rw [linesOf_of_notMem h]
  rfl

theorem completeLines_newline (front back : Bytes) :
    completeLines (front ++ newline :: back) = linesOf front ++ completeLines back := by
  unfold completeLines
  rw [linesOf_newline, dropLast_append_of_ne_nil (linesOf_ne_nil back)]

theorem docsOf_newline (front back : Bytes) :
    docsOf parser (front ++ newline :: back) = docsOf parser front ++ docsOf parser back := by
  unfold docsOf
  rw [linesOf_newline, filterMap_append]

theorem docsOf_of_notMem (h : newline ∉ text) :
    docsOf parser text = (lineDoc parser text).toList := by
  unfold docsOf
  rw [linesOf_of_notMem h]
  cases hdoc : lineDoc parser text with
  | none | some => simp [hdoc]

theorem completeDocs_newline (front back : Bytes) : completeDocs parser (front ++ newline :: back)
      = docsOf parser front ++ completeDocs parser back := by
  unfold completeDocs docsOf
  rw [completeLines_newline, filterMap_append]

theorem completeDocs_of_notMem (h : newline ∉ text) : completeDocs parser text = [] := by
  unfold completeDocs
  rw [completeLines_of_notMem h]
  rfl

theorem validLines_newline : ValidLines parser (front ++ newline :: back)
      ↔ ValidLines parser front ∧ ValidLines parser back := by
  unfold ValidLines
  rw [linesOf_newline]
  exact forall_mem_append

theorem validComplete_newline : ValidComplete parser (front ++ newline :: back)
      ↔ ValidLines parser front ∧ ValidComplete parser back := by
  unfold ValidComplete ValidLines
  rw [completeLines_newline]
  exact forall_mem_append

theorem validComplete_of_notMem (h : newline ∉ text) : ValidComplete parser text := by
  unfold ValidComplete
  rw [completeLines_of_notMem h]
  exact forall_mem_nil _

theorem validLines_of_notMem (h : newline ∉ text) :
    ValidLines parser text ↔ ValidLine parser text := by
  unfold ValidLines
  rw [linesOf_of_notMem h]
  exact forall_mem_singleton

theorem first_newline (text : Bytes) :
    newline ∉ text ∨ ∃ front back, text = front ++ newline :: back ∧ newline ∉ front := by
  by_cases h : newline ∈ text
  · obtain ⟨front, back, htext, hfront⟩ := eq_append_cons_of_mem h
    exact .inr ⟨front, back, htext, hfront⟩
  · exact .inl h

theorem last_newline (text : Bytes) :
    newline ∉ text ∨ ∃ front back, text = front ++ newline :: back ∧ newline ∉ back := by
  induction text with
  | nil => exact .inl not_mem_nil
  | cons c text ih =>
    rcases ih with hno | ⟨front, back, rfl, hback⟩
    · by_cases hc : newline = c
      · exact .inr ⟨[], text, by rw [hc]; rfl, hno⟩
      · left
        simp only [mem_cons, not_or]
        exact ⟨hc, hno⟩
    · exact .inr ⟨c :: front, back, rfl, hback⟩

theorem lines_skip (hc : isBlank c = true) (h : ValidLines parser (c :: text)) :
    ValidLines parser text ∧ docsOf parser (c :: text) = docsOf parser text := by
  by_cases hnl : c = newline
  · subst hnl
    have hcut : newline :: text = [] ++ newline :: text := rfl
    rw [hcut, validLines_newline] at h
    refine ⟨h.2, ?_⟩
    rfl
  · rcases first_newline text with hno | ⟨front, back, rfl, hfront⟩
    · have hno' : newline ∉ c :: text := by
        simp only [mem_cons, not_or]
        exact ⟨fun heq => hnl heq.symm, hno⟩
      rw [validLines_of_notMem hno'] at h
      obtain ⟨hline, hdoc⟩ := ValidLine.skip hc h
      rw [validLines_of_notMem hno, docsOf_of_notMem hno', docsOf_of_notMem hno, hdoc]
      exact ⟨hline, rfl⟩
    · have hfront' : newline ∉ c :: front := by
        simp only [mem_cons, not_or]
        exact ⟨fun heq => hnl heq.symm, hfront⟩
      have hcut : c :: (front ++ newline :: back) = (c :: front) ++ newline :: back := rfl
      rw [hcut, validLines_newline, validLines_of_notMem hfront'] at h
      obtain ⟨hline, hdoc⟩ := ValidLine.skip hc h.1
      rw [hcut, docsOf_newline, docsOf_newline, docsOf_of_notMem hfront',
        docsOf_of_notMem hfront, hdoc, validLines_newline, validLines_of_notMem hfront]
      exact ⟨⟨hline, h.2⟩, rfl⟩

theorem ValidLine.blank_of_space (h : ValidLine parser (c :: line)) (hc : isSpace c = true) :
    isBlank c = true := by
  obtain ⟨doc, hline⟩ := h
  generalize htext : c :: line = text at hline
  cases hline with
  | blank hblank =>
    rw [← htext, all_cons, Bool.and_eq_true] at hblank
    exact hblank.1
  | @value front value back doc hfront hback hreads =>
    cases front with
    | nil =>
      obtain ⟨c', rest, rfl, hc'⟩ := hreads.starts
      rw [← (cons_eq_cons.mp htext).1, hc] at hc'
      cases hc'
    | cons c' front =>
      rw [all_cons, Bool.and_eq_true] at hfront
      rw [(cons_eq_cons.mp htext).1]
      exact hfront.1

theorem complete_skip (h : ValidComplete parser text) :
    ValidComplete parser (text.dropWhile isSpace)
      ∧ completeDocs parser (text.dropWhile isSpace) = completeDocs parser text := by
  induction text with
  | nil => exact ⟨h, rfl⟩
  | cons c text ih =>
    cases hc : isSpace c with
    | false =>
      rw [dropWhile_cons_of_neg (by rw [hc]; decide)]
      exact ⟨h, rfl⟩
    | true =>
      rw [dropWhile_cons_of_pos hc]
      have hrest : ValidComplete parser text
          ∧ completeDocs parser (c :: text) = completeDocs parser text := by
        by_cases hnl : c = newline
        · subst hnl
          have hcut : newline :: text = [] ++ newline :: text := rfl
          rw [hcut, validComplete_newline] at h
          refine ⟨h.2, ?_⟩
          rw [hcut, completeDocs_newline]
          rfl
        · rcases first_newline text with hno | ⟨front, back, rfl, hfront⟩
          · have hno' : newline ∉ c :: text := by
              simp only [mem_cons, not_or]
              exact ⟨fun heq => hnl heq.symm, hno⟩
            rw [completeDocs_of_notMem hno, completeDocs_of_notMem hno']
            exact ⟨validComplete_of_notMem hno, rfl⟩
          · have hfront' : newline ∉ c :: front := by
              simp only [mem_cons, not_or]
              exact ⟨fun heq => hnl heq.symm, hfront⟩
            have hcut : c :: (front ++ newline :: back) = (c :: front) ++ newline :: back := rfl
            rw [hcut, validComplete_newline, validLines_of_notMem hfront'] at h
            obtain ⟨hline, hdoc⟩ := ValidLine.skip (h.1.blank_of_space hc) h.1
            rw [hcut, completeDocs_newline, completeDocs_newline, docsOf_of_notMem hfront',
              docsOf_of_notMem hfront, hdoc, validComplete_newline, validLines_of_notMem hfront]
            exact ⟨⟨hline, h.2⟩, rfl⟩
      obtain ⟨hvalid, hdocs⟩ := ih hrest.1
      exact ⟨hvalid, hdocs.trans hrest.2.symm⟩

theorem parseJson_of_read (hlaw : parser.Lawful) {value rest after : Bytes} {doc : Doc}
    (hback : back.all isBlank = true)
    (hread : parser.read (front ++ (value ++ (back ++ rest))) after
      = .ok (doc, front.length + value.length)) :
    parseJson parser (front ++ (value ++ (back ++ rest))) after (front ++ (value ++ back)).length
      = .ok doc := by
  have hsize : (front ++ (value ++ back)).length = front.length + value.length + back.length := by
    simp only [length_append]
    omega
  -- behind the value there are the blanks
  have hbehind : ((parser.inPlace (front ++ (value ++ (back ++ rest))) after).take
      (front ++ (value ++ back)).length).drop (front.length + value.length) = back := by
    have hdrop := hlaw.behind _ _ _ _ hread
    rw [← append_assoc, ← length_append, drop_left, length_append] at hdrop
    rw [drop_take, hsize, Nat.add_sub_cancel_left, ← append_assoc front, hdrop, take_left]
  have hspaces : back.all isSpace = true := by
    rw [all_eq_true] at hback ⊢
    exact fun c hc => isSpace_of_isBlank (hback c hc)
  unfold parseJson
  simp only [hread]
  rw [if_neg (by rw [hsize]; omega), hbehind, hspaces]
  rfl

theorem parseJson_line (hlaw : parser.Lawful) {value : Bytes} {doc : Doc}
    (hfront : front.all isBlank = true) (hback : back.all isBlank = true)
    (hreads : parser.Reads value doc) (rest after : Bytes) (hrest : Delimited (back ++ rest))
    (hend : back ++ rest = [] → padding <+: after) :
    parseJson parser (front ++ (value ++ (back ++ rest))) after (front ++ (value ++ back)).length
      = .ok doc :=
  parseJson_of_read hlaw hback (hreads.read front (back ++ rest) after hfront hrest hend)

end Ladybug.JsonScan
