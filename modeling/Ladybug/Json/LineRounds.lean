import Ladybug.Json.LineBuffers

/-!
# What a thread does with a buffer of lines

A round of `parseNextChunk` takes one complete line, and `reconstructFirstObject` the line that the
start of the buffer cuts.
-/

namespace Ladybug.JsonScan

open Markup List

variable {Doc : Type} {parser : Parser Doc} {params : Params}

theorem drop_skipWhitespace (text : Bytes) :
    text.drop (skipWhitespace text) = text.dropWhile isSpace := by
  unfold skipWhitespace
  induction text with
  | nil => rfl
  | cons c text ih =>
    cases hc : isSpace c with
    | true => simpa [hc] using ih
    | false => simp [hc]

theorem skipWhitespace_le (text : Bytes) : skipWhitespace text ≤ text.length :=
  ( takeWhile_prefix isSpace).length_le

theorem isSpace_head_dropWhile {text rest : Bytes} {c : UInt8}
    (h : text.dropWhile isSpace = c :: rest) : isSpace c = false := by
  have hne : text.dropWhile isSpace ≠ [] := by
    rw [h]
    exact cons_ne_nil c rest
  have hhead := head_dropWhile_not isSpace hne
  simp only [h, head_cons] at hhead
  exact hhead

theorem parseJson_ok {text after : Bytes} {size : Nat} {doc : Doc}
    (hparse : parseJson parser text after size = .ok doc) :
    ∃ n ≤ size, parser.read text after = .ok (doc, n)
      ∧ (((parser.inPlace text after).take size).drop n).all isSpace = true := by
  unfold parseJson at hparse
  cases hread : parser.read text after with
  | error msg =>
    rw [hread] at hparse
    cases hparse
  | ok result =>
    obtain ⟨doc', n⟩ := result
    rw [hread] at hparse
    simp only [] at hparse
    split at hparse
    · cases hparse
    · split at hparse
      · cases hparse
        exact ⟨n, by omega, rfl, by assumption⟩
      · cases hparse

/-- What a round does with the text that is left behind white space. -/
inductive RoundOf (parser : Parser Doc) (format : JsonScanFormat) (isLast : Bool) (data text : Bytes)
    (start : Nat) : Round Doc → Prop
  | done : text = [] → RoundOf parser format isLast data text start (.leave start none)
  | cut : text ≠ [] → endOfJson format text = none → isLast = false →
      RoundOf parser format isLast data text start
        (.leave data.length (if format = .newlineDelimited then none else some text))
  | parsed {jsonSize next : Nat} {doc : Doc} {data' : Bytes} : text ≠ [] →
      (endOfJson format text = none → isLast = true) →
      jsonSize = (endOfJson format text).getD text.length →
      data' = data.take start ++ parser.inPlace text padding →
      parseJson parser text padding jsonSize = .ok doc →
      afterValue format data' (start + jsonSize) = .ok next →
        RoundOf parser format isLast data text start
          (.parsed doc data' (next + skipWhitespace (data'.drop next)))
  | failed {jsonSize : Nat} {msgs : List String} {data' : Bytes} : text ≠ [] →
      (endOfJson format text = none → isLast = true) →
      jsonSize = (endOfJson format text).getD text.length →
      data' = data.take start ++ parser.inPlace text padding →
      msgs = messages (parseJson parser text padding jsonSize)
        ++ messages (afterValue format data' (start + jsonSize)) → msgs ≠ [] →
        RoundOf parser format isLast data text start (.errors msgs)

theorem parseRound_of (parser : Parser Doc) (format : JsonScanFormat) (isLast : Bool) (data : Bytes)
    (bufferOffset : Nat) :
    RoundOf parser format isLast data
      (data.drop (bufferOffset + skipWhitespace (data.drop bufferOffset)))
      (bufferOffset + skipWhitespace (data.drop bufferOffset))
      (parseRound parser format isLast data bufferOffset) := by
  unfold parseRound
  simp only []
  generalize bufferOffset + skipWhitespace (data.drop bufferOffset) = start
  generalize data.drop start = text
  by_cases htext : text = []
  · rw [htext, isEmpty_nil, if_pos rfl]
    exact .done rfl
  rw [if_neg (by simpa using htext)]
  by_cases hcut : endOfJson format text = none ∧ isLast = false
  · rw [if_pos hcut]
    exact .cut htext hcut.1 hcut.2
  rw [if_neg hcut]
  have hlast : endOfJson format text = none → isLast = true := by
    intro hnone
    rw [← Bool.not_eq_false]
    exact fun hmore => hcut ⟨hnone, hmore⟩
  cases hparse : parseJson parser text padding ((endOfJson format text).getD text.length) with
  | error msg =>
    refine .failed htext hlast rfl rfl ?_ ?_
    · rw [hparse]
    · exact cons_ne_nil _ _
  | ok doc =>
    cases hnext : afterValue format (data.take start ++ parser.inPlace text padding)
        (start + (endOfJson format text).getD text.length) with
    | error msg =>
      refine .failed htext hlast rfl rfl ?_ ?_
      · rw [hparse, hnext]
      · exact cons_ne_nil _ _
    | ok next => exact .parsed htext hlast rfl rfl hparse hnext

/-- A round takes one line: the memory is the same from the newline of the line on. -/
structure RoundParses (parser : Parser Doc) (data : Bytes) (bufferOffset : Nat) (doc : Doc)
    (data' : Bytes) (bufferOffset' : Nat) : Prop where
  progress : bufferOffset < bufferOffset'
  inside : bufferOffset' ≤ data.length
  length : data'.length = data.length
  behind : ∃ pos ≤ bufferOffset', data[pos]? = some newline ∧ bufferOffset ≤ pos
    ∧ data'.drop pos = data.drop pos
  valid : ValidComplete parser (data.drop bufferOffset')
  docs : completeDocs parser (data.drop bufferOffset)
    = doc :: completeDocs parser (data.drop bufferOffset')

theorem parseJson_complete (hlaw : parser.Lawful) {c : UInt8} {line rest : Bytes}
    (hc : isSpace c = false) (hline : ValidLine parser (c :: line)) :
    ∃ doc, lineDoc parser (c :: line) = some doc
      ∧ parseJson parser ((c :: line) ++ newline :: rest) padding (c :: line).length = .ok doc
      ∧ (parser.inPlace ((c :: line) ++ newline :: rest) padding).drop (c :: line).length
        = newline :: rest := by
  obtain ⟨doc, hline⟩ := hline
  have hdoc := hline.doc
  generalize htext : c :: line = text at hline hdoc ⊢
  cases hline with
  | blank hblank =>
    rw [← htext, all_cons, Bool.and_eq_true] at hblank
    rw [isSpace_of_isBlank hblank.1] at hc
    cases hc
  | @value front value back doc hfront hback hreads =>
    have hdelimited : Delimited (back ++ newline :: rest) := by
      intro d tail hd
      cases back with
      | nil =>
        left
        rw [← (cons_eq_cons.mp hd).1]
        decide
      | cons b back =>
        rw [all_cons, Bool.and_eq_true] at hback
        rw [← (cons_eq_cons.mp hd).1]
        exact .inl hback.1
    have hwhole : (front ++ (value ++ back)) ++ newline :: rest
        = front ++ (value ++ (back ++ newline :: rest)) := by
      simp only [append_assoc]
    refine ⟨doc, hdoc, ?_, ?_⟩
    · rw [hwhole]
      exact parseJson_line hlaw hfront hback hreads (newline :: rest) padding hdelimited (by simp)
    · -- reading in place touches the bytes read
      rw [hwhole]
      have hread := hreads.read front (back ++ newline :: rest) padding hfront hdelimited (by simp)
      have hbehind := hlaw.behind _ _ _ _ hread
      have hlen : (front ++ (value ++ back)).length
          = (front.length + value.length) + back.length := by
        simp only [length_append]
        omega
      rw [hlen, ← drop_drop, hbehind, drop_drop, ← hlen, ← hwhole, drop_left]

theorem parseRound_lines (hlaw : parser.Lawful) {isLast : Bool} {data : Bytes} {bufferOffset : Nat}
    (hvalid : ValidComplete parser (data.drop bufferOffset))
    (hlast : isLast = true → data = []) :
    (∃ offset, parseRound parser .newlineDelimited isLast data bufferOffset = .leave offset none
        ∧ completeDocs parser (data.drop bufferOffset) = [])
      ∨ ∃ doc data' offset,
        parseRound parser .newlineDelimited isLast data bufferOffset = .parsed doc data' offset
        ∧ RoundParses parser data bufferOffset doc data' offset := by
  obtain ⟨hvalid', hdocs⟩ := complete_skip hvalid
  have hskip := drop_skipWhitespace (data.drop bufferOffset)
  rw [drop_drop] at hskip
  unfold parseRound
  simp only [endOfJson, afterValue]
  rw [hskip]
  generalize hstart : bufferOffset + skipWhitespace (data.drop bufferOffset) = start at *
  generalize htext : (data.drop bufferOffset).dropWhile isSpace = text at *
  cases text with
  | nil => exact .inl ⟨start, rfl, hdocs ▸ completeDocs_of_notMem not_mem_nil⟩
  | cons c text =>
    have hc := isSpace_head_dropWhile htext
    rcases first_newline (c :: text) with hno | ⟨line, rest, hcut, hline⟩
    · -- the line goes on in the next buffer, whose thread takes it
      left
      have hnone : nextNewLine (c :: text) = none := by
        apply List.findIdx?_eq_none_iff.mpr
        intro d hd
        exact beq_eq_false_iff_ne.mpr fun heq => hno (heq ▸ hd)
      have hmore : isLast = false := by
        rw [Bool.eq_false_iff]
        intro h
        rw [hlast h, drop_nil, dropWhile_nil] at htext
        cases htext
      refine ⟨data.length, ?_, hdocs ▸ completeDocs_of_notMem hno⟩
      rw [hnone, isEmpty_cons, if_neg Bool.false_ne_true, if_pos ⟨rfl, hmore⟩, if_pos trivial]
    · right
      cases line with
      | nil =>
        -- a newline would have been passed
        rw [(cons_eq_cons.mp hcut).1] at hc
        cases hc
      | cons d line =>
        obtain rfl : c = d := (cons_eq_cons.mp hcut).1
        rw [hcut] at hvalid' hdocs hskip ⊢
        rw [validComplete_newline, validLines_of_notMem hline] at hvalid'
        obtain ⟨doc, hdoc, hparse, hbehind⟩ :=
          @parseJson_complete Doc parser hlaw c line rest hc hvalid'.1
        have hsize : nextNewLine ((c :: line) ++ newline :: rest) = some (c :: line).length :=
          nextNewLine_line hline rest
        have hdata : start + ((c :: line) ++ newline :: rest).length = data.length := by
          have hlen := congrArg List.length hskip
          rw [length_drop] at hlen
          simp only [length_append, length_cons] at hlen ⊢
          omega
        have hlen : (parser.inPlace ((c :: line) ++ newline :: rest) padding).length
            = ((c :: line) ++ newline :: rest).length := hlaw.length _ _
        generalize hmem : data.take start
          ++ parser.inPlace ((c :: line) ++ newline :: rest) padding = data' at *
        have htake : (data.take start).length = start := by
          rw [length_take]
          omega
        -- the memory is the same from the newline on
        have hfrom : data'.drop (start + (c :: line).length) = newline :: rest := by
          rw [← hmem, ← drop_drop, drop_left' htake, hbehind]
        have hfrom' : data.drop (start + (c :: line).length) = newline :: rest := by
          rw [← drop_drop, hskip, drop_left]
        have hlength : data'.length = data.length := by
          rw [← hmem, length_append, htake, hlen, hdata]
        have hws : skipWhitespace (newline :: rest) ≤ (newline :: rest).length :=
          skipWhitespace_le _
        have hrest : ValidComplete parser (newline :: rest) :=
          validComplete_newline.mpr ⟨(validLines_of_notMem not_mem_nil).mpr
            ⟨none, .blank rfl⟩, hvalid'.2⟩
        obtain ⟨hafter, hdocs'⟩ := complete_skip hrest
        have hoffset : data.drop (start + (c :: line).length + skipWhitespace (newline :: rest))
            = (newline :: rest).dropWhile isSpace := by
          rw [← drop_drop, hfrom', drop_skipWhitespace]
        refine ⟨doc, data', start + (c :: line).length + skipWhitespace (newline :: rest), ?_, ?_⟩
        · rw [hsize, if_neg (by simp), if_neg (by simp)]
          simp only [Option.getD_some, hparse]
          rw [hfrom]
        · exact {
            progress := by
              rw [length_cons]
              omega
            inside := by
              rw [length_append] at hdata
              omega
            length := hlength
            behind := by
              refine ⟨start + (c :: line).length, Nat.le_add_right _ _, ?_, by omega, ?_⟩
              · rw [← Nat.add_zero (start + (c :: line).length), ← getElem?_drop, hfrom']
                rfl
              · rw [hfrom, hfrom']
            valid := by
              rw [hoffset]
              exact hafter
            docs := by
              rw [hoffset, hdocs', ← hdocs, completeDocs_newline, docsOf_of_notMem hline, hdoc]
              show doc :: completeDocs parser rest = doc :: completeDocs parser ([] ++ newline :: rest)
              rw [completeDocs_newline, docsOf_of_notMem not_mem_nil]
              rfl }

variable {memory bytes memory' : Bytes} {offset : Nat}

theorem overwrite_eq (h : offset + bytes.length ≤ memory.length) : overwrite memory offset bytes
      = some (memory.take offset ++ bytes ++ memory.drop (offset + bytes.length)) :=
  if_pos h

theorem overwrite_length (h : overwrite memory offset bytes = some memory') :
    memory'.length = memory.length := by
  unfold overwrite at h
  split at h
  case isTrue hle =>
    cases h
    simp only [length_append, length_take, length_drop]
    omega
  case isFalse => cases h

theorem overwrite_take (h : overwrite memory offset bytes = some memory') :
    memory'.take (offset + bytes.length) = memory.take offset ++ bytes := by
  unfold overwrite at h
  split at h
  case isTrue hle =>
    cases h
    apply take_left'
    rw [length_append, length_take]
    omega
  case isFalse => cases h

structure LineParsed (params : Params) (parser : Parser Doc) (idx : Nat)
    (t t' : JSONScanLocalState Doc) : Prop where
  stage : t'.stage = .chunk idx
  current : t'.current = t.current
  isLast : t'.isLast = t.isLast
  remainder : t'.prevBufferRemainder = t.prevBufferRemainder
  memory : t'.reconstructBuffer.length = t.reconstructBuffer.length
  output : t'.output = t.output
  inside : t'.bufferOffset ≤ (buffer params idx).length
  valid : ValidComplete parser ((buffer params idx).drop t'.bufferOffset)
  docs : t'.docs ++ completeDocs parser ((buffer params idx).drop t'.bufferOffset)
    = t.docs ++ bufferDocs params parser idx

theorem parseLine_spec (hlaw : parser.Lawful) {reader : BufferedJsonReader}
    {t : JSONScanLocalState Doc} {j : Nat} {docs : List Doc}
    (hdocs : bufferDocs params parser (j + 1) = docs) (hemits : Emits params parser (j + 1) docs)
    (hoffset : t.bufferOffset = 0) (hcapacity : t.reconstructBuffer.length = params.capacity)
    (hfirst : t.reconstructBuffer.take (lastPart (buffer params j)).length
      = lastPart (buffer params j)) :
    ∃ t', parseLine parser reader t (j + 1) (lastPart (buffer params j)).length
        (buffer params (j + 1)) = (reader, t')
      ∧ LineParsed params parser (j + 1) t t' := by
  have hsize : params.dataSize = params.capacity - paddingSize := rfl
  cases hemits with
  | whole hsingle hvalid =>
    refine ⟨{ t with stage := .chunk (j + 1) }, ?_, ?_⟩
    · unfold parseLine
      rw [if_pos (hsingle j rfl)]
    · exact {
        stage := rfl
        current := rfl
        isLast := rfl
        remainder := rfl
        memory := rfl
        output := rfl
        inside := by
          show t.bufferOffset ≤ _
          omega
        valid := by
          rwa [hoffset, drop_zero]
        docs := by
          rw [hoffset, drop_zero, hdocs] }
  | @cut _ line rest doc hlen hbuffer hline hfits hparse hvalid =>
    have htake : (line ++ newline :: rest).take (line.length + 1) = line ++ [newline] := by
      rw [append_cons]
      exact take_left' (by simp)
    have hdrop : (line ++ newline :: rest).drop (line.length + 1) = rest := by
      rw [append_cons]
      exact drop_left' (by simp)
    have hpart : (line ++ [newline]).length = line.length + 1 := by simp
    -- there is room for the line and for the padding
    obtain ⟨memory, hmemory⟩ : ∃ memory, overwrite t.reconstructBuffer
        (lastPart (buffer params j)).length (line ++ [newline]) = some memory := by
      apply Exists.intro
      apply overwrite_eq
      omega
    obtain ⟨memory', hmemory'⟩ : ∃ memory', overwrite memory
        ((lastPart (buffer params j)).length + (line.length + 1)) padding = some memory' := by
      apply Exists.intro
      apply overwrite_eq
      rw [overwrite_length hmemory]
      show _ + paddingSize ≤ _
      omega
    have hwhole : memory'.take ((lastPart (buffer params j)).length + (line.length + 1))
        = lastPart (buffer params j) ++ (line ++ [newline]) := by
      have hinto := overwrite_take hmemory'
      have hfrom := overwrite_take hmemory
      rw [hpart, hfirst] at hfrom
      have hcut := congrArg
        (List.take ((lastPart (buffer params j)).length + (line.length + 1))) hinto
      rw [take_take, hfrom, Nat.min_eq_left (Nat.le_add_right _ _)] at hcut
      rw [hcut]
      apply take_left'
      simp only [length_append, length_singleton]
    have hsum : (lastPart (buffer params j)).length + (line.length + 1)
        = (lastPart (buffer params j) ++ (line ++ [newline])).length := by
      simp only [length_append, length_singleton]
    refine ⟨{ t with
      stage := .chunk (j + 1)
      bufferOffset := t.bufferOffset + (line.length + 1)
      reconstructBuffer :=
        parser.inPlace (lastPart (buffer params j) ++ (line ++ [newline]))
            (memory'.drop ((lastPart (buffer params j)).length + (line.length + 1)))
          ++ memory'.drop ((lastPart (buffer params j)).length + (line.length + 1))
      docs := t.docs ++ [doc] }, ?_, ?_⟩
    · unfold parseLine
      rw [if_neg hlen, hbuffer, nextNewLine_line hline]
      rw [if_neg (by simp)]
      simp only [htake, hmemory, Option.bind_some, hmemory', hwhole]
      rw [hsum, hparse]
    · exact {
        stage := rfl
        current := rfl
        isLast := rfl
        remainder := rfl
        memory := by
          rw [length_append, hlaw.length, ← hsum, length_drop,
            overwrite_length hmemory', overwrite_length hmemory]
          omega
        output := rfl
        inside := by
          show t.bufferOffset + (line.length + 1) ≤ _
          rw [hbuffer, length_append, length_cons]
          omega
        valid := by
          rw [hoffset, Nat.zero_add, hbuffer, hdrop]
          exact hvalid
        docs := by
          rw [hoffset, Nat.zero_add, hbuffer, hdrop, hdocs, append_assoc]
          rfl }
  | @last _ doc hlen hbuffer hparse =>
    refine ⟨{ t with
      stage := .chunk (j + 1)
      reconstructBuffer :=
        parser.inPlace (lastPart (buffer params j))
            (t.reconstructBuffer.drop (lastPart (buffer params j)).length)
          ++ t.reconstructBuffer.drop (lastPart (buffer params j)).length
      docs := t.docs ++ [doc] }, ?_, ?_⟩
    · unfold parseLine
      rw [if_neg hlen, hbuffer]
      simp only [isEmpty_nil, if_true, hfirst, hparse]
    · have hle : (lastPart (buffer params j)).length ≤ t.reconstructBuffer.length := by
        have hcount := congrArg List.length hfirst
        rw [length_take] at hcount
        omega
      exact {
        stage := rfl
        current := rfl
        isLast := rfl
        remainder := rfl
        memory := by
          rw [length_append, hlaw.length, length_drop]
          omega
        output := rfl
        inside := by
          show t.bufferOffset ≤ _
          omega
        valid := by
          rw [hbuffer, drop_nil]
          exact validComplete_of_notMem not_mem_nil
        docs := by
          rw [hbuffer, drop_nil, completeDocs_of_notMem not_mem_nil, hdocs, append_nil] }

end Ladybug.JsonScan
