import Ladybug.Json.ArrayText
import Ladybug.Json.ScanWrites

/-!
# The scan of a JSON array in one buffer

An array is scanned by one thread.  A file that fits in one buffer is read at once; the next read
finds its end, and its buffer holds what the first one left: nothing, or a value behind which there
is no separator.
-/

namespace Ladybug.JsonScan

open Markup List Option

variable {Doc : Type} {parser : Parser Doc} {params : Params}

/-! ## 1. A round of `parseNextChunk` -/

theorem skipWhitespace_solid {text : Bytes} (h : Solid text) : skipWhitespace text = 0 :=
  @skipWhitespace_space [] text rfl h

variable {data : Bytes} {bufferOffset n k : Nat} {docs : List Doc} {c : UInt8}

theorem drop_inPlace {text : Bytes} (h : bufferOffset < data.length)
    (htext : (parser.inPlace text padding).drop n = text.drop n) (k : Nat) :
    (data.take bufferOffset ++ parser.inPlace text padding).drop (bufferOffset + (n + k))
      = (text.drop n).drop k := by
  have htake : (data.take bufferOffset).length = bufferOffset := by
    rw [length_take]
    omega
  rw [← drop_drop, drop_left' htake, ← drop_drop, htext]

theorem round_element (hlaw : parser.Lawful) (hjson : parser.ReadsJson) {data : Bytes}
    {bufferOffset : Nat} {isLast : Bool} {value before after rest : Bytes} {sep : UInt8} {doc : Doc}
    (hvalue : parser.Value value doc) (hbefore : before.all isSpace = true)
    (hsep : isSeparator sep = true) (hafter : after.all isSpace = true) (hrest : Solid rest)
    (hdata : data.drop bufferOffset = value ++ (before ++ sep :: (after ++ rest))) :
    ∃ data' next, parseRound parser .array isLast data bufferOffset = .parsed doc data' next
      ∧ data'.length = data.length ∧ data'.drop next = rest
      ∧ bufferOffset < next ∧ next ≤ data.length := by
  obtain ⟨skipped, hskipped, hend⟩ := @nextJson_value value before (after ++ rest) sep
    (hjson.shape value doc hvalue) hbefore hsep
  have hread := hvalue.read _ (@follows_space before (after ++ rest) sep hbefore hsep)
  have hbehind := hlaw.behind _ _ _ _ hread
  have hround := parseRound_of parser .array isLast data bufferOffset
  rw [skipWhitespace_solid (hdata ▸ hvalue.solid _), Nat.add_zero, hdata] at hround
  have hlength : bufferOffset + (value.length + (before.length + (1 + (after.length + rest.length))))
      = data.length := by
    have hlen := congrArg length hdata
    simp only [length_drop, length_append, length_cons] at hlen
    obtain ⟨c, tail, rfl, -⟩ := hvalue.starts
    omega
  have hlt : bufferOffset < data.length := by omega
  generalize htext : value ++ (before ++ sep :: (after ++ rest)) = text at *
  have htail : text.drop value.length = before ++ sep :: (after ++ rest) := by
    rw [← htext, drop_left]
  have hparse : parseJson parser text padding (value.length + skipped) = .ok doc := by
    unfold parseJson
    rw [hread]
    simp only []
    rw [if_neg (by omega), if_pos]
    rw [drop_take, hbehind, htail, Nat.add_sub_cancel_left, take_append_of_le_length hskipped,
      List.all_eq_true]
    exact fun c hc => all_eq_true.mp hbefore c (mem_of_mem_take hc)
  generalize hmemory : data.take bufferOffset ++ parser.inPlace text padding = data' at hround
  have hdrop : ∀ k, data'.drop (bufferOffset + (value.length + k))
      = (before ++ sep :: (after ++ rest)).drop k := by
    intro k
    rw [← hmemory, drop_inPlace hlt hbehind, htail]
  have hnext : afterValue .array data' (bufferOffset + (value.length + skipped))
      = .ok (bufferOffset + (value.length + (before.length + 1))) := by
    have hskip : skipWhitespace (data'.drop (bufferOffset + (value.length + skipped)))
        = before.length - skipped := by
      rw [hdrop, drop_append_of_le_length hskipped, skipWhitespace_space _
        (solid_separator hsep _), length_drop]
      exact all_eq_true.mpr fun c hc =>
        all_eq_true.mp hbefore c (mem_of_mem_drop hc)
    have hget : data'[bufferOffset + (value.length + before.length)]? = some sep := by
      rw [← Nat.add_zero (bufferOffset + _), ← getElem?_drop, hdrop, drop_left]
      rfl
    unfold afterValue
    simp only []
    rw [hskip, show bufferOffset + (value.length + skipped) + (before.length - skipped)
      = bufferOffset + (value.length + before.length) by omega, hget]
    simp only [hsep, if_true]
    rfl
  have hbehindSep : data'.drop (bufferOffset + (value.length + (before.length + 1)))
      = after ++ rest := by
    rw [hdrop, ← drop_drop, drop_left]
    rfl
  have hskipAfter := skipWhitespace_space hafter hrest
  generalize parseRound parser .array isLast data bufferOffset = round at hround ⊢
  cases hround with
  | done hnil =>
    obtain ⟨c, tail, rfl, -⟩ := hvalue.starts
    rw [hnil] at htext
    cases htext
  | cut _ hnone =>
    rw [show endOfJson .array text = some (value.length + skipped) from hend] at hnone
    cases hnone
  | @parsed jsonSize next doc' data'' _ _ hjsonSize hdata'' hparse' hnext' =>
    rw [show endOfJson .array text = some (value.length + skipped) from hend] at hjsonSize
    subst hjsonSize
    rw [hmemory] at hdata''
    subst hdata''
    rw [getD_some, hparse] at hparse'
    rw [getD_some, hnext] at hnext'
    cases hparse'
    cases hnext'
    refine ⟨_, _, rfl, ?_, ?_, ?_, ?_⟩
    · have hinside := hlaw.length text padding
      rw [← hmemory, length_append, hinside, length_take, ← hdata, length_drop]
      omega
    · rw [← drop_drop, hbehindSep, hskipAfter, drop_left]
    · omega
    · rw [hbehindSep, hskipAfter]
      omega
  | failed _ _ hjsonSize hdata'' hmsgs hsome =>
    rw [show endOfJson .array text = some (value.length + skipped) from hend] at hjsonSize
    subst hjsonSize
    rw [hdata'', hmemory, getD_some, hparse, hnext] at hmsgs
    exact absurd hmsgs hsome

theorem round_parsed (hlaw : parser.Lawful) (hjson : parser.ReadsJson) {data' : Bytes} {next : Nat}
    {doc : Doc} (hsolid : Solid (data.drop bufferOffset))
    (hround : parseRound parser .array false data bufferOffset = .parsed doc data' next) :
    ∃ value before sep after rest, parser.Value value doc ∧ before.all isSpace = true
      ∧ isSeparator sep = true ∧ after.all isSpace = true ∧ Solid rest
      ∧ data.drop bufferOffset = value ++ (before ++ sep :: (after ++ rest)) := by
  have hcases := parseRound_of parser .array false data bufferOffset
  rw [skipWhitespace_solid hsolid, Nat.add_zero, hround] at hcases
  generalize htext : data.drop bufferOffset = text at *
  cases hcases with
  | @parsed jsonSize next doc data' hsome hlast hjsonSize hdata' hparse hnext =>
    have hlt : bufferOffset < data.length := by
      rw [← htext, Ne, drop_eq_nil_iff] at hsome
      omega
    obtain ⟨n, hn, hread, hblank⟩ := parseJson_ok hparse
    have hbehind := hlaw.behind _ _ _ _ hread
    cases text with
    | nil => exact absurd rfl hsome
    | cons c tail =>
      obtain ⟨hinside, hvalue⟩ := hjson.sound c tail doc n (hsolid c tail rfl) hread
      generalize c :: tail = text at *
      rw [drop_take, hbehind] at hblank
      -- the separator behind the white space
      have hdrop : data'.drop (bufferOffset + jsonSize) = (text.drop n).drop (jsonSize - n) := by
        rw [hdata', show bufferOffset + jsonSize = bufferOffset + (n + (jsonSize - n)) by omega]
        exact drop_inPlace hlt hbehind _
      have hgap := @takeWhile_append_dropWhile _ isSpace ((text.drop n).drop (jsonSize - n))
      have hspace := @all_takeWhile _ isSpace ((text.drop n).drop (jsonSize - n))
      unfold afterValue at hnext
      simp only [] at hnext
      rw [← Nat.add_zero (bufferOffset + jsonSize + _), ← getElem?_drop, ← drop_drop,
        drop_skipWhitespace, hdrop] at hnext
      generalize hbehindGap : ((text.drop n).drop (jsonSize - n)).dropWhile isSpace = behind
        at hnext hgap
      cases behind with
      | nil => cases hnext
      | cons sep more =>
        have hsep : isSeparator sep = true := by
          cases h : isSeparator sep with
          | true => rfl
          | false =>
            simp only [getElem?_cons_zero, h] at hnext
            cases hnext
        refine ⟨text.take n, (text.drop n).take (jsonSize - n)
            ++ ((text.drop n).drop (jsonSize - n)).takeWhile isSpace, sep,
          more.takeWhile isSpace, more.dropWhile isSpace, hvalue, ?_, hsep,
          all_takeWhile, fun d rest heq => isSpace_head_dropWhile heq, ?_⟩
        · rw [all_append, hblank, hspace]
          rfl
        · rw [takeWhile_append_dropWhile, append_assoc, hgap, take_append_drop, take_append_drop]

/-! ## 2. A scan with one thread -/

def Scan.Records (docs : List Doc) (scan : Scan Doc) : Prop :=
  (∀ t ∈ scan.threads, t.stage = .finished) ∧ scan.reader.errors = []
    ∧ scan.threads.flatMap (·.output) = docs

def Scan.Fails (scan : Scan Doc) : Prop :=
  scan.reader.errors ≠ [] ∨ ∃ t ∈ scan.threads, ∃ msg, t.stage = .failed (.error msg)

variable {reader : BufferedJsonReader} {t : JSONScanLocalState Doc} {Post : Scan Doc → Prop}

theorem one_step {next : BufferedJsonReader × JSONScanLocalState Doc}
    (hnext : t.step params parser reader = some next)
    (h : Completes (Scan.step params parser) ⟨next.1, [next.2]⟩ Post) :
    Completes (Scan.step params parser) ⟨reader, [t]⟩ Post := by
  have hthread : (Scan.mk reader [t]).threads[0]? = some t := rfl
  apply completes_of_step (Scan.step_of hthread hnext) _ h
  intro i scan' hstep
  obtain ⟨t', next', ht', hnext', rfl⟩ := Scan.step_some hstep
  cases i with
  | zero =>
    cases ht'
    rw [hnext] at hnext'
    cases hnext'
    rfl
  | succ i => cases ht'

theorem one_stop (hnone : t.step params parser reader = none) (h : Post ⟨reader, [t]⟩) :
    Completes (Scan.step params parser) ⟨reader, [t]⟩ Post := by
  apply completes_of_stuck _ h
  intro i
  cases hstep : Scan.step params parser ⟨reader, [t]⟩ i with
  | none => rfl
  | some scan' =>
    obtain ⟨t', next', ht', hnext', -⟩ := Scan.step_some hstep
    cases i with
    | zero =>
      cases ht'
      rw [hnone] at hnext'
      cases hnext'
    | succ i => cases ht'

theorem finished_stop (hstage : t.stage = .finished) (h : Post ⟨reader, [t]⟩) :
    Completes (Scan.step params parser) ⟨reader, [t]⟩ Post := by
  apply one_stop _ h
  unfold JSONScanLocalState.step
  rw [hstage]

theorem release_errors (reader : BufferedJsonReader) (idx : Nat) :
    (reader.release idx).errors = reader.errors := (SameReader.release reader idx).errors

theorem release_lastRead (reader : BufferedJsonReader) (idx : Nat) :
    (reader.release idx).lastReadRequested = reader.lastReadRequested :=
  (SameReader.release reader idx).lastReadRequested

theorem last_idle (hstage : t.stage = .idle) (hcurrent : t.current = some k)
    (hlast : reader.lastReadRequested = true) (herrors : reader.errors = []) :
    Completes (Scan.step params parser) ⟨reader, [t]⟩ (Scan.Records t.output) := by
  have hrelease : t.step params parser reader
      = some (reader.release k, { t with current := none }) := by
    unfold JSONScanLocalState.step
    simp only [hstage, hcurrent]
  apply one_step hrelease
  have hreserve : JSONScanLocalState.step params parser (reader.release k)
      { t with current := none }
      = some (reader.release k, { t with current := none, stage := .finished, isLast := false }) := by
    unfold JSONScanLocalState.step
    simp only [hstage]
    unfold reserve
    rw [if_pos ((release_lastRead reader k).trans hlast)]
  apply one_step hreserve
  apply finished_stop rfl
  refine ⟨?_, (release_errors reader k).trans herrors, append_nil _⟩
  intro u hu
  rw [mem_singleton.mp hu]

theorem parseNextChunk_done {k : Nat} {handle : JsonScanBufferHandle}
    (hdocs : t.docs.length < params.vectorCapacity)
    (hdone : handle.data.drop t.bufferOffset = []) (herrors : reader.errors = []) :
    ∃ t', parseNextChunk params parser reader t k handle = (reader, t') ∧ t'.stage = .idle
      ∧ t'.current = t.current ∧ t'.isLast = t.isLast ∧ t'.prevBufferRemainder = 0 ∧ t'.docs = []
      ∧ t'.output = t.output ++ t.docs := by
  have hround := parseRound_of parser params.format t.isLast handle.data t.bufferOffset
  rw [hdone, show skipWhitespace [] = 0 from rfl, Nat.add_zero, hdone] at hround
  unfold parseNextChunk
  rw [if_neg (by omega)]
  generalize parseRound parser params.format t.isLast handle.data t.bufferOffset = round at hround ⊢
  cases hround with
  | cut hsome | parsed hsome | failed hsome => exact absurd rfl hsome
  | done =>
    simp only []
    by_cases hempty : t.docs = []
    · rw [if_pos (by rw [hempty]; rfl)]
      refine ⟨_, rfl, rfl, rfl, rfl, rfl, hempty, ?_⟩
      rw [hempty]
      exact (append_nil _).symm
    · rw [if_neg (by simpa using hempty), returned_ok herrors]
      exact ⟨_, rfl, rfl, rfl, rfl, rfl, rfl, rfl⟩

theorem last_buffer (hstage : t.stage = .chunk k) (hcurrent : t.current = some k)
    (hdocs : t.docs = []) (hmap : reader.bufferMap k = some ⟨[], n⟩)
    (hlast : reader.lastReadRequested = true) (herrors : reader.errors = []) :
    Completes (Scan.step params parser) ⟨reader, [t]⟩ (Scan.Records t.output) := by
  obtain ⟨t', hchunk, hstage', hcurrent', -, -, -, houtput⟩ := @parseNextChunk_done Doc parser params
    reader t k ⟨[], n⟩ (by rw [hdocs]; exact params.outputs) drop_nil herrors
  have hstep : t.step params parser reader = some (reader, t') := by
    unfold JSONScanLocalState.step
    simp only [hstage, hmap, map_some, hchunk]
  apply one_step hstep
  rw [hdocs, append_nil] at houtput
  rw [← houtput]
  exact last_idle hstage' (hcurrent'.trans hcurrent) hlast herrors

/-! ## 3. The buffer that holds the file -/

structure ReadWhole (params : Params) (reader : BufferedJsonReader) : Prop where
  position : reader.readPosition = params.file.length
  idx : reader.bufferIdx = 1
  notLast : reader.lastReadRequested = false
  errors : reader.errors = []

theorem next_buffer (hformat : params.format = .array) (hread : ReadWhole params reader)
    (hstage : t.stage = .idle) (hcurrent : t.current = some k)
    (h : ∀ reader' t', reader'.lastReadRequested = true → reader'.errors = [] →
      reader'.bufferMap 1 = some ⟨t.reconstructBuffer.take t.prevBufferRemainder, 1⟩ →
      t'.stage = .chunk 1 → t'.current = some 1 → t'.isLast = true → t'.bufferOffset = 0 →
      t'.docs = t.docs → t'.output = t.output →
        Completes (Scan.step params parser) ⟨reader', [t']⟩ Post) :
    Completes (Scan.step params parser) ⟨reader, [t]⟩ Post := by
  have hrelease : t.step params parser reader
      = some (reader.release k, { t with current := none }) := by
    unfold JSONScanLocalState.step
    simp only [hstage, hcurrent]
  apply one_step hrelease
  have hsame := SameReader.release reader k
  have hsize : min (params.capacity - t.prevBufferRemainder - paddingSize)
      (params.file.length - (reader.release k).readPosition) = 0 := by
    rw [hsame.readPosition, hread.position, Nat.sub_self, Nat.min_zero]
  have hreserve : JSONScanLocalState.step params parser (reader.release k)
      { t with current := none }
      = some ({ reader.release k with lastReadRequested := true, bufferIdx := 2 }, { t with
          current := none
          stage := .reserved 1 (reader.release k).readPosition 0
          isLast := true }) := by
    unfold JSONScanLocalState.step
    simp only [hstage]
    unfold reserve
    rw [if_neg (by rw [hsame.lastReadRequested, hread.notLast]; exact Bool.false_ne_true)]
    simp only [hsize, hsame.bufferIdx, hread.idx, Nat.add_zero]
    rfl
  apply one_step hreserve
  have hinsert : JSONScanLocalState.step params parser
      { reader.release k with lastReadRequested := true, bufferIdx := 2 }
      { t with
        current := none
        stage := .reserved 1 (reader.release k).readPosition 0
        isLast := true }
      = some (BufferedJsonReader.insertBuffer
          { reader.release k with lastReadRequested := true, bufferIdx := 2 } 1
          ⟨t.reconstructBuffer.take t.prevBufferRemainder, 1⟩,
        { t with
          stage := .chunk 1
          current := some 1
          bufferOffset := 0
          isLast := true
          prevBufferRemainder := 0 }) := by
    unfold JSONScanLocalState.step insertRead
    simp [hformat]
  apply one_step hinsert
  exact h _ _ rfl (hsame.errors.trans hread.errors) rfl rfl rfl rfl rfl rfl rfl

theorem cut_fails (hformat : params.format = .array) (hlaw : parser.Lawful) {text : Bytes}
    (hstage : t.stage = .chunk 1) (hmap : reader.bufferMap 1 = some ⟨text, n⟩)
    (hlast : t.isLast = true) (hoffset : t.bufferOffset = 0) (hdocs : t.docs = [])
    (hsome : text ≠ []) (hsolid : Solid text) (hend : nextJson text = none) :
    Completes (Scan.step params parser) ⟨reader, [t]⟩ Scan.Fails := by
  have hround := parseRound_of parser .array true text 0
  rw [drop_zero, skipWhitespace_solid hsolid, drop_zero] at hround
  obtain ⟨msgs, herrors, hmsgs⟩ : ∃ msgs, parseRound parser .array true text 0 = .errors msgs
      ∧ msgs ≠ [] := by
    generalize parseRound parser .array true text 0 = round at hround ⊢
    cases hround with
    | done hnil => exact absurd hnil hsome
    | cut _ _ hmore => cases hmore
    | failed _ _ _ _ _ hmsgs => exact ⟨_, rfl, hmsgs⟩
    | @parsed jsonSize next doc data' _ _ hjsonSize hdata' _ hnext =>
      -- behind the value there is nothing
      have hlength : data'.length = text.length := by
        rw [hdata', take_zero, nil_append, hlaw.length]
      rw [show endOfJson .array text = none from hend, getD_none] at hjsonSize
      have hnone : afterValue .array data' (0 + jsonSize) = .error (malformed "unexpected character") := by
        unfold afterValue
        simp only []
        rw [getElem?_eq_none (by omega)]
      rw [hnone] at hnext
      cases hnext
  have hstep : t.step params parser reader = some ({ reader with errors := reader.errors ++ msgs },
        { t with stage := .finished, docs := [] }) := by
    unfold JSONScanLocalState.step
    simp only [hstage, hmap, map_some]
    unfold parseNextChunk
    rw [if_neg (by have hpos := params.outputs; rw [hdocs, length_nil]; omega), hformat, hlast,
      hoffset]
    simp only [herrors]
  apply one_step hstep
  apply finished_stop rfl
  left
  exact fun hnil => hmsgs (append_eq_nil_iff.mp hnil).2

/-- The thread parses the buffer that holds the file. -/
structure InBuffer (params : Params) (reader : BufferedJsonReader) (t : JSONScanLocalState Doc)
    (data : Bytes) : Prop where
  read : ReadWhole params reader
  stage : t.stage = .chunk 0
  current : t.current = some 0
  notLast : t.isLast = false
  map : ∃ n, reader.bufferMap 0 = some ⟨data, n⟩
  memory : data.length ≤ t.reconstructBuffer.length
  remainder : t.prevBufferRemainder = 0
  solid : Solid (data.drop t.bufferOffset)
  offset : t.bufferOffset ≤ data.length

theorem whole_parsed (hformat : params.format = .array) (hread : ReadWhole params reader)
    (hstage : t.stage = .idle) (hcurrent : t.current = some k)
    (hremainder : t.prevBufferRemainder = 0) (hdocs : t.docs = []) :
    Completes (Scan.step params parser) ⟨reader, [t]⟩ (Scan.Records t.output) := by
  apply next_buffer hformat hread hstage hcurrent
  intro reader' t' hlast herrors hmap hstage' hcurrent' _ _ hdocs' houtput
  rw [hremainder, take_zero] at hmap
  rw [← houtput]
  exact last_buffer hstage' hcurrent' (hdocs'.trans hdocs) hmap hlast herrors

theorem Elements.round (hlaw : parser.Lawful) (hjson : parser.ReadsJson) {data text seps : Bytes}
    {bufferOffset : Nat} {docs : List Doc} (h : Elements parser text docs seps)
    (hdata : data.drop bufferOffset = text) (hsome : text ≠ []) :
    ∃ doc data' next docs' seps', parseRound parser .array false data bufferOffset
        = .parsed doc data' next
      ∧ Elements parser (data'.drop next) docs' seps' := by
  cases h with
  | nil => exact absurd rfl hsome
  | cons hvalue hbefore hsep hafter hrest =>
    obtain ⟨data', next, hround, -, hdrop, -, -⟩ :=
      @round_element Doc parser hlaw hjson data bufferOffset false _ _ _ _ _ _ hvalue hbefore hsep
        hafter hrest.solid hdata
    exact ⟨_, data', next, _, _, hround, hdrop ▸ hrest⟩

/-- The values of the buffer are the records, if each has a separator behind it; otherwise an error
is reported. -/
theorem InBuffer.run (hlaw : parser.Lawful) (hjson : parser.ReadsJson)
    (hformat : params.format = .array) (h : InBuffer params reader t data) :
    (∃ docs seps, Elements parser (data.drop t.bufferOffset) docs seps
        ∧ Completes (Scan.step params parser) ⟨reader, [t]⟩
          (Scan.Records (t.output ++ (t.docs ++ docs))))
      ∨ ((∀ docs seps, ¬ Elements parser (data.drop t.bufferOffset) docs seps)
        ∧ Completes (Scan.step params parser) ⟨reader, [t]⟩ Scan.Fails) := by
  generalize hmeasure : 2 * (data.length - t.bufferOffset) + (if t.docs = [] then 0 else 1) = m
  induction m using Nat.strongRecOn generalizing reader t data with
  | ind m ih =>
    obtain ⟨n, hmap⟩ := h.map
    have herrors := h.read.errors
    have hstep : t.step params parser reader
        = some (parseNextChunk params parser reader t 0 ⟨data, n⟩) := by
      unfold JSONScanLocalState.step
      simp only [h.stage, hmap, map_some]
    by_cases hfull : params.vectorCapacity ≤ t.docs.length
    · -- the documents are returned
      have hdocs : t.docs ≠ [] := by
        intro hnil
        have hpos := params.outputs
        rw [hnil, length_nil] at hfull
        omega
      have hreturn : parseNextChunk params parser reader t 0 ⟨data, n⟩ = (reader, { t with
            stage := if t.bufferOffset = data.length then .idle else .chunk 0
            output := t.output ++ t.docs
            docs := [] }) := by
        unfold parseNextChunk
        rw [if_pos hfull, returned_ok herrors]
      rw [hreturn] at hstep
      by_cases hend : t.bufferOffset = data.length
      · left
        rw [if_pos hend] at hstep
        refine ⟨[], [], ?_, ?_⟩
        · rw [hend, drop_length]
          exact .nil
        · apply one_step hstep
          rw [append_nil]
          exact whole_parsed hformat h.read rfl h.current h.remainder rfl
      · rw [if_neg hend] at hstep
        have hnext : InBuffer params reader (JSONScanLocalState.mk (.chunk 0) t.current
            t.bufferOffset t.isLast t.prevBufferRemainder t.reconstructBuffer []
            (t.output ++ t.docs)) data :=
          ⟨h.read, rfl, h.current, h.notLast, h.map, h.memory, h.remainder, h.solid, h.offset⟩
        rw [if_neg hdocs] at hmeasure
        rcases ih _ (by rw [← hmeasure]; exact Nat.lt_succ_self _) hnext rfl with
          ⟨docs, seps, helements, hrun⟩ | ⟨hnone, hrun⟩
        · left
          refine ⟨docs, seps, helements, one_step hstep ?_⟩
          rw [← append_assoc]
          exact hrun
        · exact .inr ⟨hnone, one_step hstep hrun⟩
    by_cases hdone : data.drop t.bufferOffset = []
    · left
      obtain ⟨t', hchunk, hstage', hcurrent', -, hremainder', hdocs', houtput⟩ :=
        @parseNextChunk_done Doc parser params reader t 0 ⟨data, n⟩ (by omega) hdone herrors
      rw [hchunk] at hstep
      refine ⟨[], [], by rw [hdone]; exact .nil, one_step hstep ?_⟩
      rw [append_nil, ← houtput]
      exact whole_parsed hformat h.read hstage' (hcurrent'.trans h.current) hremainder' hdocs'
    -- what is no value with a separator is not taken
    have hnone : (∀ doc data' next, parseRound parser .array false data t.bufferOffset
        ≠ .parsed doc data' next) →
          ∀ docs seps, ¬ Elements parser (data.drop t.bufferOffset) docs seps := by
      intro hround docs seps helements
      obtain ⟨doc, data', next, -, -, hparsed, -⟩ := helements.round hlaw hjson rfl hdone
      exact hround doc data' next hparsed
    have hround := parseRound_of parser .array false data t.bufferOffset
    rw [skipWhitespace_solid h.solid, Nat.add_zero] at hround
    unfold parseNextChunk at hstep
    rw [if_neg hfull, hformat, h.notLast] at hstep
    generalize hresult : parseRound parser .array false data t.bufferOffset = round
      at hround hstep hnone
    cases hround with
    | done hnil => exact absurd hnil hdone
    | cut hsome hend hmore =>
      right
      refine ⟨hnone fun doc data' next heq => (by cases heq), ?_⟩
      -- the text is kept for the next buffer, which is the last
      have hroom : 0 + (data.drop t.bufferOffset).length ≤ t.reconstructBuffer.length := by
        have hmemory := h.memory
        rw [length_drop]
        omega
      obtain ⟨memory, hmemory⟩ : ∃ memory,
          overwrite t.reconstructBuffer 0 (data.drop t.bufferOffset) = some memory :=
        ⟨_, overwrite_eq hroom⟩
      have htake := overwrite_take hmemory
      rw [Nat.zero_add, take_zero, nil_append] at htake
      obtain ⟨t', hkeep, hstage', hcurrent', hremainder', hmemory', hdocs'⟩ : ∃ t',
          t.step params parser reader = some (reader, t') ∧ t'.stage = .idle
            ∧ t'.current = some 0 ∧ t'.prevBufferRemainder = (data.drop t.bufferOffset).length
            ∧ t'.reconstructBuffer = memory ∧ t'.docs = [] := by
        rw [hstep]
        simp only [reduceCtorEq, if_false, getD_some, hmemory]
        by_cases hempty : t.docs = []
        · rw [if_pos (by rw [hempty]; rfl)]
          exact ⟨_, rfl, rfl, h.current, rfl, rfl, hempty⟩
        · rw [if_neg (by simpa using hempty), returned_ok herrors]
          exact ⟨_, rfl, rfl, h.current, rfl, rfl, rfl⟩
      apply one_step hkeep
      apply next_buffer hformat h.read hstage' hcurrent'
      intro reader₁ t₁ hlast herrors₁ hmap₁ hstage₁ _ hisLast₁ hoffset₁ hdocs₁ _
      rw [hmemory', hremainder', htake] at hmap₁
      exact cut_fails hformat hlaw hstage₁ hmap₁ hisLast₁ hoffset₁ (hdocs₁.trans hdocs') hdone
        h.solid hend
    | failed _ _ _ _ _ hmsgs =>
      right
      refine ⟨hnone fun doc data' next heq => (by cases heq), one_step hstep ?_⟩
      apply finished_stop rfl
      left
      exact fun hnil => hmsgs (append_eq_nil_iff.mp hnil).2
    | @parsed jsonSize jsonEnd doc data' _ _ _ _ _ _ =>
      obtain ⟨value, before, sep, after, rest, hvalue, hbefore, hsep, hafter, hrest, htext⟩ :=
        round_parsed hlaw hjson h.solid hresult
      obtain ⟨data'', next, helement, hlength, hdrop, hprogress, hinside⟩ :=
        @round_element Doc parser hlaw hjson data t.bufferOffset false _ _ _ _ _ _ hvalue hbefore
          hsep hafter hrest htext
      rw [hresult] at helement
      obtain ⟨-, rfl, hnextOffset⟩ := Round.parsed.inj helement
      rw [hnextOffset] at hstep hresult
      have hnext : InBuffer params (reader.insertBuffer 0 ⟨data', n⟩) (JSONScanLocalState.mk t.stage
          t.current next false t.prevBufferRemainder t.reconstructBuffer (t.docs ++ [doc])
          t.output) data' := { h with
        read := ⟨h.read.position, h.read.idx, h.read.notLast, h.read.errors⟩
        notLast := rfl
        map := ⟨n, rfl⟩
        memory := by rw [hlength]; exact h.memory
        solid := by rw [hdrop]; exact hrest
        offset := by rw [hlength]; exact hinside }
      have hless : 2 * (data'.length - next) + (if t.docs ++ [doc] = [] then 0 else 1) < m := by
        rw [if_neg (by simp)]
        split at hmeasure
        all_goals omega
      rcases ih _ hless hnext rfl with ⟨docs, seps, helements, hrun⟩ | ⟨hrest', hrun⟩
      · left
        refine ⟨doc :: docs, sep :: seps, ?_, one_step hstep ?_⟩
        · rw [htext, ← hdrop]
          exact .cons hvalue hbefore hsep hafter helements
        · rw [append_cons t.docs]
          exact hrun
      · right
        refine ⟨fun docs seps helements => ?_, one_step hstep hrun⟩
        obtain ⟨doc₂, data₂, next₂, docs₂, seps₂, hround₂, helements₂⟩ :=
          helements.round hlaw hjson rfl hdone
        rw [hresult] at hround₂
        obtain ⟨-, rfl, rfl⟩ := Round.parsed.inj hround₂
        exact hrest' docs₂ seps₂ helements₂

/-! ## 4. The start of the array -/

theorem JsonShape.not_close {value : Bytes} (h : JsonShape value) (rest : Bytes) :
    value ≠ closeBracket :: rest := by
  rintro rfl
  generalize hvalue : closeBracket :: rest = value at h
  cases h with
  | scalar _ hplain =>
    rw [← hvalue] at hplain
    exact absurd (hplain closeBracket mem_cons_self).1 (by decide)
  | string | object | array => exact absurd (cons.inj hvalue).1 (by decide)

theorem Elements.not_close (hjson : parser.ReadsJson) {text seps : Bytes}
    (h : Elements parser text docs seps) (back : Bytes) : text ≠ closeBracket :: back := by
  cases h with
  | nil => exact (cons_ne_nil _ _).symm
  | @cons value before after rest seps sep doc docs hvalue =>
    intro heq
    obtain ⟨c, tail, rfl, -⟩ := hvalue.starts
    obtain ⟨rfl, -⟩ := cons.inj heq
    exact (hjson.shape _ doc hvalue).not_close tail rfl

theorem solid_open (rest : Bytes) : Solid (openBracket :: rest) :=
  solid_cons (by decide) rest

theorem taken_open_iff {front mid text : Bytes} (hfront : front.all isSpace = true)
    (hmid : mid.all isSpace = true) (htext : Solid text) (docs : List Doc) :
    Taken parser (front ++ openBracket :: (mid ++ text)) docs
      ↔ (∃ back, text = closeBracket :: back ∧ back.all isSpace = true ∧ docs = [])
        ∨ (text ≠ [] ∧ ∃ seps, Elements parser text docs seps) := by
  constructor
  · intro h
    generalize hfile : front ++ openBracket :: (mid ++ text) = file at h
    have hsplit : ∀ front' rest, front'.all isSpace = true → file = front' ++ openBracket :: rest →
        mid ++ text = rest := by
      intro front' rest hfront' heq
      rw [← hfile] at heq
      exact (cons.inj (spaces_unique hfront hfront' (solid_open _) (solid_open _) heq).2).2
    cases h with
    | blank hblank =>
      rw [← hfile] at hblank
      exact absurd (all_eq_true.mp hblank openBracket (by simp)) (by decide)
    | @empty front' mid' back hfront' hmid' hback =>
      obtain ⟨-, rfl⟩ := spaces_unique hmid hmid' htext
        (solid_separator (by decide : isSeparator closeBracket = true) back)
        (hsplit front' _ hfront' rfl)
      exact .inl ⟨back, rfl, hback, rfl⟩
    | @elements front' mid' text' seps docs hfront' hmid' hsome helements =>
      obtain ⟨-, rfl⟩ := spaces_unique hmid hmid' htext helements.solid
        (hsplit front' _ hfront' rfl)
      exact .inr ⟨hsome, seps, helements⟩
  · rintro (⟨back, rfl, hback, rfl⟩ | ⟨hsome, seps, helements⟩)
    · exact .empty hfront hmid hback
    · exact .elements hfront hmid hsome helements

theorem taken_no_open {front rest : Bytes} (hfront : front.all isSpace = true)
    (hc : isSpace c = false) (hopen : c ≠ openBracket) (docs : List Doc) :
    ¬ Taken parser (front ++ c :: rest) docs := by
  intro h
  generalize hfile : front ++ c :: rest = file at h
  have hsplit : ∀ front' rest', front'.all isSpace = true → file ≠ front' ++ openBracket :: rest' := by
    intro front' rest' hfront' heq
    rw [← hfile] at heq
    exact hopen (cons.inj
      (spaces_unique hfront hfront' (solid_cons hc _) (solid_open _) heq).2).1
  cases h with
  | blank hblank =>
    rw [← hfile] at hblank
    rw [all_eq_true.mp hblank c (by simp)] at hc
    cases hc
  | empty hfront' | elements hfront' => exact hsplit _ _ hfront' rfl

theorem split_space (file : Bytes) :
    ∃ front rest, file = front ++ rest ∧ front.all isSpace = true ∧ Solid rest :=
  ⟨file.takeWhile isSpace, file.dropWhile isSpace, takeWhile_append_dropWhile.symm,
    all_takeWhile, fun _ _ heq => isSpace_head_dropWhile heq⟩

theorem Taken.of_blank {file : Bytes} (h : Taken parser file docs)
    (hblank : file.all isSpace = true) : docs = [] := by
  cases h with
  | blank | empty => rfl
  | elements =>
    exact absurd (all_eq_true.mp hblank openBracket (by simp)) (by decide)

theorem getElem?_front (front rest : Bytes) : (front ++ rest)[front.length]? = rest[0]? := by
  rw [getElem?_append_right (Nat.le_refl _), Nat.sub_self]

theorem array_start (hjson : parser.ReadsJson) (fileName : String) (file : Bytes) :
    (∃ msg, skipOverArrayStart fileName file = .error (.error msg)
        ∧ ∀ docs, ¬ Taken parser file docs)
      ∨ ∃ bufferOffset ≤ file.length, skipOverArrayStart fileName file = .ok bufferOffset
        ∧ Solid (file.drop bufferOffset)
        ∧ ∀ docs, Taken parser file docs
          ↔ ∃ seps, Elements parser (file.drop bufferOffset) docs seps := by
  obtain ⟨front, rest, rfl, hfront, hrest⟩ := split_space file
  unfold skipOverArrayStart
  simp only []
  rw [skipWhitespace_space hfront hrest, getElem?_front]
  cases rest with
  | nil =>
    -- a blank file
    right
    rw [append_nil]
    refine ⟨front.length, Nat.le_refl _, rfl, ?_, fun docs => ?_⟩
    · rw [drop_length]
      exact solid_nil
    · rw [drop_length]
      constructor
      · intro h
        obtain rfl := h.of_blank hfront
        exact ⟨[], .nil⟩
      · rintro ⟨seps, helements⟩
        rw [(Elements.nil.unique helements).1.symm]
        exact .blank hfront
  | cons c rest =>
    have hc := hrest c rest rfl
    rw [getElem?_cons_zero]
    by_cases hopen : c = openBracket
    · subst hopen
      obtain ⟨mid, text, rfl, hmid, htext⟩ := split_space rest
      have hdrop : ∀ k, (front ++ openBracket :: (mid ++ text)).drop (front.length + 1 + k)
          = (mid ++ text).drop k := by
        intro k
        rw [show front.length + 1 + k = front.length + (k + 1) by omega, ← drop_drop, drop_left]
        rfl
      have hinside : (front ++ openBracket :: (mid ++ text)).drop (front.length + 1) = mid ++ text :=
        hdrop 0
      have hbehind : (front ++ openBracket :: (mid ++ text)).drop
          (front.length + 1 + mid.length) = text := by
        rw [hdrop, drop_left]
      have hget : (front ++ openBracket :: (mid ++ text))[front.length + 1 + mid.length]?
          = text[0]? := by
        rw [← Nat.add_zero (front.length + 1 + mid.length), ← getElem?_drop, hbehind]
      simp only [ne_eq, not_true_eq_false, if_false]
      rw [hinside, skipWhitespace_space hmid htext, hget]
      have hlength : (front ++ openBracket :: (mid ++ text)).length
          = front.length + 1 + mid.length + text.length := by
        simp only [length_append, length_cons]
        omega
      have htaken := @taken_open_iff Doc parser front mid _ hfront hmid htext
      cases text with
      | nil =>
        left
        refine ⟨_, rfl, fun docs h => ?_⟩
        rcases (htaken docs).mp h with ⟨back, hback, -⟩ | ⟨hsome, -⟩
        · cases hback
        · exact hsome rfl
      | cons d text =>
        rw [getElem?_cons_zero]
        by_cases hclose : d = closeBracket
        · subst hclose
          have hback : (front ++ openBracket :: (mid ++ closeBracket :: text)).drop
              (front.length + 1 + mid.length + 1) = text := by
            rw [← drop_drop, hbehind]
            rfl
          simp only [if_true]
          rw [hback, hlength, length_cons]
          have hnoElements : ∀ docs seps, ¬ Elements parser (closeBracket :: text) docs seps :=
            fun docs seps helements => helements.not_close hjson text rfl
          by_cases hblank : text.all isSpace = true
          · right
            have hskip : skipWhitespace text = text.length := by
              have hspace := skipWhitespace_space hblank solid_nil
              rwa [append_nil] at hspace
            refine ⟨front.length + 1 + mid.length + 1 + text.length, ?_, ?_, ?_, fun docs => ?_⟩
            · omega
            · rw [hskip, if_neg (by omega)]
            · rw [← drop_drop, hback, drop_length]
              exact solid_nil
            · rw [← drop_drop, hback, drop_length, htaken docs]
              constructor
              · rintro (⟨back, -, -, rfl⟩ | ⟨-, seps, helements⟩)
                · exact ⟨[], .nil⟩
                · exact absurd helements (hnoElements docs seps)
              · rintro ⟨seps, helements⟩
                rw [(Elements.nil.unique helements).1.symm]
                exact .inl ⟨text, rfl, hblank, rfl⟩
          · left
            refine ⟨_, if_pos ?_, fun docs h => ?_⟩
            · have hskip : skipWhitespace text ≠ text.length := by
                intro heq
                have hdrop := drop_skipWhitespace text
                rw [heq, drop_length] at hdrop
                exact hblank (all_eq_true.mpr (dropWhile_eq_nil_iff.mp hdrop.symm))
              omega
            · rcases (htaken docs).mp h with ⟨back, hcons, hspace, -⟩ | ⟨-, seps, helements⟩
              · rw [← (cons.inj hcons).2] at hspace
                exact hblank hspace
              · exact hnoElements docs seps helements
        · right
          refine ⟨front.length + 1 + mid.length, ?_, if_neg hclose, ?_, fun docs => ?_⟩
          · omega
          · rw [hbehind]
            exact htext
          · rw [hbehind, htaken docs]
            constructor
            · rintro (⟨back, hcons, -⟩ | ⟨-, helements⟩)
              · exact absurd (cons.inj hcons).1 hclose
              · exact helements
            · exact fun helements => .inr ⟨cons_ne_nil d text, helements⟩
    · left
      exact ⟨_, if_pos hopen, taken_no_open hfront hc hopen⟩

/-! ## 5. The scan of a file -/

theorem first_read (hfits : params.file.length ≤ params.dataSize) (memory : Bytes) :
    (JSONScanLocalState.created memory : JSONScanLocalState Doc).step params parser .opened
      = some ({ BufferedJsonReader.opened with
          readPosition := params.file.length
          lastReadRequested := params.file.length == 0
          bufferIdx := 1 },
        { JSONScanLocalState.created memory with
          stage := .reserved 0 0 params.file.length
          isLast := params.file.length == 0 }) := by
  have hsize : min (params.capacity - 0 - paddingSize) (params.file.length - 0)
      = params.file.length := by
    unfold Params.dataSize at hfits
    omega
  show some (reserve params .opened (.created memory)) = _
  unfold reserve
  rw [if_neg (by decide)]
  simp only [JSONScanLocalState.created, BufferedJsonReader.opened, hsize, Nat.zero_add]

theorem taken_nil_iff (docs : List Doc) : Taken parser [] docs ↔ docs = [] := by
  constructor
  · exact fun h => h.of_blank rfl
  · rintro rfl
    exact .blank rfl

section

variable (hlaw : parser.Lawful) (hjson : parser.ReadsJson) (hformat : params.format = .array)
  (hfits : params.file.length ≤ params.dataSize)

include hlaw hjson hformat hfits

/-- The scan ends: with the records of the one way to take the file, or with an error where there is
none. -/
theorem array_scan {memory : Bytes} (hmemory : memory.length = params.capacity) :
    (∃ docs, (∀ docs', Taken parser params.file docs' ↔ docs' = docs)
        ∧ Completes (Scan.step params parser) (Scan.started [memory]) (Scan.Records docs))
      ∨ ((∀ docs, ¬ Taken parser params.file docs)
        ∧ Completes (Scan.step params parser) (Scan.started [memory]) Scan.Fails) := by
  have hread := @first_read Doc parser params hfits memory
  by_cases hempty : params.file = []
  · -- the first read finds the end of the file
    left
    refine ⟨[], fun docs' => by rw [hempty]; exact taken_nil_iff docs', one_step hread ?_⟩
    rw [hempty]
    have hinsert : JSONScanLocalState.step params parser
        { BufferedJsonReader.opened with
          readPosition := 0
          lastReadRequested := true
          bufferIdx := 1 }
        { (JSONScanLocalState.created memory : JSONScanLocalState Doc) with
          stage := .reserved 0 0 0
          isLast := true }
        = some (BufferedJsonReader.insertBuffer
            { BufferedJsonReader.opened with
              readPosition := 0
              lastReadRequested := true
              bufferIdx := 1 } 0 ⟨[], 1⟩,
          { (JSONScanLocalState.created memory : JSONScanLocalState Doc) with
            stage := .chunk 0
            current := some 0
            isLast := true }) := by
      unfold JSONScanLocalState.step insertRead
      simp [JSONScanLocalState.created]
    apply one_step hinsert
    exact last_buffer rfl rfl rfl rfl rfl rfl
  · have hpos : 0 < params.file.length := length_pos_of_ne_nil hempty
    have hmore : (params.file.length == 0) = false := by
      rw [beq_eq_false_iff_ne]
      omega
    rw [hmore] at hread
    have hrejected : ∀ (reader : BufferedJsonReader) (reason : Stop),
        skipOverArrayStart params.fileName params.file = .error reason →
        JSONScanLocalState.step params parser reader
          { (JSONScanLocalState.created memory : JSONScanLocalState Doc) with
            stage := .reserved 0 0 params.file.length
            isLast := false }
          = some (reader, { (JSONScanLocalState.created memory) with stage := .failed reason }) := by
      intro reader reason hstart
      unfold JSONScanLocalState.step insertRead
      simp [JSONScanLocalState.created, hformat, hstart]
    have haccepted : ∀ (reader : BufferedJsonReader) (bufferOffset : Nat),
        skipOverArrayStart params.fileName params.file = .ok bufferOffset →
        JSONScanLocalState.step params parser reader
          { (JSONScanLocalState.created memory : JSONScanLocalState Doc) with
            stage := .reserved 0 0 params.file.length
            isLast := false }
          = some (reader.insertBuffer 0 ⟨params.file, 1⟩, { (JSONScanLocalState.created memory) with
                stage := .chunk 0
                current := some 0
                bufferOffset := bufferOffset }) := by
      intro reader bufferOffset hstart
      unfold JSONScanLocalState.step insertRead
      simp [JSONScanLocalState.created, hformat, hstart]
    rcases array_start hjson params.fileName params.file with
      ⟨msg, hstart, hnone⟩ | ⟨bufferOffset, hinside, hstart, hsolid, htaken⟩
    · right
      refine ⟨hnone, one_step hread (one_step (hrejected _ _ hstart) ?_)⟩
      apply one_stop
      · rfl
      · exact .inr ⟨_, mem_singleton_self _, msg, rfl⟩
    · have hbuffer : InBuffer params (BufferedJsonReader.mk params.file.length false 1
            (setBuffer (fun _ => none) 0 (some ⟨params.file, 1⟩)) [])
          (JSONScanLocalState.mk (.chunk 0) (some 0) bufferOffset false 0 memory [] [] :
            JSONScanLocalState Doc) params.file := {
        read := ⟨rfl, rfl, rfl, rfl⟩
        stage := rfl
        current := rfl
        notLast := rfl
        map := ⟨1, rfl⟩
        memory := by
          show params.file.length ≤ memory.length
          unfold Params.dataSize at hfits
          omega
        remainder := rfl
        solid := hsolid
        offset := hinside }
      rcases hbuffer.run hlaw hjson hformat with ⟨docs, seps, helements, hrun⟩ | ⟨hnone, hrun⟩
      · left
        refine ⟨docs, fun docs' => ?_, one_step hread (one_step (haccepted _ _ hstart) ?_)⟩
        · rw [htaken docs']
          constructor
          · rintro ⟨seps', helements'⟩
            exact (helements'.unique helements).1
          · rintro rfl
            exact ⟨seps, helements⟩
        · exact hrun
      · right
        refine ⟨fun docs h => ?_, one_step hread (one_step (haccepted _ _ hstart) ?_)⟩
        · obtain ⟨seps, helements⟩ := (htaken docs).mp h
          exact hnone docs seps helements
        · exact hrun

theorem records_iff_taken {memory : Bytes} (hmemory : memory.length = params.capacity)
    (docs : List Doc) :
    Completes (Scan.step params parser) (Scan.started [memory]) (Scan.Records docs)
      ↔ Taken parser params.file docs := by
  rcases array_scan hlaw hjson hformat hfits hmemory with ⟨docs', htaken, hrun⟩ | ⟨hnone, hrun⟩
  · rw [htaken docs]
    constructor
    · intro h
      obtain ⟨order, scan, -, ⟨-, -, hdocs⟩, -, -, hdocs'⟩ := (h.and hrun).exists_final
      rw [← hdocs, ← hdocs']
    · rintro rfl
      exact hrun
  · refine iff_of_false (fun h => ?_) (hnone docs)
    obtain ⟨order, scan, -, ⟨hfinished, herrors, -⟩, hfails⟩ := (h.and hrun).exists_final
    rcases hfails with hsome | ⟨t, ht, msg, hfailed⟩
    · exact hsome herrors
    · rw [hfinished t ht] at hfailed
      cases hfailed

end

/-- The scan of a file that fits in one buffer ends without an error exactly for the JSON arrays, and
with their elements. -/
def ScansArrays (params : Params) (parser : Parser Doc) : Prop :=
  ∀ memory : Bytes, memory.length = params.capacity → ∀ docs,
    Completes (Scan.step params parser) (Scan.started [memory]) (Scan.Records docs)
      ↔ IsArray parser params.file docs

/-- This is so if and only if the file is not blank and what is taken has a comma behind each value
but the last and a closing bracket behind the last. -/
theorem scans_arrays_iff (params : Params) (parser : Parser Doc) (hlaw : parser.Lawful)
    (hjson : parser.ReadsJson) (hformat : params.format = .array)
    (hfits : params.file.length ≤ params.dataSize) :
    ScansArrays params parser ↔ OnlyArrays parser params.file := by
  rw [← onlyArrays_iff]
  have hmemory : (replicate params.capacity (0 : UInt8)).length = params.capacity :=
    length_replicate
  constructor
  · intro h docs
    rw [← h _ hmemory docs, records_iff_taken hlaw hjson hformat hfits hmemory]
  · intro h memory hmemory docs
    rw [records_iff_taken hlaw hjson hformat hfits hmemory, h docs]

/-! ## 6. Arrays of numbers -/

theorem takeWhile_digits_padding (text : Bytes) :
    (text ++ padding).takeWhile isDigit = text.takeWhile isDigit := by
  rw [takeWhile_append]
  split
  · next hall =>
      rw [show padding.takeWhile isDigit = [] by decide, append_nil]
      exact (( takeWhile_prefix isDigit).eq_of_length hall).symm
  · rfl

theorem takeWhile_blank_solid (hc : isSpace c = false) (rest : Bytes) :
    (c :: rest).takeWhile isBlank = [] := by
  apply takeWhile_cons_of_neg
  intro hblank
  rw [isSpace_of_isBlank hblank] at hc
  cases hc

theorem numberParser_read (hc : isSpace c = false) (rest : Bytes) :
    numberParser.read (c :: rest) padding
      = if ((c :: rest).takeWhile isDigit).isEmpty then .error "unexpected character"
        else .ok ((c :: rest).takeWhile isDigit, ((c :: rest).takeWhile isDigit).length) := by
  show (if _ then _ else _) = _
  rw [takeWhile_blank_solid hc, length_nil, drop_zero, takeWhile_digits_padding, Nat.zero_add]

theorem not_digit_of_follows (h : isSpace c = true ∨ isSeparator c = true) : isDigit c = false := by
  cases hdigit : isDigit c with
  | false => rfl
  | true =>
    rcases h with hspace | hsep
    · rw [not_blank_of_digit hdigit] at hspace
      cases hspace
    · have hnot := @not_digit_of_delimited [c] (fun d tail heq =>
        .inr ((cons.inj heq).1 ▸ hsep)) c [] rfl
      rw [hnot] at hdigit
      cases hdigit

theorem numberParser_value {value : Bytes} (hsome : value ≠ []) (hdigits : value.all isDigit = true) :
    numberParser.Value value value where
  starts := (numberParser_reads hsome hdigits).starts
  read := by
    rintro rest ⟨d, tail, rfl, hd⟩
    have htake : (value ++ d :: tail).takeWhile isDigit = value := by
      rw [takeWhile_append_of_pos (all_eq_true.mp hdigits), takeWhile_cons_of_neg, append_nil]
      rw [not_digit_of_follows hd]
      exact Bool.false_ne_true
    obtain ⟨c, rest, rfl, hc⟩ := (numberParser_reads hsome hdigits).starts
    rw [cons_append, numberParser_read hc, ← cons_append, htake]
    rfl

theorem plain_of_digit (h : isDigit c = true) : isPlain c = true ∧ c ≠ comma := by
  have hne : ∀ d : UInt8, isDigit d = false → c ≠ d := by
    rintro d hd rfl
    rw [hd] at h
    cases h
  refine ⟨?_, hne comma (by decide)⟩
  unfold isPlain isOpen isClose
  simp only [Bool.and_eq_true, Bool.not_eq_true', Bool.or_eq_false_iff, beq_eq_false_iff_ne,
    bne_iff_ne]
  exact ⟨⟨⟨hne _ (by decide), hne _ (by decide)⟩, hne _ (by decide), hne _ (by decide)⟩,
    hne _ (by decide)⟩

theorem numberParser_readsJson : numberParser.ReadsJson where
  sound := by
    intro c rest doc n hc hread
    rw [numberParser_read hc] at hread
    obtain ⟨hsome, hread⟩ := guard_eq_ok.mp hread
    cases hread
    have hpre := takeWhile_prefix (l := c :: rest) isDigit
    refine ⟨hpre.length_le, ?_⟩
    rw [← prefix_iff_eq_take.mp hpre]
    exact numberParser_value (by simpa using hsome) all_takeWhile
  shape := by
    intro value doc hvalue
    obtain ⟨c, rest, rfl, hc⟩ := hvalue.starts
    have hread := hvalue.read [comma] ⟨comma, [], rfl, .inr (by decide)⟩
    rw [cons_append, numberParser_read hc] at hread
    obtain ⟨-, hread⟩ := guard_eq_ok.mp hread
    obtain ⟨-, hlength⟩ := Prod.mk.inj (Except.ok.inj hread)
    have hdigits := prefix_iff_eq_take.mp ( takeWhile_prefix (l := c :: (rest ++ [comma])) isDigit)
    rw [hlength, ← cons_append, take_left] at hdigits
    have hall : (c :: rest).all isDigit = true := by
      rw [← hdigits]
      exact all_takeWhile
    exact .scalar (cons_ne_nil c rest) fun d hd =>
      plain_of_digit (all_eq_true.mp hall d hd)

theorem vectorCapacity_pos : 0 < 2048 := by decide

/-- The file, which fits in one buffer. -/
def numberArray (text : String) : Params where
  capacity := 32
  vectorCapacity := 2048
  format := .array
  fileName := "numbers.json"
  file := ascii text
  room := by decide
  outputs := vectorCapacity_pos

theorem scans_arrays_iff_two : ScansArrays (numberArray "[1, 22]") numberParser :=
  (scans_arrays_iff (numberArray "[1, 22]") numberParser numberParser_lawful numberParser_readsJson
    rfl (by decide)).mpr
    (by
      have helements : Elements numberParser (ascii "1, 22]") [ascii "1", ascii "22"]
          (arraySeparators 1) := by
        show Elements numberParser (ascii "1" ++ ([] ++ comma :: (ascii " " ++
          (ascii "22" ++ ([] ++ closeBracket :: ([] ++ [])))))) _ [comma, closeBracket]
        exact .cons (numberParser_value (by decide) (by decide)) rfl (by decide) (by decide)
          (.cons (numberParser_value (by decide) (by decide)) rfl (by decide) rfl .nil)
      refine ⟨by decide, fun front mid text docs seps hfile hfront hmid _ h => ⟨1, ?_⟩⟩
      have hopen := (@spaces_unique [] front _ _ rfl hfront (solid_open (ascii "1, 22]"))
        (solid_open _) hfile).2
      obtain ⟨-, rfl⟩ := @spaces_unique [] mid _ _ rfl hmid helements.solid h.solid
        (cons.inj hopen).2
      exact (h.unique helements).2)

/-- A file that ends behind a comma is read without an error. -/
theorem truncated_array_read :
    ¬ ∀ (params : Params) (parser : Parser Bytes), parser.Lawful → parser.ReadsJson →
      params.format = .array → params.file.length ≤ params.dataSize → ScansArrays params parser := by
  intro h
  have htaken : Taken numberParser (ascii "[1,") [ascii "1"] := by
    show Taken numberParser ([] ++ openBracket :: ([] ++ (ascii "1" ++ ([] ++ comma :: ([] ++ []))))) _
    exact .elements rfl rfl (by decide) (.cons (numberParser_value (by decide) (by decide)) rfl
      (by decide) rfl .nil)
  have hmemory : (replicate 32 (0 : UInt8)).length = 32 := length_replicate
  have hscan := (@records_iff_taken Bytes numberParser (numberArray "[1,") numberParser_lawful
    numberParser_readsJson rfl (by decide) _ hmemory [ascii "1"]).mpr htaken
  obtain ⟨front, body, back, hfile, -⟩ := (h (numberArray "[1,") numberParser numberParser_lawful
    numberParser_readsJson rfl (by decide) _ hmemory _).mp hscan
  have hclose : closeBracket ∈ ascii "[1," := by
    rw [show ascii "[1," = _ from hfile]
    simp
  exact absurd hclose (by decide)

end Ladybug.JsonScan
