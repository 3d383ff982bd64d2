import Ladybug.Json.LineSteps
import Mathlib.Data.List.ReduceOption

/-!
# The scan of a file of lines by several threads

Where no buffer end cuts a line badly, the threads output the documents of the lines, in whatever
order they take their steps.
-/

namespace Ladybug.JsonScan

open Markup List Option

variable {Doc : Type} {parser : Parser Doc} {params : Params}

theorem Scan.Sound.thread_step {scan : Scan Doc} (h : scan.Sound params parser)
    (hlaw : parser.Lawful) (hformat : params.format = .newlineDelimited)
    (hemits : ∀ k ≤ numBuffers params, Emits params parser k (bufferDocs params parser k))
    {i : Nat} {t : JSONScanLocalState Doc} (ht : scan.threads[i]? = some t) :
    t.stage = .finished ∨ (∃ idx, t.stage = .first idx ∧ scan.reader.bufferMap (idx - 1) = none)
      ∨ ∃ next, t.step params parser scan.reader = some next
        ∧ Advances params parser scan i next := by
  have hthread := h.threads t (mem_of_getElem? ht)
  cases hstage : t.stage with
  | idle =>
    right; right
    cases hcurrent : t.current with
    | some k =>
      refine ⟨(scan.reader.release k, { t with current := none }), ?_,
        h.step_release ht hstage hcurrent⟩
      unfold JSONScanLocalState.step
      simp only [hstage, hcurrent]
    | none =>
      refine ⟨reserve params scan.reader t, ?_, ?_⟩
      · unfold JSONScanLocalState.step
        simp only [hstage, hcurrent]
      · unfold reserve
        by_cases hlast : scan.reader.lastReadRequested = true
        · rw [if_pos hlast]
          exact h.step_finish ht hstage hcurrent hlast
        · rw [if_neg hlast]
          have hmore : scan.reader.bufferIdx ≤ numBuffers params := by
            have hrange := h.range
            have hiff := h.lastRead
            by_contra hgt
            exact hlast (hiff.mpr (by omega))
          have hrequest : params.capacity - t.prevBufferRemainder - paddingSize
              = params.dataSize := by
            rw [hthread.remainder]
            rfl
          rw [hrequest]
          exact h.step_reserve ht hstage hcurrent hmore rfl
  | reserved idx position size =>
    right; right
    have hwhole : ValidComplete parser (buffer params 0) := by
      have hzero := hemits 0 (Nat.zero_le _)
      generalize bufferDocs params parser 0 = docs at hzero
      cases hzero with
      | whole _ hvalid => exact hvalid
    refine ⟨insertRead params scan.reader t idx position size, ?_,
      h.step_reserved hformat hwhole ht hstage⟩
    unfold JSONScanLocalState.step
    simp only [hstage]
  | first idx =>
    right
    cases hmap : scan.reader.bufferMap (idx - 1) with
    | none => exact .inl ⟨idx, rfl, hmap⟩
    | some handle => exact .inr (h.step_first ht hstage hmap)
  | copied idx n =>
    right; right
    refine ⟨(scan.reader.release (idx - 1), { t with stage := .line idx n }), ?_,
      h.step_copied ht hstage⟩
    unfold JSONScanLocalState.step
    simp only [hstage]
  | line idx n => exact .inr (.inr (h.step_line hlaw hemits ht hstage))
  | chunk idx => exact .inr (.inr (h.step_chunk hlaw hformat ht hstage))
  | finished => exact .inl rfl
  | failed reason =>
    have hok := hthread.stage
    simp only [StageOk, hstage] at hok

theorem Scan.Sound.step {scan scan' : Scan Doc} (h : scan.Sound params parser)
    (hlaw : parser.Lawful) (hformat : params.format = .newlineDelimited)
    (hemits : ∀ k ≤ numBuffers params, Emits params parser k (bufferDocs params parser k)) {i : Nat}
    (hstep : scan.step params parser i = some scan') :
    scan'.Sound params parser ∧ scan'.work params < scan.work params := by
  obtain ⟨t, next, ht, hnext, rfl⟩ := Scan.step_some hstep
  rcases h.thread_step hlaw hformat hemits ht with hfinished | ⟨idx, hfirst, hnone⟩ | ⟨next', hnext', hadvances⟩
  · unfold JSONScanLocalState.step at hnext
    simp only [hfinished] at hnext
    cases hnext
  · unfold JSONScanLocalState.step at hnext
    simp only [hfirst, hnone] at hnext
    cases hnext
  · rw [hnext] at hnext'
    cases hnext'
    exact hadvances

/-- The scan has ended: every thread is finished, no error was seen, and the documents that the
threads have output are these. -/
def Scan.Emitted (docs : List Doc) (scan : Scan Doc) : Prop :=
  (∀ t ∈ scan.threads, t.stage = .finished) ∧ scan.reader.errors = []
    ∧ (scan.threads.flatMap (·.output)).Perm docs

theorem Scan.Sound.stuck {scan : Scan Doc} (h : scan.Sound params parser)
    (hlaw : parser.Lawful) (hformat : params.format = .newlineDelimited)
    (hemits : ∀ k ≤ numBuffers params, Emits params parser k (bufferDocs params parser k))
    (hsome : scan.threads ≠ []) (hstuck : Stuck (Scan.step params parser) scan) :
    scan.Emitted (docsOf parser params.file) := by
  have hno : ∀ (i : Nat) (t : JSONScanLocalState Doc) next, scan.threads[i]? = some t → t.step params parser scan.reader ≠ some next := by
    intro i t next ht hnext
    have hnone := hstuck i
    unfold Scan.step at hnone
    rw [ht, bind_eq_bind, bind_some, hnext] at hnone
    cases hnone
  have hquiet : ∀ t ∈ scan.threads, t.stage = .finished
      ∨ ∃ idx, t.stage = .first idx ∧ scan.reader.bufferMap (idx - 1) = none := by
    intro t hmem
    obtain ⟨i, ht⟩ := getElem?_of_mem hmem
    rcases h.thread_step hlaw hformat hemits ht with hfinished | hfirst | ⟨next, hnext, -⟩
    · exact .inl hfinished
    · exact .inr hfirst
    · exact absurd hnext (hno i t next ht)
  have hfinished : ∀ t ∈ scan.threads, t.stage = .finished := by
    intro t hmem
    rcases hquiet t hmem with hfin | ⟨idx, hfirst, hnone⟩
    · exact hfin
    · -- nobody reads the buffer from the file, so it is there for the thread
      exfalso
      obtain ⟨i, ht⟩ := getElem?_of_mem hmem
      have hok := (h.threads t hmem).stage
      simp only [StageOk, hfirst] at hok
      have hne := hok.notFirst
      have hlt := (h.holder ht hok.current).1
      have hfree : total (·.reserves (idx - 1)) scan.threads = 0 := by
        apply total_eq_zero
        intro u hu
        rcases hquiet u hu with hs | ⟨k, hs, -⟩
        all_goals simp [JSONScanLocalState.reserves, hs]
      have hgone := (h.slots (idx - 1)).gone (by omega) hfree hnone
      have hone : t.awaits (idx - 1) = 1 := by
        simp only [JSONScanLocalState.awaits, hfirst]
        exact if_pos (by omega)
      have hle := le_total (fun u : JSONScanLocalState Doc => u.awaits (idx - 1)) ht
      unfold readers at hgone
      omega
  refine ⟨hfinished, h.errors, ?_⟩
  -- the last read has been given out, so that nothing is pending
  obtain ⟨t, hmem⟩ := exists_mem_of_ne_nil _ hsome
  have hlast : scan.reader.lastReadRequested = true := by
    have hok := (h.threads t hmem).stage
    simp only [StageOk, hfinished t hmem] at hok
    exact hok.2.2
  have hpending : pending params parser scan.reader.bufferIdx = [] := by
    rw [h.lastRead.mp hlast]
    unfold pending
    rw [Nat.sub_self]
    rfl
  have houtput : total (account params parser) scan.threads
      = ((scan.threads.flatMap (·.output) : List Doc) : Multiset Doc) := by
    have haccount : ∀ ts : List (JSONScanLocalState Doc),
        (∀ t ∈ ts, account params parser t = (t.output : Multiset Doc)) →
          total (account params parser) ts
            = ((ts.flatMap (·.output) : List Doc) : Multiset Doc) := by
      intro ts
      induction ts with
      | nil => exact fun _ => rfl
      | cons t ts ih =>
        intro hts
        show account params parser t + total (account params parser) ts = _
        rw [hts t mem_cons_self, ih fun u hu => hts u (mem_cons_of_mem t hu),
          Multiset.coe_add, flatMap_cons]
    apply haccount
    intro t ht
    have hok := (h.threads t ht).stage
    simp only [StageOk, hfinished t ht] at hok
    simp only [account, owed, hfinished t ht, hok.2.1, append_nil]
  have hdocs := h.docs
  rw [hpending, houtput, Multiset.coe_nil, add_zero] at hdocs
  exact Multiset.coe_eq_coe.mp hdocs

theorem started_sound {memories : List Bytes} (hmemories : ∀ memory ∈ memories,
      memory.length = params.capacity)
    (hdocs : docsOf parser params.file
      = (range (numBuffers params + 1)).flatMap (bufferDocs params parser)) :
    Scan.Sound params parser (Scan.started memories) := by
  have hthreads : ∀ t ∈ (memories.map .created : List (JSONScanLocalState Doc)),
      t.stage = .idle ∧ t.current = none ∧ t.docs = [] ∧ t.output = []
        ∧ t.prevBufferRemainder = 0 ∧ t.reconstructBuffer.length = params.capacity := by
    intro t ht
    obtain ⟨memory, hmem, rfl⟩ := mem_map.mp ht
    exact ⟨rfl, rfl, rfl, rfl, rfl, hmemories memory hmem⟩
  have hholds : ∀ k, total (·.holds k) (memories.map .created : List (JSONScanLocalState Doc)) = 0 := by
    intro k
    apply total_eq_zero
    intro t ht
    simp [JSONScanLocalState.holds, (hthreads t ht).2.1]
  have hreserves : ∀ k,
      total (·.reserves k) (memories.map .created : List (JSONScanLocalState Doc)) = 0 := by
    intro k
    apply total_eq_zero
    intro t ht
    simp [JSONScanLocalState.reserves, (hthreads t ht).1]
  have hawaits : ∀ k,
      total (·.awaits k) (memories.map .created : List (JSONScanLocalState Doc)) = 0 := by
    intro k
    apply total_eq_zero
    intro t ht
    simp [JSONScanLocalState.awaits, (hthreads t ht).1]
  exact {
    position := by
      show 0 = min (0 * _) _
      simp
    range := Nat.zero_le _
    lastRead := by
      show false = true ↔ 0 = numBuffers params + 1
      simp
    errors := rfl
    slots := by
      intro k
      exact {
        unique := by
          show total _ (memories.map _) + total _ (memories.map _) ≤ _
          rw [hholds, hreserves]
          exact Nat.zero_le _
        hidden := by
          intro _
          refine ⟨rfl, ?_⟩
          show total _ (memories.map _) + later params 0 k = _
          rw [hawaits, Nat.zero_add]
          exact if_pos (Nat.zero_le _)
        shown := by
          intro buffer hbuffer
          cases hbuffer
        gone := fun hlt => absurd hlt (Nat.not_lt_zero k) }
    threads := by
      intro t ht
      obtain ⟨hstage, hcurrent, hdocs, -, hremainder, hmemory⟩ := hthreads t ht
      exact ⟨hremainder, hmemory, by simp only [StageOk, hstage]; exact hdocs⟩
    data := by
      intro _ _ _ _ _ _ _ hbuffer
      cases hbuffer
    copied := by
      intro t ht idx n hcopied
      rw [(hthreads t ht).1] at hcopied
      cases hcopied
    docs := by
      rw [total_eq_zero, zero_add, hdocs, range_eq_range']
      · rfl
      · intro t ht
        obtain ⟨hstage, -, hdocs, houtput, -, -⟩ := hthreads t ht
        simp only [account, owed, hstage, hdocs, houtput]
        rfl }

theorem validLines_of_forall {docs : List (Option Doc)} {text : Bytes}
    (h : Forall₂ (IsLine parser) (linesOf text) docs) :
    ValidLines parser text ∧ docsOf parser text = docs.reduceOption := by
  unfold ValidLines docsOf
  generalize linesOf text = lines at h
  induction h with
  | nil => exact ⟨forall_mem_nil _, rfl⟩
  | @cons line doc lines docs hline _ ih =>
    refine ⟨forall_mem_cons.mpr ⟨⟨doc, hline⟩, ih.1⟩, ?_⟩
    rw [filterMap_cons, hline.doc]
    cases doc with
    | none =>
      rw [reduceOption_cons_of_none]
      exact ih.2
    | some doc =>
      rw [reduceOption_cons_of_some, ← ih.2]

/-- Where the buffer ends cut the lines well, every run ends, and it emits the values of the lines
that are not blank. -/
theorem scan_emits_lines (params : Params) (parser : Parser Doc) (hlaw : parser.Lawful)
    (hformat : params.format = .newlineDelimited) (docs : List (Option Doc))
    (hlines : Forall₂ (IsLine parser) (linesOf params.file) docs)
    (hcuts : ∀ k < numBuffers params, CutsWell params parser k) (memories : List Bytes)
    (hsome : memories ≠ []) (hmemories : ∀ memory ∈ memories, memory.length = params.capacity) :
    Completes (Scan.step params parser) (Scan.started memories)
      (Scan.Emitted docs.reduceOption) := by
  obtain ⟨hvalid, hdocs⟩ := validLines_of_forall hlines
  obtain ⟨hemits, hbuffers⟩ := buffers_emit hlaw hvalid hcuts
  refine @completes_of_measure _ _ _ _ (fun scan => scan.Sound params parser ∧ scan.threads ≠ [])
    (Scan.work params) ?_ ?_ _ ?_
  · intro scan i scan' hinv hstep
    obtain ⟨hsound, hless⟩ := hinv.1.step hlaw hformat hemits hstep
    refine ⟨⟨hsound, ?_⟩, hless⟩
    obtain ⟨t, next, ht, -, rfl⟩ := Scan.step_some hstep
    rw [Ne, set_eq_nil_iff]
    exact hinv.2
  · intro scan hinv hstuck
    rw [← hdocs]
    exact hinv.1.stuck hlaw hformat hemits hinv.2 hstuck
  · refine ⟨started_sound hmemories hbuffers, ?_⟩
    show memories.map _ ≠ []
    rw [Ne, map_eq_nil_iff]
    exact hsome

def isDigit (c : UInt8) : Bool := 48 ≤ c && c ≤ 57

def numberParser : Parser Bytes where
  read := fun text after =>
    let front := text.takeWhile isBlank
    let digits := ((text ++ after).drop front.length).takeWhile isDigit
    if digits.isEmpty then .error "unexpected character" else .ok (digits, front.length + digits.length)
  inPlace := fun text _ => text

theorem numberParser_lawful : numberParser.Lawful where
  length := fun _ _ => rfl
  behind := fun _ _ _ _ _ => rfl

theorem not_digit_of_delimited {rest : Bytes} (h : Delimited rest) {c : UInt8} {tail : Bytes}
    (hrest : rest = c :: tail) : isDigit c = false := by
  rcases h c tail hrest with hblank | hsep
  · unfold isBlank at hblank
    simp only [Bool.or_eq_true, beq_iff_eq] at hblank
    rcases hblank with ((rfl | rfl) | rfl) | rfl
    all_goals decide
  · unfold isSeparator at hsep
    simp only [Bool.or_eq_true, beq_iff_eq] at hsep
    rcases hsep with rfl | rfl
    all_goals decide

theorem not_blank_of_digit {c : UInt8} (h : isDigit c = true) : isSpace c = false := by
  unfold isDigit at h
  simp only [Bool.and_eq_true, decide_eq_true_eq, UInt8.le_iff_toNat_le] at h
  unfold isSpace
  simp only [Bool.or_eq_false_iff, beq_eq_false_iff_ne, Bool.and_eq_false_iff, decide_eq_false_iff_not,
    UInt8.le_iff_toNat_le]
  refine ⟨fun heq => ?_, .inr ?_⟩
  · rw [heq] at h
    exact absurd h.1 (by decide)
  · have hlow := h.1
    change 48 ≤ c.toNat at hlow
    show ¬ c.toNat ≤ 13
    omega

theorem numberParser_reads {value : Bytes} (hsome : value ≠ []) (hdigits : value.all isDigit = true) :
    numberParser.Reads value value where
  starts := by
    cases value with
    | nil => exact absurd rfl hsome
    | cons c rest =>
      rw [all_cons, Bool.and_eq_true] at hdigits
      exact ⟨c, rest, rfl, not_blank_of_digit hdigits.1⟩
  read := by
    intro front rest after hfront hrest hend
    have hblank : (front ++ (value ++ rest)).takeWhile isBlank = front := by
      rw [takeWhile_append_of_pos (all_eq_true.mp hfront)]
      cases value with
      | nil => exact absurd rfl hsome
      | cons c value =>
        rw [all_cons, Bool.and_eq_true] at hdigits
        have hspace := not_blank_of_digit hdigits.1
        have hc : isBlank c = false := by
          rw [Bool.eq_false_iff]
          intro h
          rw [isSpace_of_isBlank h] at hspace
          cases hspace
        rw [cons_append, takeWhile_cons_of_neg (by rw [hc]; decide), append_nil]
    have htake : ((front ++ (value ++ rest) ++ after).drop front.length).takeWhile isDigit = value := by
      rw [append_assoc, drop_left, append_assoc, takeWhile_append_of_pos (all_eq_true.mp hdigits)]
      have hstop : (rest ++ after).takeWhile isDigit = [] := by
        cases rest with
        | nil =>
          obtain ⟨more, rfl⟩ := hend rfl
          rfl
        | cons c rest =>
          rw [cons_append, takeWhile_cons_of_neg]
          rw [not_digit_of_delimited hrest rfl]
          decide
      rw [hstop, append_nil]
    show (if _ then _ else _) = _
    rw [hblank, htake, if_neg]
    simpa using hsome

/-- The file, read into buffers of this many bytes. -/
def numberFile (dataSize : Nat) (text : String) (hpos : 0 < dataSize) : Params where
  capacity := dataSize + paddingSize
  vectorCapacity := 2048
  format := .newlineDelimited
  fileName := "numbers.json"
  file := ascii text
  room := by omega
  outputs := by decide

theorem scan_emits_lines_cut :
    Completes (Scan.step (numberFile 4 "1\n22\n" (by decide)) numberParser)
      (Scan.started [replicate 8 0, replicate 8 0])
      (Scan.Emitted [ascii "1", ascii "22"]) :=
  scan_emits_lines (numberFile 4 "1\n22\n" (by decide)) numberParser numberParser_lawful rfl
    [some (ascii "1"), some (ascii "22"), none]
    (by
      have hlines : linesOf (ascii "1\n22\n") = [[] ++ (ascii "1" ++ []), [] ++ (ascii "22" ++ []), []] := by
        decide
      show Forall₂ _ (linesOf (ascii "1\n22\n")) _
      rw [hlines]
      refine .cons (.value rfl rfl (numberParser_reads ?_ ?_)) (.cons (.value rfl rfl
        (numberParser_reads ?_ ?_)) (.cons (.blank rfl) .nil))
      all_goals decide)
    (by
      intro k hk
      have htwo : k < 2 := hk
      match k, htwo with
      | 0, _ =>
        exact {
          single := fun h => absurd h (by decide)
          ended := fun _ _ => ⟨[], [], by decide, by decide, by decide, by decide⟩
          last := fun _ h => absurd h (by decide) }
      | 1, _ =>
        exact {
          single := fun _ => by decide
          ended := fun h => absurd (by decide) h
          last := fun h => absurd (by decide) h })
    [replicate 8 0, replicate 8 0] (by decide) (by decide)

/-- A last line without a newline that a buffer end cuts: the thread that puts it together looks for
its newline in the last buffer that is not empty. -/
theorem unended_line_fails : ¬ ∀ (params : Params) (parser : Parser Bytes), parser.Lawful →
      params.format = .newlineDelimited → ∀ docs : List (Option Bytes),
      Forall₂ (IsLine parser) (linesOf params.file) docs →
      (∀ line ∈ linesOf params.file, line.length < params.dataSize) →
      ∀ memories : List Bytes, memories ≠ [] →
      (∀ memory ∈ memories, memory.length = params.capacity) →
      Completes (Scan.step params parser) (Scan.started memories)
        (Scan.Emitted docs.reduceOption) := by
  intro h
  have hlines : linesOf (ascii "1\n22") = [[] ++ (ascii "1" ++ []), [] ++ (ascii "22" ++ [])] := by
    decide
  obtain ⟨bound, hbound⟩ := h (numberFile 3 "1\n22" (by decide)) numberParser numberParser_lawful rfl
    [some (ascii "1"), some (ascii "22")]
    (by
      show Forall₂ _ (linesOf (ascii "1\n22")) _
      rw [hlines]
      refine .cons (.value rfl rfl (numberParser_reads ?_ ?_)) (.cons (.value rfl rfl
        (numberParser_reads ?_ ?_)) .nil)
      all_goals decide)
    (by
      show ∀ line ∈ linesOf (ascii "1\n22"), line.length < 3
      rw [hlines]
      decide)
    [replicate 7 0] (by decide) (by decide)
  -- one thread, which takes ten steps
  have hstages : ((replicate 10 0).foldlM
      (Scan.step (numberFile 3 "1\n22" (by decide)) numberParser)
      (Scan.started [replicate 7 0])).map (fun scan => scan.threads.map (·.stage))
      = some [.failed (.error "Json object exceeds the maximum object size.")] := by
    decide +kernel
  cases hrun : (replicate 10 0).foldlM
      (Scan.step (numberFile 3 "1\n22" (by decide)) numberParser)
      (Scan.started [replicate 7 0]) with
  | none =>
    rw [hrun] at hstages
    cases hstages
  | some scan =>
    rw [hrun, map_some, some.injEq] at hstages
    obtain ⟨t, hthreads, hstage⟩ := map_eq_singleton_iff.mp hstages
    have hstuck : Stuck (Scan.step (numberFile 3 "1\n22" (by decide)) numberParser) scan := by
      intro i
      unfold Scan.step
      rw [hthreads]
      cases i with
      | zero =>
        show (t.step _ _ _).bind _ = none
        unfold JSONScanLocalState.step
        rw [hstage]
        rfl
      | succ i => rfl
    have hfinished := ((hbound _ _ hrun).2 hstuck).1 t (by rw [hthreads]; exact mem_singleton_self t)
    rw [hstage] at hfinished
    cases hfinished

end Ladybug.JsonScan
