import Ladybug.Json.LineScan

/-!
# The writes of a scan

The buffers of the scan are all of the size `SCAN_BUFFER_CAPACITY`: what a thread reads into, and the
`reconstructBuffer` that takes the end of a buffer.  Every write but one has room in its buffer,
whatever the file: the line that the start of a buffer cuts may be too long for `reconstructBuffer`.
-/

namespace Ladybug.JsonScan

open Markup List Option

variable {Doc : Type} {parser : Parser Doc} {params : Params}

/-! ## 1. The writes of a step -/

structure Write where
  /-- The size of the buffer. -/
  room : Nat
  offset : Nat
  length : Nat
  deriving DecidableEq

def Write.Within (w : Write) : Prop := w.offset + w.length ≤ w.room

instance (w : Write) : Decidable w.Within := inferInstanceAs (Decidable (_ ≤ _))

/-- `readNextBuffer`: the remainder, the read behind it, and the padding.  The remainder is copied
before the request, which no thread makes after its last one. -/
def readWrites (params : Params) (t : JSONScanLocalState Doc) (size : Nat) : List Write :=
  (if params.format ≠ .newlineDelimited then [⟨params.capacity, 0, t.prevBufferRemainder⟩] else [])
  ++ [⟨params.capacity, t.prevBufferRemainder, size⟩,
    ⟨params.capacity, t.prevBufferRemainder + size, paddingSize⟩]

/-- The second part of the line in `reconstructFirstObject`, and its padding. -/
def lineWrites (t : JSONScanLocalState Doc) (firstPartSize : Nat) (data : Bytes) : List Write :=
  if firstPartSize = 1 ∨ data.isEmpty then []
  else
    match nextNewLine data with
    | none => []
    | some lineEnd =>
      [⟨t.reconstructBuffer.length, firstPartSize, lineEnd + 1⟩,
        ⟨t.reconstructBuffer.length, firstPartSize + (lineEnd + 1), paddingSize⟩]

/-- The remainder that `parseNextChunk` keeps. -/
def chunkWrites (params : Params) (parser : Parser Doc) (t : JSONScanLocalState Doc)
    (data : Bytes) : List Write :=
  if params.vectorCapacity ≤ t.docs.length then []
  else
    match parseRound parser params.format t.isLast data t.bufferOffset with
    | .leave _ (some remainder) => [⟨t.reconstructBuffer.length, 0, remainder.length⟩]
    | _ => []

/-- What the next step of the thread copies, reads or clears. -/
def JSONScanLocalState.writes (params : Params) (parser : Parser Doc) (reader : BufferedJsonReader)
    (t : JSONScanLocalState Doc) : List Write :=
  match t.stage with
  | .reserved _ _ size => readWrites params t size
  | .first idx =>
    match reader.bufferMap (idx - 1) with
    | none => []
    | some handle => [⟨t.reconstructBuffer.length, 0, (lastPart handle.data).length⟩]
  | .line idx firstPartSize =>
    match reader.bufferMap idx with
    | none => []
    | some handle => lineWrites t firstPartSize handle.data
  | .chunk idx =>
    match reader.bufferMap idx with
    | none => []
    | some handle => chunkWrites params parser t handle.data
  | _ => []

/-- No run of any number of threads writes outside a buffer. -/
def WritesInside (params : Params) (parser : Parser Doc) : Prop :=
  ∀ memories : List Bytes, (∀ memory ∈ memories, memory.length = params.capacity) →
    ∀ (order : List Nat) (scan : Scan Doc),
      order.foldlM (Scan.step params parser) (Scan.started memories) = some scan →
        ∀ t ∈ scan.threads, ∀ w ∈ t.writes params parser scan.reader, w.Within

def LineFits (params : Params) (k : Nat) : Prop :=
  (lastPart (buffer params k)).length ≠ 1 → ∀ lineEnd,
    nextNewLine (buffer params (k + 1)) = some lineEnd →
      (lastPart (buffer params k)).length + (lineEnd + 1) + paddingSize ≤ params.capacity

/-! ## 2. What the threads keep -/

/-- The buffer that a thread has been given. -/
def Stage.own : Stage → Option Nat
  | .reserved idx _ _ => some idx
  | .first idx => some idx
  | .copied idx _ => some idx
  | .line idx _ => some idx
  | .chunk idx => some idx
  | .idle => none
  | .finished => none
  | .failed _ => none

def Untouched (params : Params) (reader : BufferedJsonReader) (idx : Nat) : Prop :=
  ∀ handle, reader.bufferMap idx = some handle → handle.data = buffer params idx

/-- The start of the buffer may cut a line, which is not yet put together. -/
structure Cut (params : Params) (reader : BufferedJsonReader) (idx : Nat) : Prop where
  format : params.format = .newlineDelimited
  pos : 0 < idx
  untouched : Untouched params reader idx

def StageRoom (params : Params) (reader : BufferedJsonReader) (t : JSONScanLocalState Doc) : Prop :=
  match t.stage with
  | .reserved idx position size =>
    t.prevBufferRemainder + size ≤ params.dataSize ∧ (params.format = .newlineDelimited →
        (params.file.drop position).take size = buffer params idx)
  | .first idx => Cut params reader idx
  | .copied idx n => Cut params reader idx ∧ n = (lastPart (buffer params (idx - 1))).length
  | .line idx n => Cut params reader idx ∧ n = (lastPart (buffer params (idx - 1))).length
  | _ => True

/-- The remainder leaves room for the padding, so that the request of `readNextBufferSeek` is not
negative. -/
structure ThreadRoom (params : Params) (reader : BufferedJsonReader) (t : JSONScanLocalState Doc) :
    Prop where
  memory : t.reconstructBuffer.length = params.capacity
  remainder : t.prevBufferRemainder ≤ params.dataSize
  lines : params.format = .newlineDelimited → t.prevBufferRemainder = 0
  last : params.format = .newlineDelimited → t.isLast = true → ∀ k, t.stage.own = some k →
    buffer params k = []
  stage : StageRoom params reader t

structure GivenOut (params : Params) (reader : BufferedJsonReader) : Prop where
  position : reader.readPosition = min (reader.bufferIdx * params.dataSize) params.file.length
  before : ∀ k, k + 1 < reader.bufferIdx → buffer params k ≠ []
  last : reader.lastReadRequested = false → ∀ k < reader.bufferIdx, buffer params k ≠ []

structure Scan.Roomy (params : Params) (scan : Scan Doc) : Prop where
  given : params.format = .newlineDelimited → GivenOut params scan.reader
  sizes : ∀ k handle, scan.reader.bufferMap k = some handle → handle.data.length ≤ params.dataSize
  ends : params.format = .newlineDelimited → ∀ k handle, scan.reader.bufferMap k = some handle →
    SameEnd handle.data (buffer params k)
  below : ∀ t ∈ scan.threads, ∀ k, t.stage.own = some k → k < scan.reader.bufferIdx
  owners : ∀ (i j : Nat) t t' k, scan.threads[i]? = some t → scan.threads[j]? = some t' →
    t.stage.own = some k → t'.stage.own = some k → i = j
  threads : ∀ t ∈ scan.threads, ThreadRoom params scan.reader t

variable {reader reader' : BufferedJsonReader} {t : JSONScanLocalState Doc} {k idx i n : Nat}
  {handle : JsonScanBufferHandle} {scan : Scan Doc} {data : Bytes}

theorem StageRoom.congr (h : StageRoom params reader t)
    (hsame : ∀ k, t.stage.own = some k → ∀ handle', reader'.bufferMap k = some handle' →
      ∃ handle, reader.bufferMap k = some handle ∧ handle'.data = handle.data) :
    StageRoom params reader' t := by
  have hcut : ∀ idx, t.stage.own = some idx → Cut params reader idx → Cut params reader' idx := by
    intro idx hown hcut
    apply Cut.mk hcut.format hcut.pos
    intro handle' hhandle'
    obtain ⟨handle, hhandle, hdata⟩ := hsame idx hown handle' hhandle'
    rw [hdata]
    exact hcut.untouched handle hhandle
  unfold StageRoom at h ⊢
  cases hstage : t.stage with
  | idle | chunk | finished | failed => exact True.intro
  | reserved idx position size =>
    rw [hstage] at h
    exact h
  | first idx =>
    rw [hstage] at h
    exact hcut idx (by rw [hstage]; rfl) h
  | copied idx n | line idx n =>
    rw [hstage] at h
    exact ⟨hcut idx (by rw [hstage]; rfl) h.1, h.2⟩

/-- A handle of the buffer `k` that a step of the thread `t` may leave. -/
def Left (params : Params) (reader : BufferedJsonReader) (t : JSONScanLocalState Doc) (k : Nat)
    (handle' : JsonScanBufferHandle) : Prop :=
  (∃ handle, reader.bufferMap k = some handle ∧ handle'.data = handle.data)
    ∨ (t.stage.own = some k ∧ handle'.data.length ≤ params.dataSize
      ∧ (params.format = .newlineDelimited → SameEnd handle'.data (buffer params k)))

theorem Scan.Roomy.next {scan : Scan Doc} (h : scan.Roomy params) {i : Nat}
    {t t' : JSONScanLocalState Doc} {reader' : BufferedJsonReader} (ht : scan.threads[i]? = some t)
    (hgiven : params.format = .newlineDelimited → GivenOut params reader')
    (hidx : scan.reader.bufferIdx ≤ reader'.bufferIdx)
    (hown : ∀ k, t'.stage.own = some k → t.stage.own = some k
      ∨ (k = scan.reader.bufferIdx ∧ k < reader'.bufferIdx))
    (hmap : ∀ k handle', reader'.bufferMap k = some handle' → Left params scan.reader t k handle')
    (hroom : ThreadRoom params reader' t') :
    Scan.Roomy params ⟨reader', scan.threads.set i t'⟩ := by
  have hi : i < scan.threads.length := (List.getElem?_eq_some_iff.mp ht).1
  have hbelow : ∀ (j : Nat) (u : JSONScanLocalState Doc), scan.threads[j]? = some u →
      ∀ k, u.stage.own = some k → k < scan.reader.bufferIdx :=
    fun j u hu => h.below u (mem_of_getElem? hu)
  -- the thread with the number `j` after the step
  have hthread : ∀ (j : Nat) (u : JSONScanLocalState Doc), (scan.threads.set i t')[j]? = some u →
      (j = i ∧ u = t') ∨ (j ≠ i ∧ scan.threads[j]? = some u) := by
    intro j u hu
    by_cases hj : j = i
    · rw [hj, getElem?_set_self hi] at hu
      exact .inl ⟨hj, (some.inj hu).symm⟩
    · rw [getElem?_set_ne (Ne.symm hj)] at hu
      exact .inr ⟨hj, hu⟩
  exact {
    given := hgiven
    sizes := by
      intro k handle' hhandle'
      rcases hmap k handle' hhandle' with ⟨handle, hhandle, hdata⟩ | ⟨-, hsize, -⟩
      · rw [hdata]
        exact h.sizes k handle hhandle
      · exact hsize
    ends := by
      intro hformat k handle' hhandle'
      rcases hmap k handle' hhandle' with ⟨handle, hhandle, hdata⟩ | ⟨-, -, hend⟩
      · rw [hdata]
        exact h.ends hformat k handle hhandle
      · exact hend hformat
    below := by
      intro u hu k hk
      obtain ⟨j, hj⟩ := mem_iff_getElem?.mp hu
      show k < reader'.bufferIdx
      rcases hthread j u hj with ⟨-, rfl⟩ | ⟨-, hold⟩
      · rcases hown k hk with hbefore | ⟨-, hlt⟩
        · have hlt := hbelow i t ht k hbefore
          omega
        · exact hlt
      · have hlt := hbelow j u hold k hk
        omega
    owners := by
      intro j l u v k hu hv hku hkv
      rcases hthread j u hu with ⟨rfl, rfl⟩ | ⟨hj, hold⟩
      · rcases hthread l v hv with ⟨rfl, -⟩ | ⟨hl, hold⟩
        · rfl
        · have hlt := hbelow l v hold k hkv
          rcases hown k hku with hbefore | ⟨heq, -⟩
          · exact h.owners j l t v k ht hold hbefore hkv
          · omega
      · have hlt := hbelow j u hold k hku
        rcases hthread l v hv with ⟨rfl, rfl⟩ | ⟨hl, hold'⟩
        · rcases hown k hkv with hbefore | ⟨heq, -⟩
          · exact h.owners j l u t k hold ht hku hbefore
          · omega
        · exact h.owners j l u v k hold hold' hku hkv
    threads := by
      intro u hu
      obtain ⟨j, hj⟩ := mem_iff_getElem?.mp hu
      rcases hthread j u hj with ⟨-, rfl⟩ | ⟨hne, hold⟩
      · exact hroom
      · have hu := h.threads u (mem_of_getElem? hold)
        apply ThreadRoom.mk hu.memory hu.remainder hu.lines hu.last
        apply hu.stage.congr
        intro k hk handle' hhandle'
        rcases hmap k handle' hhandle' with hsame | ⟨howner, -, -⟩
        · exact hsame
        · exact absurd (h.owners j i u t k hold ht hk howner) hne }

variable {t' : JSONScanLocalState Doc} {size : Nat} {memories : List Bytes}

/-- A step after which the thread has no other buffer, and the file is read no further. -/
theorem Scan.Roomy.keep (h : scan.Roomy params) (ht : scan.threads[i]? = some t)
    (hfile : reader'.readPosition = scan.reader.readPosition
      ∧ reader'.lastReadRequested = scan.reader.lastReadRequested
      ∧ reader'.bufferIdx = scan.reader.bufferIdx)
    (hown : ∀ k, t'.stage.own = some k → t.stage.own = some k)
    (hmap : ∀ k handle', reader'.bufferMap k = some handle' → Left params scan.reader t k handle')
    (hmemory : t'.reconstructBuffer.length = t.reconstructBuffer.length)
    (hremainder : t'.prevBufferRemainder ≤ params.dataSize)
    (hlines : params.format = .newlineDelimited → t'.prevBufferRemainder = 0)
    (hlast : t'.isLast = t.isLast) (hstage : StageRoom params reader' t') :
    Scan.Roomy params ⟨reader', scan.threads.set i t'⟩ := by
  have hthread := h.threads t (mem_of_getElem? ht)
  obtain ⟨hposition, hrequested, hidx⟩ := hfile
  apply h.next ht
  · intro hformat
    have hgiven := h.given hformat
    exact {
      position := by rw [hposition, hidx]; exact hgiven.position
      before := by rw [hidx]; exact hgiven.before
      last := by rw [hidx, hrequested]; exact hgiven.last }
  · exact Nat.le_of_eq hidx.symm
  · exact fun k hk => .inl (hown k hk)
  · exact hmap
  · exact {
      memory := hmemory.trans hthread.memory
      remainder := hremainder
      lines := hlines
      last := fun hformat hisLast k hk =>
        hthread.last hformat (hlast.symm.trans hisLast) k (hown k hk)
      stage := hstage }

/-! ## 3. The steps -/

theorem left_of_same (h : reader.bufferMap k = some handle) :
    Left params reader t k handle := .inl ⟨handle, h, rfl⟩

theorem left_of_release {handle' : JsonScanBufferHandle}
    (h : (reader.release idx).bufferMap k = some handle') : Left params reader t k handle' := by
  by_cases hk : k = idx
  · rw [hk] at h ⊢
    exact .inl (release_data h)
  · rw [(SameReader.release reader idx).bufferMap k hk] at h
    exact left_of_same h

theorem Scan.Roomy.step_release (h : scan.Roomy params) (ht : scan.threads[i]? = some t)
    (hstage : t.stage = .idle) :
    Scan.Roomy params ⟨scan.reader.release k, scan.threads.set i { t with current := none }⟩ := by
  have hthread := h.threads t (mem_of_getElem? ht)
  have hsame := SameReader.release scan.reader k
  exact h.keep ht ⟨hsame.readPosition, hsame.lastReadRequested, hsame.bufferIdx⟩ (fun _ hk => hk)
    (fun _ _ hhandle => left_of_release hhandle) rfl hthread.remainder hthread.lines rfl
    (by simp only [StageRoom, hstage])

theorem Scan.Roomy.step_reserve (h : scan.Roomy params) (ht : scan.threads[i]? = some t) :
    Scan.Roomy params ⟨(reserve params scan.reader t).1,
      scan.threads.set i (reserve params scan.reader t).2⟩ := by
  have hthread := h.threads t (mem_of_getElem? ht)
  have hremainder := hthread.remainder
  unfold reserve
  by_cases hlast : scan.reader.lastReadRequested = true
  · rw [if_pos hlast]
    apply h.next ht h.given (Nat.le_refl _)
    · intro k hk
      cases hk
    · intro k handle' hhandle'
      exact left_of_same hhandle'
    · refine ⟨hthread.memory, hremainder, hthread.lines, ?_, True.intro⟩
      intro _ _ k hk
      cases hk
  · rw [if_neg hlast]
    rw [Bool.not_eq_true] at hlast
    have hrequest : params.format = .newlineDelimited →
        params.capacity - t.prevBufferRemainder - paddingSize = params.dataSize := by
      intro hformat
      rw [hthread.lines hformat]
      rfl
    apply h.next ht
    · intro hformat
      have hgiven := h.given hformat
      obtain ⟨-, hnext, hempty⟩ := next_part hgiven.position
      exact {
        position := by
          rw [hrequest hformat]
          exact hnext
        before := by
          intro k hk
          exact hgiven.last hlast k (Nat.lt_of_succ_lt_succ hk)
        last := by
          intro hmore k hk
          rw [hrequest hformat] at hmore
          rcases Nat.lt_succ_iff_lt_or_eq.mp hk with hlt | rfl
          · exact hgiven.last hlast k hlt
          · rw [Ne, ← hempty, Bool.not_eq_true]
            exact hmore }
    · exact Nat.le_succ _
    · intro k hk
      cases hk
      exact .inr ⟨rfl, Nat.lt_succ_self _⟩
    · intro k handle' hhandle'
      exact left_of_same hhandle'
    · exact { hthread with
        remainder := hremainder
        last := by
          intro hformat hisLast k hk
          cases hk
          rw [hrequest hformat] at hisLast
          exact (next_part (h.given hformat).position).2.2.mp hisLast
        stage := by
          constructor
          · unfold Params.dataSize at hremainder ⊢
            show t.prevBufferRemainder + min _ _ ≤ _
            omega
          · intro hformat
            rw [hrequest hformat]
            exact (next_part (h.given hformat).position).1 }

theorem sameEnd_of_untouched (h : data = buffer params k) :
    SameEnd data (buffer params k) := h ▸ .refl data

theorem Scan.Roomy.fail (h : scan.Roomy params) (ht : scan.threads[i]? = some t) (reason : Stop) :
    Scan.Roomy params ⟨scan.reader, scan.threads.set i { t with stage := .failed reason }⟩ := by
  have hthread := h.threads t (mem_of_getElem? ht)
  exact h.keep ht ⟨rfl, rfl, rfl⟩ (fun k hk => by cases hk) (fun _ _ hhandle => left_of_same hhandle)
    rfl hthread.remainder hthread.lines rfl True.intro

theorem skipOverArrayStart_error {fileName : String} {reason : Stop}
    (h : skipOverArrayStart fileName data = .error reason) : ∃ msg, reason = .error msg := by
  unfold skipOverArrayStart at h
  simp only [] at h
  repeat' split at h
  all_goals first | exact ⟨_, (Except.error.inj h).symm⟩ | cases h

theorem insertRead_cases (params : Params) (reader : BufferedJsonReader) (t : JSONScanLocalState Doc)
    (idx position size : Nat) :
    (params.format = .array ∧ ∃ msg, insertRead params reader t idx position size
        = (reader, { t with stage := .failed (.error msg) }))
      ∨ ∃ bufferOffset numReaders, insertRead params reader t idx position size
        = (reader.insertBuffer idx ⟨t.reconstructBuffer.take t.prevBufferRemainder
              ++ (params.file.drop position).take size, numReaders⟩,
          { t with
            stage := if idx ≠ 0 ∧ params.format = .newlineDelimited then .first idx else .chunk idx
            current := some idx
            bufferOffset := bufferOffset
            prevBufferRemainder := 0 }) := by
  unfold insertRead
  simp only []
  generalize hdata : t.reconstructBuffer.take t.prevBufferRemainder
    ++ (params.file.drop position).take size = data
  have hstart : ∀ reason, (if (!t.isLast && idx == 0 && params.format == .array) = true then
      skipOverArrayStart params.fileName data else .ok 0) = .error reason →
        params.format = .array ∧ ∃ msg, reason = .error msg := by
    intro reason hreason
    split at hreason
    · next harray =>
        rw [Bool.and_eq_true, beq_iff_eq] at harray
        exact ⟨harray.2, skipOverArrayStart_error hreason⟩
    · cases hreason
  generalize (if (!t.isLast && idx == 0 && params.format == .array) = true then
      skipOverArrayStart params.fileName data else .ok 0) = start at hstart
  cases start with
  | error reason =>
    obtain ⟨harray, msg, rfl⟩ := hstart reason rfl
    exact .inl ⟨harray, msg, rfl⟩
  | ok bufferOffset => exact .inr ⟨bufferOffset, _, rfl⟩

section

variable (h : scan.Roomy params) (ht : scan.threads[i]? = some t)

include h ht

theorem Scan.Roomy.step_insert {position : Nat} (hstage : t.stage = .reserved idx position size) :
    Scan.Roomy params ⟨(insertRead params scan.reader t idx position size).1,
      scan.threads.set i (insertRead params scan.reader t idx position size).2⟩ := by
  have hthread := h.threads t (mem_of_getElem? ht)
  have hroom := hthread.stage
  simp only [StageRoom, hstage] at hroom
  obtain ⟨hsize, hread⟩ := hroom
  have hown : t.stage.own = some idx := by rw [hstage]; rfl
  rcases insertRead_cases params scan.reader t idx position size with
    ⟨-, msg, hinsert⟩ | ⟨bufferOffset, numReaders, hinsert⟩
  · rw [hinsert]
    exact h.fail ht _
  · rw [hinsert]
    have hdata : params.format = .newlineDelimited →
        t.reconstructBuffer.take t.prevBufferRemainder ++ (params.file.drop position).take size
          = buffer params idx := by
      intro hformat
      rw [hthread.lines hformat, take_zero, nil_append]
      exact hread hformat
    refine h.keep ht ⟨rfl, rfl, rfl⟩ ?_ ?_ rfl (Nat.zero_le _) (fun _ => rfl) rfl ?_
    · intro k hk
      rw [hown, ← hk]
      split
      · rfl
      · rfl
    · intro k handle' hhandle'
      by_cases hk : k = idx
      · right
        subst hk
        cases (setBuffer_self _ _ _).symm.trans hhandle'
        refine ⟨hown, ?_, fun hformat => sameEnd_of_untouched (hdata hformat)⟩
        rw [length_append, length_take, length_take]
        omega
      · exact left_of_same ((setBuffer_ne _ hk _).symm.trans hhandle')
    · unfold StageRoom
      by_cases hcut : idx ≠ 0 ∧ params.format = .newlineDelimited
      · simp only [if_pos hcut]
        apply Cut.mk hcut.2 (Nat.pos_of_ne_zero hcut.1)
        intro handle' hhandle'
        cases (setBuffer_self _ _ _).symm.trans hhandle'
        exact hdata hcut.2
      · simp only [if_neg hcut]

theorem Scan.Roomy.step_first (hstage : t.stage = .first idx)
    (hhandle : scan.reader.bufferMap (idx - 1) = some handle) {memory : Bytes}
    (hmemory : overwrite t.reconstructBuffer 0 (lastPart handle.data) = some memory) :
    Scan.Roomy params ⟨scan.reader, scan.threads.set i { t with
      stage := .copied idx (lastPart handle.data).length, reconstructBuffer := memory }⟩ := by
  have hthread := h.threads t (mem_of_getElem? ht)
  have hcut := hthread.stage
  simp only [StageRoom, hstage] at hcut
  refine h.keep ht ⟨rfl, rfl, rfl⟩ (fun k hk => ?_) (fun _ _ hhandle' => left_of_same hhandle')
    (overwrite_length hmemory) hthread.remainder hthread.lines rfl ⟨hcut, ?_⟩
  · rw [hstage, ← hk]
    rfl
  · rw [(h.ends hcut.format _ _ hhandle).lastPart]

theorem Scan.Roomy.step_copied (hstage : t.stage = .copied idx n) :
    Scan.Roomy params ⟨scan.reader.release (idx - 1),
      scan.threads.set i { t with stage := .line idx n }⟩ := by
  have hthread := h.threads t (mem_of_getElem? ht)
  have hroom := hthread.stage
  simp only [StageRoom, hstage] at hroom
  obtain ⟨hcut, hlength⟩ := hroom
  have hpos := hcut.pos
  have hsame := SameReader.release scan.reader (idx - 1)
  refine h.keep ht ⟨hsame.readPosition, hsame.lastReadRequested, hsame.bufferIdx⟩ (fun k hk => ?_)
    (fun _ _ hhandle' => left_of_release hhandle') rfl hthread.remainder hthread.lines rfl
    ⟨⟨hcut.format, hpos, fun handle' hhandle' => hcut.untouched handle' ?_⟩, hlength⟩
  · rw [hstage, ← hk]
    rfl
  · rw [← hsame.bufferMap idx (by omega)]
    exact hhandle'

end

section

variable (hlaw : parser.Lawful)

include hlaw

theorem parseLine_keeps (reader : BufferedJsonReader) (t : JSONScanLocalState Doc)
    (idx firstPartSize : Nat) (data : Bytes) :
    ∃ errors t', parseLine parser reader t idx firstPartSize data
        = ({ reader with errors := errors }, t')
      ∧ (t'.stage = .chunk idx ∨ ∃ reason, t'.stage = .failed reason)
      ∧ t'.prevBufferRemainder = t.prevBufferRemainder ∧ t'.isLast = t.isLast
      ∧ t'.reconstructBuffer.length = t.reconstructBuffer.length := by
  have hparse : ∀ (memory : Bytes) (lineSize : Nat), memory.length = t.reconstructBuffer.length →
      (parser.inPlace (memory.take lineSize) (memory.drop lineSize) ++ memory.drop lineSize).length
        = t.reconstructBuffer.length := by
    intro memory lineSize hmemory
    rw [length_append, hlaw.length, ← length_append, take_append_drop, hmemory]
  unfold parseLine
  simp only []
  split
  · exact ⟨reader.errors, _, rfl, .inl rfl, rfl, rfl, rfl⟩
  split
  · cases parseJson parser (t.reconstructBuffer.take firstPartSize)
        (t.reconstructBuffer.drop firstPartSize) firstPartSize with
    | error msg => exact ⟨_, _, rfl, .inl rfl, rfl, rfl, hparse _ _ rfl⟩
    | ok doc => exact ⟨reader.errors, _, rfl, .inl rfl, rfl, rfl, hparse _ _ rfl⟩
  cases nextNewLine data with
  | none => exact ⟨reader.errors, _, rfl, .inr ⟨_, rfl⟩, rfl, rfl, rfl⟩
  | some lineEnd =>
    simp only []
    cases hline : overwrite t.reconstructBuffer firstPartSize (data.take (lineEnd + 1)) with
    | none => exact ⟨reader.errors, _, rfl, .inr ⟨_, rfl⟩, rfl, rfl, rfl⟩
    | some line =>
      rw [bind_some]
      cases hpadded : overwrite line (firstPartSize + (lineEnd + 1)) padding with
      | none => exact ⟨reader.errors, _, rfl, .inr ⟨_, rfl⟩, rfl, rfl, rfl⟩
      | some memory =>
        have hmemory : memory.length = t.reconstructBuffer.length := by
          rw [overwrite_length hpadded, overwrite_length hline]
        simp only []
        cases parseJson parser (memory.take (firstPartSize + (lineEnd + 1)))
            (memory.drop (firstPartSize + (lineEnd + 1)))
            (firstPartSize + (lineEnd + 1)) with
        | error msg => exact ⟨_, _, rfl, .inl rfl, rfl, rfl, hparse _ _ hmemory⟩
        | ok doc => exact ⟨reader.errors, _, rfl, .inl rfl, rfl, rfl, hparse _ _ hmemory⟩

theorem Scan.Roomy.step_line (h : scan.Roomy params) (ht : scan.threads[i]? = some t)
    (hstage : t.stage = .line idx n) (data : Bytes) :
    Scan.Roomy params ⟨(parseLine parser scan.reader t idx n data).1,
      scan.threads.set i (parseLine parser scan.reader t idx n data).2⟩ := by
  have hthread := h.threads t (mem_of_getElem? ht)
  obtain ⟨errors, t', hline, hstage', hremainder, hlast, hmemory⟩ :=
    parseLine_keeps hlaw scan.reader t idx n data
  rw [hline]
  refine h.keep ht ⟨rfl, rfl, rfl⟩ (fun k hk => ?_) (fun _ _ hhandle' => left_of_same hhandle') hmemory
    (hremainder ▸ hthread.remainder) (hremainder ▸ hthread.lines) hlast ?_
  · rcases hstage' with hchunk | ⟨reason, hfailed⟩
    · rw [hchunk] at hk
      rw [hstage, ← hk]
      rfl
    · rw [hfailed] at hk
      cases hk
  · unfold StageRoom
    rcases hstage' with hchunk | ⟨reason, hfailed⟩
    · simp only [hchunk]
    · simp only [hfailed]

theorem inPlace_length {text : Bytes} {start : Nat} (htext : text = data.drop start) (_ : text ≠ []) :
    (data.take start ++ parser.inPlace text padding).length = data.length := by
  rw [length_append, hlaw.length, htext, length_take, length_drop]
  omega

theorem inPlace_sameEnd {original text : Bytes} {start lineEnd : Nat} {doc : Doc}
    (hsame : SameEnd data original) (htext : text = data.drop start) (hsome : text ≠ [])
    (hend : nextNewLine text = some lineEnd)
    (hparse : parseJson parser text padding lineEnd = .ok doc) :
    SameEnd (data.take start ++ parser.inPlace text padding) original := by
  obtain ⟨numBytesRead, hle, hread, -⟩ := parseJson_ok hparse
  have hnewline : data[start + lineEnd]? = some newline := by
    obtain ⟨hlt, hget, -⟩ := findIdx?_eq_some_iff_getElem.mp hend
    rw [← getElem?_drop, ← htext, getElem?_eq_getElem hlt]
    exact congrArg some (beq_iff_eq.mp hget)
  have hlast : previousNewLine data = previousNewLine original := by
    have hparts := hsame.lastPart
    unfold lastPart at hparts
    have hlengths := congrArg length hparts
    rw [length_drop, length_drop, hsame.length] at hlengths
    have hdata : previousNewLine data ≤ data.length - 1 := previousNewLineFrom_le _ _
    have hlength := hsame.length
    have hlt := (List.getElem?_eq_some_iff.mp hnewline).1
    omega
  have hbefore := getElem?_newline_le hnewline
  have htake : (data.take start).length = start := by
    rw [length_take]
    have hstart := (List.getElem?_eq_some_iff.mp hnewline).1
    omega
  exact {
    length := (inPlace_length hlaw htext hsome).trans hsame.length
    behind := by
      rw [← hlast, ← hsame.lastPart, show previousNewLine data
          = start + (numBytesRead + (previousNewLine data - start - numBytesRead)) by omega,
        ← drop_drop, drop_left' htake, ← drop_drop, hlaw.behind _ _ _ _ hread, htext,
        drop_drop, drop_drop]
      congr 1
      omega }

end

theorem returned_stage (reader : BufferedJsonReader) (t : JSONScanLocalState Doc) (stage : Stage) :
    ∃ t', returned reader t stage = t' ∧ (t'.stage = stage ∨ t'.stage = .finished)
      ∧ t'.prevBufferRemainder = t.prevBufferRemainder ∧ t'.isLast = t.isLast
      ∧ t'.reconstructBuffer = t.reconstructBuffer := by
  unfold returned
  split
  · exact ⟨_, rfl, .inl rfl, rfl, rfl, rfl⟩
  · exact ⟨_, rfl, .inr rfl, rfl, rfl, rfl⟩

theorem Scan.Roomy.stay (h : scan.Roomy params) (ht : scan.threads[i]? = some t)
    (hstage : t.stage = .chunk idx) (hfile : reader'.readPosition = scan.reader.readPosition
      ∧ reader'.lastReadRequested = scan.reader.lastReadRequested
      ∧ reader'.bufferIdx = scan.reader.bufferIdx)
    (hstage' : t'.stage = .idle ∨ t'.stage = .chunk idx ∨ t'.stage = .finished)
    (hmap : ∀ k handle', reader'.bufferMap k = some handle' → Left params scan.reader t k handle')
    (hmemory : t'.reconstructBuffer.length = t.reconstructBuffer.length)
    (hremainder : t'.prevBufferRemainder ≤ params.dataSize)
    (hlines : params.format = .newlineDelimited → t'.prevBufferRemainder = 0)
    (hlast : t'.isLast = t.isLast) : Scan.Roomy params ⟨reader', scan.threads.set i t'⟩ := by
  refine h.keep ht hfile (fun k hk => ?_) hmap hmemory hremainder hlines hlast ?_
  · rcases hstage' with hs | hs | hs
    all_goals rw [hs] at hk
    · cases hk
    · rw [hstage, ← hk]
    · cases hk
  · unfold StageRoom
    rcases hstage' with hs | hs | hs
    all_goals simp only [hs]

theorem Scan.Roomy.step_chunk (hlaw : parser.Lawful) (h : scan.Roomy params)
    (ht : scan.threads[i]? = some t) (hstage : t.stage = .chunk idx)
    (hhandle : scan.reader.bufferMap idx = some handle) :
    Scan.Roomy params ⟨(parseNextChunk params parser scan.reader t idx handle).1,
      scan.threads.set i (parseNextChunk params parser scan.reader t idx handle).2⟩ := by
  have hthread := h.threads t (mem_of_getElem? ht)
  have hown : t.stage.own = some idx := by rw [hstage]; rfl
  have hsize := h.sizes idx handle hhandle
  have hsame : ∀ k handle', scan.reader.bufferMap k = some handle' →
      Left params scan.reader t k handle' := fun k handle' hk => left_of_same hk
  unfold parseNextChunk
  split
  · obtain ⟨t', ht', hstage', hremainder, hlast, hmemory⟩ := returned_stage scan.reader t
      (if t.bufferOffset = handle.data.length then .idle else .chunk idx)
    rw [ht']
    apply h.stay ht hstage ⟨rfl, rfl, rfl⟩ _ hsame (by rw [hmemory])
      (hremainder ▸ hthread.remainder) (hremainder ▸ hthread.lines) hlast
    rcases hstage' with hs | hs
    · rw [hs]
      split
      · exact .inl rfl
      · exact .inr (.inl rfl)
    · exact .inr (.inr hs)
  have hround := parseRound_of parser params.format t.isLast handle.data t.bufferOffset
  generalize hstart : t.bufferOffset + skipWhitespace (handle.data.drop t.bufferOffset) = start
    at hround
  generalize htext : handle.data.drop start = text at hround
  have hleave : ∀ (bufferOffset : Nat) (remainder : Option Bytes),
      (remainder.getD []).length ≤ params.dataSize →
      (params.format = .newlineDelimited → remainder = none) →
      Scan.Roomy params ⟨scan.reader, scan.threads.set i (let t' := { t with
          stage := .idle
          bufferOffset := bufferOffset
          prevBufferRemainder := (remainder.getD []).length
          reconstructBuffer :=
            (overwrite t.reconstructBuffer 0 (remainder.getD [])).getD t.reconstructBuffer }
        if t'.docs.isEmpty then t' else returned scan.reader t' .idle)⟩ := by
    intro bufferOffset remainder hroom hlines
    have hmemory : ((overwrite t.reconstructBuffer 0 (remainder.getD [])).getD
        t.reconstructBuffer).length = t.reconstructBuffer.length := by
      cases hcopy : overwrite t.reconstructBuffer 0 (remainder.getD []) with
      | none => rfl
      | some memory => exact overwrite_length hcopy
    have hzero : params.format = .newlineDelimited → (remainder.getD []).length = 0 := by
      intro hformat
      rw [hlines hformat]
      rfl
    simp only []
    split
    · exact h.stay ht hstage ⟨rfl, rfl, rfl⟩ (.inl rfl) hsame hmemory hroom hzero rfl
    · generalize hleft : (JSONScanLocalState.mk .idle t.current bufferOffset t.isLast
        (remainder.getD []).length ((overwrite t.reconstructBuffer 0 (remainder.getD [])).getD
          t.reconstructBuffer) t.docs t.output : JSONScanLocalState Doc) = left
      obtain ⟨t', ht', hstage', hremainder, hlast, hmemory'⟩ := returned_stage scan.reader left .idle
      rw [ht']
      subst hleft
      apply h.stay ht hstage ⟨rfl, rfl, rfl⟩ _ hsame (by rw [hmemory']; exact hmemory)
        (by rw [hremainder]; exact hroom) (by rw [hremainder]; exact hzero) hlast
      rcases hstage' with hs | hs
      · exact .inl hs
      · exact .inr (.inr hs)
  generalize parseRound parser params.format t.isLast handle.data t.bufferOffset = round at hround
  cases hround with
  | done hnil => exact hleave start none (Nat.zero_le _) fun _ => rfl
  | cut hsome hnone hmore =>
    apply hleave
    · split
      · exact Nat.zero_le _
      · show text.length ≤ _
        rw [← htext, length_drop]
        omega
    · intro hformat
      rw [if_pos hformat]
  | @parsed jsonSize next doc data' hsome hlast hjson hdata hparse hnext =>
    apply h.stay ht hstage
    · exact ⟨rfl, rfl, rfl⟩
    · exact .inr (.inl hstage)
    · intro k handle' hhandle'
      by_cases hk : k = idx
      · right
        subst hk
        have hnew : some _ = some handle' := (setBuffer_self _ _ _).symm.trans hhandle'
        cases hnew
        refine ⟨hown, ?_, ?_⟩
        · rw [hdata, inPlace_length hlaw htext.symm hsome]
          exact hsize
        · intro hformat
          have hend := h.ends hformat k handle hhandle
          rw [hdata]
          cases hlineEnd : nextNewLine text with
          | some lineEnd =>
            rw [hjson, hformat] at hparse
            simp only [endOfJson, hlineEnd, getD_some] at hparse
            exact inPlace_sameEnd hlaw hend htext.symm hsome hlineEnd hparse
          | none =>
            -- only the empty buffer is the last one
            rw [hformat] at hlast
            have hempty := hthread.last hformat (hlast hlineEnd) k hown
            have hlength := hend.length
            rw [hempty, length_nil, length_eq_zero_iff] at hlength
            rw [hlength, drop_nil] at htext
            exact absurd htext.symm hsome
      · exact left_of_same ((setBuffer_ne _ hk _).symm.trans hhandle')
    · rfl
    · exact hthread.remainder
    · exact hthread.lines
    · rfl
  | failed =>
    exact h.stay ht hstage ⟨rfl, rfl, rfl⟩ (.inr (.inr rfl)) hsame rfl hthread.remainder
      hthread.lines rfl

theorem Scan.Roomy.step (hlaw : parser.Lawful) {scan scan' : Scan Doc} (h : scan.Roomy params)
    {i : Nat} (hstep : scan.step params parser i = some scan') : scan'.Roomy params := by
  obtain ⟨t, next, ht, hnext, rfl⟩ := Scan.step_some hstep
  unfold JSONScanLocalState.step at hnext
  cases hstage : t.stage with
  | idle =>
    rw [hstage] at hnext
    cases hcurrent : t.current with
    | some k =>
      rw [hcurrent] at hnext
      cases hnext
      simpa only [hstage] using h.step_release ht hstage
    | none =>
      rw [hcurrent] at hnext
      cases hnext
      exact h.step_reserve ht
  | reserved idx position size =>
    rw [hstage] at hnext
    cases hnext
    exact h.step_insert ht hstage
  | first idx =>
    rw [hstage] at hnext
    simp only [map_eq_some_iff] at hnext
    obtain ⟨handle, hhandle, hnext⟩ := hnext
    cases hcopy : overwrite t.reconstructBuffer 0 (lastPart handle.data) with
    | none =>
      have hfail : overwrite t.reconstructBuffer 0
          (handle.data.drop (previousNewLine handle.data)) = none := hcopy
      rw [hfail] at hnext
      cases hnext
      exact h.fail ht _
    | some memory =>
      have hcopied : overwrite t.reconstructBuffer 0
          (handle.data.drop (previousNewLine handle.data)) = some memory := hcopy
      rw [hcopied] at hnext
      cases hnext
      exact h.step_first ht hstage hhandle hcopy
  | copied idx n =>
    rw [hstage] at hnext
    cases hnext
    exact h.step_copied ht hstage
  | line idx n =>
    rw [hstage] at hnext
    simp only [map_eq_some_iff] at hnext
    obtain ⟨handle, -, rfl⟩ := hnext
    exact h.step_line hlaw ht hstage handle.data
  | chunk idx =>
    rw [hstage] at hnext
    simp only [map_eq_some_iff] at hnext
    obtain ⟨handle, hhandle, rfl⟩ := hnext
    exact h.step_chunk hlaw ht hstage hhandle
  | finished =>
    rw [hstage] at hnext
    cases hnext
  | failed reason =>
    rw [hstage] at hnext
    cases hnext

theorem started_roomy (hmemories : ∀ memory ∈ memories, memory.length = params.capacity) :
    Scan.Roomy params (Scan.started memories : Scan Doc) where
  given := by
    intro _
    exact {
      position := by
        show 0 = min (0 * _) _
        rw [Nat.zero_mul, Nat.zero_min]
      before := fun k hk => absurd hk (Nat.not_lt_zero _)
      last := fun _ k hk => absurd hk (Nat.not_lt_zero _) }
  sizes := by
    intro k handle hhandle
    cases hhandle
  ends := by
    intro _ k handle hhandle
    cases hhandle
  below := by
    intro t ht k hk
    obtain ⟨memory, -, rfl⟩ := mem_map.mp ht
    cases hk
  owners := by
    intro i j t t' k ht _ hk _
    obtain ⟨memory, -, rfl⟩ := mem_map.mp (mem_of_getElem? ht)
    cases hk
  threads := by
    intro t ht
    obtain ⟨memory, hmemory, rfl⟩ := mem_map.mp ht
    exact {
      memory := hmemories memory hmemory
      remainder := Nat.zero_le _
      lines := fun _ => rfl
      last := by
        intro _ hlast
        cases hlast
      stage := True.intro }

theorem run_roomy (hlaw : parser.Lawful)
    (hmemories : ∀ memory ∈ memories, memory.length = params.capacity) {order : List Nat}
    (hrun : order.foldlM (Scan.step params parser) (Scan.started memories) = some scan) :
    scan.Roomy params :=
  run_keeps (Scan.Roomy params) (fun _ _ _ h hstep ↦ h.step hlaw hstep) (started_roomy hmemories) hrun

/-! ## 4. The writes have room -/

section

variable (h : ThreadRoom params reader t)

include h

theorem readWrites_within {position : Nat} (hstage : t.stage = .reserved idx position size) :
    ∀ w ∈ readWrites params t size, w.Within := by
  have hroom := h.stage
  simp only [StageRoom, hstage] at hroom
  have hsize := hroom.1
  have hpadding := params.room
  unfold Params.dataSize at hsize
  unfold readWrites
  rw [forall_mem_append]
  constructor
  · split
    · simp only [forall_mem_singleton, Write.Within]
      omega
    · exact forall_mem_nil _
  · simp only [forall_mem_cons, not_mem_nil, IsEmpty.forall_iff, implies_true, and_true,
      Write.Within]
    omega

theorem chunkWrites_within (hsize : data.length ≤ params.dataSize) :
    ∀ w ∈ chunkWrites params parser t data, w.Within := by
  have hmemory := h.memory
  unfold Params.dataSize at hsize
  unfold chunkWrites
  split
  · exact forall_mem_nil _
  have hround := parseRound_of parser params.format t.isLast data t.bufferOffset
  generalize hround' : parseRound parser params.format t.isLast data t.bufferOffset = round at hround
  cases hround with
  | done | parsed | failed => exact forall_mem_nil _
  | cut =>
    by_cases hformat : params.format = .newlineDelimited
    · simp only [if_pos hformat]
      exact forall_mem_nil _
    · simp only [if_neg hformat, forall_mem_singleton, Write.Within, length_drop]
      omega

theorem lineWrites_within_iff (hstage : t.stage = .line idx n) :
    (∀ w ∈ lineWrites t n (buffer params idx), w.Within) ↔ LineFits params (idx - 1) := by
  have hroom := h.stage
  simp only [StageRoom, hstage] at hroom
  obtain ⟨hcut, hlength⟩ := hroom
  have hpos := hcut.pos
  have hmemory := h.memory
  unfold lineWrites LineFits
  rw [← hlength, show idx - 1 + 1 = idx by omega]
  by_cases hone : n = 1
  · rw [if_pos (.inl hone)]
    exact iff_of_true (forall_mem_nil _) fun hne => absurd hone hne
  cases hend : nextNewLine (buffer params idx) with
  | none =>
    have hnone : (if n = 1 ∨ (buffer params idx).isEmpty = true then []
        else match (none : Option Nat) with
          | none => []
          | some lineEnd => [⟨t.reconstructBuffer.length, n, lineEnd + 1⟩,
            ⟨t.reconstructBuffer.length, n + (lineEnd + 1), paddingSize⟩] : List Write) = [] := by
      split
      · rfl
      · rfl
    rw [hnone]
    refine iff_of_true (forall_mem_nil _) fun _ lineEnd hsome => ?_
    cases hsome
  | some lineEnd =>
    have hsome : (buffer params idx).isEmpty = false := by
      cases hbuffer : buffer params idx with
      | nil =>
        rw [hbuffer] at hend
        cases hend
      | cons c rest => rfl
    rw [if_neg (by simp [hone, hsome])]
    simp only [forall_mem_cons, not_mem_nil, IsEmpty.forall_iff, implies_true, and_true,
      Write.Within, hmemory, some.injEq, forall_eq']
    constructor
    · intro hwithin _
      omega
    · intro hfits
      omega

end

theorem Scan.Roomy.writes_within (h : scan.Roomy params) (ht : t ∈ scan.threads)
    (hfits : params.format = .newlineDelimited → ∀ k, LineFits params k) :
    ∀ w ∈ t.writes params parser scan.reader, w.Within := by
  have hthread := h.threads t ht
  unfold JSONScanLocalState.writes
  cases hstage : t.stage with
  | reserved idx position size => exact readWrites_within hthread hstage
  | first idx =>
    simp only []
    cases hhandle : scan.reader.bufferMap (idx - 1) with
    | none => exact forall_mem_nil _
    | some handle =>
      have hmemory := hthread.memory
      have hsize := h.sizes _ handle hhandle
      unfold Params.dataSize at hsize
      simp only [forall_mem_singleton, Write.Within, lastPart, length_drop]
      omega
  | line idx n =>
    simp only []
    cases hhandle : scan.reader.bufferMap idx with
    | none => exact forall_mem_nil _
    | some handle =>
      have hroom := hthread.stage
      simp only [StageRoom, hstage] at hroom
      simp only [hroom.1.untouched handle hhandle]
      exact (lineWrites_within_iff hthread hstage).mpr (hfits hroom.1.format _)
  | chunk idx =>
    simp only []
    cases hhandle : scan.reader.bufferMap idx with
    | none => exact forall_mem_nil _
    | some handle => exact chunkWrites_within hthread (h.sizes _ handle hhandle)
  | idle | copied | finished | failed => exact forall_mem_nil _

/-! ## 5. A run that gets to the line -/

/-- Buffer `j` is the next one, and no thread from number `j` on has taken a step. -/
structure Filled (params : Params) (numThreads j : Nat) (scan : Scan Doc) : Prop where
  idx : scan.reader.bufferIdx = j
  more : scan.reader.lastReadRequested = false
  shown : ∀ k < j, ∃ handle, scan.reader.bufferMap k = some handle
  created : ∀ k, j ≤ k → k < numThreads → ∃ memory, scan.threads[k]? = some (.created memory)
  waiting : ∀ k, 0 < k → j = k + 1 → ∃ t, scan.threads[k]? = some t ∧ t.stage = .first k

theorem Scan.step_of {scan : Scan Doc} {i : Nat} {t : JSONScanLocalState Doc}
    {next : BufferedJsonReader × JSONScanLocalState Doc} (ht : scan.threads[i]? = some t)
    (hnext : t.step params parser scan.reader = some next) :
    scan.step params parser i = some ⟨next.1, scan.threads.set i next.2⟩ := by
  unfold Scan.step
  rw [ht, bind_eq_bind, bind_some, hnext]
  rfl

theorem Filled.next (hformat : params.format = .newlineDelimited) {numThreads j : Nat}
    {scan : Scan Doc} (h : Filled params numThreads j scan) (hroomy : scan.Roomy params)
    (hj : j < numThreads) (hbuffer : buffer params j ≠ []) :
    ∃ (order : List Nat) (scan' : Scan Doc),
      order.foldlM (Scan.step params parser) scan = some scan'
        ∧ Filled params numThreads (j + 1) scan' := by
  obtain ⟨memory, hthread⟩ := h.created j (Nat.le_refl j) hj
  have hlt : j < scan.threads.length := (List.getElem?_eq_some_iff.mp hthread).1
  have hposition := (hroomy.given hformat).position
  rw [h.idx] at hposition
  have hmore : (min params.dataSize (params.file.length - scan.reader.readPosition) == 0) = false := by
    rw [Bool.eq_false_iff, Ne, (next_part hposition).2.2]
    exact hbuffer
  obtain ⟨reader₁, t₁, position, size, hreserve, hidx, hlast, hmap, hstage⟩ :
      ∃ reader₁ t₁ position size, (JSONScanLocalState.created memory : JSONScanLocalState Doc).step
          params parser scan.reader = some (reader₁, t₁)
        ∧ reader₁.bufferIdx = j + 1 ∧ reader₁.lastReadRequested = false
        ∧ reader₁.bufferMap = scan.reader.bufferMap ∧ t₁.stage = .reserved j position size := by
    have hnext : reserve params scan.reader (.created memory : JSONScanLocalState Doc) = (_, _) :=
      if_neg (by rw [h.more]; exact Bool.false_ne_true)
    refine ⟨_, _, scan.reader.readPosition,
      min params.dataSize (params.file.length - scan.reader.readPosition), congrArg some hnext,
      congrArg (· + 1) h.idx, hmore, rfl, ?_⟩
    rw [← h.idx]
    rfl
  rcases insertRead_cases params reader₁ t₁ j position size with
    ⟨harray, -⟩ | ⟨bufferOffset, numReaders, hinsert⟩
  · rw [hformat] at harray
    cases harray
  have hinserted : t₁.step params parser reader₁
      = some (insertRead params reader₁ t₁ j position size) := by
    unfold JSONScanLocalState.step
    rw [hstage]
  rw [hinsert] at hinserted
  refine ⟨[j, j], ?_⟩
  rw [foldlM_cons, Scan.step_of hthread hreserve, bind_eq_bind, bind_some,
    foldlM_cons, Scan.step_of (getElem?_set_self hlt) hinserted]
  refine ⟨_, rfl, ?_⟩
  have hother : ∀ (k : Nat) (u v : JSONScanLocalState Doc), k ≠ j →
      ((scan.threads.set j u).set j v)[k]? = scan.threads[k]? := by
    intro k u v hk
    rw [getElem?_set_ne (Ne.symm hk), getElem?_set_ne (Ne.symm hk)]
  exact {
    idx := hidx
    more := hlast
    shown := by
      intro k hk
      by_cases heq : k = j
      · subst heq
        exact ⟨_, setBuffer_self _ _ _⟩
      · obtain ⟨handle, hhandle⟩ := h.shown k (by omega)
        refine ⟨handle, ?_⟩
        show setBuffer _ _ _ _ = _
        rw [setBuffer_ne _ heq, hmap]
        exact hhandle
    created := by
      intro k hk hnum
      rw [hother k _ _ (by omega)]
      exact h.created k (by omega) hnum
    waiting := by
      intro k hk hjk
      obtain rfl : j = k := by omega
      refine ⟨_, getElem?_set_self (by rw [length_set]; exact hlt), ?_⟩
      exact if_pos ⟨Nat.ne_of_gt hk, hformat⟩ }

section

variable (hlaw : parser.Lawful) (hformat : params.format = .newlineDelimited)

include hlaw hformat

theorem filled_exists {memories : List Bytes}
    (hmemories : ∀ memory ∈ memories, memory.length = params.capacity)
    (hbuffers : ∀ k < memories.length, buffer params k ≠ []) {j : Nat} (hj : j ≤ memories.length) :
    ∃ (order : List Nat) (scan : Scan Doc),
      order.foldlM (Scan.step params parser) (Scan.started memories) = some scan
        ∧ Filled params memories.length j scan := by
  induction j with
  | zero =>
    refine ⟨[], Scan.started memories, rfl, ?_⟩
    exact {
      idx := rfl
      more := rfl
      shown := fun k hk => absurd hk (Nat.not_lt_zero k)
      created := by
        intro k _ hk
        refine ⟨memories[k], ?_⟩
        show (memories.map _)[k]? = _
        rw [getElem?_map, getElem?_eq_getElem hk]
        rfl
      waiting := fun k _ hjk => absurd hjk (Nat.succ_ne_zero k).symm }
  | succ j ih =>
    obtain ⟨order, scan, hrun, hfilled⟩ := ih (by omega)
    obtain ⟨more, scan', hmore, hfilled'⟩ :=
      @Filled.next Doc parser params hformat memories.length j scan hfilled
        (run_roomy hlaw hmemories hrun) hj (hbuffers j hj)
    refine ⟨order ++ more, scan', ?_, hfilled'⟩
    rw [foldlM_append, hrun]
    exact hmore

theorem line_reached (hbuffer : buffer params (k + 1) ≠ []) (hinside : WritesInside params parser) :
    LineFits params k := by
  have hmemories : ∀ memory ∈ replicate (k + 2) (replicate params.capacity (0 : UInt8)),
      memory.length = params.capacity := by
    intro memory hmemory
    rw [eq_of_mem_replicate hmemory, length_replicate]
  have hlength : (replicate (k + 2) (replicate params.capacity (0 : UInt8))).length
      = k + 2 := length_replicate
  obtain ⟨order, scan, hrun, hfilled⟩ := @filled_exists Doc parser params hlaw hformat _ hmemories
    (by
      intro j hj
      rw [Ne, buffer_eq_nil_iff] at hbuffer ⊢
      omega) (k + 2) (Nat.le_of_eq hlength.symm)
  obtain ⟨t, ht, hstage⟩ := hfilled.waiting (k + 1) (Nat.succ_pos k) rfl
  obtain ⟨handle, hhandle⟩ := hfilled.shown k (by omega)
  obtain ⟨handle', hhandle'⟩ := hfilled.shown (k + 1) (by omega)
  have hroomy := run_roomy hlaw hmemories hrun
  have hlt : k + 1 < scan.threads.length := (List.getElem?_eq_some_iff.mp ht).1
  obtain ⟨memory, hmemory⟩ : ∃ memory,
      overwrite t.reconstructBuffer 0 (lastPart handle.data) = some memory := by
    refine ⟨_, overwrite_eq ?_⟩
    have hsize := hroomy.sizes k handle hhandle
    have hcapacity := (hroomy.threads t (mem_of_getElem? ht)).memory
    unfold Params.dataSize at hsize
    unfold lastPart
    rw [length_drop]
    omega
  -- the end of the buffer before is copied, and that buffer is released
  obtain ⟨copied, hcopied, hstep⟩ : ∃ copied : JSONScanLocalState Doc,
      copied.stage = .copied (k + 1) (lastPart handle.data).length
        ∧ t.step params parser scan.reader = some (scan.reader, copied) := by
    refine ⟨{ t with
      stage := .copied (k + 1) (lastPart handle.data).length
      reconstructBuffer := memory }, rfl, ?_⟩
    unfold JSONScanLocalState.step
    simp only [hstage, Nat.add_sub_cancel, hhandle, map_some]
    unfold lastPart at hmemory ⊢
    rw [hmemory]
  obtain ⟨line, hline, hstep'⟩ : ∃ line : JSONScanLocalState Doc,
      line.stage = .line (k + 1) (lastPart handle.data).length
        ∧ copied.step params parser scan.reader = some (scan.reader.release k, line) := by
    refine ⟨{ copied with stage := .line (k + 1) (lastPart handle.data).length }, rfl, ?_⟩
    unfold JSONScanLocalState.step
    rw [hcopied]
    rfl
  have hrun' : (order ++ [k + 1, k + 1]).foldlM (Scan.step params parser)
      (Scan.started (replicate (k + 2) (replicate params.capacity 0)))
        = some ⟨scan.reader.release k, (scan.threads.set (k + 1) copied).set (k + 1) line⟩ := by
    have hsecond : Scan.step params parser ⟨scan.reader, scan.threads.set (k + 1) copied⟩ (k + 1)
        = some ⟨scan.reader.release k, (scan.threads.set (k + 1) copied).set (k + 1) line⟩ :=
      @Scan.step_of Doc parser params ⟨scan.reader, scan.threads.set (k + 1) copied⟩ (k + 1) copied _
        (getElem?_set_self hlt) hstep'
    rw [foldlM_append, hrun, bind_eq_bind, bind_some, foldlM_cons,
      Scan.step_of ht hstep, bind_eq_bind, bind_some, foldlM_cons, hsecond]
    rfl
  have hmem : line ∈ (scan.threads.set (k + 1) copied).set (k + 1) line :=
    mem_of_getElem? (getElem?_set_self (by rw [length_set]; exact hlt))
  have hthread := (run_roomy hlaw hmemories hrun').threads line hmem
  have hwithin := hinside _ hmemories _ _ hrun' line hmem
  have hroom := hthread.stage
  simp only [StageRoom, hline] at hroom
  have hshown : (scan.reader.release k).bufferMap (k + 1) = some handle' := by
    rw [(SameReader.release scan.reader k).bufferMap (k + 1) (Nat.succ_ne_self k)]
    exact hhandle'
  unfold JSONScanLocalState.writes at hwithin
  simp only [hline, hshown, hroom.1.untouched handle' hshown] at hwithin
  exact (lineWrites_within_iff hthread hline).mp hwithin

end

/-- No run writes outside a buffer if and only if, in a file of lines, every line that a buffer end
cuts and that ends in the next buffer fits in `reconstructBuffer` with the padding. -/
theorem writes_inside_iff (params : Params) (parser : Parser Doc) (hlaw : parser.Lawful) :
    WritesInside params parser ↔ (params.format = .newlineDelimited → ∀ k, LineFits params k) := by
  constructor
  · intro hinside hformat k
    by_cases hbuffer : buffer params (k + 1) = []
    · -- there is no next buffer for the line to end in
      intro _ lineEnd hend
      rw [hbuffer] at hend
      cases hend
    · exact line_reached hlaw hformat hbuffer hinside
  · intro hfits memories hmemories order scan hrun t ht
    exact (run_roomy hlaw hmemories hrun).writes_within ht hfits

theorem writes_inside_iff_numbers : WritesInside (numberFile 4 "1\n22\n" (by decide)) numberParser :=
  (writes_inside_iff (numberFile 4 "1\n22\n" (by decide)) numberParser numberParser_lawful).mpr (by
      intro _ k hcut lineEnd hend
      cases k with
      | zero =>
        obtain rfl : 0 = lineEnd := some.inj (Eq.trans (by decide) hend)
        decide
      | succ k =>
        have hempty : buffer (numberFile 4 "1\n22\n" (by decide)) (k + 1 + 1) = [] := by
          rw [buffer_eq_nil_iff]
          exact Nat.le_add_left 2 k
        rw [hempty] at hend
        cases hend)

/-- The line `23456` is cut behind its first digits: with its padding it does not fit. -/
theorem cut_line_overflows :
    ¬ ∀ (params : Params) (parser : Parser Bytes), parser.Lawful → WritesInside params parser := by
  intro h
  have hwrites : ((replicate 9 0).foldlM
      (Scan.step (numberFile 4 "1\n23456\n7\n" (by decide)) numberParser)
      (Scan.started [replicate 8 0])).map (fun scan => scan.threads.map fun t =>
        t.writes (numberFile 4 "1\n23456\n7\n" (by decide)) numberParser scan.reader)
      = some [[⟨8, 3, 4⟩, ⟨8, 7, 4⟩]] := by
    decide +kernel
  obtain ⟨scan, hrun, hscan⟩ := map_eq_some_iff.mp hwrites
  obtain ⟨t, hthreads, hline⟩ := map_eq_singleton_iff.mp hscan
  have hinside := h (numberFile 4 "1\n23456\n7\n" (by decide)) numberParser numberParser_lawful
    [replicate 8 0] (by decide) _ scan hrun t (by rw [hthreads]; exact mem_singleton_self t)
    ⟨8, 7, 4⟩ (by rw [hline]; exact mem_cons_of_mem _ (mem_singleton_self _))
  exact absurd hinside (by decide)

end Ladybug.JsonScan
