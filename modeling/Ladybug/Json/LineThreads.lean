import Ladybug.Base.Progress
import Ladybug.Base.Totals
import Ladybug.Json.LineRounds
import Mathlib.Algebra.Order.Group.Multiset

/-!
# The threads of a scan of lines

Buffer `k` has one reader that parses its complete lines and, unless the file ends there, a second
one that copies the line cut at its end.  The number that the buffer's handle keeps is the number of
readers that are not done yet, also those that have not come.
-/

namespace Ladybug.JsonScan

open Markup List Option

variable {Doc : Type} {parser : Parser Doc} {params : Params}

/-- The thread has the buffer. -/
def JSONScanLocalState.holds (k : Nat) (t : JSONScanLocalState Doc) : Nat :=
  if t.current = some k then 1 else 0

/-- The thread reads the buffer from the file. -/
def JSONScanLocalState.reserves (k : Nat) (t : JSONScanLocalState Doc) : Nat :=
  match t.stage with
  | .reserved idx _ _ => if idx = k then 1 else 0
  | _ => 0

/-- The thread has yet to release the buffer before its own. -/
def JSONScanLocalState.awaits (k : Nat) (t : JSONScanLocalState Doc) : Nat :=
  match t.stage with
  | .reserved idx _ _ | .first idx | .copied idx _ => if idx = k + 1 then 1 else 0
  | _ => 0

def endReaders (params : Params) (k : Nat) : Nat := if k < numBuffers params then 1 else 0

/-- The same, where no thread has the next buffer yet. -/
def later (params : Params) (bufferIdx k : Nat) : Nat :=
  if bufferIdx ≤ k + 1 then endReaders params k else 0

def readers (params : Params) (bufferIdx : Nat) (threads : List (JSONScanLocalState Doc)) (k : Nat) :
    Nat :=
  total (·.holds k) threads + (total (·.awaits k) threads + later params bufferIdx k)

/-- What the map has for a buffer. -/
structure Slot (params : Params) (reader : BufferedJsonReader)
    (threads : List (JSONScanLocalState Doc)) (k : Nat) : Prop where
  unique : total (·.holds k) threads + total (·.reserves k) threads
    ≤ if k < reader.bufferIdx then 1 else 0
  hidden : reader.bufferIdx ≤ k ∨ total (·.reserves k) threads ≠ 0 → reader.bufferMap k = none
      ∧ total (·.awaits k) threads + later params reader.bufferIdx k = endReaders params k
  shown : ∀ handle, reader.bufferMap k = some handle →
    handle.numReaders = readers params reader.bufferIdx threads k
      ∧ SameEnd handle.data (buffer params k)
  gone : k < reader.bufferIdx → total (·.reserves k) threads = 0 → reader.bufferMap k = none →
    readers params reader.bufferIdx threads k = 0

/-- The thread has buffer `idx` and has read nothing of it. -/
structure Begun (params : Params) (idx : Nat) (t : JSONScanLocalState Doc) : Prop where
  current : t.current = some idx
  notFirst : idx ≠ 0
  docs : t.docs = []
  bufferOffset : t.bufferOffset = 0
  isLast : t.isLast = true → buffer params idx = []

def FirstPart (params : Params) (idx firstPartSize : Nat) (t : JSONScanLocalState Doc) : Prop :=
  firstPartSize = (lastPart (buffer params (idx - 1))).length
    ∧ t.reconstructBuffer.take firstPartSize = lastPart (buffer params (idx - 1))

def StageOk (params : Params) (parser : Parser Doc) (lastReadRequested : Bool)
    (t : JSONScanLocalState Doc) : Prop :=
  match t.stage with
  | .idle => t.docs = []
  | .reserved idx position size =>
    t.current = none ∧ t.docs = [] ∧ idx ≤ numBuffers params
      ∧ (t.isLast = true ↔ idx = numBuffers params)
      ∧ (params.file.drop position).take size = buffer params idx
  | .first idx => Begun params idx t
  | .copied idx firstPartSize => Begun params idx t ∧ FirstPart params idx firstPartSize t
  | .line idx firstPartSize => Begun params idx t ∧ FirstPart params idx firstPartSize t
  | .chunk idx =>
    t.current = some idx ∧ t.bufferOffset ≤ (buffer params idx).length
      ∧ ValidComplete parser ((buffer params idx).drop t.bufferOffset)
      ∧ (t.isLast = true → buffer params idx = [])
  | .finished => t.current = none ∧ t.docs = [] ∧ lastReadRequested = true
  | .failed _ => False

structure ThreadOk (params : Params) (parser : Parser Doc) (lastReadRequested : Bool)
    (t : JSONScanLocalState Doc) : Prop where
  remainder : t.prevBufferRemainder = 0
  memory : t.reconstructBuffer.length = params.capacity
  stage : StageOk params parser lastReadRequested t

/-- What the thread has still to emit. -/
def owed (params : Params) (parser : Parser Doc) (t : JSONScanLocalState Doc) : List Doc :=
  match t.stage with
  | .reserved idx _ _ | .first idx | .copied idx _ | .line idx _ => bufferDocs params parser idx
  | .chunk idx => completeDocs parser ((buffer params idx).drop t.bufferOffset)
  | _ => []

def account (params : Params) (parser : Parser Doc) (t : JSONScanLocalState Doc) : Multiset Doc :=
  ↑(t.output ++ (t.docs ++ owed params parser t))

def pending (params : Params) (parser : Parser Doc) (bufferIdx : Nat) : List Doc :=
  (range' bufferIdx (numBuffers params + 1 - bufferIdx)).flatMap (bufferDocs params parser)

/-- The number of steps that a thread may take with a buffer. -/
def lineWeight (params : Params) : Nat := 3 * params.dataSize + 5

def weight (params : Params) (t : JSONScanLocalState Doc) : Nat :=
  match t.stage with
  | .idle => if t.current = none then 1 else 2
  | .reserved _ _ _ => lineWeight params + 3
  | .first _ => lineWeight params + 2
  | .copied _ _ => lineWeight params + 1
  | .line _ _ => lineWeight params
  | .chunk idx =>
    3 + 3 * ((buffer params idx).length - t.bufferOffset)
      + if params.vectorCapacity ≤ t.docs.length then 1 else 0
  | .finished => 0
  | .failed _ => 0

structure Scan.Sound (params : Params) (parser : Parser Doc) (scan : Scan Doc) : Prop where
  position : scan.reader.readPosition
    = min (scan.reader.bufferIdx * params.dataSize) params.file.length
  range : scan.reader.bufferIdx ≤ numBuffers params + 1
  lastRead : scan.reader.lastReadRequested = true ↔ scan.reader.bufferIdx = numBuffers params + 1
  errors : scan.reader.errors = []
  slots : ∀ k, Slot params scan.reader scan.threads k
  threads : ∀ t ∈ scan.threads, ThreadOk params parser scan.reader.lastReadRequested t
  data : ∀ (i : Nat) t k handle, scan.threads[i]? = some t → t.current = some k → t.stage ≠ .idle →
    scan.reader.bufferMap k = some handle →
      handle.data.drop t.bufferOffset = (buffer params k).drop t.bufferOffset
  copied : ∀ t ∈ scan.threads, ∀ idx n, t.stage = .copied idx n →
    total (·.reserves (idx - 1)) scan.threads = 0
  docs : total (account params parser) scan.threads
      + (pending params parser scan.reader.bufferIdx : Multiset Doc)
    = (docsOf parser params.file : Multiset Doc)

def Scan.work (params : Params) (scan : Scan Doc) : Nat :=
  total (weight params) scan.threads
    + (numBuffers params + 1 - scan.reader.bufferIdx) * (lineWeight params + 3)

theorem Scan.step_some {scan scan' : Scan Doc} {i : Nat}
    (h : scan.step params parser i = some scan') :
    ∃ t next, scan.threads[i]? = some t ∧ t.step params parser scan.reader = some next
      ∧ scan' = ⟨next.1, scan.threads.set i next.2⟩ := by
  unfold Scan.step at h
  cases ht : scan.threads[i]? with
  | none => rw [ht] at h; cases h
  | some t =>
    rw [ht] at h
    cases hnext : t.step params parser scan.reader with
    | none =>
      rw [bind_eq_bind, bind_some, hnext] at h
      cases h
    | some next =>
      rw [bind_eq_bind, bind_some, hnext] at h
      cases h
      exact ⟨t, next, rfl, hnext, rfl⟩

structure SameReader (idx : Nat) (reader reader' : BufferedJsonReader) : Prop where
  readPosition : reader'.readPosition = reader.readPosition
  lastReadRequested : reader'.lastReadRequested = reader.lastReadRequested
  bufferIdx : reader'.bufferIdx = reader.bufferIdx
  errors : reader'.errors = reader.errors
  bufferMap : ∀ k ≠ idx, reader'.bufferMap k = reader.bufferMap k

structure SameCounts (idx : Nat) (t t' : JSONScanLocalState Doc) : Prop where
  holds : ∀ k ≠ idx, t'.holds k = t.holds k
  reserves : ∀ k ≠ idx, t'.reserves k = t.reserves k
  awaits : ∀ k ≠ idx, t'.awaits k = t.awaits k

theorem Slot.congr {reader reader' : BufferedJsonReader}
    {threads threads' : List (JSONScanLocalState Doc)} {k : Nat} (h : Slot params reader threads k)
    (hidx : reader'.bufferIdx = reader.bufferIdx)
    (hmap : reader'.bufferMap k = reader.bufferMap k)
    (hholds : total (·.holds k) threads' = total (·.holds k) threads)
    (hreserves : total (·.reserves k) threads' = total (·.reserves k) threads)
    (hawaits : total (·.awaits k) threads' = total (·.awaits k) threads) :
    Slot params reader' threads' k := by
  have hreaders : readers params reader'.bufferIdx threads' k
      = readers params reader.bufferIdx threads k := by
    unfold readers
    rw [hholds, hawaits, hidx]
  exact {
    unique := by
      rw [hholds, hreserves, hidx]
      exact h.unique
    hidden := by
      rw [hreserves, hawaits, hidx, hmap]
      exact h.hidden
    shown := by
      rw [hmap, hreaders]
      exact h.shown
    gone := by
      rw [hreserves, hidx, hmap, ← hidx, hreaders, hidx]
      exact h.gone }

theorem Scan.Sound.next {scan : Scan Doc} (h : scan.Sound params parser) {i idx : Nat}
    {t t' : JSONScanLocalState Doc} {reader' : BufferedJsonReader} (ht : scan.threads[i]? = some t)
    (hreader : SameReader idx scan.reader reader') (hcounts : SameCounts idx t t')
    (hslot : Slot params reader' (scan.threads.set i t') idx)
    (hreserves : ∀ k, t'.reserves k ≤ t.reserves k)
    (hok : ThreadOk params parser scan.reader.lastReadRequested t')
    (hcopied : ∀ k n, t'.stage = .copied k n → total (·.reserves (k - 1)) scan.threads = 0)
    (hdata : ∀ k handle, t'.current = some k → t'.stage ≠ .idle → reader'.bufferMap k = some handle →
      handle.data.drop t'.bufferOffset = (buffer params k).drop t'.bufferOffset)
    (hothers : ∀ j u handle, j ≠ i → scan.threads[j]? = some u → u.current = some idx →
      reader'.bufferMap idx = some handle →
        ∃ old, scan.reader.bufferMap idx = some old ∧ handle.data = old.data)
    (hdocs : account params parser t' = account params parser t)
    (hless : weight params t' < weight params t) :
    Scan.Sound params parser ⟨reader', scan.threads.set i t'⟩
      ∧ Scan.work params ⟨reader', scan.threads.set i t'⟩ < scan.work params := by
  have hholds := fun k => total_set (fun u : JSONScanLocalState Doc => u.holds k) ht t'
  have hreserved := fun k => total_set (fun u : JSONScanLocalState Doc => u.reserves k) ht t'
  have hawaits := fun k => total_set (fun u : JSONScanLocalState Doc => u.awaits k) ht t'
  -- the threads are the old ones and the new one
  have hget : ∀ j u, (scan.threads.set i t')[j]? = some u →
      (j = i ∧ u = t') ∨ (j ≠ i ∧ scan.threads[j]? = some u) := by
    intro j u hu
    by_cases hj : i = j
    · left
      rw [List.getElem?_set, if_pos hj] at hu
      split at hu
      · exact ⟨hj.symm, (some.inj hu).symm⟩
      · cases hu
    · right
      rw [List.getElem?_set, if_neg hj] at hu
      exact ⟨fun heq => hj heq.symm, hu⟩
  have hmem : ∀ u ∈ scan.threads.set i t', u = t' ∨ u ∈ scan.threads := by
    intro u hu
    exact (mem_or_eq_of_mem_set hu).symm
  refine ⟨?_, ?_⟩
  · exact {
      position := by
        rw [hreader.readPosition, hreader.bufferIdx]
        exact h.position
      range := by
        rw [hreader.bufferIdx]
        exact h.range
      lastRead := by
        rw [hreader.lastReadRequested, hreader.bufferIdx]
        exact h.lastRead
      errors := by
        rw [hreader.errors]
        exact h.errors
      slots := by
        intro k
        by_cases hk : k = idx
        · rw [hk]
          exact hslot
        · apply (h.slots k).congr hreader.bufferIdx (hreader.bufferMap k hk)
          · have hsame := hcounts.holds k hk
            have hsum := hholds k
            simp only [hsame] at hsum
            exact Nat.add_right_cancel hsum
          · have hsame := hcounts.reserves k hk
            have hsum := hreserved k
            simp only [hsame] at hsum
            exact Nat.add_right_cancel hsum
          · have hsame := hcounts.awaits k hk
            have hsum := hawaits k
            simp only [hsame] at hsum
            exact Nat.add_right_cancel hsum
      threads := by
        intro u hu
        rw [hreader.lastReadRequested]
        rcases hmem u hu with rfl | hold
        · exact hok
        · exact h.threads u hold
      data := by
        intro j u k handle hu hcurrent hstage hmap
        rcases hget j u hu with ⟨rfl, rfl⟩ | ⟨hj, hold⟩
        · exact hdata k handle hcurrent hstage hmap
        · by_cases hk : k = idx
          · subst hk
            obtain ⟨old, hmap', hsame⟩ := hothers j u handle hj hold hcurrent hmap
            rw [hsame]
            exact h.data j u k old hold hcurrent hstage hmap'
          · apply h.data j u k handle hold hcurrent hstage
            rw [← hreader.bufferMap k hk]
            exact hmap
      copied := by
        intro u hu k n hstage
        show total _ (scan.threads.set i t') = 0
        have hle := hreserves (k - 1)
        have hsum := hreserved (k - 1)
        have hzero : total (·.reserves (k - 1)) scan.threads = 0 := by
          rcases hmem u hu with rfl | hold
          · exact hcopied k n hstage
          · exact h.copied u hold k n hstage
        omega
      docs := by
        have hsum := total_set (account params parser) ht t'
        rw [hdocs] at hsum
        rw [add_right_cancel hsum, hreader.bufferIdx]
        exact h.docs }
  · show total (weight params) (scan.threads.set i t')
      + (numBuffers params + 1 - reader'.bufferIdx) * (lineWeight params + 3) < _
    have hsum := total_set (weight params) ht t'
    rw [hreader.bufferIdx]
    unfold Scan.work
    omega

end Ladybug.JsonScan
