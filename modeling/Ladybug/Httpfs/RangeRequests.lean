import Ladybug.Httpfs.Requests
import Ladybug.Httpfs.SizeCache

/-!
# A range of a file (`httpfs/src/httpfs.cpp`, `getRangeRequest`)

The handler looks at the head of a response and the receiver writes its chunks to the buffer.  Their
exceptions end the request; an `IOException` is not thrown again, so that the caller sees a buffer in
which nothing may have been written.
-/

namespace Ladybug.Requests

open List

/-- A byte of a buffer with the request that it came from, if it was written. -/
structure Cell where
  byte : UInt8
  writer : Option Nat
  deriving DecidableEq

/-- The variables of the receivers; no buffer stands for `nullptr`. -/
structure RangeSink where
  buffer : Option (List Cell)
  bufferOffset : Nat

def overwrite (buffer : List Cell) (offset n : Nat) (data : Bytes) : List Cell :=
  buffer.take offset ++ (data.map fun byte => ⟨byte, some n⟩) ++ buffer.drop (offset + data.length)

def contentLength : Text := "Content-Length".toList

def httpGetError (url : Text) (status : Int) : String :=
  "HTTP GET error on '" ++ String.ofList url ++ "' (HTTP " ++ toString status ++ ")" ++
    if status = 416 then "Try confirm the server supports range requests." else ""

/-- The length in the header, as a `uint64_t`. -/
def announcedLength (text : Text) : Option Nat :=
  (SizeCache.stoll text).map fun contentLen => (contentLen % 2 ^ 64).toNat

def lengthMismatch (status : Int) : Thrown :=
  .ioException ("Server returned: " ++ toString status ++
    ", HTTP GET error: Content-Length from server mismatches requested range, " ++
    "server may not support range requests.")

def onResponse (url : Text) (bufferLen : Nat) (head : Head) (s : RangeSink) :
    RangeSink × Option Thrown :=
  if head.status ≥ 400 then (s, some (.ioException (httpGetError url head.status)))
  else if head.status < 300 then
    let s := { s with bufferOffset := 0 }
    match head.headers.first contentLength with
    | none => (s, none)
    | some text =>
      match announcedLength text with
      | none => (s, some (.other "stoll"))
      | some contentLen =>
        if contentLen ≠ bufferLen then (s, some (lengthMismatch head.status)) else (s, none)
  else (s, none)

def tooMuchData : Thrown := .ioException "Server sent back more data than expected."

/-- The content receiver. -/
def onData (bufferLen n : Nat) (data : Bytes) (s : RangeSink) : RangeSink × Option Thrown :=
  match s.buffer with
  | none => (s, none)
  | some buffer =>
    if data.length + s.bufferOffset > bufferLen then (s, some tooMuchData)
    else (⟨some (overwrite buffer s.bufferOffset n data), s.bufferOffset + data.length⟩, none)

/-- The chunks one after another, up to an exception. -/
def onChunks (bufferLen n : Nat) : List Bytes → RangeSink → RangeSink × Option Thrown
  | [], s => (s, none)
  | data :: chunks, s =>
    match onData bufferLen n data s with
    | (s, some e) => (s, some e)
    | (s, none) => onChunks bufferLen n chunks s

def rangeRequest (url : Text) (bufferLen n : Nat) (answer : Exchange) (s : RangeSink) :
    RangeSink × Except Thrown Result :=
  match answer with
  | .unanswered err => (s, .ok (.error err))
  | .answered head chunks err =>
    match onResponse url bufferLen head s with
    | (s, some e) => (s, .error e)
    | (s, none) =>
      match onChunks bufferLen n chunks s with
      | (s, some e) => (s, .error e)
      | (s, none) => (s, .ok (match err with
          | none => .response ⟨head, []⟩
          | some err => .error err))

def newBuffer (bytes : Bytes) : List Cell := bytes.map fun byte => ⟨byte, none⟩

def getRangeRequest (serve : Nat → Sent → Exchange) (url : Text) (fileOffset : Nat)
    (buffer : Option Bytes) (bufferLen : Nat) : Ran RangeSink :=
  let sink : RangeSink := ⟨buffer.map newBuffer, 0⟩
  match parseUrl url with
  | .error e => ⟨0, sink, .error e⟩
  | .ok (host, hostPath) =>
    let sent : Sent := ⟨host, hostPath, some (rangeHeader fileOffset bufferLen)⟩
    runRequestWithRetry (fun n ↦ rangeRequest url bufferLen n (serve n sent)) url "GET Range" 0 sink

/-- Every byte of the buffer was written from the body of one response, which has come in full and
reports success. -/
def FilledByOne (answers : Nat → Exchange) (bufferLen : Nat) (buffer : List Cell) : Prop :=
  ∃ i, ∀ j, j < bufferLen → (answers i).Successful ∧
    ∃ byte, (answers i).body[j]? = some byte ∧ buffer[j]? = some ⟨byte, some i⟩

def AnnouncesLength (bufferLen : Nat) (head : Head) : Prop :=
  ∀ text, head.headers.first contentLength = some text → announcedLength text = some bufferLen

def Fills (bufferLen : Nat) (answer : Exchange) : Prop :=
  answer.Successful ∧ ∃ head chunks err, answer = .answered head chunks err ∧
    AnnouncesLength bufferLen head ∧ ∃ m, (chunks.take m).flatten.length = bufferLen

variable {offset bufferLen n : Nat} {data : Bytes} {s : RangeSink} {answer : Exchange}

variable {buffer : List Cell}

theorem overwrite_getElem? (n : Nat) (h : offset + data.length ≤ buffer.length) (j : Nat) :
    (overwrite buffer offset n data)[j]? = if j < offset then buffer[j]?
      else if j < offset + data.length then data[j - offset]?.map fun byte => ⟨byte, some n⟩
      else buffer[j]? := by
  unfold overwrite
  have hfront : (buffer.take offset).length = offset := by
    rw [length_take]
    omega
  by_cases hlow : j < offset
  · rw [if_pos hlow, append_assoc, getElem?_append_left (by omega), getElem?_take, if_pos hlow]
  · rw [if_neg hlow]
    by_cases hin : j < offset + data.length
    · rw [if_pos hin, append_assoc, getElem?_append_right (by omega), hfront,
        getElem?_append_left (by rw [length_map]; omega), getElem?_map]
    · rw [if_neg hin, getElem?_append_right (by
        rw [length_append, hfront, length_map]
        omega), length_append, hfront, length_map, getElem?_drop]
      congr 1
      omega

theorem overwrite_length (n : Nat) (h : offset + data.length ≤ buffer.length) :
    (overwrite buffer offset n data).length = buffer.length := by
  unfold overwrite
  rw [length_append, length_append, length_take, length_map, length_drop]
  omega

@[simp] theorem overwrite_nil (buffer : List Cell) (offset n : Nat) :
    overwrite buffer offset n [] = buffer := by
  unfold overwrite
  rw [map_nil, append_nil, length_nil, Nat.add_zero, take_append_drop]

theorem overwrite_overwrite (n : Nat) {a b : Bytes} (h : offset + (a ++ b).length ≤ buffer.length) :
    overwrite (overwrite buffer offset n a) (offset + a.length) n b
      = overwrite buffer offset n (a ++ b) := by
  have hab := h
  rw [length_append] at hab
  have ha : offset + a.length ≤ buffer.length := by omega
  apply ext_getElem?
  intro j
  rw [overwrite_getElem? n (by rw [overwrite_length n ha]; omega), overwrite_getElem? n ha,
    overwrite_getElem? n h, length_append]
  by_cases hlow : j < offset
  · rw [if_pos (by omega), if_pos hlow, if_pos hlow]
  · by_cases hfirst : j < offset + a.length
    · rw [if_pos hfirst, if_neg hlow, if_neg hlow, if_pos hfirst, if_pos (by omega),
        getElem?_append_left (by omega)]
    · rw [if_neg hfirst, if_neg hlow, if_neg hlow, if_neg hfirst]
      by_cases hsecond : j < offset + a.length + b.length
      · rw [if_pos hsecond, if_pos (by omega), getElem?_append_right (by omega)]
        congr 2
        omega
      · rw [if_neg hsecond, if_neg (by omega)]

theorem onChunks_spec (bufferLen n : Nat) (chunks : List Bytes) (hlen : buffer.length = bufferLen)
    (hoffset : offset ≤ bufferLen) :
    ∃ m, offset + (chunks.take m).flatten.length ≤ bufferLen ∧
      (onChunks bufferLen n chunks ⟨some buffer, offset⟩).1 =
        ⟨some (overwrite buffer offset n (chunks.take m).flatten),
          offset + (chunks.take m).flatten.length⟩ ∧
      ((onChunks bufferLen n chunks ⟨some buffer, offset⟩).2 = none ∧ chunks.take m = chunks ∨
        (onChunks bufferLen n chunks ⟨some buffer, offset⟩).2 = some tooMuchData ∧
          bufferLen < offset + (chunks.take (m + 1)).flatten.length) := by
  induction chunks generalizing buffer offset with
  | nil =>
    refine ⟨0, hoffset, ?_, .inl ⟨rfl, rfl⟩⟩
    show RangeSink.mk (some buffer) offset = _
    simp
  | cons data chunks ih =>
    unfold onChunks onData
    by_cases hmuch : data.length + offset > bufferLen
    · refine ⟨0, hoffset, ?_, .inr ⟨?_, ?_⟩⟩
      · simp only [if_pos hmuch]
        simp
      · simp only [if_pos hmuch]
      · simp only [take_succ_cons, take_zero, flatten_cons, flatten_nil, append_nil]
        omega
    · simp only [if_neg hmuch]
      have hin : offset + data.length ≤ buffer.length := by omega
      have hlen' : (overwrite buffer offset n data).length = bufferLen := by
        rw [overwrite_length n hin, hlen]
      have hoffset' : offset + data.length ≤ bufferLen := by omega
      obtain ⟨m, hle, hstate, hend⟩ := ih hlen' hoffset'
      refine ⟨m + 1, ?_, ?_, ?_⟩
      · rw [take_succ_cons, flatten_cons, length_append]
        omega
      · rw [hstate, take_succ_cons, flatten_cons, overwrite_overwrite n (by
          rw [length_append]
          omega), length_append, Nat.add_assoc]
      · rcases hend with ⟨hnone, hall⟩ | ⟨hsome, hmore⟩
        · left
          exact ⟨hnone, by rw [take_succ_cons, hall]⟩
        · right
          refine ⟨hsome, ?_⟩
          rw [take_succ_cons, flatten_cons, length_append]
          omega

/-- The head after which the receiver is called. -/
def Head.Accepted (head : Head) (bufferLen : Nat) : Prop :=
  head.status < 400 ∧ (head.status < 300 → AnnouncesLength bufferLen head)

/-- The offset that the first chunk is written at. -/
def Head.startOffset (head : Head) (offset : Nat) : Nat := if head.status < 300 then 0 else offset

variable (url : Text)

theorem onResponse_accepted {head : Head} (s : RangeSink) (h : head.Accepted bufferLen) :
    onResponse url bufferLen head s = (⟨s.buffer, head.startOffset s.bufferOffset⟩, none) := by
  unfold onResponse Head.startOffset
  rw [if_neg (by have hlt := h.1; omega)]
  by_cases hsuccess : head.status < 300
  · rw [if_pos hsuccess, if_pos hsuccess]
    have hannounced := h.2 hsuccess
    cases hheader : head.headers.first contentLength with
    | none => rfl
    | some text =>
      simp only [hannounced text hheader, ne_eq, not_true_eq_false, if_false]
  · rw [if_neg hsuccess, if_neg hsuccess]

theorem onResponse_refused {head : Head} (s : RangeSink) (h : ¬ head.Accepted bufferLen) :
    ∃ offset e, offset ≤ s.bufferOffset ∧
      onResponse url bufferLen head s = (⟨s.buffer, offset⟩, some e) := by
  unfold onResponse
  by_cases hclient : head.status ≥ 400
  · rw [if_pos hclient]
    exact ⟨s.bufferOffset, _, Nat.le_refl _, rfl⟩
  · rw [if_neg hclient]
    by_cases hsuccess : head.status < 300
    · rw [if_pos hsuccess]
      have hannounced : ¬ AnnouncesLength bufferLen head := fun hl => h ⟨by omega, fun _ => hl⟩
      cases hheader : head.headers.first contentLength with
      | none => exact absurd (fun text ht => by rw [hheader] at ht; cases ht) hannounced
      | some text =>
        have hlength : announcedLength text ≠ some bufferLen := by
          intro hl
          apply hannounced
          intro text' ht
          rw [hheader] at ht
          cases ht
          exact hl
        cases hl : announcedLength text with
        | none => exact ⟨0, .other "stoll", Nat.zero_le _, by simp only [hl]⟩
        | some contentLen =>
          have hne : contentLen ≠ bufferLen := fun heq => hlength (heq ▸ hl)
          exact ⟨0, lengthMismatch head.status, Nat.zero_le _, by simp only [hl, if_pos hne]⟩
    · exact absurd ⟨by omega, fun hlt => absurd hlt hsuccess⟩ h

theorem rangeRequest_spec (n : Nat) (answer : Exchange) (hlen : buffer.length = bufferLen)
    (hoffset : offset ≤ bufferLen) :
    (∃ offset', offset' ≤ bufferLen ∧
      (rangeRequest url bufferLen n answer ⟨some buffer, offset⟩).1 = ⟨some buffer, offset'⟩ ∧
      ∀ head chunks err, answer = .answered head chunks err → ¬ head.Accepted bufferLen) ∨
    ∃ head chunks err m, answer = .answered head chunks err ∧ head.Accepted bufferLen ∧
      head.startOffset offset + (chunks.take m).flatten.length ≤ bufferLen ∧
      (rangeRequest url bufferLen n answer ⟨some buffer, offset⟩).1 =
        ⟨some (overwrite buffer (head.startOffset offset) n (chunks.take m).flatten),
          head.startOffset offset + (chunks.take m).flatten.length⟩ ∧
      (chunks.take m = chunks ∨
        bufferLen < head.startOffset offset + (chunks.take (m + 1)).flatten.length) := by
  unfold rangeRequest
  cases answer with
  | unanswered err => exact .inl ⟨offset, hoffset, rfl, nofun⟩
  | answered head chunks err =>
    by_cases haccepted : head.Accepted bufferLen
    · right
      have hstart : head.startOffset offset ≤ bufferLen := by
        unfold Head.startOffset
        split
        · exact Nat.zero_le _
        · exact hoffset
      obtain ⟨m, hle, hstate, hend⟩ := onChunks_spec bufferLen n chunks hlen hstart
      refine ⟨head, chunks, err, m, rfl, haccepted, hle, ?_, ?_⟩
      · simp only [onResponse_accepted url ⟨some buffer, offset⟩ haccepted]
        rw [← hstate]
        generalize onChunks bufferLen n chunks ⟨some buffer, head.startOffset offset⟩ = r
        obtain ⟨s, e⟩ := r
        cases e with
        | none | some => rfl
      · rcases hend with ⟨-, hall⟩ | ⟨-, hmore⟩
        · exact .inl hall
        · exact .inr hmore
    · left
      obtain ⟨offset', e, hle, hrefused⟩ := onResponse_refused url ⟨some buffer, offset⟩ haccepted
      refine ⟨offset', Nat.le_trans hle hoffset, ?_, ?_⟩
      · simp only [hrefused]
      · intro head' chunks' err' heq
        cases heq
        exact haccepted

def Older (n : Nat) (buffer : List Cell) : Prop :=
  ∀ (j : Nat) (cell : Cell) (w : Nat), buffer[j]? = some cell → cell.writer = some w → w < n

theorem older_newBuffer (bytes : Bytes) : Older 0 (newBuffer bytes) := by
  intro j cell w hcell hw
  unfold newBuffer at hcell
  rw [getElem?_map] at hcell
  obtain ⟨byte, -, rfl⟩ := Option.map_eq_some_iff.mp hcell
  cases hw

theorem Older.mono {n' : Nat} (h : Older n buffer) (hle : n ≤ n') :
    Older n' buffer := fun j cell w hcell hw => Nat.lt_of_lt_of_le (h j cell w hcell hw) hle

theorem Older.overwrite (h : Older n buffer) (hin : offset + data.length ≤ buffer.length) :
    Older (n + 1) (overwrite buffer offset n data) := by
  intro j cell w hcell hw
  rw [overwrite_getElem? n hin] at hcell
  split at hcell
  · exact Nat.lt_succ_of_lt (h j cell w hcell hw)
  · split at hcell
    · obtain ⟨byte, -, rfl⟩ := Option.map_eq_some_iff.mp hcell
      cases hw
      exact Nat.lt_succ_self n
    · exact Nat.lt_succ_of_lt (h j cell w hcell hw)

/-- A buffer of the given length; no cell is from request `n` or a later one. -/
def RangeSink.Ready (bufferLen n : Nat) (s : RangeSink) : Prop :=
  ∃ buffer, s = ⟨some buffer, s.bufferOffset⟩ ∧ buffer.length = bufferLen ∧
    s.bufferOffset ≤ bufferLen ∧ Older n buffer

theorem RangeSink.Ready.step {bufferLen n : Nat} {s : RangeSink} (h : s.Ready bufferLen n) (url : Text)
    (answer : Exchange) : (rangeRequest url bufferLen n answer s).1.Ready bufferLen (n + 1) := by
  obtain ⟨buffer, hs, hlen, hoffset, holder⟩ := h
  rw [hs]
  rcases rangeRequest_spec url n answer hlen hoffset with
    ⟨offset', hle, hstate, -⟩ | ⟨head, chunks, err, m, -, -, hle, hstate, -⟩
  · rw [hstate]
    exact ⟨buffer, rfl, hlen, hle, holder.mono (Nat.le_succ n)⟩
  · rw [hstate]
    have hin : head.startOffset s.bufferOffset + (chunks.take m).flatten.length ≤ buffer.length := by
      omega
    exact ⟨_, rfl, by rw [overwrite_length n hin, hlen], hle, holder.overwrite hin⟩

def rangeRequests (answers : Nat → Exchange) (url : Text) (bufferLen n : Nat) (s : RangeSink) :
    RangeSink × Except Thrown Result := rangeRequest url bufferLen n (answers n) s

theorem ready_before (answers : Nat → Exchange) (url : Text) (h : s.Ready bufferLen 0) (k : Nat) :
    (before (rangeRequests answers url bufferLen) 0 s k).Ready bufferLen k := by
  induction k with
  | zero => exact h
  | succ k ih =>
    unfold before rangeRequests
    rw [Nat.zero_add]
    exact ih.step url (answers k)

theorem not_retried {x : Except Thrown Result} {round : Round} (hround : Round.ofResult x = .ok round)
    (hx : (∃ e, x = .error e) ∨
      ∃ res : Response, x = .ok (.response res) ∧ 200 ≤ res.head.status ∧ res.head.status < 300) :
    round.returns = true := by
  cases hreturns : round.returns with
  | true => rfl
  | false =>
    rcases made_again hround hreturns with ⟨err, rfl⟩ | ⟨res, rfl, hstatus⟩
    · rcases hx with ⟨e, he⟩ | ⟨res, hres, -⟩
      · cases he
      · cases hres
    · rcases hx with ⟨e, he⟩ | ⟨res', hres, hlow, hhigh⟩
      · cases he
      · cases hres
        unfold retryStatuses at hstatus
        simp only [mem_cons, not_mem_nil, or_false] at hstatus
        omega

theorem rangeRequest_successful (bufferLen n : Nat) (s : RangeSink) (h : answer.Successful) :
    (∃ e, (rangeRequest url bufferLen n answer s).2 = .error e) ∨
      ∃ res : Response, (rangeRequest url bufferLen n answer s).2 = .ok (.response res) ∧
        200 ≤ res.head.status ∧ res.head.status < 300 := by
  cases answer with
  | unanswered err => exact h.elim
  | answered head chunks err =>
    cases err with
    | some err => exact h.elim
    | none =>
      unfold rangeRequest
      simp only
      generalize onResponse url bufferLen head s = r
      obtain ⟨s, e⟩ := r
      cases e with
      | some e => exact .inl ⟨e, rfl⟩
      | none =>
        simp only
        generalize onChunks bufferLen n chunks s = r
        obtain ⟨s, e⟩ := r
        cases e with
        | some e => exact .inl ⟨e, rfl⟩
        | none => exact .inr ⟨⟨head, []⟩, rfl, h⟩

theorem take_flatten_le (chunks : List Bytes) {a b : Nat} (h : a ≤ b) :
    (chunks.take a).flatten.length ≤ (chunks.take b).flatten.length := by
  have hsplit : chunks.take b = chunks.take a ++ (chunks.take b).drop a := by
    conv_lhs => rw [← take_append_drop a (chunks.take b), take_take, Nat.min_eq_left h]
  rw [hsplit, flatten_append, length_append]
  exact Nat.le_add_right _ _

theorem rangeRequest_fills (h : s.Ready bufferLen n) (hfills : Fills bufferLen answer) :
    ∃ buffer, (rangeRequest url bufferLen n answer s).1.buffer = some buffer ∧
      ∀ j, j < bufferLen → ∃ byte, answer.body[j]? = some byte ∧ buffer[j]? = some ⟨byte, some n⟩ := by
  obtain ⟨buffer, hs, hlen, hoffset, -⟩ := h
  obtain ⟨hsuccess, head, chunks, err, rfl, hannounced, m₀, hm₀⟩ := hfills
  cases err with
  | some err => exact hsuccess.elim
  | none =>
    have hstatus : head.status < 300 := hsuccess.2
    rw [hs]
    rcases rangeRequest_spec url n (.answered head chunks none) hlen hoffset with
      ⟨_, -, -, hrefused⟩ | ⟨head', chunks', err', m, heq, -, hle, hstate, hend⟩
    · exact absurd ⟨by omega, fun _ => hannounced⟩ (hrefused head chunks none rfl)
    · cases heq
      have hstart : head.startOffset s.bufferOffset = 0 := if_pos hstatus
      rw [hstart, Nat.zero_add] at hle hstate
      -- the chunks that fit are just as long
      have hm : (chunks.take m).flatten.length = bufferLen := by
        rcases hend with hall | hmore
        · have htake := take_flatten_le (chunks.take m) (Nat.le_max_left m₀ chunks.length)
          rw [hall, take_of_length_le (Nat.le_max_right m₀ chunks.length), hm₀] at htake
          rw [hall] at hle ⊢
          omega
        · rw [hstart, Nat.zero_add] at hmore
          have hlt : m₀ ≤ m := by
            by_contra hgt
            have htake := take_flatten_le chunks (show m + 1 ≤ m₀ by omega)
            omega
          have htake := take_flatten_le chunks hlt
          omega
      refine ⟨_, by rw [hstate], ?_⟩
      intro j hj
      have hin : 0 + (chunks.take m).flatten.length ≤ buffer.length := by omega
      have hbody : (Exchange.answered head chunks none).body
          = (chunks.take m).flatten ++ (chunks.drop m).flatten := by
        show chunks.flatten = _
        rw [← flatten_append, take_append_drop]
      have hj' : j < (chunks.take m).flatten.length := by omega
      refine ⟨(chunks.take m).flatten[j], ?_, ?_⟩
      · rw [hbody, getElem?_append_left hj', getElem?_eq_getElem hj']
      · rw [overwrite_getElem? n hin, if_neg (Nat.not_lt_zero j), if_pos (by omega), Nat.sub_zero,
          getElem?_eq_getElem hj']
        rfl

theorem rangeRequest_leaves (h : s.Ready bufferLen n) (hsuccess : answer.Successful)
    (hpos : 0 < bufferLen) (hfills : ¬ Fills bufferLen answer) :
    ∃ buffer, (rangeRequest url bufferLen n answer s).1.buffer = some buffer ∧
      ∃ j, j < bufferLen ∧ ∀ byte, buffer[j]? ≠ some ⟨byte, some n⟩ := by
  obtain ⟨buffer, hs, hlen, hoffset, holder⟩ := h
  have hold : ∀ (j : Nat) (byte : UInt8), buffer[j]? ≠ some ⟨byte, some n⟩ := by
    intro j byte hcell
    exact Nat.lt_irrefl n (holder j _ n hcell rfl)
  rw [hs]
  rcases rangeRequest_spec url n answer hlen hoffset with
    ⟨_, -, hstate, -⟩ | ⟨head, chunks, err, m, rfl, haccepted, hle, hstate, -⟩
  · exact ⟨buffer, by rw [hstate], 0, hpos, hold 0⟩
  · cases err with
    | some err => exact hsuccess.elim
    | none =>
      have hstart : head.startOffset s.bufferOffset = 0 := if_pos hsuccess.2
      rw [hstart, Nat.zero_add] at hle hstate
      -- the first cell behind the chunks that fit
      have hlt : (chunks.take m).flatten.length < bufferLen := by
        apply Nat.lt_of_le_of_ne hle
        intro heq
        exact hfills ⟨hsuccess, head, chunks, none, rfl, haccepted.2 hsuccess.2, m, heq⟩
      refine ⟨_, by rw [hstate], (chunks.take m).flatten.length, hlt, ?_⟩
      intro byte hcell
      rw [overwrite_getElem? n (by omega), if_neg (Nat.not_lt_zero _), if_neg (by omega)] at hcell
      exact hold _ byte hcell

/-- After a run that returns, the buffer was filled from one full response just if the last of them
fills it. -/
theorem rangeRequests_filled {answers : Nat → Exchange} {url : Text} {method : String} {k : Nat}
    {res : HTTPResponse} (hready : s.Ready bufferLen 0)
    (hok : (runRequestWithRetry (rangeRequests answers url bufferLen) url method 0 s).result = .ok res)
    (hk : (runRequestWithRetry (rangeRequests answers url bufferLen) url method 0 s).requests = k + 1) :
    ∃ buffer, (runRequestWithRetry (rangeRequests answers url bufferLen) url method 0 s).state.buffer
        = some buffer ∧
      (FilledByOne answers bufferLen buffer ↔ bufferLen = 0 ∨ Fills bufferLen (answers k)) := by
  obtain ⟨k', -, hretried, hrequests, hstate, -⟩ := requestRounds_ok hok
  have hk' : k' = k := by
    unfold runRequestWithRetry at hk
    omega
  subst hk'
  have hbefore := ready_before answers url hready k'
  have hlast : (runRequestWithRetry (rangeRequests answers url bufferLen) url method 0 s).state =
      (rangeRequest url bufferLen k' (answers k')
        (before (rangeRequests answers url bufferLen) 0 s k')).1 := by
    unfold runRequestWithRetry
    rw [hstate]
    show (rangeRequests answers url bufferLen (0 + k') _).1 = _
    rw [Nat.zero_add]
    rfl
  obtain ⟨buffer, hbuffer, -, -, holder⟩ := hbefore.step url (answers k')
  rw [hlast, hbuffer]
  refine ⟨buffer, rfl, ?_⟩
  constructor
  · rintro ⟨i, hi⟩
    by_cases hzero : bufferLen = 0
    · exact .inl hzero
    · right
      obtain ⟨hsuccess, byte, -, hcell⟩ := hi 0 (Nat.pos_of_ne_zero hzero)
      have hle : i < k' + 1 := holder 0 _ i hcell rfl
      -- a full response is the last one
      have heq : i = k' := by
        by_contra hne
        obtain ⟨round, hround, hagain⟩ := hretried i (by omega)
        rw [Nat.zero_add] at hround
        rw [not_retried hround (rangeRequest_successful url bufferLen i _ hsuccess)] at hagain
        cases hagain
      subst heq
      by_contra hfills
      obtain ⟨buffer', hbuffer', j, hj, hleft⟩ :=
        rangeRequest_leaves url hbefore hsuccess (Nat.pos_of_ne_zero hzero) hfills
      rw [hbuffer] at hbuffer'
      cases hbuffer'
      obtain ⟨-, byte', -, hcell'⟩ := hi j hj
      exact hleft byte' hcell'
  · rintro (hzero | hfills)
    · refine ⟨0, fun j hj => ?_⟩
      omega
    · refine ⟨k', fun j hj => ⟨hfills.1, ?_⟩⟩
      obtain ⟨buffer', hbuffer', hcells⟩ := rangeRequest_fills url hbefore hfills
      rw [hbuffer] at hbuffer'
      cases hbuffer'
      exact hcells j hj

end Ladybug.Requests
