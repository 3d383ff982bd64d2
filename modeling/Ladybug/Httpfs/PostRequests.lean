import Ladybug.Httpfs.Requests

/-!
# The response to a POST request (`httpfs/src/httpfs.cpp`, `postRequest`)

The receiver appends the chunks to a buffer that grows.  Its position is kept over the retries, so that
the bodies of the failed responses stand in front of the last one.
-/

namespace Ladybug.Requests

open List

/-- The variables of the receiver. -/
structure PostSink where
  outputBuffer : Bytes
  outputBufferLen : Nat
  outputBufferPos : Nat

/-- A buffer with room for the bytes; a new one is filled with zeros. -/
def PostSink.reserve (s : PostSink) (needed : Nat) : PostSink :=
  if needed > s.outputBufferLen then
    let newBufferSize := max needed (s.outputBufferLen * 2)
    { s with
      outputBuffer := s.outputBuffer.take s.outputBufferLen ++
        List.replicate (newBufferSize - s.outputBufferLen) 0
      outputBufferLen := newBufferSize }
  else s

def PostSink.receive (s : PostSink) (data : Bytes) : PostSink :=
  let s := s.reserve (s.outputBufferPos + data.length)
  { s with
    outputBuffer := s.outputBuffer.take s.outputBufferPos ++ data ++
      s.outputBuffer.drop (s.outputBufferPos + data.length)
    outputBufferPos := s.outputBufferPos + data.length }

/-- The `request` of `postRequest`: the receiver takes the chunks of every response. -/
def postAttempt (answer : Exchange) (s : PostSink) : PostSink × Except Thrown Result :=
  match answer with
  | .unanswered err => (s, .ok (.error err))
  | .answered head chunks err =>
    (chunks.foldl PostSink.receive s, .ok (match err with
      | none => .response ⟨head, []⟩
      | some err => .error err))

def postRequest (serve : Nat → Sent → Exchange) (url : Text) (outputBuffer : Bytes) : Ran PostSink :=
  let s : PostSink := ⟨outputBuffer, outputBuffer.length, 0⟩
  match parseUrl url with
  | .error e => ⟨0, s, .error e⟩
  | .ok (host, hostPath) =>
    runRequestWithRetry (fun n ↦ postAttempt (serve n ⟨host, hostPath, none⟩)) url "POST" 0 s

structure PostSink.Holds (s : PostSink) (received : Bytes) : Prop where
  len : s.outputBuffer.length = s.outputBufferLen
  pos : s.outputBufferPos = received.length
  fits : received.length ≤ s.outputBufferLen
  written : s.outputBuffer.take received.length = received

variable {s : PostSink} {received : Bytes}

section

variable (h : s.Holds received)

include h

theorem PostSink.Holds.reserve (needed : Nat) :
    (s.reserve needed).Holds received ∧ needed ≤ (s.reserve needed).outputBufferLen := by
  have hlen := h.len
  have hfits := h.fits
  unfold PostSink.reserve
  by_cases hgrow : needed > s.outputBufferLen
  · rw [if_pos hgrow]
    have htake : s.outputBuffer.take s.outputBufferLen = s.outputBuffer := by
      rw [← hlen]
      exact take_length
    refine ⟨⟨?_, h.pos, ?_, ?_⟩, Nat.le_max_left _ _⟩
    · show (s.outputBuffer.take s.outputBufferLen ++
        replicate (max needed (s.outputBufferLen * 2) - s.outputBufferLen) 0).length
          = max needed (s.outputBufferLen * 2)
      rw [htake, length_append, length_replicate, hlen]
      omega
    · show received.length ≤ max needed (s.outputBufferLen * 2)
      omega
    · rw [htake, take_append_of_le_length (by omega)]
      exact h.written
  · rw [if_neg hgrow]
    exact ⟨h, by omega⟩

theorem PostSink.Holds.receive (data : Bytes) : (s.receive data).Holds (received ++ data) := by
  have hpos : s.outputBufferPos = received.length := h.pos
  obtain ⟨hreserved, hroom⟩ := h.reserve (s.outputBufferPos + data.length)
  unfold PostSink.receive
  generalize s.reserve (s.outputBufferPos + data.length) = r at *
  have hrpos : r.outputBufferPos = received.length := hreserved.pos
  have hlen : r.outputBuffer.length = r.outputBufferLen := hreserved.len
  have hfront : r.outputBuffer.take r.outputBufferPos = received := by
    rw [hrpos]
    exact hreserved.written
  refine ⟨?_, ?_, ?_, ?_⟩
  · simp only
    rw [hfront, length_append, length_append, length_drop, hlen, hrpos]
    omega
  · show r.outputBufferPos + data.length = _
    rw [length_append, hrpos]
  · show (received ++ data).length ≤ r.outputBufferLen
    rw [length_append]
    omega
  · simp only
    rw [hfront]
    exact take_left

theorem PostSink.Holds.receiveAll (chunks : List Bytes) :
    (chunks.foldl PostSink.receive s).Holds (received ++ chunks.flatten) := by
  induction chunks generalizing s received with
  | nil =>
    rw [flatten_nil, append_nil]
    exact h
  | cons data chunks ih =>
    rw [foldl_cons, flatten_cons, ← append_assoc]
    exact ih (h.receive data)

theorem PostSink.Holds.attempt (answer : Exchange) :
    (postAttempt answer s).1.Holds (received ++ answer.body) := by
  cases answer with
  | unanswered err =>
    show s.Holds (received ++ [])
    rw [append_nil]
    exact h
  | answered head chunks err => exact h.receiveAll chunks

end

/-- The bodies of the first responses, one behind the other. -/
def bodies (answers : Nat → Exchange) (k : Nat) : Bytes :=
  ((List.range k).map fun i => (answers i).body).flatten

theorem bodies_succ (answers : Nat → Exchange) (k : Nat) :
    bodies answers (k + 1) = bodies answers k ++ (answers k).body := by
  unfold bodies
  rw [range_succ, map_append, flatten_append, map_singleton, flatten_singleton]

theorem bodies_eq_nil_iff (answers : Nat → Exchange) (k : Nat) :
    bodies answers k = [] ↔ ∀ i, i < k → (answers i).body = [] := by
  unfold bodies
  rw [flatten_eq_nil_iff]
  simp only [mem_map, mem_range]
  constructor
  · exact fun h i hi => h _ ⟨i, hi, rfl⟩
  · rintro h _ ⟨i, hi, rfl⟩
    exact h i hi

theorem holds_before (answers : Nat → Exchange) (h : s.Holds []) (k : Nat) :
    (before (fun n => postAttempt (answers n)) 0 s k).Holds (bodies answers k) := by
  induction k with
  | zero => exact h
  | succ k ih =>
    rw [bodies_succ]
    show (postAttempt (answers (0 + k)) _).1.Holds _
    rw [Nat.zero_add]
    exact ih.attempt (answers k)

/-- After a run that returns a response, the bytes that were written are its body if and only if the bodies
of all responses before it are empty. -/
theorem postRequest_output {answers : Nat → Exchange} {url : Text} {outputBuffer : Bytes} {k : Nat}
    {res : HTTPResponse} (hok : (postRequest (fun n _ ↦ answers n) url outputBuffer).result = .ok res)
    (hk : (postRequest (fun n _ => answers n) url outputBuffer).requests = k + 1) :
    (∃ head chunks, answers k = .answered head chunks none ∧ res = .of ⟨head, []⟩ url) ∧
    ((postRequest (fun n _ => answers n) url outputBuffer).state.outputBuffer.take
        (postRequest (fun n _ ↦ answers n) url outputBuffer).state.outputBufferPos = (answers k).body ↔
      ∀ i, i < k → (answers i).body = []) := by
  unfold postRequest at hok hk ⊢
  cases hurl : parseUrl url with
  | error e =>
    rw [hurl] at hok
    cases hok
  | ok parsed =>
    rw [hurl] at hok hk
    simp only at hok hk ⊢
    unfold runRequestWithRetry at hok hk ⊢
    obtain ⟨k', -, -, hrequests, hstate, round, hround, hreturns, rfl⟩ := requestRounds_ok hok
    have hk' : k' = k := by omega
    subst hk'
    rw [Nat.zero_add] at hround
    constructor
    · cases hanswer : answers k' with
      | unanswered err =>
        rw [hanswer] at hround
        cases hround
        cases hreturns
      | answered head chunks err =>
        rw [hanswer] at hround
        cases err with
        | some err =>
          cases hround
          cases hreturns
        | none =>
          cases hround
          exact ⟨head, chunks, rfl, rfl⟩
    · have hstart : (PostSink.mk outputBuffer outputBuffer.length 0).Holds [] :=
        ⟨rfl, rfl, Nat.zero_le _, rfl⟩
      have hholds := holds_before answers hstart (k' + 1)
      rw [hstate, hholds.pos, hholds.written, bodies_succ, append_left_eq_self, bodies_eq_nil_iff]

/-- A server that is not available, with a body of its own, and then the response. -/
def unavailableOnce : Nat → Exchange
  | 0 => .answered ⟨503, "Service Unavailable", []⟩ [[1, 2]] none
  | _ => .answered ⟨200, "OK", []⟩ [[3]] none

/-- The output begins with the body of the response that was tried again. -/
theorem failed_body_in_front :
    (∃ res, (postRequest (fun n _ ↦ unavailableOnce n) "https://h/f".toList [0, 0, 0, 0]).result = .ok res ∧
      res.code = 200) ∧
    (postRequest (fun n _ ↦ unavailableOnce n) "https://h/f".toList [0, 0, 0, 0]).state.outputBuffer
      = [1, 2, 3, 0] ∧ (unavailableOnce 1).body = [3] :=
  ⟨⟨_, rfl, rfl⟩, rfl, rfl⟩

theorem postRequest_output_unavailable :
    (postRequest (fun n _ ↦ unavailableOnce n) "https://h/f".toList []).state.outputBuffer.take
        (postRequest (fun n _ ↦ unavailableOnce n) "https://h/f".toList []).state.outputBufferPos
          = (unavailableOnce 1).body ↔ ∀ i, i < 1 → (unavailableOnce i).body = [] :=
  (postRequest_output rfl rfl).2

end Ladybug.Requests
