import Ladybug.Base.Bytes

/-!
# Requests with retries (`httpfs/src/httpfs.cpp`, `runRequestWithRetry`)

The server answers every request in its own way: a connection may fail, the body of a response comes
in chunks, and it may break off.  A request is made again after a failure that may pass; what the
receivers of a response have stored by then stays as it is.
-/

namespace Ladybug.Requests

abbrev Text := List Char

abbrev Headers := List (Text × Text)

structure Head where
  status : Int
  reason : String
  headers : Headers

structure Response where
  head : Head
  body : Bytes

/-- A `httplib::Response` that has not been filled. -/
def Response.empty : Response := ⟨⟨-1, "", []⟩, []⟩

/-- The names of headers do not depend on the case. -/
def sameName (a b : Text) : Bool := a.map Char.toLower == b.map Char.toLower

def Headers.first (headers : Headers) (name : Text) : Option Text :=
  (headers.find? fun header => sameName header.1 name).map Prod.snd

/-- The header as the map of the `HTTPResponse` has it: each one replaces those before. -/
def Headers.last (headers : Headers) (name : Text) : Option Text :=
  Headers.first headers.reverse name

structure HTTPResponse where
  code : Int
  error : String
  headers : Headers
  url : Text
  body : Bytes

def HTTPResponse.of (res : Response) (url : Text) : HTTPResponse :=
  ⟨res.head.status, res.head.reason, res.head.headers, url, res.body⟩

inductive Thrown where
  | ioException (msg : String)
  | other (what : String)
  deriving DecidableEq

/-- The request: where it goes, and the bytes it asks for, if it does not ask for the head alone. -/
structure Sent where
  host : Text
  hostPath : Text
  range : Option String

/-- What comes back from one request: no response, or a response whose body comes in chunks and may
break off with an error. -/
inductive Exchange where
  | unanswered (err : String)
  | answered (head : Head) (chunks : List Bytes) (err : Option String)

inductive Result where
  | response (res : Response)
  | error (err : String)

/-- The result of a request without receivers: the body is kept with the response. -/
def Exchange.result : Exchange → Result
  | .unanswered err => .error err
  | .answered _ _ (some err) => .error err
  | .answered head chunks none => .response ⟨head, chunks.flatten⟩

/-- A response has come in full, and reports success. -/
def Exchange.Successful : Exchange → Prop
  | .answered head _ none => 200 ≤ head.status ∧ head.status < 300
  | _ => False

def Exchange.body : Exchange → Bytes
  | .unanswered _ => []
  | .answered _ chunks _ => chunks.flatten

/-- `parseUrl`: the host with its scheme, and the path. -/
def parseUrl (url : Text) : Except Thrown (Text × Text) :=
  if !("http://".toList.isPrefixOf url) && !("https://".toList.isPrefixOf url) then
    .error (.ioException "URL needs to start with http:// or https://")
  else
    match (url.drop 8).findIdx? (· == '/') with
    | none => .error (.ioException "URL needs to contain a '/' after the host")
    | some i => .ok (url.take (8 + i), url.drop (8 + i))

/-- The value of the `Range` header; the end has 64 bits. -/
def rangeHeader (fileOffset bufferLen : Nat) : String :=
  "bytes=" ++ toString fileOffset ++ "-" ++
    toString ((fileOffset + bufferLen + 2 ^ 64 - 1) % 2 ^ 64)

def defaultRetries : Nat := 3

/-- The statuses of which a later request may be free. -/
def retryStatuses : List Int := [408, 418, 429, 503, 504]

/-- The variables of a round; `err` is `none` for `Error::Success`. -/
structure Round where
  exception : Option String
  err : Option String
  status : Int
  response : Response

/-- What the `try` block leaves behind; it catches an `IOException`. -/
def Round.ofResult : Except Thrown Result → Except Thrown Round
  | .ok (.response res) => .ok ⟨none, none, res.head.status, res⟩
  | .ok (.error err) => .ok ⟨none, some err, 0, .empty⟩
  | .error (.ioException msg) => .ok ⟨some msg, none, 0, .empty⟩
  | .error (.other what) => .error (.other what)

def Round.returns (r : Round) : Bool := r.err.isNone && !retryStatuses.contains r.status

def Round.failure (r : Round) (url : Text) (method : String) : Thrown :=
  match r.exception with
  | some msg => .ioException msg
  | none =>
    match r.err with
    | none => .ioException ("Request returned HTTP " ++ toString r.status ++ " for HTTP " ++ method ++
        " to '" ++ String.ofList url ++ "'")
    | some err => .ioException (err ++ " error for HTTP " ++ method ++ " to '" ++
        String.ofList url ++ "'")

/-- The variables that a request changes, the number of requests so far, and the result. -/
structure Ran (σ : Type) where
  requests : Nat
  state : σ
  result : Except Thrown HTTPResponse

section

variable {σ : Type} (request : Nat → σ → σ × Except Thrown Result) (url : Text) (method : String)

def requestRounds : (retriesLeft : Nat) → (n : Nat) → σ → Ran σ
  | retriesLeft, n, s =>
    match Round.ofResult (request n s).2 with
    | .error e => ⟨n + 1, (request n s).1, .error e⟩
    | .ok round =>
      if round.returns then ⟨n + 1, (request n s).1, .ok (.of round.response url)⟩
      else
        match retriesLeft with
        | 0 => ⟨n + 1, (request n s).1, .error (round.failure url method)⟩
        | retriesLeft + 1 => requestRounds retriesLeft (n + 1) (request n s).1

def runRequestWithRetry (n : Nat) (s : σ) : Ran σ :=
  requestRounds request url method defaultRetries n s

/-- The variables before the `i`-th request of a run. -/
def before (n : Nat) (s : σ) : Nat → σ
  | 0 => s
  | i + 1 => (request (n + i) (before n s i)).1

/-- After the `i`-th request another one is made, if there are retries left. -/
def Retried (n : Nat) (s : σ) (i : Nat) : Prop :=
  ∃ round, Round.ofResult (request (n + i) (before request n s i)).2 = .ok round ∧
    round.returns = false

theorem before_succ (n : Nat) (s : σ) (i : Nat) :
    before request (n + 1) (request n s).1 i = before request n s (i + 1) := by
  induction i with
  | zero => rfl
  | succ i ih =>
    show (request (n + 1 + i) (before request (n + 1) (request n s).1 i)).1 = _
    rw [ih, Nat.add_right_comm]
    rfl

theorem retried_succ {n : Nat} {s : σ} {i : Nat}
    (h : Retried request (n + 1) (request n s).1 i) : Retried request n s (i + 1) := by
  unfold Retried at h ⊢
  rw [before_succ, Nat.add_right_comm] at h
  exact h

variable {request url method}

theorem requestRounds_ok {retriesLeft n : Nat} {s : σ} {res : HTTPResponse}
    (h : (requestRounds request url method retriesLeft n s).result = .ok res) :
    ∃ k, k ≤ retriesLeft ∧ (∀ i, i < k → Retried request n s i) ∧
      (requestRounds request url method retriesLeft n s).requests = n + k + 1 ∧
      (requestRounds request url method retriesLeft n s).state = before request n s (k + 1) ∧
      ∃ round, Round.ofResult (request (n + k) (before request n s k)).2 = .ok round ∧
        round.returns = true ∧ res = .of round.response url := by
  induction retriesLeft generalizing n s with
  | zero =>
    unfold requestRounds at h ⊢
    cases hround : Round.ofResult (request n s).2 with
    | error e =>
      rw [hround] at h
      cases h
    | ok round =>
      rw [hround] at h
      simp only at h ⊢
      cases hreturns : round.returns with
      | false =>
        rw [hreturns] at h
        cases h
      | true =>
        rw [hreturns] at h
        exact ⟨0, Nat.le_refl 0, fun i hi => absurd hi (Nat.not_lt_zero i), rfl, rfl, round, hround,
          hreturns, (Except.ok.inj h).symm⟩
  | succ retriesLeft ih =>
    unfold requestRounds at h ⊢
    cases hround : Round.ofResult (request n s).2 with
    | error e =>
      rw [hround] at h
      cases h
    | ok round =>
      rw [hround] at h
      simp only at h ⊢
      cases hreturns : round.returns with
      | true =>
        rw [hreturns] at h
        exact ⟨0, Nat.zero_le _, fun i hi => absurd hi (Nat.not_lt_zero i), rfl, rfl, round, hround,
          hreturns, (Except.ok.inj h).symm⟩
      | false =>
        rw [hreturns] at h
        obtain ⟨k, hk, hretried, hrequests, hstate, round', hround', hlast⟩ := ih h
        refine ⟨k + 1, Nat.succ_le_succ hk, ?_, ?_, ?_, round', ?_, hlast⟩
        · intro i hi
          cases i with
          | zero => exact ⟨round, hround, hreturns⟩
          | succ i => exact retried_succ request (hretried i (Nat.lt_of_succ_lt_succ hi))
        · rw [if_neg Bool.false_ne_true, hrequests]
          omega
        · rw [if_neg Bool.false_ne_true, hstate, before_succ]
        · rw [before_succ, Nat.add_right_comm] at hround'
          exact hround'

theorem requestRounds_first {retriesLeft n : Nat} {s : σ} {round : Round}
    (hround : Round.ofResult (request n s).2 = .ok round) (hreturns : round.returns = true) :
    requestRounds request url method retriesLeft n s =
      ⟨n + 1, (request n s).1, .ok (.of round.response url)⟩ := by
  unfold requestRounds
  rw [hround]
  exact if_pos hreturns

theorem requestRounds_le (retriesLeft n : Nat) (s : σ) :
    n < (requestRounds request url method retriesLeft n s).requests ∧
      (requestRounds request url method retriesLeft n s).requests ≤ n + retriesLeft + 1 := by
  induction retriesLeft generalizing n s with
  | zero =>
    unfold requestRounds
    cases Round.ofResult (request n s).2 with
    | error e => exact ⟨Nat.lt_succ_self n, Nat.le_refl _⟩
    | ok round =>
      simp only
      split
      all_goals exact ⟨Nat.lt_succ_self n, Nat.le_refl _⟩
  | succ retriesLeft ih =>
    unfold requestRounds
    have hrest := ih (n + 1) (request n s).1
    have hfirst : n < n + 1 ∧ n + 1 ≤ n + (retriesLeft + 1) + 1 := by omega
    cases Round.ofResult (request n s).2 with
    | error e => exact hfirst
    | ok round =>
      simp only
      split
      · exact hfirst
      · omega

end

/-- A request is made again after a transport error and after the statuses in the list; an
`IOException` is not a reason, it leaves the status at zero. -/
theorem made_again {x : Except Thrown Result} {round : Round} (h : Round.ofResult x = .ok round)
    (hagain : round.returns = false) :
    (∃ err, x = .ok (.error err)) ∨
      ∃ res, x = .ok (.response res) ∧ res.head.status ∈ retryStatuses := by
  cases x with
  | error e =>
    cases e with
    | ioException msg =>
      cases h
      cases hagain
    | other what => cases h
  | ok result =>
    cases result with
    | error err => exact .inl ⟨err, rfl⟩
    | response res =>
      cases h
      unfold Round.returns at hagain
      simpa using hagain

end Ladybug.Requests
