import Ladybug.Base.Loops
import Ladybug.Httpfs.RangeRequests

/-!
# Requests that follow redirects (`httpfs/src/xetfs.cpp`)

A URL of the hub redirects to the place where the file is stored.  The redirects are followed by the file
system itself, and the last target of a URL is kept for some time.
-/

namespace Ladybug.Requests

def location : Text := "Location".toList

def linkedSize : Text := "x-linked-size".toList

/-- The path up to its last slash. -/
def basePath (hostPath : Text) : Text :=
  match (hostPath.reverse.dropWhile (· != '/')).reverse with
  | [] => ['/']
  | path => path

def makeAbsoluteRedirectURL (sourceURL location : Text) : Except Thrown Text :=
  if "http://".toList.isPrefixOf location || "https://".toList.isPrefixOf location then .ok location
  else
    match parseUrl sourceURL with
    | .error e => .error e
    | .ok (host, hostPath) =>
      if ['/'].isPrefixOf location then .ok (host ++ location)
      else .ok (host ++ basePath hostPath ++ location)

def HTTPResponse.isRedirect (response : HTTPResponse) : Bool :=
  decide (response.code ≥ 300) && decide (response.code < 400)

def synthesizeHeadResponse (response : HTTPResponse) (url size : Text) : HTTPResponse :=
  .of ⟨⟨200, "OK", (response.headers.filter fun header ↦ !sameName header.1 contentLength) ++
    [(contentLength, size)]⟩, []⟩ url

structure ResolvedTarget where
  targetUrl : Text
  expiresAt : Nat

abbrev ResolvedTargets := Text → Option ResolvedTarget

def resolveTargetTTL : Nat := 120

def takeMemoizedResolveTarget (now : Nat) (targets : ResolvedTargets) (url : Text) :
    Option Text × ResolvedTargets :=
  match targets url with
  | none => (none, targets)
  | some target =>
    if now < target.expiresAt then (some target.targetUrl, targets)
    else (none, Function.update targets url none)

def recordMemoizedResolveTarget (now : Nat) (targets : ResolvedTargets) (url target : Text) :
    ResolvedTargets :=
  Function.update targets url (some ⟨target, now + resolveTargetTTL⟩)

def evictMemoizedResolveTarget (targets : ResolvedTargets) (url : Text) : ResolvedTargets :=
  Function.update targets url none

/-- The servers, by the number of requests that were made before, and the time after them. -/
structure Network where
  serve : Nat → Sent → Exchange
  clock : Nat → Nat

def plainRequest {σ : Type} (net : Network) (sent : Sent) (n : Nat) (s : σ) :
    σ × Except Thrown Result := (s, .ok (net.serve n sent).result)

/-- The end of a HEAD request with its response; a redirect goes on with `next`. -/
def followHead (url : Text) (ran : Ran ResolvedTargets) (response : HTTPResponse)
    (next : Text → Option (Ran ResolvedTargets)) : Option (Ran ResolvedTargets) :=
  if response.isRedirect then
    match response.headers.last linkedSize with
    | some size => some { ran with result := .ok (synthesizeHeadResponse response url size) }
    | none =>
      match response.headers.last location with
      | none => some ran
      | some target =>
        match makeAbsoluteRedirectURL url target with
        | .error e => some { ran with result := .error e }
        | .ok redirectURL => next redirectURL
  else some ran

/-- `XetFileSystem::headRequest`, with at most the given number of hops. -/
def headRequest (net : Network) : (fuel : Nat) → (url : Text) → (n : Nat) → ResolvedTargets →
    Option (Ran ResolvedTargets)
  | 0, _, _, _ => none
  | fuel + 1, url, n, targets =>
    match parseUrl url with
    | .error e => some ⟨n, targets, .error e⟩
    | .ok (host, hostPath) =>
      let ran := runRequestWithRetry (plainRequest net ⟨host, hostPath, none⟩) url "HEAD" n targets
      match ran.result with
      | .error _ => some ran
      | .ok response =>
        followHead url ran response fun redirectURL =>
          headRequest net fuel redirectURL ran.requests
            (recordMemoizedResolveTarget (net.clock ran.requests) ran.state url redirectURL)

structure XetSink where
  targets : ResolvedTargets
  buffer : Option (List Cell)

def XetSink.record (s : XetSink) (now : Nat) (originalUrl url redirectURL : Text) : XetSink :=
  if url = originalUrl then
    { s with targets := recordMemoizedResolveTarget now s.targets originalUrl redirectURL }
  else s

/-- The end of `getRangeFollowingRedirects`, for a response that is not followed. -/
def storeRange (url : Text) (bufferLen : Nat) (response : HTTPResponse) (ran : Ran XetSink) :
    Ran XetSink :=
  if response.code ≥ 400 then
    { ran with result := .error (.ioException ("HTTP GET error on '" ++ String.ofList url ++ "' (HTTP " ++
      toString response.code ++ ")")) }
  else if response.code < 300 then
    if response.body.length ≠ bufferLen then
      { ran with result := .error (.ioException ("HTTP GET error: response body size " ++
        toString response.body.length ++ " does not match requested range size " ++
        toString bufferLen ++ ".")) }
    else { ran with state := { ran.state with
      buffer := ran.state.buffer.map fun buffer ↦ overwrite buffer 0 (ran.requests - 1) response.body } }
  else ran

def getRangeFollowingRedirects (net : Network) (originalUrl : Text) (fileOffset bufferLen : Nat) :
    (hopsLeft : Nat) → (url : Text) → (n : Nat) → XetSink → Ran XetSink
  | 0, url, n, s =>
    ⟨n, s, .error (.ioException
      ("Too many redirects while fetching range of '" ++ String.ofList url ++ "'"))⟩
  | hopsLeft + 1, url, n, s =>
    match parseUrl url with
    | .error e => ⟨n, s, .error e⟩
    | .ok (host, hostPath) =>
      let sent : Sent := ⟨host, hostPath, some (rangeHeader fileOffset bufferLen)⟩
      let ran := runRequestWithRetry (plainRequest net sent) url "GET Range" n s
      match ran.result with
      | .error _ => ran
      | .ok response =>
        match (if response.isRedirect then response.headers.last location else none) with
        | some target =>
          match makeAbsoluteRedirectURL url target with
          | .error e => { ran with result := .error e }
          | .ok redirectURL =>
            getRangeFollowingRedirects net originalUrl fileOffset bufferLen hopsLeft redirectURL
              ran.requests
              (ran.state.record (net.clock ran.requests) originalUrl url redirectURL)
        | none => storeRange url bufferLen response ran

def maxRedirects : Nat := 4

def xetGetRangeRequest (net : Network) (url : Text) (fileOffset : Nat) (buffer : Option (List Cell))
    (bufferLen n : Nat) (targets : ResolvedTargets) : Ran XetSink :=
  match takeMemoizedResolveTarget (net.clock n) targets url with
  | (none, targets) =>
    getRangeFollowingRedirects net url fileOffset bufferLen (maxRedirects + 1) url n ⟨targets, buffer⟩
  | (some memoizedTarget, targets) =>
    let ran := getRangeFollowingRedirects net url fileOffset bufferLen (2 + 1) memoizedTarget n
      ⟨targets, buffer⟩
    match ran.result with
    | .error (.ioException _) =>
      getRangeFollowingRedirects net url fileOffset bufferLen (maxRedirects + 1) url ran.requests
        { ran.state with targets := evictMemoizedResolveTarget ran.state.targets url }
    | _ => ran

section

variable {σ : Type} {net : Network} {sent : Sent} {url : Text} {method : String} {n : Nat} {s : σ}

theorem plainRequest_state : (runRequestWithRetry (plainRequest net sent) url method n s).state = s := by
  unfold runRequestWithRetry
  generalize defaultRetries = retriesLeft
  induction retriesLeft generalizing n with
  | zero =>
    unfold requestRounds
    split
    · rfl
    · split
      · rfl
      · rfl
  | succ retriesLeft ih =>
    unfold requestRounds
    split
    · rfl
    · split
      · rfl
      · exact ih

theorem plainRequest_requests : (runRequestWithRetry (plainRequest net sent) url method n s).requests
    ≤ n + (defaultRetries + 1) :=
  (requestRounds_le defaultRetries n s).2

theorem plainRequest_ok {response : HTTPResponse}
    (h : (runRequestWithRetry (plainRequest net sent) url method n s).result = .ok response) :
    ∃ k head chunks, (runRequestWithRetry (plainRequest net sent) url method n s).requests = k + 1 ∧
      net.serve k sent = .answered head chunks none ∧ response = .of ⟨head, chunks.flatten⟩ url := by
  obtain ⟨k, -, -, hrequests, -, round, hround, hreturns, rfl⟩ := requestRounds_ok h
  unfold plainRequest at hround
  cases hanswer : net.serve (n + k) sent with
  | unanswered err =>
    rw [hanswer] at hround
    cases hround
    cases hreturns
  | answered head chunks err =>
    rw [hanswer] at hround
    cases err with
    | some err =>
      cases hround
      cases hreturns
    | none =>
      cases hround
      exact ⟨n + k, head, chunks, hrequests, hanswer, rfl⟩

end

theorem record_buffer (s : XetSink) (now : Nat) (originalUrl url redirectURL : Text) :
    (s.record now originalUrl url redirectURL).buffer = s.buffer := by
  unfold XetSink.record
  split
  · rfl
  · rfl

theorem storeRange_requests (url : Text) (bufferLen : Nat) (response : HTTPResponse) (ran : Ran XetSink) :
    (storeRange url bufferLen response ran).requests = ran.requests := by
  unfold storeRange
  split
  · rfl
  · split
    · split
      · rfl
      · rfl
    · rfl

/-- What remains of a range: an error without a byte written, or the answer to the last request, written
to the buffer if it reports success. -/
def Stored (net : Network) (bufferLen : Nat) (buffer : Option (List Cell)) (ran : Ran XetSink) : Prop :=
  match ran.result with
  | .error _ => ran.state.buffer = buffer
  | .ok _ => ∃ k sent head chunks, ran.requests = k + 1 ∧ net.serve k sent = .answered head chunks none ∧
      ((head.status < 300 ∧ chunks.flatten.length = bufferLen ∧
          ran.state.buffer = buffer.map (overwrite · 0 k chunks.flatten)) ∨
        (300 ≤ head.status ∧ ran.state.buffer = buffer))

theorem storeRange_stored {net : Network} {url : Text} {bufferLen k : Nat} {sent : Sent} {head : Head}
    {chunks : List Bytes} {response : HTTPResponse} {ran : Ran XetSink} (hk : ran.requests = k + 1)
    (hanswer : net.serve k sent = .answered head chunks none) (hresult : ran.result = .ok response)
    (hcode : response.code = head.status) (hbody : response.body = chunks.flatten) :
    Stored net bufferLen ran.state.buffer (storeRange url bufferLen response ran) := by
  unfold storeRange
  rw [hcode, hbody]
  by_cases hclient : head.status ≥ 400
  · rw [if_pos hclient]
    rfl
  · rw [if_neg hclient]
    by_cases hsuccess : head.status < 300
    · rw [if_pos hsuccess]
      by_cases hlength : chunks.flatten.length = bufferLen
      · rw [if_neg (not_not_intro hlength)]
        simp only [hresult]
        refine ⟨k, sent, head, chunks, hk, hanswer, .inl ⟨hsuccess, hlength, ?_⟩⟩
        rw [hk]
        rfl
      · rw [if_pos hlength]
        rfl
    · rw [if_neg hsuccess]
      unfold Stored
      rw [hresult]
      exact ⟨k, sent, head, chunks, hk, hanswer, .inr ⟨Int.not_lt.mp hsuccess, rfl⟩⟩

section

variable (net : Network) (originalUrl : Text) (fileOffset bufferLen : Nat)

theorem getRangeFollowingRedirects_spec (hopsLeft : Nat) (url : Text) (n : Nat) (s : XetSink) :
    (getRangeFollowingRedirects net originalUrl fileOffset bufferLen hopsLeft url n s).requests
        ≤ n + (defaultRetries + 1) * hopsLeft ∧
      Stored net bufferLen s.buffer
        (getRangeFollowingRedirects net originalUrl fileOffset bufferLen hopsLeft url n s) := by
  induction hopsLeft generalizing url n s with
  | zero => exact ⟨Nat.le_refl n, rfl⟩
  | succ hopsLeft ih =>
    unfold getRangeFollowingRedirects
    cases parseUrl url with
    | error e => exact ⟨Nat.le_add_right _ _, rfl⟩
    | ok parsed =>
      obtain ⟨host, hostPath⟩ := parsed
      simp only
      generalize hsent : (⟨host, hostPath, some (rangeHeader fileOffset bufferLen)⟩ : Sent) = sent
      have hle : (runRequestWithRetry (plainRequest net sent) url "GET Range" n s).requests
          ≤ n + (defaultRetries + 1) := plainRequest_requests
      have hstate : (runRequestWithRetry (plainRequest net sent) url "GET Range" n s).state = s :=
        plainRequest_state
      have hok : ∀ response,
          (runRequestWithRetry (plainRequest net sent) url "GET Range" n s).result = .ok response →
          ∃ k head chunks,
            (runRequestWithRetry (plainRequest net sent) url "GET Range" n s).requests = k + 1 ∧
            net.serve k sent = .answered head chunks none ∧
            response = .of ⟨head, chunks.flatten⟩ url := fun _ h => plainRequest_ok h
      generalize runRequestWithRetry (plainRequest net sent) url "GET Range" n s = ran at *
      have hhop : ran.requests ≤ n + (defaultRetries + 1) * (hopsLeft + 1) := by
        rw [Nat.mul_succ]
        omega
      cases hresult : ran.result with
      | error e =>
        refine ⟨hhop, ?_⟩
        unfold Stored
        rw [hresult, ← hstate]
      | ok response =>
        obtain ⟨k, head, chunks, hk, hanswer, hresponse⟩ := hok response hresult
        simp only
        split
        · split
          · refine ⟨hhop, ?_⟩
            show ran.state.buffer = s.buffer
            rw [hstate]
          next redirectURL _ =>
            have hrest := ih redirectURL ran.requests
              (ran.state.record (net.clock ran.requests) originalUrl url redirectURL)
            rw [record_buffer, hstate] at hrest
            rw [hstate]
            refine ⟨?_, hrest.2⟩
            rw [Nat.mul_succ]
            omega
        · refine ⟨by rw [storeRange_requests]; exact hhop, ?_⟩
          rw [← hstate]
          exact storeRange_stored hk hanswer hresult (by rw [hresponse]; rfl)
            (by rw [hresponse]; rfl)

theorem xetGetRangeRequest_spec (url : Text) (buffer : Option (List Cell)) (n : Nat)
    (targets : ResolvedTargets) :
    (xetGetRangeRequest net url fileOffset buffer bufferLen n targets).requests ≤ n + 32 ∧
      Stored net bufferLen buffer (xetGetRangeRequest net url fileOffset buffer bufferLen n targets) := by
  unfold xetGetRangeRequest
  split
  next targets _ =>
    obtain ⟨hrequests, hstored⟩ := getRangeFollowingRedirects_spec net url fileOffset bufferLen
      (maxRedirects + 1) url n ⟨targets, buffer⟩
    have hbudget : (defaultRetries + 1) * (maxRedirects + 1) = 20 := rfl
    exact ⟨by omega, hstored⟩
  next memoizedTarget targets _ =>
    obtain ⟨hrequests, hstored⟩ := getRangeFollowingRedirects_spec net url fileOffset bufferLen
      (2 + 1) memoizedTarget n ⟨targets, buffer⟩
    have hbudget : (defaultRetries + 1) * (2 + 1) = 12 := rfl
    simp only
    generalize getRangeFollowingRedirects net url fileOffset bufferLen (2 + 1) memoizedTarget n
      ⟨targets, buffer⟩ = ran at *
    split
    next msg hresult =>
      unfold Stored at hstored
      rw [hresult] at hstored
      have hbuffer : ran.state.buffer = buffer := hstored
      obtain ⟨hrequests', hstored'⟩ := getRangeFollowingRedirects_spec net url fileOffset bufferLen
        (maxRedirects + 1) url ran.requests
        ⟨evictMemoizedResolveTarget ran.state.targets url, ran.state.buffer⟩
      have hbudget' : (defaultRetries + 1) * (maxRedirects + 1) = 20 := rfl
      refine ⟨by omega, ?_⟩
      rw [← hbuffer]
      exact hstored'
    next => exact ⟨by omega, hstored⟩

end

def FillsWhole (bufferLen : Nat) (answer : Exchange) : Prop :=
  answer.Successful ∧ answer.body.length = bufferLen

/-- The servers give these answers, whatever they are asked. -/
def Network.ofAnswers (answers : Nat → Exchange) (clock : Nat → Nat) : Network := ⟨fun n _ ↦ answers n, clock⟩

/-- After a range that returns, the buffer was filled from one full response just if the last one fills
it. -/
theorem stored_filled {answers : Nat → Exchange} {clock : Nat → Nat} {bytes : Bytes} {ran : Ran XetSink}
    {res : HTTPResponse} {k : Nat}
    (hstored : Stored (.ofAnswers answers clock) bytes.length (some (newBuffer bytes)) ran)
    (hok : ran.result = .ok res) (hk : ran.requests = k + 1) :
    ∃ buffer, ran.state.buffer = some buffer ∧ (FilledByOne answers bytes.length buffer ↔
        bytes.length = 0 ∨ FillsWhole bytes.length (answers k)) := by
  have hlen : (newBuffer bytes).length = bytes.length := List.length_map _
  unfold Stored at hstored
  rw [hok] at hstored
  obtain ⟨k', _, head, chunks, hk', hanswer, hcase⟩ := hstored
  have heq : k' = k := by omega
  subst heq
  have hanswer' : answers k' = .answered head chunks none := hanswer
  rcases hcase with ⟨hsuccess, hlength, hbuffer⟩ | ⟨hstatus, hbuffer⟩
  · have hin : 0 + chunks.flatten.length ≤ (newBuffer bytes).length := by omega
    refine ⟨_, hbuffer, ?_⟩
    constructor
    · rintro ⟨i, hi⟩
      by_cases hzero : bytes.length = 0
      · exact .inl hzero
      · obtain ⟨hsuccessful, byte, -, hcell⟩ := hi 0 (Nat.pos_of_ne_zero hzero)
        rw [overwrite_getElem? k' hin, if_neg (Nat.not_lt_zero 0), if_pos (by omega)] at hcell
        obtain ⟨_, -, hcell⟩ := Option.map_eq_some_iff.mp hcell
        cases hcell
        refine .inr ⟨hsuccessful, ?_⟩
        rw [hanswer']
        exact hlength
    · rintro (hzero | hfills)
      · refine ⟨0, fun j hj => ?_⟩
        omega
      · refine ⟨k', fun j hj => ⟨hfills.1, ?_⟩⟩
        have hj' : j < chunks.flatten.length := by omega
        refine ⟨chunks.flatten[j], ?_, ?_⟩
        · rw [hanswer']
          exact List.getElem?_eq_getElem hj'
        · rw [overwrite_getElem? k' hin, if_neg (Nat.not_lt_zero j), if_pos (by omega), Nat.sub_zero,
            List.getElem?_eq_getElem hj']
          rfl
  · refine ⟨_, hbuffer, ?_⟩
    constructor
    · rintro ⟨i, hi⟩
      by_cases hzero : bytes.length = 0
      · exact .inl hzero
      · obtain ⟨-, byte, -, hcell⟩ := hi 0 (Nat.pos_of_ne_zero hzero)
        have hlt := older_newBuffer bytes 0 _ i hcell rfl
        omega
    · rintro (hzero | hfills)
      · refine ⟨0, fun j hj => ?_⟩
        omega
      · have hsuccessful := hfills.1
        rw [hanswer'] at hsuccessful
        have hlt : head.status < 300 := hsuccessful.2
        omega

/-- Where a range request returns without an exception, the buffer was filled from one full response just
if the answer to the last request fills it: by chunks that have together the length of the buffer, behind
a head that announces no other length; and without receivers by its whole body. -/
theorem getRangeRequest_filled (answers : Nat → Exchange) (clock : Nat → Nat) (url : Text)
    (fileOffset : Nat) (bytes : Bytes) (targets : ResolvedTargets) :
    (∀ res k, (getRangeRequest (fun n _ ↦ answers n) url fileOffset (some bytes) bytes.length).result
        = .ok res →
      (getRangeRequest (fun n _ ↦ answers n) url fileOffset (some bytes) bytes.length).requests = k + 1 →
      ∃ buffer, (getRangeRequest (fun n _ => answers n) url fileOffset (some bytes)
          bytes.length).state.buffer = some buffer ∧
        (FilledByOne answers bytes.length buffer ↔ bytes.length = 0 ∨ Fills bytes.length (answers k))) ∧
    (∀ res k, (xetGetRangeRequest (.ofAnswers answers clock) url fileOffset (some (newBuffer bytes))
        bytes.length 0 targets).result = .ok res →
      (xetGetRangeRequest (.ofAnswers answers clock) url fileOffset (some (newBuffer bytes))
        bytes.length 0 targets).requests = k + 1 →
      ∃ buffer, (xetGetRangeRequest (.ofAnswers answers clock) url fileOffset (some (newBuffer bytes))
          bytes.length 0 targets).state.buffer = some buffer ∧
        (FilledByOne answers bytes.length buffer ↔
          bytes.length = 0 ∨ FillsWhole bytes.length (answers k))) := by
  constructor
  · intro res k hok hk
    unfold getRangeRequest at hok hk ⊢
    cases hurl : parseUrl url with
    | error e =>
      rw [hurl] at hok
      cases hok
    | ok parsed =>
      rw [hurl] at hok hk
      apply rangeRequests_filled _ hok hk
      exact ⟨newBuffer bytes, rfl, List.length_map _, Nat.zero_le _, older_newBuffer bytes⟩
  · intro res k hok hk
    exact stored_filled (xetGetRangeRequest_spec _ fileOffset bytes.length url _ 0 targets).2 hok hk

def exampleUrl : Text := "https://h/f".toList

/-- The same response to every request. -/
def always (status : Int) (chunks : List Bytes) : Nat → Exchange :=
  fun _ ↦ .answered ⟨status, "", []⟩ chunks none

/-- A response with an error, a body that is too short and a redirect without a target: nothing is thrown,
and a byte of the buffer has not been written. -/
theorem unwritten_bytes :
    (∃ res buffer, (getRangeRequest (fun n _ ↦ always 404 [] n) exampleUrl 0 (some [0]) 1).result = .ok res ∧
      (getRangeRequest (fun n _ ↦ always 404 [] n) exampleUrl 0 (some [0]) 1).state.buffer = some buffer ∧
      ¬ FilledByOne (always 404 []) 1 buffer) ∧
    (∃ res buffer, (getRangeRequest (fun n _ ↦ always 200 [[7]] n) exampleUrl 0 (some [0, 0]) 2).result
        = .ok res ∧
      (getRangeRequest (fun n _ => always 200 [[7]] n) exampleUrl 0 (some [0, 0]) 2).state.buffer
        = some buffer ∧ ¬ FilledByOne (always 200 [[7]]) 2 buffer) ∧
    (∃ res buffer, (xetGetRangeRequest (.ofAnswers (always 304 []) id) exampleUrl 0 (some (newBuffer [0])) 1 0
        fun _ => none).result = .ok res ∧
      (xetGetRangeRequest (.ofAnswers (always 304 []) id) exampleUrl 0 (some (newBuffer [0])) 1 0
        fun _ => none).state.buffer = some buffer ∧ ¬ FilledByOne (always 304 []) 1 buffer) := by
  refine ⟨⟨_, [⟨0, none⟩], rfl, rfl, ?_⟩, ⟨_, [⟨7, some 0⟩, ⟨0, none⟩], rfl, rfl, ?_⟩,
    ⟨_, [⟨0, none⟩], rfl, rfl, ?_⟩⟩
  · rintro ⟨i, hi⟩
    obtain ⟨-, byte, -, hcell⟩ := hi 0 (by decide)
    cases hcell
  · rintro ⟨i, hi⟩
    obtain ⟨-, byte, -, hcell⟩ := hi 1 (by decide)
    cases hcell
  · rintro ⟨i, hi⟩
    obtain ⟨-, byte, -, hcell⟩ := hi 0 (by decide)
    cases hcell

theorem getRangeRequest_filled_two :
    (∃ buffer, (getRangeRequest (fun n _ ↦ always 206 [[7], [8]] n) exampleUrl 0 (some [0, 0]) 2).state.buffer
        = some buffer ∧
      (FilledByOne (always 206 [[7], [8]]) 2 buffer ↔ 2 = 0 ∨ Fills 2 (always 206 [[7], [8]] 0))) ∧
    (∃ buffer, (xetGetRangeRequest (.ofAnswers (always 206 [[7], [8]]) id) exampleUrl 0
        (some (newBuffer [0, 0])) 2 0 fun _ => none).state.buffer = some buffer ∧
      (FilledByOne (always 206 [[7], [8]]) 2 buffer ↔ 2 = 0 ∨ FillsWhole 2 (always 206 [[7], [8]] 0))) := by
  have h := getRangeRequest_filled (always 206 [[7], [8]]) id exampleUrl 0 [0, 0] fun _ => none
  exact ⟨h.1 _ 0 rfl rfl, h.2 _ 0 rfl rfl⟩

end Ladybug.Requests
