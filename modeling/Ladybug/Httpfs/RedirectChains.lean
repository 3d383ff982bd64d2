import Ladybug.Httpfs.XetRequests

/-!
# Following redirects to their end (`httpfs/src/xetfs.cpp`)

A range request follows a fixed number of redirects.  A HEAD request follows every one that it is given, so
it ends just where the redirects do.
-/

namespace Ladybug.Requests

/-- A server that answers by the URL alone. -/
def Network.ofServer (server : Text → Exchange) (clock : Nat → Nat) : Network :=
  ⟨fun _ sent => server (sent.host ++ sent.hostPath), clock⟩

def redirectTarget (url : Text) (response : HTTPResponse) : Option Text :=
  if response.isRedirect && (response.headers.last linkedSize).isNone then
    (response.headers.last location).bind fun target ↦ (makeAbsoluteRedirectURL url target).toOption
  else none

def redirectOf (server : Text → Exchange) (url : Text) : Option Text :=
  match parseUrl url with
  | .error _ => none
  | .ok _ =>
    match (server url).result with
    | .error _ => none
    | .response res => redirectTarget url (.of res url)

def chain (server : Text → Exchange) (url : Text) : Nat → Option Text
  | 0 => some url
  | n + 1 => (chain server url n).bind (redirectOf server)

variable {server : Text → Exchange} {url host hostPath : Text} {clock : Nat → Nat}

theorem chain_succ {target : Text} (h : redirectOf server url = some target) (n : Nat) :
    chain server url (n + 1) = chain server target n := by
  induction n with
  | zero => exact h
  | succ n ih =>
    show (chain server url (n + 1)).bind (redirectOf server) = _
    rw [ih]
    rfl

theorem parseUrl_append (h : parseUrl url = .ok (host, hostPath)) : host ++ hostPath = url := by
  unfold parseUrl at h
  split at h
  · cases h
  · split at h
    · cases h
    · cases h
      exact List.take_append_drop _ url

theorem headRequest_succ {net : Network} {n m : Nat} {targets s : ResolvedTargets}
    {response : HTTPResponse} (hurl : parseUrl url = .ok (host, hostPath))
    (hran : runRequestWithRetry (plainRequest net ⟨host, hostPath, none⟩) url "HEAD" n targets
      = ⟨m, s, .ok response⟩) (fuel : Nat) :
    headRequest net (fuel + 1) url n targets =
      followHead url ⟨m, s, .ok response⟩ response fun redirectURL =>
        headRequest net fuel redirectURL m (recordMemoizedResolveTarget (net.clock m) s url redirectURL) := by
  conv_lhs => unfold headRequest
  rw [hurl]
  simp only [hran]

theorem followHead_cases (url : Text) (ran : Ran ResolvedTargets) (response : HTTPResponse) :
    (redirectTarget url response = none ∧
      ∃ ran', ∀ next, followHead url ran response next = some ran') ∨
    ∃ target, redirectTarget url response = some target ∧
      ∀ next, followHead url ran response next = next target := by
  unfold redirectTarget followHead
  cases response.isRedirect with
  | false => exact .inl ⟨rfl, ran, fun _ => rfl⟩
  | true =>
    cases response.headers.last linkedSize with
    | some size => exact .inl ⟨rfl, _, fun _ => rfl⟩
    | none =>
      cases response.headers.last location with
      | none => exact .inl ⟨rfl, ran, fun _ => rfl⟩
      | some target =>
        simp only [Option.isNone_none, Bool.and_self, if_true, Option.bind_some]
        cases makeAbsoluteRedirectURL url target with
        | error e => exact .inl ⟨rfl, _, fun _ => rfl⟩
        | ok redirectURL => exact .inr ⟨redirectURL, rfl, fun _ => rfl⟩

section

variable {server : Text → Exchange} (clock : Nat → Nat) {url : Text}

/-- The requests to one URL end with its response, or with an error if that is no response to return. -/
theorem serverRequests {host hostPath : Text} (h : parseUrl url = .ok (host, hostPath)) (n : Nat)
    (targets : ResolvedTargets) :
    (∃ res, (server url).result = .response res ∧
      runRequestWithRetry (plainRequest (.ofServer server clock) ⟨host, hostPath, none⟩) url "HEAD" n targets
        = ⟨n + 1, targets, .ok (.of res url)⟩) ∨
    ((∀ res, (server url).result = .response res → res.head.status ∈ retryStatuses) ∧
      ∃ ran e, runRequestWithRetry (plainRequest (.ofServer server clock) ⟨host, hostPath, none⟩) url "HEAD" n
        targets = ran ∧ ran.result = .error e) := by
  have hanswer : ∀ n (s : ResolvedTargets), plainRequest (.ofServer server clock) ⟨host, hostPath, none⟩ n s
      = (s, .ok (server url).result) := by
    intro n s
    rw [← parseUrl_append h]
    rfl
  by_cases hreturns : ∃ round, Round.ofResult (.ok (server url).result) = .ok round ∧ round.returns = true
  · obtain ⟨round, hround, hreturns⟩ := hreturns
    left
    cases hresult : (server url).result with
    | error err =>
      rw [hresult] at hround
      cases hround
      cases hreturns
    | response res =>
      refine ⟨res, rfl, ?_⟩
      unfold runRequestWithRetry
      have hfirst : Round.ofResult (plainRequest (.ofServer server clock) ⟨host, hostPath, none⟩ n
          targets).2 = .ok round := by
        rw [hanswer]
        exact hround
      rw [requestRounds_first hfirst hreturns, hanswer]
      rw [hresult] at hround
      cases hround
      rfl
  · right
    constructor
    · intro res hres
      by_contra hstatus
      apply hreturns
      refine ⟨⟨none, none, res.head.status, res⟩, by rw [hres]; rfl, ?_⟩
      unfold Round.returns
      simpa using hstatus
    · cases hresult : (runRequestWithRetry (plainRequest (.ofServer server clock) ⟨host, hostPath, none⟩) url
          "HEAD" n targets).result with
      | error e => exact ⟨_, e, rfl, hresult⟩
      | ok response =>
        obtain ⟨k, -, -, -, -, round, hround, hround', -⟩ := requestRounds_ok hresult
        rw [hanswer] at hround
        exact absurd ⟨round, hround, hround'⟩ hreturns

theorem headRequest_hop (server : Text → Exchange) (clock : Nat → Nat) (url : Text) (n : Nat)
    (targets : ResolvedTargets) :
    (redirectOf server url = none ∧
      ∃ ran, ∀ fuel, headRequest (.ofServer server clock) (fuel + 1) url n targets = some ran) ∨
    ∃ target n' targets', redirectOf server url = some target ∧
      ∀ fuel, headRequest (.ofServer server clock) (fuel + 1) url n targets
        = headRequest (.ofServer server clock) fuel target n' targets' := by
  cases hurl : parseUrl url with
  | error e =>
    refine .inl ⟨by unfold redirectOf; rw [hurl], ⟨n, targets, .error e⟩, fun fuel => ?_⟩
    unfold headRequest
    rw [hurl]
  | ok parsed =>
    rcases serverRequests clock hurl n targets with ⟨res, hres, hran⟩ | ⟨hretry, ran, e, hran, he⟩
    · have hof : redirectOf server url = redirectTarget url (.of res url) := by
        unfold redirectOf
        rw [hurl, hres]
      rw [hof]
      rcases followHead_cases url ⟨n + 1, targets, .ok (.of res url)⟩ (.of res url) with
        ⟨hnone, ran, hend⟩ | ⟨target, hsome, hnext⟩
      · exact .inl ⟨hnone, ran, fun fuel => by rw [headRequest_succ hurl hran, hend]⟩
      · exact .inr ⟨target, _, _, hsome, fun fuel => by rw [headRequest_succ hurl hran, hnext]⟩
    · refine .inl ⟨?_, ran, fun fuel => ?_⟩
      · unfold redirectOf
        rw [hurl]
        cases hresult : (server url).result with
        | error err => rfl
        | response res =>
          -- a status that is tried again is no redirect
          have hstatus := hretry res hresult
          have hno : (HTTPResponse.of res url).isRedirect = false := by
            unfold retryStatuses at hstatus
            simp only [List.mem_cons, List.not_mem_nil, or_false] at hstatus
            show (decide (res.head.status ≥ 300) && decide (res.head.status < 400)) = false
            rw [Bool.and_eq_false_iff, decide_eq_false_iff_not, decide_eq_false_iff_not]
            omega
          show redirectTarget url (.of res url) = none
          unfold redirectTarget
          rw [hno]
          rfl
      · unfold headRequest
        rw [hurl]
        simp only [hran, he]

end

def RedirectsEnd (server : Text → Exchange) (url : Text) : Prop := ∃ n, chain server url n = none

theorem headRequest_halts {k : Nat} :
    ∀ {url : Text} {n : Nat} {targets : ResolvedTargets}, chain server url k = none →
      ∃ ran, Halts (fun fuel => headRequest (.ofServer server clock) fuel url n targets) ran := by
  induction k with
  | zero => exact fun h => nomatch h
  | succ k ih =>
    intro url n targets h
    rcases headRequest_hop server clock url n targets with ⟨-, ran, hran⟩ | ⟨target, n', targets', hredirect, hnext⟩
    · refine ⟨ran, 1, fun fuel hfuel => ?_⟩
      obtain ⟨fuel, rfl⟩ := Nat.exists_eq_add_of_le' hfuel
      exact hran fuel
    · rw [chain_succ hredirect] at h
      obtain ⟨ran, m, hran⟩ := @ih target n' targets' h
      refine ⟨ran, m + 1, fun fuel hfuel => ?_⟩
      obtain ⟨fuel, rfl⟩ := Nat.exists_eq_add_of_le' (show 1 ≤ fuel by omega)
      show headRequest (.ofServer server clock) (fuel + 1) url n targets = some ran
      rw [hnext]
      exact hran fuel (by omega)

theorem headRequest_some {fuel : Nat} :
    ∀ {url : Text} {n : Nat} {targets : ResolvedTargets} {ran : Ran ResolvedTargets},
      headRequest (.ofServer server clock) fuel url n targets = some ran → RedirectsEnd server url := by
  induction fuel with
  | zero => exact fun h => nomatch h
  | succ fuel ih =>
    intro url n targets ran h
    rcases headRequest_hop server clock url n targets with ⟨hnone, -⟩ | ⟨target, n', targets', hredirect, hnext⟩
    · exact ⟨1, hnone⟩
    · rw [hnext] at h
      obtain ⟨m, hm⟩ := ih h
      exact ⟨m + 1, by rw [chain_succ hredirect, hm]⟩

/-- A range request makes at most 32 requests, whatever the servers answer; a HEAD request ends just if
the redirects from its URL do. -/
theorem redirects_followed (server : Text → Exchange) (clock : Nat → Nat) (url : Text) (n : Nat)
    (targets : ResolvedTargets) :
    (∀ fileOffset bufferLen buffer, (xetGetRangeRequest (.ofServer server clock) url fileOffset buffer bufferLen n
      targets).requests ≤ n + 32) ∧
    ((∃ ran, Halts (fun fuel => headRequest (.ofServer server clock) fuel url n targets) ran) ↔
      RedirectsEnd server url) := by
  refine ⟨fun fileOffset bufferLen buffer =>
    (xetGetRangeRequest_spec _ fileOffset bufferLen url buffer n targets).1, ?_⟩
  constructor
  · rintro ⟨ran, k, hran⟩
    exact headRequest_some (hran k (Nat.le_refl k))
  · rintro ⟨k, hk⟩
    exact headRequest_halts hk

def firstUrl : Text := "https://a/x".toList

def secondUrl : Text := "https://b/x".toList

def redirectingServer (url : Text) : Exchange :=
  .answered ⟨302, "Found", [(location, if url = firstUrl then secondUrl else firstUrl)]⟩ [] none

theorem redirects_for_ever (n : Nat) :
    chain redirectingServer firstUrl n = some firstUrl ∨ chain redirectingServer firstUrl n = some secondUrl := by
  induction n with
  | zero => exact .inl rfl
  | succ n ih =>
    show (chain redirectingServer firstUrl n).bind (redirectOf redirectingServer) = _ ∨
      (chain redirectingServer firstUrl n).bind (redirectOf redirectingServer) = _
    rcases ih with h | h
    · rw [h]
      exact .inr (by decide)
    · rw [h]
      exact .inl (by decide)

theorem head_request_never_ends (clock : Nat → Nat) (targets : ResolvedTargets) :
    Diverges (fun fuel ↦ headRequest (.ofServer redirectingServer clock) fuel firstUrl 0 targets) := by
  intro fuel
  show headRequest (.ofServer redirectingServer clock) fuel firstUrl 0 targets = none
  cases h : headRequest (.ofServer redirectingServer clock) fuel firstUrl 0 targets with
  | none => rfl
  | some ran =>
    obtain ⟨n, hn⟩ := headRequest_some h
    rcases redirects_for_ever n with hchain | hchain
    all_goals
      rw [hn] at hchain
      cases hchain

/-- The request is sent from one host to the other for ever. -/
theorem head_request_of_cycle :
    Diverges (fun fuel ↦ headRequest (.ofServer redirectingServer id) fuel firstUrl 0 fun _ ↦ none) :=
  head_request_never_ends id fun _ => none

end Ladybug.Requests
