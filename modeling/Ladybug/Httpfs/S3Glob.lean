import Ladybug.Httpfs.S3Likes
import Ladybug.Httpfs.S3Pages
import Mathlib.Data.List.TakeWhile
import Mathlib.Data.List.Nodup

/-!
# Globs over a bucket (`httpfs/src/s3fs.cpp`, `S3FileSystem::glob`)

The server is asked for the keys that begin with the text in front of the first wildcard.  The
segments of these keys are then matched one by one.
-/

namespace Ladybug.S3Glob

open Markup Globs List

/-! ## 1. `glob` -/

def commonPages (client : Client) (config : S3FileSystemConfig) (params : S3AuthParams)
    (fuel : Nat) (prefixPath : Bytes) :
    Nat → Bytes → List Bytes → List Bytes → Except Stop (List Bytes × List Bytes)
  | 0, _, _, _ => .error .diverged
  | rounds + 1, commonPrefixContinuationToken, commonPrefixes, s3Keys => do
      let prefixRequest ← request client config params prefixPath commonPrefixContinuationToken
      let s3Keys ← parseKey prefixRequest fuel 0 s3Keys
      let commonPrefixesToInsert ← parseCommonPrefix prefixRequest fuel 0 []
      let commonPrefixContinuationToken ← parseContinuationToken prefixRequest
      if commonPrefixContinuationToken.isEmpty then
        .ok (commonPrefixes ++ commonPrefixesToInsert, s3Keys)
      else
        commonPages client config params fuel prefixPath rounds commonPrefixContinuationToken
          (commonPrefixes ++ commonPrefixesToInsert) s3Keys

def commonLoop (client : Client) (config : S3FileSystemConfig) (params : S3AuthParams)
    (fuel : Nat) (parsedS3URL : ParsedS3URL) :
    Nat → List Bytes → List Bytes → Except Stop (List Bytes)
  | 0, _, _ => .error .diverged
  | rounds + 1, commonPrefixes, s3Keys =>
    match commonPrefixes.getLast? with
    | none => .ok s3Keys
    | some last => do
        let prefixPath := parsedS3URL.urlPrefix ++ parsedS3URL.bucket ++ ascii "/" ++ last
        let found ← commonPages client config params fuel prefixPath fuel []
          commonPrefixes.dropLast s3Keys
        commonLoop client config params fuel parsedS3URL rounds found.1 found.2

def listLoop (client : Client) (config : S3FileSystemConfig) (params : S3AuthParams)
    (fuel : Nat) (parsedS3URL : ParsedS3URL) (sharedPath : Bytes) :
    Nat → Bytes → List Bytes → Except Stop (List Bytes)
  | 0, _, _ => .error .diverged
  | rounds + 1, mainContinuationToken, s3Keys => do
      let response ← request client config params sharedPath mainContinuationToken
      let mainContinuationToken ← parseContinuationToken response
      let s3Keys ← parseKey response fuel 0 s3Keys
      let commonPrefixes ← parseCommonPrefix response fuel 0 []
      let s3Keys ← commonLoop client config params fuel parsedS3URL fuel commonPrefixes s3Keys
      if mainContinuationToken.isEmpty then .ok s3Keys
      else
        listLoop client config params fuel parsedS3URL sharedPath rounds mainContinuationToken
          s3Keys

def glob (client : Client) (config : S3FileSystemConfig) (params : S3AuthParams) (path : Bytes)
    (fuel : Nat) : Except Stop (List Bytes) := do
  let parsedS3URL ← parseS3URL config params path
  let parsedGlobURL := parsedS3URL.trimmedS3URL
  match parsedGlobURL.findIdx? (fun c => decide (c ∈ wildcards)) with
  | none => .ok [path]
  | some firstWildcardPos => do
      let sharedPath := parsedGlobURL.take firstWildcardPos
      let s3Keys ← listLoop client config params fuel parsedS3URL sharedPath fuel [] []
      let trimmedPattern ← keyOfPath params parsedS3URL
      let patternSplits := client.split trimmedPattern (ascii "/")
      let matched := s3Keys.filter fun s3Key =>
        matchSegments (client.split s3Key (ascii "/")) patternSplits
      .ok (matched.map fun s3Key =>
        parsedS3URL.urlPrefix ++ parsedS3URL.bucket ++ ascii "/" ++ s3Key)

/-! ## 2. The bucket -/

/-- The server lists the objects of the bucket whose keys begin with the text that it is asked
for, each once. -/
structure Serves (client : Client) (params : S3AuthParams) (bucket : Bucket)
    (objects : List Bytes) : Prop where
  distinct : objects.Nodup
  pages : ∀ start : Bytes, Lists (fun token => client.get (protoOf params ++ hostOf params bucket)
      (listObjectV2URL client params bucket.name start token)) []
      (objects.filter fun key => decide (start <+: key))

def literalPart (pattern : Bytes) : Bytes :=
  (beforeQuery pattern).takeWhile fun c => decide (c ∉ wildcards)

def HasWildcard (pattern : Bytes) : Prop := ∃ c ∈ beforeQuery pattern, c ∈ wildcards

/-- What a glob is to find. -/
structure Selected (client : Client) (pattern key : Bytes) : Prop where
  object : key.getLast? ≠ some slash
  literal : literalPart pattern <+: key
  segments : PathMatches (client.split (keyPart pattern) (ascii "/"))
    (client.split key (ascii "/"))

/-! ## 3. The requests -/

theorem keyOfPath_parsed (urlPrefix : String) (params : S3AuthParams) (bucket : Bucket)
    (text : Bytes) :
    keyOfPath params (parsedObject urlPrefix params bucket text) = .ok (keyPart text) := by
  unfold keyOfPath parsedObject pathStart substr
  by_cases hstyle : params.urlStyle = ascii "path"
  · simp only [if_pos hstyle, bind, Except.bind]
    show (if bucket.name.length + 1 ≤ (bucket.name ++ slash :: keyPart text).length then
      Except.ok ((bucket.name ++ slash :: keyPart text).drop (bucket.name.length + 1))
      else Except.error Stop.outOfRange) = _
    rw [if_pos (by simp), ← drop_drop, drop_left]
    rfl
  · simp only [if_neg hstyle, bind, Except.bind]
    rfl

section

variable {client : Client} {config : S3FileSystemConfig} {params : S3AuthParams}
  {urlPrefix : String} {bucket : Bucket}

theorem request_object (hconfig : config ∈ getAvailableConfigs)
    (hurlPrefix : urlPrefix ∈ config.prefixes) (text token : Bytes) :
    request client config params (objectURL urlPrefix bucket text) token
      = client.get (protoOf params ++ hostOf params bucket)
          (listObjectV2URL client params bucket.name (keyPart text) token) := by
  unfold request
  rw [parseS3URL_object hconfig hurlPrefix]
  simp only [bind, Except.bind]
  rw [keyOfPath_parsed]
  rfl

theorem commonLoop_nil (fuel rounds : Nat) (parsedS3URL : ParsedS3URL) (s3Keys : List Bytes) :
    commonLoop client config params fuel parsedS3URL (rounds + 1) [] s3Keys = .ok s3Keys := rfl

theorem listLoop_lists (parsedS3URL : ParsedS3URL) {sharedPath : Bytes}
    {answer : Bytes → Except Stop Bytes}
    (hanswer : ∀ token, request client config params sharedPath token = answer token)
    {token : Bytes} {keys : List Bytes} (h : Lists answer token keys) :
    ∃ k, ∀ fuel rounds, k ≤ fuel → k ≤ rounds → ∀ s3Keys,
      listLoop client config params fuel parsedS3URL sharedPath rounds token s3Keys
        = .ok (s3Keys ++ objectKeys keys) := by
  induction h with
  | @last token page htext hnext =>
    refine ⟨page.items.length + 1, fun fuel rounds hfuel hrounds s3Keys => ?_⟩
    obtain ⟨rounds, rfl⟩ := Nat.exists_eq_add_of_le' (show 1 ≤ rounds by omega)
    obtain ⟨f, rfl⟩ := Nat.exists_eq_add_of_le' (show 1 ≤ fuel by omega)
    unfold listLoop
    simp only [bind, Except.bind]
    rw [hanswer, htext]
    simp only
    rw [page.parseToken, page.parseKey (by omega), page.parseCommon]
    simp only [commonLoop_nil, hnext]
    rfl
  | @more token keys page htext hnext _ ih =>
    obtain ⟨k, hk⟩ := ih
    refine ⟨max k page.items.length + 1, fun fuel rounds hfuel hrounds s3Keys => ?_⟩
    obtain ⟨rounds, rfl⟩ := Nat.exists_eq_add_of_le' (show 1 ≤ rounds by omega)
    obtain ⟨f, rfl⟩ := Nat.exists_eq_add_of_le' (show 1 ≤ fuel by omega)
    unfold listLoop
    simp only [bind, Except.bind]
    rw [hanswer, htext]
    simp only
    rw [page.parseToken, page.parseKey (by omega), page.parseCommon]
    have hmore : page.next.isEmpty = false := isEmpty_eq_false_iff.mpr hnext
    simp only [commonLoop_nil, hmore, Bool.false_eq_true, if_false]
    rw [hk (f + 1) rounds (by omega) (by omega)]
    unfold objectKeys
    rw [filter_append, append_assoc]

/-! ## 4. Where the wildcards begin -/

theorem no_wildcard_before {scheme : Bytes} (h : IsScheme urlPrefix scheme) :
    ∀ c ∈ ascii urlPrefix ++ (bucket.name ++ [slash]), c ∉ wildcards := by
  intro c hc
  rw [h.slashes] at hc
  simp only [mem_append, mem_singleton] at hc
  rcases hc with (hc | hc) | hc | rfl
  · exact (h.plain c hc).2.2
  · have hslashes : ∀ c ∈ ascii "//", c ∉ wildcards := by decide +kernel
    exact hslashes c hc
  · exact (bucket.plain c hc).2.2
  · decide

theorem findIdx_wildcard {front : Bytes} (hfront : ∀ c ∈ front, c ∉ wildcards) (text : Bytes) :
    (front ++ text).findIdx? (fun c => decide (c ∈ wildcards))
      = (text.findIdx? fun c => decide (c ∈ wildcards)).map (front.length + ·) := by
  have hnone : front.findIdx? (fun c => decide (c ∈ wildcards)) = none := by
    rw [findIdx?_eq_none_iff]
    exact fun c hc => decide_eq_false (hfront c hc)
  rw [findIdx?_append, hnone, Option.none_or]
  congr 1
  funext n
  exact Nat.add_comm n front.length

theorem take_findIdx {text : Bytes} {pos : Nat}
    (h : text.findIdx? (fun c => decide (c ∈ wildcards)) = some pos) :
    text.take pos = text.takeWhile fun c => decide (c ∉ wildcards) := by
  induction text generalizing pos with
  | nil => cases h
  | cons c text ih =>
    rw [findIdx?_cons] at h
    by_cases hc : c ∈ wildcards
    · rw [decide_eq_true hc] at h
      cases h
      rw [takeWhile_cons_of_neg (by simpa using hc)]
      rfl
    · rw [decide_eq_false hc] at h
      obtain ⟨n, hn, rfl⟩ := Option.map_eq_some_iff.mp h
      rw [takeWhile_cons_of_pos (by simpa using hc), take_succ_cons, ih hn]

variable {pattern : Bytes} {c : UInt8} {objects : List Bytes}

theorem mem_literalPart (hc : c ∈ literalPart pattern) :
    c ≠ questionMark ∧ c ∉ wildcards ∧ c ∉ special := by
  have hbefore : c ∈ pattern.takeWhile (· != questionMark) := ( takeWhile_prefix _).subset hc
  have hquery := mem_takeWhile_imp hbefore
  have hne : c ≠ questionMark := bne_iff_ne.mp hquery
  have hdecide := mem_takeWhile_imp (show c ∈ (beforeQuery pattern).takeWhile _ from hc)
  have hwild : c ∉ wildcards := of_decide_eq_true hdecide
  refine ⟨hne, hwild, fun hspecial => ?_⟩
  have hall : ∀ c ∈ special, c = questionMark ∨ c ∈ wildcards := by decide +kernel
  rcases hall c hspecial with heq | hin
  · exact hne heq
  · exact hwild hin

theorem keyPart_literal (pattern : Bytes) : keyPart (literalPart pattern) = literalPart pattern := by
  have hquery : queryOf (literalPart pattern) = [] := by
    unfold queryOf
    rw [dropWhile_eq_nil_iff.mpr fun c hc => bne_iff_ne.mpr (mem_literalPart hc).1]
    rfl
  unfold keyPart
  rw [hquery]
  rfl

theorem objectURL_append (text : Bytes) :
    ascii urlPrefix ++ bucket.name ++ ascii "/" ++ text = objectURL urlPrefix bucket text := by
  simp only [append_assoc]
  rfl

section

variable (hconfig : config ∈ getAvailableConfigs) (hurlPrefix : urlPrefix ∈ config.prefixes)

include hconfig hurlPrefix

theorem glob_lists (hserves : Serves client params bucket objects) (hwild : HasWildcard pattern) :
    ∃ k, ∀ fuel, k ≤ fuel → glob client config params (objectURL urlPrefix bucket pattern) fuel
      = .ok (((objectKeys (objects.filter fun key => decide (literalPart pattern <+: key))).filter
          fun key ↦ matchSegments (client.split key (ascii "/"))
            (client.split (keyPart pattern) (ascii "/"))).map (objectURL urlPrefix bucket)) := by
  obtain ⟨scheme, hscheme⟩ := scheme_of_available hconfig hurlPrefix
  obtain ⟨c, hc, hcw⟩ := hwild
  -- the first wildcard of the URL is the pattern's
  obtain ⟨pos, hpos⟩ : ∃ pos,
      (beforeQuery pattern).findIdx? (fun c => decide (c ∈ wildcards)) = some pos := by
    apply Option.ne_none_iff_exists'.mp
    intro hnone
    have hfalse := List.findIdx?_eq_none_iff.mp hnone c hc
    rw [decide_eq_true hcw] at hfalse
    cases hfalse
  have hfind : (objectURL urlPrefix bucket (beforeQuery pattern)).findIdx?
      (fun c => decide (c ∈ wildcards))
      = some ((ascii urlPrefix ++ (bucket.name ++ [slash])).length + pos) := by
    rw [objectURL_eq, findIdx_wildcard (no_wildcard_before hscheme), hpos]
    rfl
  have hshared : (objectURL urlPrefix bucket (beforeQuery pattern)).take
      ((ascii urlPrefix ++ (bucket.name ++ [slash])).length + pos)
      = objectURL urlPrefix bucket (literalPart pattern) := by
    rw [objectURL_eq, take_length_add_append, take_findIdx hpos, objectURL_eq]
    rfl
  obtain ⟨k, hk⟩ := listLoop_lists (parsedObject urlPrefix params bucket pattern)
    (request_object hconfig hurlPrefix (literalPart pattern)) (by
      rw [keyPart_literal]
      exact hserves.pages (literalPart pattern))
  refine ⟨k, fun fuel hfuel => ?_⟩
  unfold glob
  rw [parseS3URL_object hconfig hurlPrefix]
  simp only [bind, Except.bind]
  rw [keyOfPath_parsed]
  simp only [parsedObject, hfind, hshared]
  have hlist := hk fuel fuel hfuel hfuel []
  rw [nil_append] at hlist
  simp only [parsedObject] at hlist
  rw [hlist]
  simp only [objectURL_append]

theorem glob_literal (hwild : ¬ HasWildcard pattern) (fuel : Nat) :
    glob client config params (objectURL urlPrefix bucket pattern) fuel
      = .ok [objectURL urlPrefix bucket pattern] := by
  obtain ⟨scheme, hscheme⟩ := scheme_of_available hconfig hurlPrefix
  have hnone : (beforeQuery pattern).findIdx? (fun c => decide (c ∈ wildcards)) = none := by
    rw [findIdx?_eq_none_iff]
    exact fun c hc => decide_eq_false fun hcw => hwild ⟨c, hc, hcw⟩
  have hfind : (objectURL urlPrefix bucket (beforeQuery pattern)).findIdx?
      (fun c => decide (c ∈ wildcards)) = none := by
    rw [objectURL_eq, findIdx_wildcard (no_wildcard_before hscheme), hnone]
    rfl
  unfold glob
  rw [parseS3URL_object hconfig hurlPrefix]
  simp only [bind, Except.bind, parsedObject, hfind]

end

theorem objectURL_injective : Function.Injective (objectURL urlPrefix bucket) := by
  intro text text' h
  rw [objectURL_eq, objectURL_eq] at h
  exact append_cancel_left h

theorem mem_matched {key : Bytes} :
    key ∈ (objectKeys (objects.filter fun key => decide (literalPart pattern <+: key))).filter
        (fun key ↦ matchSegments (client.split key (ascii "/"))
          (client.split (keyPart pattern) (ascii "/")))
      ↔ key ∈ objects ∧ Selected client pattern key := by
  unfold objectKeys
  simp only [mem_filter, decide_eq_true_eq, matchSegments_iff]
  constructor
  · rintro ⟨⟨⟨hin, hliteral⟩, hobject⟩, hsegments⟩
    exact ⟨hin, hobject, hliteral, hsegments⟩
  · rintro ⟨hin, hobject, hliteral, hsegments⟩
    exact ⟨⟨⟨hin, hliteral⟩, hobject⟩, hsegments⟩

theorem keyPart_of_no_query {text : Bytes} (h : queryOf text = []) : keyPart text = text := by
  unfold keyPart
  rw [h]
  rfl

/-! ## 5. Segments and the literal start -/

theorem splitOn_slash (text : Bytes) :
    (slash :: text).splitOn slash = [] :: text.splitOn slash := by
  unfold splitOn
  rw [splitOnP_cons_eq_if_modifyHead, if_pos (by simp)]

theorem splitOn_letter (hc : c ≠ slash) (text : Bytes) :
    (c :: text).splitOn slash = (text.splitOn slash).modifyHead (c :: ·) := by
  unfold splitOn
  rw [splitOnP_cons_eq_if_modifyHead, if_neg (by simpa using hc)]

theorem splitOn_ne_nil (text : Bytes) : text.splitOn slash ≠ [] :=
  splitOnP_ne_nil (· == slash) text

theorem nameMatches_letter (hc : c ∉ special) {name : Bytes}
    (h : NameMatches charLe (c :: pattern) name) :
    ∃ rest, name = c :: rest ∧ NameMatches charLe pattern rest := by
  cases name with
  | nil =>
    obtain ⟨parts, hparts, hm⟩ := h
    rw [nameParts_letter hc] at hparts
    obtain ⟨rest, _, rfl⟩ := Option.map_eq_some_iff.mp hparts
    exact absurd hm not_matches_one_nil
  | cons s rest =>
    unfold NameMatches at h
    rw [nameParts_letter hc, matches_one_part] at h
    exact ⟨rest, by rw [h.1], h.2⟩

theorem pathMatches_one {p : Bytes} (hp : p ≠ anySegments) (pattern : List Bytes) (k : Bytes)
    (key : List Bytes) :
    PathMatches (p :: pattern) (k :: key) ↔ NameMatches charLe p k ∧ PathMatches pattern key := by
  unfold PathMatches
  rw [pathParts, if_neg hp]
  exact matches_one_iff

theorem splitOn_cons (text : Bytes) : ∃ first others, text.splitOn slash = first :: others :=
  exists_cons_of_ne_nil (splitOn_ne_nil text)

theorem ne_anySegments (hc : c ∉ special) (first : Bytes) : c :: first ≠ anySegments := by
  intro heq
  have hstar : c = asterisk := (cons_eq_cons.mp heq).1
  exact hc (hstar ▸ by decide)

theorem literal_of_segments {literal key : Bytes} (hliteral : literal <+: pattern)
    (hplain : ∀ c ∈ literal, c ∉ special)
    (h : PathMatches (pattern.splitOn slash) (key.splitOn slash)) : literal <+: key := by
  induction literal generalizing pattern key with
  | nil => exact nil_prefix
  | cons c literal ih =>
    obtain ⟨rest, rfl⟩ := hliteral
    have hc := hplain c mem_cons_self
    have hplain' : ∀ c' ∈ literal, c' ∉ special :=
      fun c' hc' => hplain c' (mem_cons_of_mem c hc')
    rw [cons_append] at h
    by_cases hslash : c = slash
    · -- an empty segment of the pattern, and one of the key
      subst hslash
      rw [splitOn_slash] at h
      cases key with
      | nil =>
        have hrest := ((pathMatches_one (by decide) _ [] []).mp h).2
        exact absurd hrest (pathParts_needs (splitOn_ne_nil _))
      | cons k key =>
        by_cases hk : k = slash
        · subst hk
          have hrest := ((pathMatches_one (by decide) _ _ _).mp h).2
          exact cons_prefix_cons.mpr ⟨rfl, ih (prefix_append _ _) hplain' hrest⟩
        · obtain ⟨first, others, hkey⟩ := splitOn_cons key
          rw [splitOn_letter hk, hkey] at h
          have hname := ((pathMatches_one (by decide) _ (k :: first) others).mp h).1
          rw [nameMatches_nil] at hname
          cases hname
    · obtain ⟨first, others, hpattern⟩ := splitOn_cons (literal ++ rest)
      rw [splitOn_letter hslash, hpattern] at h
      change PathMatches ((c :: first) :: others) _ at h
      obtain ⟨seg, segs, hsegs⟩ := splitOn_cons key
      rw [hsegs, pathMatches_one (ne_anySegments hc first)] at h
      obtain ⟨seg', rfl, hname⟩ := nameMatches_letter hc h.1
      cases key with
      | nil => cases hsegs
      | cons k key =>
        have hk : k ≠ slash := by
          rintro rfl
          cases hsegs
        obtain ⟨seg'', segs', hkey⟩ := splitOn_cons key
        rw [splitOn_letter hk, hkey] at hsegs
        cases hsegs
        apply cons_prefix_cons.mpr
        refine ⟨rfl, ?_⟩
        cases literal with
        | nil => exact nil_prefix
        | cons c' literal =>
          have hc' := hplain' c' mem_cons_self
          have hfirst : first ≠ anySegments := by
            by_cases hslash' : c' = slash
            · subst hslash'
              cases hpattern
              decide
            · obtain ⟨first', others', hrest⟩ := splitOn_cons (literal ++ rest)
              rw [cons_append, splitOn_letter hslash', hrest] at hpattern
              cases hpattern
              exact ne_anySegments hc' first'
          apply ih (prefix_append _ _) hplain'
          rw [hpattern, hkey, pathMatches_one hfirst]
          exact ⟨hname, h.2⟩

theorem literalPart_of_segments
    (hsplit : ∀ text, client.split text (ascii "/") = text.splitOn slash) {key : Bytes}
    (h : PathMatches (client.split (keyPart pattern) (ascii "/"))
      (client.split key (ascii "/"))) : literalPart pattern <+: key := by
  rw [hsplit, hsplit] at h
  apply literal_of_segments _ _ h
  · have hbefore : literalPart pattern <+: beforeQuery pattern := takeWhile_prefix _
    unfold keyPart
    split
    · exact hbefore.trans ( takeWhile_prefix _)
    · exact hbefore
  · exact fun c hc => (mem_literalPart hc).2.2

def GlobReturns (client : Client) (config : S3FileSystemConfig) (params : S3AuthParams)
    (path : Bytes) (urls : List Bytes) : Prop :=
  ∃ k, ∀ fuel, k ≤ fuel → glob client config params path fuel = .ok urls

def Requests (config : S3FileSystemConfig) (params : S3AuthParams) (bucket : Bucket)
    (url key : Bytes) : Prop :=
  ∃ parsed, parseS3URL config params url = .ok parsed ∧ parsed.bucket = bucket.name
    ∧ parsed.host = hostOf params bucket ∧ parsed.path = pathStart params bucket ++ slash :: key

theorem requests_iff (hconfig : config ∈ getAvailableConfigs)
    (hurlPrefix : urlPrefix ∈ config.prefixes) (text key : Bytes) :
    Requests config params bucket (objectURL urlPrefix bucket text) key ↔ key = keyPart text := by
  unfold Requests
  rw [parseS3URL_object hconfig hurlPrefix]
  constructor
  · rintro ⟨parsed, heq, _, _, hpath⟩
    cases heq
    exact (cons_inj_right slash).mp (append_cancel_left hpath.symm)
  · rintro rfl
    exact ⟨_, rfl, rfl, rfl, rfl⟩

/-- A pattern with a wildcard selects objects by their segments, below its literal start; a pattern
without one is returned as it is.  The URL of a key asks for this key unless a question mark in it
starts a query. -/
theorem glob_selects (hconfig : config ∈ getAvailableConfigs)
    (hurlPrefix : urlPrefix ∈ config.prefixes) {objects : List Bytes}
    (hserves : Serves client params bucket objects) (pattern : Bytes) :
    ∃ urls, GlobReturns client config params (objectURL urlPrefix bucket pattern) urls
      ∧ (¬ HasWildcard pattern → urls = [objectURL urlPrefix bucket pattern])
      ∧ (HasWildcard pattern → urls.Nodup ∧ ∀ url, url ∈ urls ↔
          ∃ key ∈ objects, Selected client pattern key ∧ url = objectURL urlPrefix bucket key)
      ∧ ((∀ text, client.split text (ascii "/") = text.splitOn slash) → ∀ key,
          Selected client pattern key ↔ key.getLast? ≠ some slash
            ∧ PathMatches (client.split (keyPart pattern) (ascii "/"))
              (client.split key (ascii "/")))
      ∧ ∀ key, queryOf key = [] →
          Requests config params bucket (objectURL urlPrefix bucket key) key := by
  have hselected : (∀ text, client.split text (ascii "/") = text.splitOn slash) → ∀ key,
      Selected client pattern key ↔ key.getLast? ≠ some slash
        ∧ PathMatches (client.split (keyPart pattern) (ascii "/"))
          (client.split key (ascii "/")) := by
    intro hsplit key
    constructor
    · exact fun h => ⟨h.object, h.segments⟩
    · exact fun h => ⟨h.1, literalPart_of_segments hsplit h.2, h.2⟩
  have hrequests : ∀ key, queryOf key = [] →
      Requests config params bucket (objectURL urlPrefix bucket key) key := by
    intro key hkey
    exact (requests_iff hconfig hurlPrefix key key).mpr (keyPart_of_no_query hkey).symm
  by_cases hwild : HasWildcard pattern
  · refine ⟨_, glob_lists hconfig hurlPrefix hserves hwild, fun hno => absurd hwild hno,
      fun _ => ⟨?_, fun url => ?_⟩, hselected, hrequests⟩
    · apply List.Nodup.map objectURL_injective
      exact ((hserves.distinct.filter _).filter _).filter _
    · rw [mem_map]
      constructor
      · rintro ⟨key, hkey, rfl⟩
        have hsel := mem_matched.mp hkey
        exact ⟨key, hsel.1, hsel.2, rfl⟩
      · rintro ⟨key, hin, hsel, rfl⟩
        exact ⟨key, mem_matched.mpr ⟨hin, hsel⟩, rfl⟩
  · exact ⟨[objectURL urlPrefix bucket pattern],
      ⟨0, fun fuel _ => glob_literal hconfig hurlPrefix hwild fuel⟩, fun _ => rfl,
      fun h => absurd h hwild, hselected, hrequests⟩

end

/-! ## 6. A small bucket -/

def listHeader : Bytes := ascii "/?encoding-type=url&list-type=2&prefix="

def plainItems (keys tokens : List Bytes) : List Item :=
  keys.map (fun key => .key key key) ++ tokens.map .next

def listServer (objects : List Bytes) : Client where
  encodeURL text _ := text
  split text _ := text.splitOn slash
  get _ url := .ok (textOf (plainItems (objects.filter fun key =>
    decide (url.drop listHeader.length <+: key)) []))

def tokenHeader : Bytes := ascii "/?continuation-token=2&encoding-type=url&list-type=2&prefix="

/-- The keys are listed in two pages. -/
def pagedServer (front rest : List Bytes) : Client where
  encodeURL text _ := text
  split text _ := text.splitOn slash
  get _ url :=
    if tokenHeader.isPrefixOf url then
      .ok (textOf (plainItems (rest.filter fun key =>
        decide (url.drop tokenHeader.length <+: key)) []))
    else .ok (textOf (plainItems (front.filter fun key =>
      decide (url.drop listHeader.length <+: key)) [ascii "2"]))

def virtualHosted : S3AuthParams := ⟨ascii "s3.amazonaws.com", ascii "vhost", false⟩

def smallBucket : Bucket := ⟨ascii "b", by decide +kernel, by decide +kernel⟩

theorem s3_available : getS3Config ∈ getAvailableConfigs := by decide

theorem s3_scheme : "s3://" ∈ getS3Config.prefixes := by decide

/-- The characters of the keys stand for themselves. -/
def PlainKey (key : Bytes) : Prop := key ≠ [] ∧ ∀ c ∈ key, c ≠ percent ∧ c ≠ plus ∧ c ≠ lt

theorem urlEncodes_self {key : Bytes} (h : ∀ c ∈ key, c ≠ percent ∧ c ≠ plus ∧ c ≠ lt) :
    UrlEncodes key key := by
  induction key with
  | nil => exact .nil
  | cons c key ih =>
    exact .plain (h c mem_cons_self) (ih fun c' hc' => h c' (mem_cons_of_mem c hc'))

def plainPage (keys tokens : List Bytes) (h : ∀ key ∈ keys, PlainKey key)
    (htokens : tokens <+ [ascii "2"]) : Page where
  items := plainItems keys tokens
  proper := by
    intro item hitem
    rcases mem_append.mp hitem with hitem | hitem
    · obtain ⟨key, hkey, rfl⟩ := mem_map.mp hitem
      exact ⟨(h key hkey).1, urlEncodes_self (h key hkey).2⟩
    · obtain ⟨token, htoken, rfl⟩ := mem_map.mp hitem
      rw [mem_singleton.mp (htokens.subset htoken)]
      show lt ∉ ascii "2"
      decide
  oneToken := by
    simpa [plainItems, Item.next?, filterMap_append, Function.comp_def] using htokens.length_le

theorem plainPage_keys {keys tokens : List Bytes} (h : ∀ key ∈ keys, PlainKey key)
    (htokens : tokens <+ [ascii "2"]) : (plainPage keys tokens h htokens).keys = keys := by
  simp [Page.keys, plainPage, plainItems, Item.key?, filterMap_append, Function.comp_def]

theorem plainPage_next {keys tokens : List Bytes} (h : ∀ key ∈ keys, PlainKey key)
    (htokens : tokens <+ [ascii "2"]) :
    (plainPage keys tokens h htokens).next = tokens.head?.getD [] := by
  simp [Page.next, plainPage, plainItems, Item.next?, filterMap_append, Function.comp_def]

theorem listServer_serves {objects : List Bytes} (hdistinct : objects.Nodup)
    (hplain : ∀ key ∈ objects, PlainKey key) :
    Serves (listServer objects) virtualHosted smallBucket objects := by
  refine ⟨hdistinct, fun start => ?_⟩
  have hshown : ∀ key ∈ objects.filter (fun key => decide (start <+: key)), PlainKey key :=
    fun key hkey => hplain key (mem_filter.mp hkey).1
  rw [← plainPage_keys hshown (nil_sublist _)]
  exact .last _ rfl (plainPage_next _ _)

theorem pagedServer_serves {front rest : List Bytes} (hdistinct : (front ++ rest).Nodup)
    (hplain : ∀ key ∈ front ++ rest, PlainKey key) :
    Serves (pagedServer front rest) virtualHosted smallBucket (front ++ rest) := by
  refine ⟨hdistinct, fun start => ?_⟩
  have hfront : ∀ key ∈ front.filter (fun key => decide (start <+: key)), PlainKey key :=
    fun key hkey => hplain key (mem_append_left _ (mem_filter.mp hkey).1)
  have hrest : ∀ key ∈ rest.filter (fun key => decide (start <+: key)), PlainKey key :=
    fun key hkey => hplain key (mem_append_right _ (mem_filter.mp hkey).1)
  rw [filter_append, ← plainPage_keys hfront (.refl _), ← plainPage_keys hrest (nil_sublist _)]
  refine .more _ rfl (by rw [plainPage_next]; decide) ?_
  rw [plainPage_next]
  exact .last _ rfl (plainPage_next _ _)

/-- The wildcards select keys of both pages. -/
theorem glob_selects_paged :
    ∃ urls, GlobReturns (pagedServer [ascii "a/x.csv", ascii "a/y/"] [ascii "b/z.csv", ascii "c"])
        getS3Config virtualHosted (objectURL "s3://" smallBucket (ascii "*/*")) urls
      ∧ urls.Nodup ∧ ∀ url, url ∈ urls ↔
        ∃ key ∈ [ascii "a/x.csv", ascii "a/y/", ascii "b/z.csv", ascii "c"],
          Selected (pagedServer [ascii "a/x.csv", ascii "a/y/"] [ascii "b/z.csv", ascii "c"])
            (ascii "*/*") key ∧ url = objectURL "s3://" smallBucket key := by
  obtain ⟨urls, hreturns, _, hwild, _⟩ := glob_selects s3_available s3_scheme
    (@pagedServer_serves [ascii "a/x.csv", ascii "a/y/"] [ascii "b/z.csv", ascii "c"]
      (by decide +kernel) (by unfold PlainKey; decide +kernel)) (ascii "*/*")
  exact ⟨urls, hreturns, hwild (by unfold HasWildcard; decide)⟩

/-! ## 7. Where a glob is not exact -/

/-- Two asterisks take any number of segments, wherever they stand. -/
def anyDepthParts (pattern : List Bytes) : List (Globs.Part Bytes) :=
  pattern.map fun p => if p = anySegments then .star else .one (NameMatches charLe p)

/-- The glob finds the objects that the pattern matches, and only them; each URL asks for its
key. -/
def GlobsExactly (client : Client) (config : S3FileSystemConfig) (params : S3AuthParams)
    (urlPrefix : String) (bucket : Bucket) (objects : List Bytes) (pattern : Bytes) : Prop :=
  ∃ urls, GlobReturns client config params (objectURL urlPrefix bucket pattern) urls ∧ urls.Nodup
    ∧ (∀ url, url ∈ urls ↔ ∃ key ∈ objects, key.getLast? ≠ some slash
        ∧ Matches (anyDepthParts (client.split pattern (ascii "/"))) (client.split key (ascii "/"))
        ∧ url = objectURL urlPrefix bucket key)
    ∧ ∀ key ∈ objects, objectURL urlPrefix bucket key ∈ urls →
        Requests config params bucket (objectURL urlPrefix bucket key) key

theorem GlobReturns.unique {client : Client} {config : S3FileSystemConfig} {params : S3AuthParams}
    {path : Bytes} {urls urls' : List Bytes} (h : GlobReturns client config params path urls)
    (h' : GlobReturns client config params path urls') : urls = urls' := by
  obtain ⟨k, hk⟩ := h
  obtain ⟨k', hk'⟩ := h'
  have heq := hk (max k k') (Nat.le_max_left k k')
  rw [hk' (max k k') (Nat.le_max_right k k')] at heq
  exact (Except.ok.inj heq).symm

theorem nameMatches_asterisk_any (name : Bytes) : NameMatches charLe (ascii "*") name :=
  (nameMatches_asterisk_iff [] name).mpr (.inl rfl)

theorem literal_not_exact :
    ¬ GlobsExactly (listServer []) getS3Config virtualHosted "s3://" smallBucket [] (ascii "a") := by
  rintro ⟨urls, hreturns, _, hiff, _⟩
  have hliteral : GlobReturns (listServer []) getS3Config virtualHosted
      (objectURL "s3://" smallBucket (ascii "a")) [objectURL "s3://" smallBucket (ascii "a")] :=
    ⟨0, fun fuel _ => glob_literal s3_available s3_scheme (by unfold HasWildcard; decide) fuel⟩
  rw [hreturns.unique hliteral] at hiff
  obtain ⟨key, hkey, _⟩ := (hiff _).mp mem_cons_self
  exact absurd hkey not_mem_nil

theorem question_not_exact :
    ¬ GlobsExactly (listServer [ascii "a?b"]) getS3Config virtualHosted "s3://" smallBucket
        [ascii "a?b"] (ascii "*") := by
  rintro ⟨urls, _, _, hiff, hrequests⟩
  have hin : objectURL "s3://" smallBucket (ascii "a?b") ∈ urls := by
    apply (hiff _).mpr
    refine ⟨ascii "a?b", mem_cons_self, by decide, ?_, rfl⟩
    exact .one (nameMatches_asterisk_any _) .nil
  have hkey := (requests_iff s3_available s3_scheme _ _).mp (hrequests _ mem_cons_self hin)
  exact absurd hkey (by decide)

theorem last_asterisks_not_exact :
    ¬ GlobsExactly (listServer [ascii "a"]) getS3Config virtualHosted "s3://" smallBucket
        [ascii "a"] (ascii "*/**") := by
  rintro ⟨urls, hreturns, _, hiff, _⟩
  have hin : objectURL "s3://" smallBucket (ascii "a") ∈ urls := by
    apply (hiff _).mpr
    refine ⟨ascii "a", mem_cons_self, by decide, ?_, rfl⟩
    exact .one (nameMatches_asterisk_any _) (.skip .nil)
  have hwild : HasWildcard (ascii "*/**") := by
    unfold HasWildcard
    decide
  have hlists := glob_lists s3_available s3_scheme
    (listServer_serves (nodup_singleton (ascii "a")) (by unfold PlainKey; decide +kernel)) hwild
  rw [hreturns.unique hlists] at hin
  obtain ⟨key, hkey, hurl⟩ := mem_map.mp hin
  rw [objectURL_injective hurl] at hkey
  have hsegments := (mem_matched.mp hkey).2.segments
  cases hsegments with
  | one _ hrest => exact pathParts_needs (cons_ne_nil _ []) hrest

/-- Three buckets whose globs are not exact: a pattern without a wildcard, a key with a question
mark, and two asterisks at the end of the pattern. -/
theorem glob_not_exact : (Serves (listServer []) virtualHosted smallBucket []
      ∧ ¬ GlobsExactly (listServer []) getS3Config virtualHosted "s3://" smallBucket [] (ascii "a"))
    ∧ (Serves (listServer [ascii "a?b"]) virtualHosted smallBucket [ascii "a?b"]
      ∧ ¬ GlobsExactly (listServer [ascii "a?b"]) getS3Config virtualHosted "s3://" smallBucket
          [ascii "a?b"] (ascii "*"))
    ∧ (Serves (listServer [ascii "a"]) virtualHosted smallBucket [ascii "a"]
      ∧ ¬ GlobsExactly (listServer [ascii "a"]) getS3Config virtualHosted "s3://" smallBucket
          [ascii "a"] (ascii "*/**")) :=
  ⟨⟨listServer_serves nodup_nil (nofun), literal_not_exact⟩,
    ⟨listServer_serves (nodup_singleton _) (by unfold PlainKey; decide +kernel), question_not_exact⟩,
    listServer_serves (nodup_singleton _) (by unfold PlainKey; decide +kernel),
    last_asterisks_not_exact⟩

end Ladybug.S3Glob
