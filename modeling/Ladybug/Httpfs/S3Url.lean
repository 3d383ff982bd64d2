import Ladybug.Base.Markup

/-!
# URLs of objects (`httpfs/src/s3fs.cpp`, `parseS3URL`)

A URL names a bucket and the key of an object.  What follows the first question mark is read as
query parameters, unless it is empty.
-/

namespace Ladybug.S3Glob

open Markup List

/-- What `parseS3URL` looks at. -/
structure S3AuthParams where
  endpoint : Bytes
  urlStyle : Bytes
  disableSSL : Bool
  deriving DecidableEq

structure S3FileSystemConfig where
  prefixes : List String
  deriving DecidableEq

def getS3Config : S3FileSystemConfig := ⟨["s3://"]⟩

def getGCSConfig : S3FileSystemConfig := ⟨["gcs://", "gs://"]⟩

def getAvailableConfigs : List S3FileSystemConfig := [getS3Config, getGCSConfig]

structure ParsedS3URL where
  httpProto : Bytes
  urlPrefix : Bytes
  host : Bytes
  bucket : Bytes
  path : Bytes
  queryParam : Bytes
  trimmedS3URL : Bytes
  deriving DecidableEq

def slash : UInt8 := '/'.toUInt8

def questionMark : UInt8 := '?'.toUInt8

/-- `std::string::substr`: a position after the end throws. -/
def substr (text : Bytes) (pos : Nat) : Except Stop Bytes :=
  if pos ≤ text.length then .ok (text.drop pos) else .error .outOfRange

def getPrefix (url : Bytes) (supportedPrefixes : List String) : Except Stop Bytes :=
  match supportedPrefixes.find? fun p => decide (ascii p <+: url) with
  | some p => .ok (ascii p)
  | none => .error (.error ("URL needs to start with " ++ " or ".intercalate supportedPrefixes ++ "."))

def parseS3URL (config : S3FileSystemConfig) (params : S3AuthParams) (url : Bytes) :
    Except Stop ParsedS3URL := do
  let urlPrefix ← getPrefix url config.prefixes
  -- `npos + 2` wraps
  let prefixEndPos := match findFrom url (ascii "//") 0 with
    | some pos => pos + 2
    | none => 1
  match findFrom url [slash] prefixEndPos with
  | none => .error (.error "URL needs to contain a '/' after the host")
  | some slashPos =>
    let bucket := (url.drop prefixEndPos).take (slashPos - prefixEndPos)
    if bucket.isEmpty then
      .error (.error "URL needs to contain a bucket name")
    else
      let start := if params.urlStyle = ascii "path" then slash :: bucket else []
      let parameterPos := url.findIdx? (· == questionMark)
      let queryParameters := match parameterPos with
        | some pos => url.drop (pos + 1)
        | none => []
      let trimmedS3URL := match parameterPos with
        | some pos => url.take pos
        | none => url
      let key := match parameterPos with
        | some pos =>
          -- a mark before the slash makes the length wrap: the rest of the URL is taken
          if !queryParameters.isEmpty && decide (slashPos ≤ pos) then
            (url.drop slashPos).take (pos - slashPos)
          else url.drop slashPos
        | none => url.drop slashPos
      let path := start ++ key
      if path.isEmpty then
        .error (.error "URL needs to contain key")
      else
        let host :=
          if params.urlStyle = ascii "vhost" ∨ params.urlStyle = [] then
            bucket ++ ascii "." ++ params.endpoint
          else params.endpoint
        .ok
          { httpProto := if params.disableSSL then ascii "http://" else ascii "https://"
            urlPrefix := urlPrefix
            host := host
            bucket := bucket
            path := path
            queryParam := queryParameters
            trimmedS3URL := trimmedS3URL }

/-- The characters that end the search for the literal part of a pattern. -/
def wildcards : Bytes := ascii "*[\\"

/-- The name of a bucket has none of the characters that the URLs and the patterns give a meaning. -/
structure Bucket where
  name : Bytes
  named : name ≠ []
  plain : ∀ c ∈ name, c ≠ slash ∧ c ≠ questionMark ∧ c ∉ wildcards

/-- The file system's URL of what `text` says, which is a key or a pattern. -/
def objectURL (urlPrefix : String) (bucket : Bucket) (text : Bytes) : Bytes :=
  ascii urlPrefix ++ (bucket.name ++ slash :: text)

def beforeQuery (text : Bytes) : Bytes := text.takeWhile (· != questionMark)

def queryOf (text : Bytes) : Bytes := (text.dropWhile (· != questionMark)).tail

/-- What `parseS3URL` takes for the key. -/
def keyPart (text : Bytes) : Bytes := if (queryOf text).isEmpty then text else beforeQuery text

def pathStart (params : S3AuthParams) (bucket : Bucket) : Bytes :=
  if params.urlStyle = ascii "path" then slash :: bucket.name else []

def hostOf (params : S3AuthParams) (bucket : Bucket) : Bytes :=
  if params.urlStyle = ascii "vhost" ∨ params.urlStyle = [] then
    bucket.name ++ ascii "." ++ params.endpoint
  else params.endpoint

def protoOf (params : S3AuthParams) : Bytes :=
  if params.disableSSL then ascii "http://" else ascii "https://"

def parsedObject (urlPrefix : String) (params : S3AuthParams) (bucket : Bucket) (text : Bytes) :
    ParsedS3URL where
  httpProto := protoOf params
  urlPrefix := ascii urlPrefix
  host := hostOf params bucket
  bucket := bucket.name
  path := pathStart params bucket ++ slash :: keyPart text
  queryParam := queryOf text
  trimmedS3URL := objectURL urlPrefix bucket (beforeQuery text)

/-- What a prefix of the two file systems looks like. -/
structure IsScheme (urlPrefix : String) (scheme : Bytes) : Prop where
  slashes : ascii urlPrefix = scheme ++ ascii "//"
  plain : ∀ c ∈ scheme, c ≠ slash ∧ c ≠ questionMark ∧ c ∉ wildcards

variable {urlPrefix : String} {scheme : Bytes}

variable {config : S3FileSystemConfig}

section

variable (hconfig : config ∈ getAvailableConfigs) (hurlPrefix : urlPrefix ∈ config.prefixes)

include hconfig hurlPrefix

theorem scheme_of_available : ∃ scheme, IsScheme urlPrefix scheme := by
  have hmem : urlPrefix ∈ ["s3://", "gcs://", "gs://"] := by
    simp only [getAvailableConfigs, getS3Config, getGCSConfig, mem_cons, not_mem_nil,
      or_false] at hconfig
    rcases hconfig with rfl | rfl
    · exact mem_append_left ["gcs://", "gs://"] hurlPrefix
    · exact mem_cons_of_mem "s3://" hurlPrefix
  simp only [mem_cons, not_mem_nil, or_false] at hmem
  rcases hmem with rfl | rfl | rfl
  · exact ⟨ascii "s3:", by decide +kernel, by decide +kernel⟩
  · exact ⟨ascii "gcs:", by decide +kernel, by decide +kernel⟩
  · exact ⟨ascii "gs:", by decide +kernel, by decide +kernel⟩

theorem getPrefix_available (rest : Bytes) :
    getPrefix (ascii urlPrefix ++ rest) config.prefixes = .ok (ascii urlPrefix) := by
  simp only [getAvailableConfigs, getS3Config, getGCSConfig, mem_cons, not_mem_nil,
    or_false] at hconfig
  have hyes : ∀ p : String, decide (ascii p <+: ascii p ++ rest) = true :=
    fun p => decide_eq_true (prefix_append _ _)
  unfold getPrefix
  rcases hconfig with rfl | rfl
  · simp only [mem_cons, not_mem_nil, or_false] at hurlPrefix
    subst hurlPrefix
    rw [find?_cons, hyes]
  · simp only [mem_cons, not_mem_nil, or_false] at hurlPrefix
    rcases hurlPrefix with rfl | rfl
    · rw [find?_cons, hyes]
    · -- the two prefixes differ in their second character
      have hno : decide (ascii "gcs://" <+: ascii "gs://" ++ rest) = false := by
        apply decide_eq_false
        intro h
        have hsecond := (cons_prefix_cons.mp (cons_prefix_cons.mp h).2).1
        exact absurd hsecond (by decide)
      rw [find?_cons, hno, find?_cons, hyes]

end

theorem find_slashes (h : IsScheme urlPrefix scheme) (rest : Bytes) :
    findFrom (ascii urlPrefix ++ rest) (ascii "//") 0 = some scheme.length := by
  have hskip : slash ∉ scheme := fun hin => (h.plain slash hin).1 rfl
  have hfind : find (ascii "//") (scheme ++ (ascii "//" ++ rest)) = some scheme.length := by
    rw [show ascii "//" = slash :: [slash] from rfl, find_skip hskip, find_here (prefix_append _ _)]
    rfl
  unfold findFrom
  rw [if_pos (Nat.zero_le _), drop_zero, h.slashes, append_assoc, hfind]
  simp

theorem find_bucket_end (front : Bytes) (bucket : Bucket) (text : Bytes) :
    findFrom (front ++ (bucket.name ++ slash :: text)) [slash] front.length
      = some (front.length + bucket.name.length) := by
  have hskip : slash ∉ bucket.name := fun hin => (bucket.plain slash hin).1 rfl
  rw [findFrom_length, find_skip hskip, find_here (by simp)]
  rfl

theorem findIdx_skip {front text : Bytes} (h : questionMark ∉ front) :
    (front ++ text).findIdx? (· == questionMark)
      = (text.findIdx? (· == questionMark)).map (front.length + ·) := by
  have hnone : front.findIdx? (· == questionMark) = none := by
    rw [findIdx?_eq_none_iff]
    intro c hc
    exact beq_eq_false_iff_ne.mpr (fun heq => h (heq ▸ hc))
  rw [findIdx?_append, hnone, Option.none_or]
  congr 1
  funext n
  exact Nat.add_comm n front.length

theorem findIdx_cases (text : Bytes) :
    (text.findIdx? (· == questionMark) = none ∧ beforeQuery text = text ∧ queryOf text = [])
      ∨ ∃ query, text = beforeQuery text ++ questionMark :: query ∧ queryOf text = query
        ∧ text.findIdx? (· == questionMark) = some (beforeQuery text).length := by
  induction text with
  | nil => exact .inl ⟨rfl, rfl, rfl⟩
  | cons c text ih =>
    by_cases hc : c = questionMark
    · subst hc
      exact .inr ⟨text, rfl, rfl, rfl⟩
    · have hne : (c != questionMark) = true := bne_iff_ne.mpr hc
      have hbeq : (c == questionMark) = false := beq_eq_false_iff_ne.mpr hc
      have hbefore : beforeQuery (c :: text) = c :: beforeQuery text := by
        unfold beforeQuery
        rw [takeWhile_cons_of_pos (by exact hne)]
      have hquery : queryOf (c :: text) = queryOf text := by
        unfold queryOf
        rw [dropWhile_cons_of_pos (by exact hne)]
      have hidx : (c :: text).findIdx? (· == questionMark)
          = (text.findIdx? (· == questionMark)).map (· + 1) := by
        rw [findIdx?_cons, hbeq]
        rfl
      rw [hbefore, hquery, hidx]
      rcases ih with ⟨hnone, hb, hq⟩ | ⟨query, htext, hq, hsome⟩
      · left
        rw [hnone, hb, hq]
        exact ⟨rfl, rfl, rfl⟩
      · right
        refine ⟨query, ?_, hq, ?_⟩
        · rw [cons_append, ← htext]
        · rw [hsome]
          rfl

theorem no_mark_before (h : IsScheme urlPrefix scheme) (bucket : Bucket) :
    questionMark ∉ ascii urlPrefix ++ (bucket.name ++ [slash]) := by
  rw [h.slashes]
  simp only [mem_append, mem_singleton, not_or]
  refine ⟨⟨fun hin => (h.plain questionMark hin).2.1 rfl, by decide⟩, ?_, by decide⟩
  exact fun hin => (bucket.plain questionMark hin).2.1 rfl

theorem objectURL_eq (urlPrefix : String) (bucket : Bucket) (text : Bytes) :
    objectURL urlPrefix bucket text = ascii urlPrefix ++ (bucket.name ++ [slash]) ++ text := by
  unfold objectURL
  simp

theorem parseS3URL_object (hconfig : config ∈ getAvailableConfigs)
    (hurlPrefix : urlPrefix ∈ config.prefixes) (params : S3AuthParams) (bucket : Bucket)
    (text : Bytes) :
    parseS3URL config params (objectURL urlPrefix bucket text)
      = .ok (parsedObject urlPrefix params bucket text) := by
  obtain ⟨scheme, hscheme⟩ := scheme_of_available hconfig hurlPrefix
  have hlen : scheme.length + 2 = (ascii urlPrefix).length := by
    rw [hscheme.slashes, length_append]
    rfl
  have hslash := find_bucket_end (ascii urlPrefix) bucket text
  have hbucket : (((ascii urlPrefix ++ (bucket.name ++ slash :: text)).drop
      (ascii urlPrefix).length).take
        ((ascii urlPrefix).length + bucket.name.length - (ascii urlPrefix).length))
      = bucket.name := by
    rw [drop_left, Nat.add_sub_cancel_left, take_left]
  have hkey : (ascii urlPrefix ++ (bucket.name ++ slash :: text)).drop
      ((ascii urlPrefix).length + bucket.name.length) = slash :: text := by
    rw [← append_assoc, ← length_append, drop_left]
  have hnamed : bucket.name.isEmpty = false := isEmpty_eq_false_iff.mpr bucket.named
  have hidx : (ascii urlPrefix ++ (bucket.name ++ slash :: text)).findIdx? (· == questionMark)
      = (text.findIdx? (· == questionMark)).map
          ((ascii urlPrefix ++ (bucket.name ++ [slash])).length + ·) := by
    rw [← findIdx_skip (no_mark_before hscheme bucket), ← objectURL_eq]
    rfl
  have hpath : ∀ start rest : Bytes, (start ++ slash :: rest).isEmpty = false := by
    simp
  unfold parseS3URL objectURL
  rw [getPrefix_available hconfig hurlPrefix]
  simp only [bind, Except.bind]
  rw [find_slashes hscheme]
  simp only [hlen, hslash, hbucket, hkey, hnamed, hidx]
  rcases findIdx_cases text with ⟨hnone, hbefore, hquery⟩ | ⟨query, htext, hquery, hsome⟩
  · rw [hnone]
    simp [hpath, parsedObject, pathStart, hostOf, protoOf, keyPart, hquery, hbefore, objectURL]
  · -- the mark stands after the slash that ends the bucket
    have hfront : (ascii urlPrefix ++ (bucket.name ++ [slash])).length
        = (ascii urlPrefix).length + bucket.name.length + 1 := by
      simp only [length_append, length_singleton]
      omega
    have hurl : ascii urlPrefix ++ (bucket.name ++ slash :: text)
        = ascii urlPrefix ++ (bucket.name ++ [slash]) ++ beforeQuery text
          ++ questionMark :: query := by
      conv_lhs => rw [htext]
      simp
    have htrim : (ascii urlPrefix ++ (bucket.name ++ slash :: text)).take
        ((ascii urlPrefix ++ (bucket.name ++ [slash])).length + (beforeQuery text).length)
        = objectURL urlPrefix bucket (beforeQuery text) := by
      rw [hurl, ← length_append, take_left, objectURL_eq]
    have hparams : (ascii urlPrefix ++ (bucket.name ++ slash :: text)).drop
        ((ascii urlPrefix ++ (bucket.name ++ [slash])).length + (beforeQuery text).length + 1)
        = query := by
      rw [hurl, ← length_append, ← drop_drop, drop_left]
      rfl
    have hcut : (slash :: text).take
        ((ascii urlPrefix ++ (bucket.name ++ [slash])).length + (beforeQuery text).length
          - ((ascii urlPrefix).length + bucket.name.length)) = slash :: beforeQuery text := by
      rw [hfront, show (ascii urlPrefix).length + bucket.name.length + 1
          + (beforeQuery text).length - ((ascii urlPrefix).length + bucket.name.length)
          = (beforeQuery text).length + 1 by omega, take_succ_cons,
        ← prefix_iff_eq_take.mp ⟨questionMark :: query, htext.symm⟩]
    have hle : decide ((ascii urlPrefix).length + bucket.name.length
        ≤ (ascii urlPrefix ++ (bucket.name ++ [slash])).length + (beforeQuery text).length)
        = true := by
      apply decide_eq_true
      omega
    rw [hsome]
    simp only [Option.map_some, htrim, hparams, hcut, hle]
    cases hempty : query.isEmpty with
    | true | false =>
      simp [hpath, parsedObject, pathStart, hostOf, protoOf, keyPart, hquery, hempty]

end Ladybug.S3Glob
