import Ladybug.Base.Bytes
import Mathlib.Data.List.Induction

/-!
# The sizes of remote objects (`httpfs/src/httpfs.cpp`, `httpfs/src/s3fs.cpp`)

The size that an open learns is kept for the life of the process, under the path that was opened.
A multipart upload that is completed replaces an object of the server, and leaves the sizes alone.
-/

namespace Ladybug.SizeCache

open Function List

structure FileFlags where
  readOnly : Bool
  write : Bool
  createIfNotExists : Bool
  createAndTruncateIfExists : Bool
  deriving DecidableEq

/-- A response and the headers that are looked at. -/
structure HTTPResponse where
  code : Nat
  error : String
  url : String
  contentLength : Option (List Char)
  contentRange : Option (List Char)
  deriving DecidableEq

/-- A request that gets no response throws. -/
structure Answer where
  head : Except String HTTPResponse
  range : Except String HTTPResponse

def headerText (header : Option (List Char)) : Option (List Char) :=
  header.filter fun text => !text.isEmpty

def isSpace (c : Char) : Bool := c == ' ' || (9 ≤ c.toNat && c.toNat ≤ 13)

def signedDigits (text : List Char) : Bool × List Char :=
  match text.dropWhile isSpace with
  | '-' :: rest => (true, rest.takeWhile Char.isDigit)
  | '+' :: rest => (false, rest.takeWhile Char.isDigit)
  | rest => (false, rest.takeWhile Char.isDigit)

def magnitude (digits : List Char) : Int :=
  digits.foldl (fun n c => 10 * n + (c.toNat - '0'.toNat : Nat)) 0

def inInt64 (value : Int) : Option Int :=
  if -2 ^ 63 ≤ value ∧ value < 2 ^ 63 then some value else none

/-- `std::stoll`: `none` is `invalid_argument` or `out_of_range`. -/
def stoll (text : List Char) : Option Int :=
  let (negative, digits) := signedDigits text
  if digits.isEmpty then none
  else inInt64 (if negative then -magnitude digits else magnitude digits)

def afterSlash : List Char → Option (List Char)
  | [] => none
  | c :: rest => if c = '/' then some rest else afterSlash rest

def ofHeader (header : Option (List Char)) : String := String.ofList (header.getD [])

abbrev Sizes := String → Option Nat

/-- The range request that follows a HEAD request that was refused, and the length it tells. -/
def rangeFallback (path : String) (res : HTTPResponse) (range : Except String HTTPResponse) :
    Except String (HTTPResponse × List Char) :=
  match range with
  | .error e => .error e
  | .ok rangeRequest =>
    if rangeRequest.code ≠ 206 then
      .error ("Unable to connect to URL \"" ++ path ++ "\": " ++ toString res.code ++ " (" ++
        res.error ++ ")")
    else
      match afterSlash (rangeRequest.contentRange.getD []) with
      | none => .error
          ("Unknown Content-Range Header \"The value of Content-Range Header\":  (" ++
            ofHeader rangeRequest.contentRange ++ ")")
      | some rangeLength =>
        if rangeLength = ['*'] then
          .error ("Unknown total length of the document \"" ++ path ++ "\": " ++
            toString res.code ++ " (" ++ res.error ++ ")")
        else .ok (rangeRequest, rangeLength)

def lengthOf (res : HTTPResponse) (rangeLength : List Char) : Except String Nat :=
  match headerText res.contentLength with
  | none => .error "Not able to get Content-length of the given file"
  | some text =>
    let text := match headerText res.contentRange with
      | none => text
      | some _ => rangeLength
    match stoll text with
    | none => .error ("Invalid Content-Length header received: " ++ ofHeader res.contentLength)
    | some value => .ok (value % 2 ^ 64).toNat

def requestLength (path : String) (flags : FileFlags) (answer : Answer) :
    Except String (Nat × Bool) :=
  match answer.head with
  | .error e => .error e
  | .ok res =>
    if res.code ≠ 200 then
      if flags.write ∧ res.code = 404 then
        if ¬ flags.createIfNotExists ∧ ¬ flags.createAndTruncateIfExists then
          .error ("Unable to open URL: \"" ++ path ++
            "\" for writing: file does not exist and CREATE flag is not set")
        else .ok (0, false)
      else if flags.readOnly ∧ res.code ≠ 404 then
        match rangeFallback path res answer.range with
        | .error e => .error e
        | .ok (res, rangeLength) => (lengthOf res rangeLength).map fun n => (n, decide (n > 0))
      else
        .error ("Unable to connect to URL \"" ++ res.url ++ "\": " ++ toString res.code ++ " (" ++
          res.error ++ ")")
    else (lengthOf res []).map fun n => (n, decide (n > 0))

/-- `HTTPFileInfo::initMetadata`: the length, and the sizes that are known afterwards. -/
def initMetadata (httpSizeCache : Sizes) (path : String) (flags : FileFlags) (answer : Answer) :
    Except String Nat × Sizes :=
  match httpSizeCache path with
  | some length => (.ok length, httpSizeCache)
  | none =>
    match requestLength path flags answer with
    | .error e => (.error e, httpSizeCache)
    | .ok (length, remembered) =>
      (.ok length, if remembered then update httpSizeCache path (some length)
        else httpSizeCache)

/-- The server's objects, the sizes, and the paths of the uploads that are not completed. -/
structure Process (Resource : Type) where
  objects : Resource → Option Bytes
  httpSizeCache : Sizes
  uploads : List String

inductive Event where
  /-- `HTTPFileInfo::initialize`. -/
  | openFile (path : String) (flags : FileFlags) (answer : Answer)
  /-- `S3FileInfo::initialize` for a file to be written; the last request may fail. -/
  | openUpload (path : String) (flags : FileFlags) (first second : Answer) (created : Bool)
  /-- `finalizeMultipartUpload`: the object now has the bytes of the parts. -/
  | finalizeMultipartUpload (k : Nat) (content : Bytes)

variable {Resource : Type} [DecidableEq Resource] (resource : String → Resource)

def Process.step (s : Process Resource) : Event → Process Resource
  | .openFile path flags answer =>
    { s with httpSizeCache := (initMetadata s.httpSizeCache path flags answer).2 }
  | .openUpload path flags first second created =>
    match initMetadata s.httpSizeCache path flags first with
    | (.error _, sizes) => { s with httpSizeCache := sizes }
    | (.ok _, sizes) =>
      match initMetadata sizes path flags second with
      | (.error _, sizes) => { s with httpSizeCache := sizes }
      | (.ok _, sizes) =>
        { s with
          httpSizeCache := sizes
          uploads := if created then s.uploads ++ [path] else s.uploads }
  | .finalizeMultipartUpload k content =>
    match s.uploads[k]? with
    | none => s
    | some path =>
      { s with
        objects := update s.objects (resource path) (some content)
        uploads := s.uploads.eraseIdx k }

def Process.run (s : Process Resource) (es : List Event) : Process Resource :=
  es.foldl (Process.step resource) s

/-- A process that has opened nothing yet. -/
def Process.created (objects : Resource → Option Bytes) : Process Resource where
  objects
  httpSizeCache := fun _ => none
  uploads := []

structure Describes (content : Bytes) (res : HTTPResponse) : Prop where
  range : headerText res.contentRange = none
  length : ∀ text, headerText res.contentLength = some text → stoll text = some content.length

structure DescribesRange (content : Bytes) (res : HTTPResponse) : Prop where
  total : ∀ text, afterSlash (res.contentRange.getD []) = some text → text ≠ ['*'] →
    stoll text = some content.length

structure Truthful (object : Option Bytes) (answer : Answer) : Prop where
  head : ∀ res, answer.head = .ok res → res.code = 200 →
    ∃ content, object = some content ∧ Describes content res
  range : ∀ res, answer.range = .ok res → res.code = 206 →
    ∃ content, object = some content ∧ DescribesRange content res

def Event.Answered (s : Process Resource) : Event → Prop
  | .openFile path _ answer => Truthful (s.objects (resource path)) answer
  | .openUpload path _ first second _ =>
    Truthful (s.objects (resource path)) first ∧ Truthful (s.objects (resource path)) second
  | .finalizeMultipartUpload _ _ => True

/-- All answers of a run are true when they are given. -/
def Process.Answered (s : Process Resource) (es : List Event) : Prop :=
  ∀ before e after, es = before ++ e :: after → e.Answered resource (s.run resource before)

def Process.ReportsLengths (s : Process Resource) : Prop :=
  ∀ path flags answer length, flags.readOnly = true → flags.write = false →
    Truthful (s.objects (resource path)) answer →
    (initMetadata s.httpSizeCache path flags answer).1 = .ok length →
    ∃ content, s.objects (resource path) = some content ∧ length = content.length

/-- A write that is completed changes no length that is remembered for its object. -/
def Event.KeepsSizes (s : Process Resource) : Event → Prop
  | .finalizeMultipartUpload k content =>
    ∀ path, s.uploads[k]? = some path → ∀ known length, resource known = resource path →
      s.httpSizeCache known = some length → length = content.length
  | _ => True

variable {text : List Char}

theorem stoll_lt {value : Int} (h : stoll text = some value) : value < 2 ^ 63 := by
  have hrange : ∀ v, inInt64 v = some value → value < 2 ^ 63 := by
    intro v hv
    unfold inInt64 at hv
    split at hv
    · rename_i hbounds
      cases hv
      exact hbounds.2
    · cases hv
  unfold stoll at h
  dsimp only at h
  by_cases hempty : (signedDigits text).2.isEmpty = true
  · rw [if_pos hempty] at h
    cases h
  · rw [if_neg hempty] at h
    exact hrange _ h

theorem read_length {content : Bytes} (h : stoll text = some (content.length : Int)) :
    (((content.length : Int)) % 2 ^ 64).toNat = content.length := by
  have hlt := stoll_lt h
  omega

variable {res : HTTPResponse} {n : Nat} {path : String} {object : Option Bytes} {answer : Answer}
  {s : Process Resource} {e : Event}

theorem lengthOf_describes {content : Bytes} (h : Describes content res)
    (hlen : lengthOf res [] = .ok n) : n = content.length := by
  unfold lengthOf at hlen
  cases htext : headerText res.contentLength with
  | none => rw [htext] at hlen; cases hlen
  | some text =>
    have hstoll := h.length text htext
    rw [htext] at hlen
    simp only [h.range, hstoll] at hlen
    cases hlen
    exact read_length hstoll

theorem afterSlash_header {header : Option (List Char)} {total : List Char}
    (h : afterSlash (header.getD []) = some total) : ∃ text, headerText header = some text := by
  cases header with
  | none => cases h
  | some text =>
    cases text with
    | nil => cases h
    | cons c text => exact ⟨c :: text, rfl⟩

theorem rangeFallback_describes {refused : HTTPResponse} {answer : Except String HTTPResponse}
    {total : List Char} (h : ∀ res, answer = .ok res → res.code = 206 →
      ∃ content, object = some content ∧ DescribesRange content res)
    (hrange : rangeFallback path refused answer = .ok (res, total))
    (hlen : lengthOf res total = .ok n) :
    ∃ content, object = some content ∧ n = content.length := by
  cases answer with
  | error e => cases hrange
  | ok rangeRequest =>
    obtain ⟨hcode, hrange⟩ := guard_eq_ok.mp hrange
    split at hrange
    · cases hrange
    · rename_i text htext
      obtain ⟨hstar, hrange⟩ := guard_eq_ok.mp hrange
      cases hrange
      obtain ⟨content, hobject, hdescribes⟩ := h res rfl (not_not.mp hcode)
      have hstoll := hdescribes.total total htext hstar
      obtain ⟨header, hheader⟩ := afterSlash_header htext
      refine ⟨content, hobject, ?_⟩
      unfold lengthOf at hlen
      cases hcl : headerText res.contentLength with
      | none => rw [hcl] at hlen; cases hlen
      | some cl =>
        rw [hcl] at hlen
        simp only [hheader, hstoll] at hlen
        cases hlen
        exact read_length hstoll

theorem requestLength_truthful {flags : FileFlags} {remembered : Bool} (h : Truthful object answer)
    (hlen : requestLength path flags answer = .ok (n, remembered)) :
    (∃ content, object = some content ∧ n = content.length) ∨
      (flags.write = true ∧ remembered = false) := by
  unfold requestLength at hlen
  cases hhead : answer.head with
  | error e => rw [hhead] at hlen; cases hlen
  | ok res =>
    simp only [hhead] at hlen
    split at hlen
    · split at hlen
      · rename_i hwrite
        split at hlen
        · cases hlen
        · cases hlen
          exact .inr ⟨hwrite.1, rfl⟩
      · obtain ⟨-, hlen⟩ := guard_else_eq_ok.mp hlen
        split at hlen
        · cases hlen
        next res' total hrange =>
        cases hof : lengthOf res' total with
        | error e => rw [hof] at hlen; cases hlen
        | ok n' =>
          rw [hof] at hlen
          cases hlen
          exact .inl (rangeFallback_describes h.range hrange hof)
    · rename_i hcode
      cases hof : lengthOf res [] with
      | error e => rw [hof] at hlen; cases hlen
      | ok n' =>
        rw [hof] at hlen
        cases hlen
        obtain ⟨content, hobject, hdescribes⟩ := h.head res hhead (not_not.mp hcode)
        exact .inl ⟨content, hobject, lengthOf_describes hdescribes hof⟩

def SizesRight (objects : Resource → Option Bytes) (sizes : Sizes) : Prop :=
  ∀ path length, sizes path = some length →
    ∃ content, objects (resource path) = some content ∧ length = content.length

variable {resource : String → Resource}

omit [DecidableEq Resource] in
theorem initMetadata_right {objects : Resource → Option Bytes} {sizes : Sizes} (flags : FileFlags)
    (h : SizesRight resource objects sizes) (hanswer : Truthful (objects (resource path)) answer) :
    SizesRight resource objects (initMetadata sizes path flags answer).2 := by
  unfold initMetadata
  cases hknown : sizes path with
  | some length => exact h
  | none =>
    cases hreq : requestLength path flags answer with
    | error e => exact h
    | ok out =>
      obtain ⟨n, remembered⟩ := out
      cases remembered with
      | false => exact h
      | true =>
        show SizesRight resource objects (update sizes path (some n))
        intro path' length' hlength
        by_cases hpath : path' = path
        · rw [hpath, update_self] at hlength
          cases hlength
          rw [hpath]
          rcases requestLength_truthful hanswer hreq with hright | ⟨_, hfalse⟩
          · exact hright
          · cases hfalse
        · rw [update_of_ne hpath] at hlength
          exact h path' length' hlength

omit [DecidableEq Resource] in
theorem reportsLengths_iff (s : Process Resource) :
    s.ReportsLengths resource ↔ SizesRight resource s.objects s.httpSizeCache := by
  constructor
  · intro h path length hknown
    -- an open of a known path asks nothing
    have hopen : (initMetadata s.httpSizeCache path ⟨true, false, false, false⟩
        ⟨.error "", .error ""⟩).1 = .ok length := by
      unfold initMetadata
      rw [hknown]
    exact h path ⟨true, false, false, false⟩ ⟨.error "", .error ""⟩ length rfl rfl
      ⟨nofun, nofun⟩ hopen
  · intro h path flags answer length _ hwrite hanswer hopen
    unfold initMetadata at hopen
    cases hknown : s.httpSizeCache path with
    | some known =>
      rw [hknown] at hopen
      cases hopen
      exact h path length hknown
    | none =>
      simp only [hknown] at hopen
      cases hreq : requestLength path flags answer with
      | error e => rw [hreq] at hopen; cases hopen
      | ok out =>
        rw [hreq] at hopen
        cases hopen
        rcases requestLength_truthful hanswer hreq with hright | ⟨hw, _⟩
        · exact hright
        · rw [hwrite] at hw
          cases hw

theorem step_right (h : SizesRight resource s.objects s.httpSizeCache)
    (hanswer : e.Answered resource s) (hkeeps : e.KeepsSizes resource s) :
    SizesRight resource (s.step resource e).objects (s.step resource e).httpSizeCache := by
  cases e with
  | openFile path flags answer => exact initMetadata_right flags h hanswer
  | openUpload path flags first second created =>
    have hfirst := initMetadata_right flags h hanswer.1
    unfold Process.step
    dsimp only
    cases hopen : initMetadata s.httpSizeCache path flags first with
    | mk result sizes =>
      rw [hopen] at hfirst
      cases result with
      | error e => exact hfirst
      | ok n =>
        have hsecond := initMetadata_right flags hfirst hanswer.2
        dsimp only
        cases hopen' : initMetadata sizes path flags second with
        | mk result' sizes' =>
          rw [hopen'] at hsecond
          cases result' with
          | error | ok => exact hsecond
  | finalizeMultipartUpload k content =>
    unfold Process.step
    dsimp only
    cases hup : s.uploads[k]? with
    | none => exact h
    | some path =>
      intro known length hknown
      show ∃ content', update s.objects (resource path) (some content)
        (resource known) = some content' ∧ length = content'.length
      by_cases hsame : resource known = resource path
      · rw [hsame, update_self]
        exact ⟨content, rfl, hkeeps path hup known length hsame hknown⟩
      · rw [update_of_ne hsame]
        exact h known length hknown

theorem keepsSizes_of_right
    (h : SizesRight resource (s.step resource e).objects (s.step resource e).httpSizeCache) :
    e.KeepsSizes resource s := by
  cases e with
  | openFile | openUpload => exact True.intro
  | finalizeMultipartUpload k content =>
    intro path hup known length hsame hknown
    unfold Process.step at h
    dsimp only at h
    rw [hup] at h
    obtain ⟨content', hobject, hlength⟩ := h known length hknown
    have hnew : update s.objects (resource path) (some content) (resource known) =
        some content' := hobject
    rw [hsame, update_self] at hnew
    cases hnew
    exact hlength

theorem run_append (s : Process Resource) (es es' : List Event) :
    s.run resource (es ++ es') = (s.run resource es).run resource es' :=
  foldl_append

theorem answered_cons {es : List Event} (h : e.Answered resource s)
    (hrest : (s.step resource e).Answered resource es) : s.Answered resource (e :: es) := by
  intro before e' after hes
  cases before with
  | nil =>
    cases hes
    exact h
  | cons e₀ before =>
    cases hes
    exact hrest before e' after rfl

theorem answered_nil (s : Process Resource) : s.Answered resource [] := by
  intro before e after hes
  cases before <;> cases hes

/-- Through a whole run the opens for reading report the current lengths, if and only if no write that
is completed changes the length of an object whose size is remembered. -/
theorem openedLength_current_iff (resource : String → Resource)
    (objects : Resource → Option Bytes) (es : List Event)
    (hanswered : (Process.created objects).Answered resource es) :
    (∀ before after, es = before ++ after →
        ((Process.created objects).run resource before).ReportsLengths resource) ↔
      ∀ before e after, es = before ++ e :: after →
        e.KeepsSizes resource ((Process.created objects).run resource before) := by
  constructor
  · intro h before e after hes
    have hnext := h (before ++ [e]) after (by rw [hes, append_assoc]; rfl)
    rw [reportsLengths_iff, run_append] at hnext
    exact keepsSizes_of_right hnext
  · intro h before
    -- induction over the run, from its start
    induction before using reverseRecOn with
    | nil =>
      rw [reportsLengths_iff]
      nofun
    | append_singleton before e ih =>
      intro after hes
      rw [append_assoc] at hes
      have hbefore := ih ([e] ++ after) hes
      rw [reportsLengths_iff] at hbefore ⊢
      rw [run_append]
      exact step_right hbefore (hanswered before e after hes) (h before e after hes)

def answerOf (contentLength : List Char) : Answer where
  head := .ok ⟨200, "", "", some contentLength, none⟩
  range := .error ""

theorem answerOf_truthful (content : Bytes) (h : stoll text = some (content.length : Int)) :
    Truthful (some content) (answerOf text) where
  head := by
    intro res hres _
    cases hres
    refine ⟨content, rfl, rfl, ?_⟩
    intro text' htext
    obtain ⟨hmem, _⟩ := Option.mem_filter_iff.mp htext
    cases hmem
    exact h
  range := nofun

def threeBytes : String → Option Bytes := fun _ => some [1, 2, 3]

def readKey : Event :=
  .openFile "s3://bucket/key" ⟨true, false, false, false⟩ (answerOf ['3'])

/-- The object is read, and then overwritten by a longer one. -/
def overwrite : List Event :=
  [readKey,
    .openUpload "s3://bucket/key" ⟨false, true, false, true⟩ (answerOf ['3']) (answerOf ['3']) true,
    .finalizeMultipartUpload 0 [1, 2, 3, 4, 5]]

theorem threeBytes_truthful : Truthful (some [1, 2, 3]) (answerOf ['3']) :=
  answerOf_truthful [1, 2, 3] (by decide)

/-- The next open for reading reports the length of the old content. -/
theorem overwrite_keeps_length : (Process.created threeBytes).Answered id overwrite ∧
      ¬ ((Process.created threeBytes).run id overwrite).ReportsLengths id := by
  constructor
  · apply answered_cons
    · exact threeBytes_truthful
    · apply answered_cons
      · exact ⟨threeBytes_truthful, threeBytes_truthful⟩
      · apply answered_cons
        · exact True.intro
        · exact answered_nil _
  · rw [reportsLengths_iff]
    intro h
    obtain ⟨content, hobject, hlength⟩ := h "s3://bucket/key" 3 (by decide)
    have hnew : ((Process.created threeBytes).run id overwrite).objects "s3://bucket/key" =
        some [1, 2, 3, 4, 5] := by decide
    have heq : some content = some [1, 2, 3, 4, 5] := hobject.symm.trans hnew
    cases heq
    cases hlength

/-- The object is read, overwritten by another of the same length, and read again. -/
def rewrite : List Event :=
  [readKey,
    .openUpload "s3://bucket/key" ⟨false, true, false, true⟩ (answerOf ['3']) (answerOf ['3']) true,
    .finalizeMultipartUpload 0 [4, 5, 6], readKey]

theorem rewrite_answered : (Process.created threeBytes).Answered id rewrite :=
  answered_cons threeBytes_truthful
    (answered_cons ⟨threeBytes_truthful, threeBytes_truthful⟩
      (answered_cons True.intro
        (answered_cons (answerOf_truthful [4, 5, 6] (by decide)) (answered_nil _))))

theorem rewrite_keepsSizes {before after : List Event} (h : rewrite = before ++ e :: after) :
    e.KeepsSizes id ((Process.created threeBytes).run id before) := by
  match before with
  | [] | [_] | [_, _, _] =>
    cases h
    exact True.intro
  | [_, _] =>
    cases h
    intro path _ known length _ hknown
    by_cases hkey : known = "s3://bucket/key"
    · subst hkey
      cases hknown
      rfl
    · have hnone : update (fun _ => none) "s3://bucket/key" (some 3) known = some length := hknown
      rw [update_of_ne hkey] at hnone
      cases hnone
  | _ :: _ :: _ :: _ :: rest => cases rest <;> cases h

theorem openedLength_current_rewrite :
    ((Process.created threeBytes).run id rewrite).ReportsLengths id :=
  (openedLength_current_iff id threeBytes rewrite rewrite_answered).mpr
    (fun _ _ _ => rewrite_keepsSizes) rewrite [] (append_nil _).symm

end Ladybug.SizeCache
