import Ladybug.Json.LineRounds

/-!
# The text of a JSON array

The scan of an array takes the text apart value by value: `nextJson` looks for the end of a value
without parsing it, and behind each value there is a separator.  Arrays are such sequences of values
whose separators are commas, but for the last one.
-/

namespace Ladybug.JsonScan

open Markup List

variable {Doc : Type} {parser : Parser Doc}

/-- What may follow a value of an array: white space, a comma or the closing bracket. -/
def Follows (rest : Bytes) : Prop :=
  ∃ c tail, rest = c :: tail ∧ (isSpace c = true ∨ isSeparator c = true)

/-- The parser takes these bytes for the value, wherever an array may go on behind them. -/
structure Parser.Value (parser : Parser Doc) (value : Bytes) (doc : Doc) : Prop where
  starts : ∃ c rest, value = c :: rest ∧ isSpace c = false
  read : ∀ rest, Follows rest → parser.read (value ++ rest) padding = .ok (doc, value.length)

/-- A byte that is no bracket and begins no string. -/
def isPlain (c : UInt8) : Bool := !isOpen c && !isClose c && c != quote

inductive StringEnd : Bytes → Prop
  | close : StringEnd [quote]
  | char {c : UInt8} {rest : Bytes} : c ≠ quote → c ≠ backslash → StringEnd rest →
      StringEnd (c :: rest)
  | escape {c : UInt8} {rest : Bytes} : StringEnd rest → StringEnd (backslash :: c :: rest)

/-- What stands between brackets. -/
inductive Balanced : Bytes → Prop
  | nil : Balanced []
  | plain {c : UInt8} {rest : Bytes} : isPlain c = true → Balanced rest → Balanced (c :: rest)
  | string {body rest : Bytes} : StringEnd body → Balanced rest → Balanced (quote :: (body ++ rest))
  | object {inner rest : Bytes} : Balanced inner → Balanced rest →
      Balanced (openBrace :: (inner ++ closeBrace :: rest))
  | array {inner rest : Bytes} : Balanced inner → Balanced rest →
      Balanced (openBracket :: (inner ++ closeBracket :: rest))

inductive JsonShape : Bytes → Prop
  | scalar {value : Bytes} : value ≠ [] → (∀ c ∈ value, isPlain c = true ∧ c ≠ comma) →
      JsonShape value
  | string {body : Bytes} : StringEnd body → JsonShape (quote :: body)
  | object {inner : Bytes} : Balanced inner → JsonShape (openBrace :: (inner ++ [closeBrace]))
  | array {inner : Bytes} : Balanced inner → JsonShape (openBracket :: (inner ++ [closeBracket]))

structure Parser.ReadsJson (parser : Parser Doc) : Prop where
  sound : ∀ (c : UInt8) (rest : Bytes) doc n, isSpace c = false →
    parser.read (c :: rest) padding = .ok (doc, n) →
      n ≤ (c :: rest).length ∧ parser.Value ((c :: rest).take n) doc
  shape : ∀ value doc, parser.Value value doc → JsonShape value

theorem nextJsonDefault_string {body : Bytes} (h : StringEnd body) (parents : Nat) (rest : Bytes) :
    nextJsonDefault .inString parents (body ++ rest)
      = body.length + if parents = 0 then 0 else nextJsonDefault .outside parents rest := by
  induction h with
  | close =>
    show (if quote = quote then _ else _) = _
    rw [if_pos rfl]
    split
    · rfl
    · rfl
  | @char c body hquote hbackslash _ ih =>
    show (if c = quote then _ else if c = backslash then _ else
      1 + nextJsonDefault .inString parents (body ++ rest)) = _
    rw [if_neg hquote, if_neg hbackslash, length_cons, ih]
    omega
  | @escape c body _ ih =>
    show (if backslash = quote then _ else if backslash = backslash then
      1 + (1 + nextJsonDefault .inString parents (body ++ rest)) else _) = _
    rw [if_neg (by decide), if_pos rfl, length_cons, length_cons, ih]
    omega

theorem nextJsonDefault_quote (parents : Nat) (text : Bytes) :
    nextJsonDefault .outside parents (quote :: text)
      = 1 + nextJsonDefault .inString parents text := by
  show (if isOpen quote = true then _ else if isClose quote = true then _ else
    if quote = quote then _ else _) = _
  rw [if_neg (by decide), if_neg (by decide), if_pos rfl]

variable {c : UInt8} {inner seps : Bytes} {size : Nat} {docs : List Doc}

theorem nextJsonDefault_open (hc : isOpen c = true) (parents : Nat) (text : Bytes) :
    nextJsonDefault .outside parents (c :: text)
      = 1 + nextJsonDefault .outside (parents + 1) text :=
  if_pos hc

theorem nextJsonDefault_close (hc : isOpen c = false) (hclose : isClose c = true) (parents : Nat)
    (text : Bytes) :
    nextJsonDefault .outside (parents + 1) (c :: text)
      = 1 + if parents = 0 then 0 else nextJsonDefault .outside parents text := by
  show (if isOpen c = true then _ else if isClose c = true then
    if parents + 1 = 1 then 1 else 1 + nextJsonDefault .outside (parents + 1 - 1) text else _) = _
  rw [if_neg (by rw [hc]; exact Bool.false_ne_true), if_pos hclose]
  cases parents with
  | zero => rfl
  | succ parents =>
    rw [if_neg (by omega), if_neg (Nat.succ_ne_zero parents), Nat.add_sub_cancel]

theorem nextJsonDefault_balanced (h : Balanced inner) {parents : Nat} (hparents : parents ≠ 0)
    (rest : Bytes) :
    nextJsonDefault .outside parents (inner ++ rest)
      = inner.length + nextJsonDefault .outside parents rest := by
  induction h generalizing parents rest with
  | nil => exact (Nat.zero_add _).symm
  | @plain c inner hplain _ ih =>
    unfold isPlain at hplain
    simp only [Bool.and_eq_true, Bool.not_eq_true', bne_iff_ne] at hplain
    obtain ⟨⟨hopen, hclose⟩, hquote⟩ := hplain
    show (if isOpen c = true then _ else if isClose c = true then _ else
      if c = quote then _ else 1 + nextJsonDefault .outside parents (inner ++ rest)) = _
    rw [if_neg (by rw [hopen]; exact Bool.false_ne_true),
      if_neg (by rw [hclose]; exact Bool.false_ne_true), if_neg hquote, length_cons,
      ih hparents]
    omega
  | @string body inner hbody _ ih =>
    rw [cons_append, nextJsonDefault_quote, append_assoc, nextJsonDefault_string hbody,
      if_neg hparents, ih hparents, length_cons, length_append]
    omega
  | @object inner more _ _ ih ih' =>
    rw [cons_append, nextJsonDefault_open (by decide), append_assoc,
      ih (Nat.succ_ne_zero parents), cons_append,
      nextJsonDefault_close (by decide) (by decide), if_neg hparents, ih' hparents,
      length_cons, length_append, length_cons]
    omega
  | @array inner more _ _ ih ih' =>
    rw [cons_append, nextJsonDefault_open (by decide), append_assoc,
      ih (Nat.succ_ne_zero parents), cons_append,
      nextJsonDefault_close (by decide) (by decide), if_neg hparents, ih' hparents,
      length_cons, length_append, length_cons]
    omega

theorem nextJsonDefault_group {d : UInt8} (hc : isOpen c = true) (hd : isOpen d = false)
    (hclose : isClose d = true) (h : Balanced inner) (rest : Bytes) :
    nextJsonDefault .outside 0 (c :: (inner ++ d :: rest)) = inner.length + 2 := by
  rw [nextJsonDefault_open hc, nextJsonDefault_balanced h (Nat.succ_ne_zero 0),
    nextJsonDefault_close hd hclose, if_pos rfl]
  omega

theorem nextJson_default {rest : Bytes} (hc : (isOpen c || c == quote) = true)
    (hsize : nextJsonDefault .outside 0 (c :: rest) = size) (hlt : size < (c :: rest).length) :
    nextJson (c :: rest) = some size := by
  unfold nextJson
  simp only []
  rw [if_pos hc, hsize, if_neg (Nat.ne_of_lt hlt)]

theorem nextJson_scalar {rest : Bytes} (hc : (isOpen c || c == quote) = false)
    (hsize : (c :: rest).findIdx isSeparator = size) (hlt : size < (c :: rest).length) :
    nextJson (c :: rest) = some size := by
  unfold nextJson
  simp only [hc, Bool.false_eq_true, if_false, hsize]
  exact if_neg (Nat.ne_of_lt hlt)

theorem separator_not_space (h : isSpace c = true) : isSeparator c = false := by
  unfold isSeparator
  rw [Bool.or_eq_false_iff, beq_eq_false_iff_ne, beq_eq_false_iff_ne]
  constructor
  all_goals
    rintro rfl
    exact absurd h (by decide)

theorem not_separator_of_plain (h : isPlain c = true) (hcomma : c ≠ comma) :
    isSeparator c = false := by
  unfold isSeparator
  rw [Bool.or_eq_false_iff, beq_eq_false_iff_ne, beq_eq_false_iff_ne]
  refine ⟨hcomma, ?_⟩
  rintro rfl
  exact absurd h (by decide)

theorem nextJson_value {value before rest : Bytes} {sep : UInt8} (h : JsonShape value)
    (hbefore : before.all isSpace = true) (hsep : isSeparator sep = true) :
    ∃ skipped ≤ before.length,
      nextJson (value ++ (before ++ sep :: rest)) = some (value.length + skipped) := by
  have hlength : ∀ skipped ≤ before.length,
      value.length + skipped < (value ++ (before ++ sep :: rest)).length := by
    rw [length_append, length_append, length_cons]
    omega
  cases h with
  | scalar hsome hplain =>
    refine ⟨before.length, Nat.le_refl _, ?_⟩
    have hnone : ∀ c ∈ value ++ before, isSeparator c = false := by
      intro c hc
      rcases mem_append.mp hc with hvalue | hspace
      · obtain ⟨hc, hcomma⟩ := hplain c hvalue
        exact not_separator_of_plain hc hcomma
      · exact separator_not_space (all_eq_true.mp hbefore c hspace)
    have hindex : (value ++ (before ++ sep :: rest)).findIdx isSeparator
        = value.length + before.length := by
      rw [← append_assoc, findIdx_append, findIdx_eq_length_of_false hnone,
        if_neg (Nat.lt_irrefl _), findIdx_cons, hsep, length_append]
      exact Nat.zero_add _
    have hlt := hlength before.length (Nat.le_refl _)
    cases value with
    | nil => exact absurd rfl hsome
    | cons c value =>
      have hc := (hplain c mem_cons_self).1
      unfold isPlain at hc
      simp only [Bool.and_eq_true, Bool.not_eq_true', bne_iff_ne] at hc
      apply nextJson_scalar _ hindex hlt
      rw [hc.1.1, beq_eq_false_iff_ne.mpr hc.2]
      rfl
  | @string body hbody =>
    refine ⟨0, Nat.zero_le _, nextJson_default (by decide) ?_ (hlength 0 (Nat.zero_le _))⟩
    show nextJsonDefault .outside 0 (quote :: (body ++ _)) = _
    rw [nextJsonDefault_quote, nextJsonDefault_string hbody, if_pos rfl, length_cons]
    omega
  | @object inner hinner =>
    refine ⟨0, Nat.zero_le _, nextJson_default (by decide) ?_ (hlength 0 (Nat.zero_le _))⟩
    show nextJsonDefault .outside 0 (openBrace :: ((inner ++ [closeBrace]) ++ _)) = _
    rw [append_assoc, singleton_append,
      nextJsonDefault_group (by decide) (by decide) (by decide) hinner, length_cons,
      length_append, length_singleton]
  | @array inner hinner =>
    refine ⟨0, Nat.zero_le _, nextJson_default (by decide) ?_ (hlength 0 (Nat.zero_le _))⟩
    show nextJsonDefault .outside 0 (openBracket :: ((inner ++ [closeBracket]) ++ _)) = _
    rw [append_assoc, singleton_append,
      nextJsonDefault_group (by decide) (by decide) (by decide) hinner, length_cons,
      length_append, length_singleton]

inductive CommaSeparated (parser : Parser Doc) : Bytes → List Doc → Prop
  | one {before value after : Bytes} {doc : Doc} : before.all isSpace = true →
      parser.Value value doc → after.all isSpace = true →
        CommaSeparated parser (before ++ (value ++ after)) [doc]
  | more {before value after rest : Bytes} {doc : Doc} {docs : List Doc} :
      before.all isSpace = true → parser.Value value doc → after.all isSpace = true →
      CommaSeparated parser rest docs →
        CommaSeparated parser (before ++ (value ++ (after ++ comma :: rest))) (doc :: docs)

def IsArray (parser : Parser Doc) (file : Bytes) (docs : List Doc) : Prop :=
  ∃ front body back, file = front ++ openBracket :: (body ++ closeBracket :: back)
    ∧ front.all isSpace = true ∧ back.all isSpace = true
    ∧ ((body.all isSpace = true ∧ docs = []) ∨ CommaSeparated parser body docs)

/-- Values, each with a comma or a closing bracket behind it. -/
inductive Elements (parser : Parser Doc) : Bytes → List Doc → Bytes → Prop
  | nil : Elements parser [] [] []
  | cons {value before after rest seps : Bytes} {sep : UInt8} {doc : Doc} {docs : List Doc} :
      parser.Value value doc → before.all isSpace = true → isSeparator sep = true →
      after.all isSpace = true → Elements parser rest docs seps →
        Elements parser (value ++ (before ++ sep :: (after ++ rest))) (doc :: docs) (sep :: seps)

/-- What the scan takes for an array. -/
inductive Taken (parser : Parser Doc) : Bytes → List Doc → Prop
  | blank {file : Bytes} : file.all isSpace = true → Taken parser file []
  | empty {front mid back : Bytes} : front.all isSpace = true → mid.all isSpace = true →
      back.all isSpace = true →
        Taken parser (front ++ openBracket :: (mid ++ closeBracket :: back)) []
  | elements {front mid text seps : Bytes} {docs : List Doc} : front.all isSpace = true →
      mid.all isSpace = true → text ≠ [] → Elements parser text docs seps →
        Taken parser (front ++ openBracket :: (mid ++ text)) docs

def arraySeparators (n : Nat) : Bytes := replicate n comma ++ [closeBracket]

/-- What is taken for an array is one: the file is not blank, and the separators are those of an
array. -/
def OnlyArrays (parser : Parser Doc) (file : Bytes) : Prop :=
  file.all isSpace = false
    ∧ ∀ front mid text docs seps, file = front ++ openBracket :: (mid ++ text) →
      front.all isSpace = true → mid.all isSpace = true → text ≠ [] →
        Elements parser text docs seps → ∃ n, seps = arraySeparators n

theorem CommaSeparated.elements {body : Bytes} {docs : List Doc} (h : CommaSeparated parser body docs)
    {back : Bytes} (hback : back.all isSpace = true) :
    ∃ mid text n, body ++ closeBracket :: back = mid ++ text ∧ mid.all isSpace = true ∧ text ≠ []
      ∧ Elements parser text docs (arraySeparators n) := by
  induction h with
  | @one before value after doc hbefore hvalue hafter =>
    refine ⟨before, value ++ (after ++ closeBracket :: (back ++ [])), 0, ?_, hbefore, ?_,
      .cons hvalue hafter (by decide) hback .nil⟩
    · simp only [append_assoc, append_nil]
    · simp
  | @more before value after rest doc docs hbefore hvalue hafter _ ih =>
    obtain ⟨mid, text, n, htext, hmid, -, helements⟩ := ih
    refine ⟨before, value ++ (after ++ comma :: (mid ++ text)), n + 1, ?_, hbefore, ?_,
      .cons hvalue hafter (by decide) hmid helements⟩
    · simp only [append_assoc, cons_append, htext]
    · simp

theorem Elements.commaSeparated {n : Nat} {text : Bytes}
    (h : Elements parser text docs (arraySeparators n)) {mid : Bytes}
    (hmid : mid.all isSpace = true) :
    ∃ body back, mid ++ text = body ++ closeBracket :: back ∧ back.all isSpace = true
      ∧ CommaSeparated parser body docs := by
  induction n generalizing text docs mid with
  | zero =>
    generalize hseps : arraySeparators 0 = seps at h
    cases h with
    | nil => cases hseps
    | @cons value before after rest seps sep doc docs hvalue hbefore hsep hafter hrest =>
      obtain ⟨rfl, rfl⟩ := cons.inj hseps
      cases hrest with
      | nil =>
        refine ⟨mid ++ (value ++ before), after ++ [], ?_, ?_, .one hmid hvalue hbefore⟩
        · simp only [append_assoc]
        · rw [append_nil]
          exact hafter
  | succ n ih =>
    generalize hseps : arraySeparators (n + 1) = seps at h
    cases h with
    | nil => cases hseps
    | @cons value before after rest seps sep doc docs hvalue hbefore hsep hafter hrest =>
      obtain ⟨rfl, rfl⟩ := cons.inj hseps
      obtain ⟨body, back, htext, hback, hbody⟩ := ih hrest hafter
      refine ⟨mid ++ (value ++ (before ++ comma :: body)), back, ?_, hback,
        .more hmid hvalue hbefore hbody⟩
      rw [htext]
      simp only [append_assoc, cons_append]

theorem IsArray.taken {file : Bytes} (h : IsArray parser file docs) : Taken parser file docs := by
  obtain ⟨front, body, back, rfl, hfront, hback, ⟨hbody, rfl⟩ | hbody⟩ := h
  · exact .empty hfront hbody hback
  · obtain ⟨mid, text, n, htext, hmid, hsome, helements⟩ := hbody.elements hback
    rw [htext]
    exact .elements hfront hmid hsome helements

def Solid (text : Bytes) : Prop := ∀ c rest, text = c :: rest → isSpace c = false

theorem takeWhile_space {front text : Bytes} (hfront : front.all isSpace = true) (htext : Solid text) :
    (front ++ text).takeWhile isSpace = front := by
  rw [takeWhile_append_of_pos (all_eq_true.mp hfront)]
  cases text with
  | nil => exact append_nil front
  | cons c text =>
    rw [takeWhile_cons_of_neg (by rw [htext c text rfl]; exact Bool.false_ne_true), append_nil]

theorem skipWhitespace_space {front text : Bytes} (hfront : front.all isSpace = true)
    (htext : Solid text) : skipWhitespace (front ++ text) = front.length := by
  unfold skipWhitespace
  rw [takeWhile_space hfront htext]

theorem spaces_unique {front front' text text' : Bytes} (hfront : front.all isSpace = true)
    (hfront' : front'.all isSpace = true) (htext : Solid text) (htext' : Solid text')
    (h : front ++ text = front' ++ text') : front = front' ∧ text = text' := by
  have heq : front = front' := by
    rw [← takeWhile_space hfront htext, h, takeWhile_space hfront' htext']
  refine ⟨heq, ?_⟩
  rw [heq] at h
  exact append_cancel_left h

theorem solid_nil : Solid [] := by
  intro c rest heq
  cases heq

theorem solid_cons (hc : isSpace c = false) (rest : Bytes) : Solid (c :: rest) := by
  intro d tail heq
  rw [← (cons.inj heq).1]
  exact hc

theorem solid_separator {sep : UInt8} (hsep : isSeparator sep = true) (rest : Bytes) :
    Solid (sep :: rest) := by
  apply solid_cons
  rw [Bool.eq_false_iff]
  intro hspace
  rw [separator_not_space hspace] at hsep
  cases hsep

theorem Parser.Value.solid {value : Bytes} {doc : Doc} (h : parser.Value value doc) (rest : Bytes) :
    Solid (value ++ rest) := by
  obtain ⟨c, tail, rfl, hc⟩ := h.starts
  exact solid_cons hc _

theorem follows_space {before rest : Bytes} {sep : UInt8} (hbefore : before.all isSpace = true)
    (hsep : isSeparator sep = true) : Follows (before ++ sep :: rest) := by
  cases before with
  | nil => exact ⟨sep, rest, rfl, .inr hsep⟩
  | cons c before =>
    rw [all_cons, Bool.and_eq_true] at hbefore
    exact ⟨c, before ++ sep :: rest, rfl, .inl hbefore.1⟩

theorem Elements.solid {text : Bytes} (h : Elements parser text docs seps) : Solid text := by
  cases h with
  | nil => exact solid_nil
  | cons hvalue => exact hvalue.solid _

theorem Elements.unique {text seps' : Bytes} {docs' : List Doc} (h : Elements parser text docs seps)
    (h' : Elements parser text docs' seps') : docs = docs' ∧ seps = seps' := by
  induction h generalizing docs' seps' with
  | nil =>
    generalize hnil : ([] : Bytes) = text at h'
    cases h' with
    | nil => exact ⟨rfl, rfl⟩
    | cons hvalue =>
      obtain ⟨c, tail, rfl, -⟩ := hvalue.starts
      cases hnil
  | @cons value before after rest seps sep doc docs hvalue hbefore hsep hafter hrest ih =>
    generalize htext : value ++ (before ++ sep :: (after ++ rest)) = text at h'
    cases h' with
    | nil =>
      obtain ⟨c, tail, rfl, -⟩ := hvalue.starts
      cases htext
    | @cons value' before' after' rest' seps' sep' doc' docs' hvalue' hbefore' hsep' hafter' hrest' =>
      -- the parser reads one value
      have hread := hvalue.read _ (@follows_space before (after ++ rest) sep hbefore hsep)
      rw [htext, hvalue'.read _ (@follows_space before' (after' ++ rest') sep' hbefore' hsep')]
        at hread
      obtain ⟨hdoc, hlength⟩ := Prod.mk.inj (Except.ok.inj hread)
      obtain ⟨-, htail⟩ := append_inj htext hlength.symm
      obtain ⟨-, hseps⟩ := spaces_unique hbefore hbefore' (solid_separator hsep _)
        (solid_separator hsep' _) htail
      obtain ⟨rfl, hrests⟩ := cons.inj hseps
      obtain ⟨-, rfl⟩ := spaces_unique hafter hafter' hrest.solid hrest'.solid hrests
      obtain ⟨hdocs, hseps⟩ := ih hrest'
      rw [hdoc, hdocs, hseps]
      exact ⟨rfl, rfl⟩

theorem onlyArrays_iff (file : Bytes) :
    (∀ docs, Taken parser file docs ↔ IsArray parser file docs) ↔ OnlyArrays parser file := by
  constructor
  · intro htaken
    constructor
    · rw [Bool.eq_false_iff]
      intro hblank
      obtain ⟨front, body, back, rfl, -, -, -⟩ := (htaken []).mp (.blank hblank)
      have hopen := all_eq_true.mp hblank openBracket (by simp)
      exact absurd hopen (by decide)
    · intro front mid text docs seps hfile hfront hmid hsome helements
      obtain ⟨front', body, back, hfile', hfront', hback, hbody⟩ :=
        (htaken docs).mp (hfile ▸ .elements hfront hmid hsome helements)
      rcases hbody with ⟨-, rfl⟩ | hbody
      · -- there is an element
        cases helements with
        | nil => exact absurd rfl hsome
      · obtain ⟨mid', text', n, htext, hmid', -, helements'⟩ := hbody.elements hback
        rw [hfile', htext] at hfile
        have hsolid := fun rest => solid_cons (c := openBracket) (by decide) rest
        have htexts := (spaces_unique hfront' hfront (hsolid _) (hsolid _) hfile).2
        obtain ⟨-, rfl⟩ := spaces_unique hmid' hmid helements'.solid helements.solid
          (cons.inj htexts).2
        exact ⟨n, (helements.unique helements').2⟩
  · intro honly docs
    refine ⟨fun htaken => ?_, IsArray.taken⟩
    generalize hfile : file = text at htaken
    cases htaken with
    | blank hblank =>
      rw [← hfile, honly.1] at hblank
      cases hblank
    | @empty front mid back hfront hmid hback =>
      exact ⟨front, mid, back, rfl, hfront, hback, .inl ⟨hmid, rfl⟩⟩
    | @elements front mid text seps docs hfront hmid hsome helements =>
      obtain ⟨n, rfl⟩ := honly.2 front mid text docs seps hfile hfront hmid hsome helements
      obtain ⟨body, back, htext, hback, hbody⟩ := helements.commaSeparated hmid
      rw [htext]
      exact ⟨front, body, back, rfl, hfront, hback, .inr hbody⟩

end Ladybug.JsonScan
