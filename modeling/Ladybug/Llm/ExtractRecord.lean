import Ladybug.Base.Binary64
import Ladybug.Json.JsonScan
import Mathlib.Data.List.DropRight
import Mathlib.Data.List.Forall2

/-!
# `AI_EXTRACT_RECORD` (`llm/src/function/ai_extract_record.cpp`)

The model's answer is parsed as a JSON object, and each field of the schema is filled from the member
of its name.  A field that is not `NULL` should be what the member says.
-/

namespace Ladybug.ExtractRecord

open List Option
open Markup (ascii)
open JsonScan (isSpace)

/-! ## 1. Documents -/

/-- A value that yyjson has read.  A real is the number in the text, not yet rounded. -/
inductive JsonVal where
  | null
  | bool (b : Bool)
  | uint (n : UInt64)
  | sint (n : Int64)
  | real (q : ℚ)
  | str (s : Bytes)
  | arr (elements : List JsonVal)
  | obj (members : List (Bytes × JsonVal))

/-- The parser and the writer; there is no object without its braces. -/
structure Yyjson where
  read : Bytes → Option JsonVal
  write : JsonVal → Option Bytes
  braces : ∀ {text members}, read text = some (.obj members) →
    ∃ before inner after, text = before ++ 0x7b :: (inner ++ 0x7d :: after)

inductive LogicalType where
  | INT64
  | DOUBLE
  | BOOL
  | LIST
  | STRING

structure SchemaField where
  name : Bytes
  type : LogicalType

inductive FieldValue where
  | null
  | int (n : Int64)
  | undefined
  | double (d : Double)
  | bool (b : Bool)
  | string (s : Bytes)
  | list (entries : List (Option Bytes))

/-- What a `const char*` shows of a string. -/
def cString (s : Bytes) : Bytes := s.takeWhile (· != 0)

def getMember (key : Bytes) : JsonVal → Option JsonVal
  | .obj members => (members.find? fun m => m.1 == key).map Prod.snd
  | _ => none

def yyjsonGetSint : JsonVal → Int64
  | .uint n => n.toInt64
  | .sint n => n
  | _ => 0

/-! ## 2. The functions -/

def jsonTypeToLogicalType (typeName : Bytes) : LogicalType :=
  if typeName = ascii "integer" then .INT64
  else if typeName = ascii "number" then .DOUBLE
  else if typeName = ascii "boolean" then .BOOL
  else if typeName = ascii "array" then .LIST
  else .STRING

def extractTypeName (propNode : JsonVal) : Bytes :=
  match getMember (ascii "type") propNode with
  | some (.str s) => cString s
  | some (.arr items) => (items.findSome? fun item => match item with
      | .str s => if cString s = ascii "null" then none else some (cString s)
      | _ => none).getD (ascii "string")
  | _ => ascii "string"

def parseSchema (y : Yyjson) (schemaJson : Bytes) : Except String (List SchemaField) :=
  match y.read schemaJson with
  | none => .error "AI_EXTRACT_RECORD: json_schema is not valid JSON."
  | some (.obj members) =>
    match getMember (ascii "type") (.obj members) with
    | some (.str typeName) =>
      if cString typeName ≠ ascii "object" then
        .error "AI_EXTRACT_RECORD: json_schema top-level \"type\" must be \"object\"."
      else match getMember (ascii "properties") (.obj members) with
        | some (.obj []) => .error "AI_EXTRACT_RECORD: json_schema \"properties\" has no fields."
        | some (.obj props) => .ok (props.map fun prop =>
            ⟨cString prop.1, jsonTypeToLogicalType (extractTypeName prop.2)⟩)
        | _ => .error "AI_EXTRACT_RECORD: json_schema must have a \"properties\" object."
    | _ => .error "AI_EXTRACT_RECORD: json_schema top-level \"type\" must be \"object\"."
  | some _ => .error "AI_EXTRACT_RECORD: json_schema root must be a JSON object."

/-- From the first opening brace to the last closing one behind it. -/
def betweenBraces (s : Bytes) : Option Bytes :=
  let text := (s.dropWhile (· != 0x7b)).rdropWhile (· != 0x7d)
  if text.isEmpty then none else some text

def stripCodeFence (s : Bytes) : Bytes := (betweenBraces s).getD s

def isDigit (c : UInt8) : Bool := 0x30 ≤ c && c ≤ 0x39

def toLower (c : UInt8) : UInt8 := if 0x41 ≤ c && c ≤ 0x5a then c + 0x20 else c

def isHexDigit (c : UInt8) : Bool := isDigit c || (0x61 ≤ toLower c && toLower c ≤ 0x66)

def digitValue (c : UInt8) : Nat := if isDigit c then c.toNat - 0x30 else (toLower c).toNat - 0x57

def digitsValue (base : Nat) (digits : Bytes) : Nat :=
  digits.foldl (fun n c => base * n + digitValue c) 0

def signs (text : Bytes) : Bytes := (text.take 1).filter fun c => c == 0x2d || c == 0x2b

def signed (sign : Bytes) (n : Nat) : Int := if sign = [0x2d] then -n else n

/-- `std::stoll`: the value and the text behind it. -/
def stoll (sv : Bytes) : Option (Int64 × Bytes) :=
  let text := sv.dropWhile isSpace
  let unsigned := text.drop (signs text).length
  let digits := unsigned.takeWhile isDigit
  let value := signed (signs text) (digitsValue 10 digits)
  if digits = [] ∨ value < -2 ^ 63 ∨ 2 ^ 63 ≤ value then none
  else some (Int64.ofInt value, unsigned.dropWhile isDigit)

/-- A notation of numbers: decimal digits with a power of ten, or hexadecimal ones with a power of
two. -/
structure Numeration where
  base : Nat
  power : Nat
  digit : UInt8 → Bool
  mark : UInt8

def decimal : Numeration := ⟨10, 10, isDigit, 0x65⟩

def hexadecimal : Numeration := ⟨16, 2, isHexDigit, 0x70⟩

/-- The exponent and the text behind it; a mark without digits is no exponent. -/
def scanExponent (mark : UInt8) (text : Bytes) : Int × Bytes :=
  match text with
  | c :: behind =>
    let unsigned := behind.drop (signs behind).length
    let digits := unsigned.takeWhile isDigit
    if toLower c = mark ∧ digits ≠ [] then
      (signed (signs behind) (digitsValue 10 digits), unsigned.dropWhile isDigit)
    else (0, text)
  | [] => (0, [])

def scanNumber (n : Numeration) (text : Bytes) : Option (ℚ × Bytes) :=
  let whole := text.takeWhile n.digit
  let behind := text.dropWhile n.digit
  let point := (behind.take 1).filter (· == 0x2e)
  let fraction := (behind.drop point.length).takeWhile n.digit
  let exponent := scanExponent n.mark ((behind.drop point.length).dropWhile n.digit)
  if whole ++ fraction = [] then none
  else some (digitsValue n.base (whole ++ fraction) / n.base ^ fraction.length *
    n.power ^ exponent.1, exponent.2)

def isWord (c : UInt8) : Bool := isDigit c || c == 0x5f || (0x61 ≤ toLower c && toLower c ≤ 0x7a)

/-- What may stand behind a `nan`. -/
def dropPayload (text : Bytes) : Bytes :=
  match text with
  | 0x28 :: rest =>
    match rest.dropWhile isWord with
    | 0x29 :: behind => behind
    | _ => text
  | _ => text

def scanSpecial (negative : Bool) (text : Bytes) : Option (Double × Bytes) :=
  if (text.take 8).map toLower = ascii "infinity" then some (.infinite negative, text.drop 8)
  else if (text.take 3).map toLower = ascii "inf" then some (.infinite negative, text.drop 3)
  else if (text.take 3).map toLower = ascii "nan" then some (.nan, dropPayload (text.drop 3))
  else none

/-- A number beyond the largest double, and one below the normal ones that is not a double itself,
are out of range. -/
def readDouble (q : ℚ) : Option Double :=
  match roundDouble q with
  | .finite r => if |q| < 2 ^ (-1022 : Int) ∧ r ≠ q then none else some (.finite r)
  | _ => none

/-- `std::stod`: the value and the text behind it. -/
def stod (sv : Bytes) : Option (Double × Bytes) :=
  let text := sv.dropWhile isSpace
  let unsigned := text.drop (signs text).length
  let negative := signs text = [0x2d]
  let number := match unsigned with
    | 0x30 :: x :: behind =>
      (if toLower x = 0x78 then scanNumber hexadecimal behind else none) <|>
        scanNumber decimal unsigned
    | _ => scanNumber decimal unsigned
  match number with
  | some (q, behind) => (readDouble (if negative then -q else q)).map fun x => (x, behind)
  | none => scanSpecial negative unsigned

/-- The number, where nothing but spaces stands behind it. -/
def wholeText {V : Type} (read : Bytes → Option (V × Bytes)) (sv : Bytes) : Option V :=
  match read sv with
  | some (v, behind) => if behind.all isSpace then some v else none
  | none => none

def boolOfText (sv : Bytes) : Option Bool :=
  let sv := sv.map toLower
  if sv = ascii "true" ∨ sv = ascii "1" ∨ sv = ascii "yes" then some true
  else if sv = ascii "false" ∨ sv = ascii "0" ∨ sv = ascii "no" then some false
  else none

section

variable (y : Yyjson)

def listEntry : JsonVal → Option Bytes
  | .str s => some (cString s)
  | elem => some ((y.write elem).getD (ascii "null"))

def writeFieldValue : LogicalType → JsonVal → FieldValue
  | _, .null => .null
  | .INT64, .uint n => .int (yyjsonGetSint (.uint n))
  | .INT64, .sint n => .int (yyjsonGetSint (.sint n))
  | .INT64, .real q => ((roundDouble q).toInt64.map .int).getD .undefined
  | .INT64, .str s => ((wholeText stoll (cString s)).map .int).getD .null
  | .INT64, _ => .null
  | .DOUBLE, .real q => .double (roundDouble q)
  | .DOUBLE, .uint n => .double (roundDouble (yyjsonGetSint (.uint n)).toInt)
  | .DOUBLE, .sint n => .double (roundDouble (yyjsonGetSint (.sint n)).toInt)
  | .DOUBLE, .str s => ((wholeText stod (cString s)).map .double).getD .null
  | .DOUBLE, _ => .null
  | .BOOL, .bool b => .bool b
  | .BOOL, .uint n => .bool (yyjsonGetSint (.uint n) != 0)
  | .BOOL, .sint n => .bool (yyjsonGetSint (.sint n) != 0)
  | .BOOL, .str s => ((boolOfText (cString s)).map .bool).getD .null
  | .BOOL, _ => .null
  | .LIST, .arr elements => .list (elements.map (listEntry y))
  | .LIST, _ => .null
  | .STRING, .str s => .string (cString s)
  | .STRING, v => ((y.write v).map .string).getD .null

/-- A field without a member is `NULL`. -/
def writeMember (members : List (Bytes × JsonVal)) (field : SchemaField) : FieldValue :=
  writeFieldValue y field.type ((getMember field.name (.obj members)).getD .null)

/-- The fields of the struct of one row; `none` is a struct that is `NULL`. -/
def populateStructResult (fields : List SchemaField) (rawOutput : Bytes) :
    Option (List (FieldValue)) :=
  match y.read (stripCodeFence rawOutput) with
  | some (.obj members) => some (fields.map (writeMember y members))
  | _ => none

/-! ## 3. What a field should be -/

/-- A decimal string, with spaces around it. -/
structure IntegerText (s : Bytes) (n : Int) where
  before : Bytes
  sign : Bytes
  digits : Bytes
  after : Bytes
  text : s = before ++ (sign ++ (digits ++ after))
  spaces : before.all isSpace ∧ after.all isSpace
  sign_ok : sign = [] ∨ sign = [0x2d] ∨ sign = [0x2b]
  digits_ok : digits ≠ [] ∧ digits.all isDigit
  value : n = signed sign (digitsValue 10 digits)

inductive ExponentText (mark : UInt8) : Bytes → Int → Prop where
  | none : ExponentText mark [] 0
  | power {c : UInt8} {sign digits : Bytes} (mark_ok : toLower c = mark)
      (sign_ok : sign = [] ∨ sign = [0x2d] ∨ sign = [0x2b])
      (digits_ok : digits ≠ [] ∧ digits.all isDigit) :
      ExponentText mark (c :: (sign ++ digits)) (signed sign (digitsValue 10 digits))

/-- A number without its sign: digits, a point and digits, and an exponent. -/
structure NumberText (n : Numeration) (text : Bytes) (q : ℚ) where
  whole : Bytes
  point : Bytes
  fraction : Bytes
  exponent : Bytes
  e : Int
  text_eq : text = whole ++ (point ++ (fraction ++ exponent))
  digits_ok : whole ++ fraction ≠ [] ∧ whole.all n.digit ∧ fraction.all n.digit
  point_ok : point = [0x2e] ∨ point = [] ∧ fraction = []
  exponent_ok : ExponentText n.mark exponent e
  value : q = digitsValue n.base (whole ++ fraction) / n.base ^ fraction.length * n.power ^ e

inductive Magnitude (negative : Bool) : Bytes → Double → Prop where
  | decimal {text : Bytes} {q : ℚ} (number : Nonempty (NumberText decimal text q)) :
      Magnitude negative text (roundDouble (if negative then -q else q))
  | hexadecimal {x : UInt8} {text : Bytes} {q : ℚ} (x_ok : toLower x = 0x78)
      (number : Nonempty (NumberText hexadecimal text q)) :
      Magnitude negative (0x30 :: x :: text) (roundDouble (if negative then -q else q))
  | infinity {text : Bytes}
      (word : text.map toLower = ascii "inf" ∨ text.map toLower = ascii "infinity") :
      Magnitude negative text (.infinite negative)
  | nan {word payload : Bytes} (word_ok : word.map toLower = ascii "nan")
      (payload_ok : payload = [] ∨
        ∃ inner, payload = 0x28 :: (inner ++ [0x29]) ∧ inner.all isWord) :
      Magnitude negative (word ++ payload) .nan

/-- A text of a double, with spaces around it. -/
structure DoubleText (s : Bytes) (x : Double) where
  before : Bytes
  sign : Bytes
  magnitude : Bytes
  after : Bytes
  text : s = before ++ (sign ++ (magnitude ++ after))
  spaces : before.all isSpace ∧ after.all isSpace
  sign_ok : sign = [] ∨ sign = [0x2d] ∨ sign = [0x2b]
  value : Magnitude (sign = [0x2d]) magnitude x

/-- The words of a boolean. -/
def words (b : Bool) : List Bytes :=
  if b then [ascii "true", ascii "yes", ascii "1"] else [ascii "false", ascii "no", ascii "0"]

/-- The entry of an element: its text where it is not a string. -/
def EntryOf : JsonVal → Option Bytes → Prop
  | .null, entry => entry = none
  | .str s, entry => entry = some s
  | elem, entry => ∃ text, y.write elem = some text ∧ entry = some text

def Faithful : JsonVal → FieldValue → Prop
  | _, .null => True
  | _, .undefined => False
  | .uint m, .int n => n.toInt = m.toNat
  | .sint m, .int n => n = m
  | .real q, .int n => (n.toInt : ℚ) = q
  | .str s, .int n => Nonempty (IntegerText s n.toInt)
  | .real q, .double x => x = roundDouble q
  | .uint m, .double x => x = roundDouble m.toNat
  | .sint m, .double x => x = roundDouble m.toInt
  | .str s, .double x => 0 ∉ s ∧ Nonempty (DoubleText s x)
  | .bool b', .bool b => b = b'
  | .uint m, .bool b => m = if b then 1 else 0
  | .sint m, .bool b => m = if b then 1 else 0
  | .str s, .bool b => s.map toLower ∈ words b
  | .arr elements, .list entries => List.Forall₂ (EntryOf y) elements entries
  | .str s, .string t => t = s
  | v, .string t => y.write v = some t
  | _, _ => False

/-- The struct is `NULL` where the text between the braces is no object, and the fields of another one
are faithful. -/
def NeverForges (schemaJson : Bytes) (outputs : List Bytes) : Prop :=
  ∀ fields, parseSchema y schemaJson = .ok fields → ∀ rawOutput ∈ outputs,
    (populateStructResult y fields rawOutput = none ↔
      ¬ ∃ text members, betweenBraces rawOutput = some text ∧ y.read text = some (.obj members)) ∧
    ∀ text members, betweenBraces rawOutput = some text → y.read text = some (.obj members) →
      ∃ values, populateStructResult y fields rawOutput = some values ∧
        List.Forall₂ (fun field value =>
          Faithful y ((getMember field.name (.obj members)).getD .null) value) fields values

/-- The members that the field's type can hold. -/
def Fits : LogicalType → JsonVal → Prop
  | .INT64, .uint m => m.toNat < 2 ^ 63
  | .INT64, .real q => (∃ n : Int64, q = n.toInt) ∧ roundDouble q = .finite q
  | .INT64, .str s => 0 ∉ s ∨ wholeText stoll (cString s) = none
  | .DOUBLE, .uint m => m.toNat < 2 ^ 63
  | .DOUBLE, .str s => 0 ∉ s ∨ wholeText stod (cString s) = none
  | .BOOL, .uint m => m = 0 ∨ m = 1
  | .BOOL, .sint m => m = 0 ∨ m = 1
  | .BOOL, .str s => 0 ∉ s ∨ boolOfText (cString s) = none
  | .LIST, .arr elements => ∀ e ∈ elements, match e with
      | .null => False
      | .str s => 0 ∉ s
      | e => (y.write e).isSome
  | .STRING, .str s => 0 ∉ s
  | _, _ => True

/-! ## 4. The grid -/

variable {s : Bytes}

theorem cString_eq_self : cString s = s ↔ 0 ∉ s := by
  unfold cString
  rw [takeWhile_eq_self_iff]
  constructor
  · intro h hzero
    exact absurd (h 0 hzero) (by decide)
  · intro h c hc
    rw [bne_iff_ne]
    rintro rfl
    exact h hc

theorem IntegerText.no_zero {n : Int} (h : IntegerText s n) : 0 ∉ s := by
  have hspace : ∀ {text : Bytes}, text.all isSpace = true → 0 ∉ text := fun hall hzero =>
    absurd (all_eq_true.mp hall 0 hzero) (by decide)
  rw [h.text, mem_append, mem_append, mem_append]
  rintro (hzero | hzero | hzero | hzero)
  · exact hspace h.spaces.1 hzero
  · rcases h.sign_ok with hs | hs | hs
    all_goals
      rw [hs] at hzero
      exact absurd hzero (by decide)
  · exact absurd (all_eq_true.mp h.digits_ok.2 0 hzero) (by decide)
  · exact hspace h.spaces.2 hzero

theorem first_spec (p : UInt8 → Bool) (text : Bytes) :
    (text.take 1).filter p ++ text.drop ((text.take 1).filter p).length = text ∧
      ((text.take 1).filter p = [] ∨ ∃ c, p c = true ∧ (text.take 1).filter p = [c]) := by
  cases text with
  | nil => exact ⟨rfl, .inl rfl⟩
  | cons c text => cases hc : p c <;> simp [hc]

theorem signs_spec (text : Bytes) : signs text ++ text.drop (signs text).length = text ∧
    (signs text = [] ∨ signs text = [0x2d] ∨ signs text = [0x2b]) := by
  obtain ⟨htext, hsigns⟩ := first_spec (fun c => c == 0x2d || c == 0x2b) text
  refine ⟨htext, hsigns.imp_right ?_⟩
  rintro ⟨c, hc, heq⟩
  rw [Bool.or_eq_true, beq_iff_eq, beq_iff_eq] at hc
  rcases hc with rfl | rfl
  · exact .inl heq
  · exact .inr heq

theorem wholeText_eq_some {V : Type} {read : Bytes → Option (V × Bytes)} {v : V} :
    wholeText read s = some v ↔ ∃ behind, read s = some (v, behind) ∧ behind.all isSpace := by
  unfold wholeText
  grind

/-- What `std::stoll` reads to the end is a decimal string. -/
theorem wholeText_stoll {n : Int64} (h : wholeText stoll s = some n) :
    Nonempty (IntegerText s n.toInt) := by
  obtain ⟨hsign, hsign_ok⟩ := signs_spec (s.dropWhile isSpace)
  obtain ⟨behind, hread, hafter⟩ := wholeText_eq_some.mp h
  obtain ⟨hvalue, hread⟩ := ite_none_left_eq_some.mp hread
  cases hread
  rw [not_or, not_or] at hvalue
  exact ⟨s.takeWhile isSpace, _, _, _, by rw [takeWhile_append_dropWhile, hsign,
    takeWhile_append_dropWhile], ⟨all_takeWhile, hafter⟩, hsign_ok, ⟨hvalue.1, all_takeWhile⟩,
    Int64.toInt_ofInt_of_le (by omega) (by omega)⟩

theorem scanExponent_spec (mark : UInt8) (text : Bytes) :
    ∃ exponent, text = exponent ++ (scanExponent mark text).2 ∧
      ExponentText mark exponent (scanExponent mark text).1 := by
  unfold scanExponent
  cases text with
  | nil => exact ⟨[], rfl, .none⟩
  | cons c behind =>
    obtain ⟨hsign, hsign_ok⟩ := signs_spec behind
    dsimp only
    split
    · next hpower =>
      refine ⟨_, ?_, .power hpower.1 hsign_ok ⟨hpower.2, all_takeWhile⟩⟩
      rw [cons_append, append_assoc, takeWhile_append_dropWhile, hsign]
    · exact ⟨[], rfl, .none⟩

theorem takeWhile_dropWhile (p : UInt8 → Bool) (text : Bytes) :
    (text.dropWhile p).takeWhile p = [] := by
  induction text with
  | nil => rfl
  | cons c text ih => cases hc : p c <;> simp [hc, ih]

/-- What is scanned as a number is one. -/
theorem scanNumber_spec {n : Numeration} {text behind : Bytes} {q : ℚ}
    (h : scanNumber n text = some (q, behind)) :
    ∃ number, text = number ++ behind ∧ Nonempty (NumberText n number q) := by
  unfold scanNumber at h
  dsimp only at h
  split at h
  · cases h
  · next hdigits =>
    obtain ⟨rfl, rfl⟩ := Prod.mk.inj (some.inj h)
    obtain ⟨hpoint, hpoint_ok⟩ := first_spec (· == 0x2e) (text.dropWhile n.digit)
    generalize hp : ((text.dropWhile n.digit).take 1).filter (· == 0x2e) = point at *
    obtain ⟨exponent, hexponent, hexponent_ok⟩ := scanExponent_spec n.mark
      (((text.dropWhile n.digit).drop point.length).dropWhile n.digit)
    refine ⟨text.takeWhile n.digit ++ (point ++
      (((text.dropWhile n.digit).drop point.length).takeWhile n.digit ++ exponent)), ?_,
      ⟨_, _, _, _, _, rfl, ⟨hdigits, all_takeWhile, all_takeWhile⟩, ?_, hexponent_ok, rfl⟩⟩
    · rw [append_assoc, append_assoc, append_assoc, ← hexponent, takeWhile_append_dropWhile, hpoint,
        takeWhile_append_dropWhile]
    · rcases hpoint_ok with hnone | ⟨c, hc, hsome⟩
      · refine .inr ⟨hnone, ?_⟩
        rw [hnone]
        exact takeWhile_dropWhile n.digit text
      · exact .inl (beq_iff_eq.mp hc ▸ hsome)

theorem dropPayload_spec (text : Bytes) : ∃ payload, text = payload ++ dropPayload text ∧
    (payload = [] ∨ ∃ inner, payload = 0x28 :: (inner ++ [0x29]) ∧ inner.all isWord) := by
  unfold dropPayload
  split
  · next rest =>
    split
    · next behind hbehind =>
      refine ⟨0x28 :: (rest.takeWhile isWord ++ [0x29]), ?_, .inr ⟨_, rfl, all_takeWhile⟩⟩
      rw [cons_append, append_assoc, singleton_append, ← hbehind, takeWhile_append_dropWhile]
    · exact ⟨[], rfl, .inl rfl⟩
  · exact ⟨[], rfl, .inl rfl⟩

theorem scanSpecial_spec {negative : Bool} {text behind : Bytes} {x : Double}
    (h : scanSpecial negative text = some (x, behind)) :
    ∃ word, text = word ++ behind ∧ Magnitude negative word x := by
  unfold scanSpecial at h
  split at h
  · next hword =>
    cases h
    exact ⟨_, (take_append_drop 8 text).symm, .infinity (.inr hword)⟩
  split at h
  · next hword =>
    cases h
    exact ⟨_, (take_append_drop 3 text).symm, .infinity (.inl hword)⟩
  split at h
  · next hword =>
    cases h
    obtain ⟨payload, hpayload, hpayload_ok⟩ := dropPayload_spec (text.drop 3)
    refine ⟨text.take 3 ++ payload, ?_, .nan hword hpayload_ok⟩
    rw [append_assoc, ← hpayload, take_append_drop]
  · cases h

theorem readDouble_eq_some {q : ℚ} {x : Double} (h : readDouble q = some x) : x = roundDouble q := by
  unfold readDouble at h
  grind

theorem stod_spec {x : Double} {behind : Bytes} (h : stod s = some (x, behind)) :
    ∃ before sign magnitude, s = before ++ (sign ++ (magnitude ++ behind)) ∧ before.all isSpace ∧
      (sign = [] ∨ sign = [0x2d] ∨ sign = [0x2b]) ∧ Magnitude (sign = [0x2d]) magnitude x := by
  obtain ⟨hsign, hsign_ok⟩ := signs_spec (s.dropWhile isSpace)
  suffices hbody : ∃ magnitude,
      (s.dropWhile isSpace).drop (signs (s.dropWhile isSpace)).length = magnitude ++ behind ∧
        Magnitude (signs (s.dropWhile isSpace) = [0x2d]) magnitude x by
    obtain ⟨magnitude, hmagnitude, hvalue⟩ := hbody
    refine ⟨s.takeWhile isSpace, _, magnitude, ?_, all_takeWhile, hsign_ok, hvalue⟩
    rw [← hmagnitude, hsign, takeWhile_append_dropWhile]
  unfold stod at h
  dsimp only at h
  generalize (s.dropWhile isSpace).drop (signs (s.dropWhile isSpace)).length = unsigned at *
  generalize signs (s.dropWhile isSpace) = sign at *
  have hdecimal : ∀ {q behind'}, scanNumber decimal unsigned = some (q, behind') →
      ∃ magnitude, unsigned = magnitude ++ behind' ∧
        Magnitude (sign = [0x2d]) magnitude (roundDouble (if sign = [0x2d] then -q else q)) := by
    intro q behind' hscan
    obtain ⟨number, htext, hnumber⟩ := scanNumber_spec hscan
    refine ⟨number, htext, ?_⟩
    have hvalue := @Magnitude.decimal (decide (sign = [0x2d])) _ _ hnumber
    simpa using hvalue
  split at h
  · next q behind' hnumber =>
    obtain ⟨x', hread, hpair⟩ := map_eq_some_iff.mp h
    obtain ⟨rfl, rfl⟩ := Prod.mk.inj hpair
    rw [readDouble_eq_some hread]
    split at hnumber
    · next c rest =>
      rw [orElse_eq_orElse, orElse_eq_or, or_eq_some_iff] at hnumber
      rcases hnumber with hhex | ⟨-, hnumber⟩
      · obtain ⟨hx, hhex⟩ := ite_none_right_eq_some.mp hhex
        obtain ⟨number, htext, hnumber⟩ := scanNumber_spec hhex
        refine ⟨0x30 :: c :: number, congrArg (0x30 :: c :: ·) htext, ?_⟩
        have hvalue := @Magnitude.hexadecimal (decide (sign = [0x2d])) _ _ _ hx hnumber
        simpa using hvalue
      · exact hdecimal hnumber
    · exact hdecimal hnumber
  · exact scanSpecial_spec h

/-- What `std::stod` reads to the end is the text of a double. -/
theorem wholeText_stod {x : Double} (h : wholeText stod s = some x) :
    Nonempty (DoubleText s x) := by
  obtain ⟨behind, hread, hafter⟩ := wholeText_eq_some.mp h
  obtain ⟨before, sign, magnitude, htext, hbefore, hsign, hvalue⟩ := stod_spec hread
  exact ⟨before, sign, magnitude, behind, htext, ⟨hbefore, hafter⟩, hsign, hvalue⟩

variable {y}

/-- A text that `std::string` takes from a C string, and that is read to its end. -/
theorem faithful_text {V : Type} {read : Bytes → Option V} {field : V → FieldValue}
    (hzero : ∀ x, Faithful y (.str s) (field x) → 0 ∉ s)
    (hread : ∀ x, 0 ∉ s → read s = some x → Faithful y (.str s) (field x)) :
    Faithful y (.str s) (((read (cString s)).map field).getD .null) ↔
      0 ∉ s ∨ read (cString s) = none := by
  cases hvalue : read (cString s) with
  | none => exact iff_of_true True.intro (.inr rfl)
  | some x =>
    constructor
    · exact fun h => .inl (hzero x h)
    · rintro (hno | hnone)
      · exact hread x hno (cString_eq_self.mpr hno ▸ hvalue)
      · cases hnone

theorem toInt_toInt64 (m : UInt64) : m.toInt64.toInt = (m.toNat : Int).bmod (2 ^ 64) :=
  BitVec.toInt_eq_toNat_bmod m.toBitVec

theorem toInt64_eq_zero {m : UInt64} : m.toInt64 = 0 ↔ m = 0 :=
  ⟨congrArg Int64.toUInt64, congrArg UInt64.toInt64⟩

theorem boolOfText_eq_some {b : Bool} : boolOfText s = some b ↔ s.map toLower ∈ words b := by
  unfold boolOfText words
  have hdistinct : ∀ word ∈ [ascii "true", ascii "1", ascii "yes"],
      word ∉ [ascii "false", ascii "0", ascii "no"] := by decide
  cases b <;> grind

theorem not_mem_of_word {b : Bool} (h : s.map toLower ∈ words b) : 0 ∉ s := by
  intro hzero
  have hmem : 0 ∈ s.map toLower := mem_map.mpr ⟨0, hzero, by decide⟩
  have hwords : ∀ word ∈ words b, 0 ∉ word := by
    cases b with
    | false | true => decide
  exact hwords _ h hmem

theorem faithful_written {v : JsonVal} (hv : ∀ t, y.write v = some t → Faithful y v (.string t)) :
    Faithful y v (((y.write v).map .string).getD .null) := by
  cases hwrite : y.write v with
  | none => exact True.intro
  | some t => exact hv t hwrite

theorem entryOf_iff (e : JsonVal) : EntryOf y e (listEntry y e) ↔ match e with
    | .null => False
    | .str s => 0 ∉ s
    | e => (y.write e).isSome := by
  have hwritten : ∀ text : Option Bytes, (∃ t, text = some t ∧ some (text.getD (ascii "null")) = some t) ↔
      text.isSome = true := by
    intro text
    cases text with
    | none => exact iff_of_false (fun ⟨t, ht, _⟩ => by cases ht) Bool.false_ne_true
    | some t => exact iff_of_true ⟨t, rfl, rfl⟩ rfl
  cases e with
  | null => exact iff_of_false (fun h => by cases h) id
  | str s => exact some_inj.trans cString_eq_self
  | _ => exact hwritten _

theorem faithful_iff (type : LogicalType) (v : JsonVal) :
    Faithful y v (writeFieldValue y type v) ↔ Fits y type v := by
  cases type with
  | INT64 =>
    cases v with
    | uint m =>
      show m.toInt64.toInt = m.toNat ↔ m.toNat < 2 ^ 63
      rw [toInt_toInt64, Int.bmod_def]
      omega
    | real q =>
      show Faithful y (.real q) (((roundDouble q).toInt64.map .int).getD .undefined) ↔ _
      constructor
      · intro h
        cases hcast : (roundDouble q).toInt64 with
        | none =>
          rw [hcast] at h
          cases h
        | some n =>
          rw [hcast] at h
          have hq : (n.toInt : ℚ) = q := h
          subst hq
          exact ⟨⟨n, rfl⟩, (toInt64_roundDouble n).mp hcast⟩
      · rintro ⟨⟨n, rfl⟩, hexact⟩
        rw [(toInt64_roundDouble n).mpr hexact]
        rfl
    | str s =>
      exact faithful_text (fun x h => h.elim IntegerText.no_zero) fun x _ h => wholeText_stoll h
    | sint m => exact iff_of_true rfl True.intro
    | _ => exact iff_of_true True.intro True.intro
  | DOUBLE =>
    cases v with
    | uint m =>
      have hlt := m.toNat_lt
      have hcast := toInt_toInt64 m
      rw [Int.bmod_def] at hcast
      show roundDouble m.toInt64.toInt = roundDouble m.toNat ↔ m.toNat < 2 ^ 63
      constructor
      · intro h
        by_contra hbig
        exact roundDouble_ne_of_sign (Int.natCast_nonneg m.toNat) (by omega) h.symm
      · intro hsmall
        rw [show m.toInt64.toInt = m.toNat by omega]
        rfl
    | str s => exact faithful_text (fun x h => h.1) fun x hno h => ⟨hno, wholeText_stod h⟩
    | sint | real => exact iff_of_true rfl True.intro
    | _ => exact iff_of_true True.intro True.intro
  | BOOL =>
    cases v with
    | str s => exact faithful_text (fun x h => not_mem_of_word h) fun x _ h => boolOfText_eq_some.mp h
    | uint m =>
      show (m = if (m.toInt64 != 0) then 1 else 0) ↔ m = 0 ∨ m = 1
      grind [toInt64_eq_zero]
    | sint m =>
      show (m = if (m != 0) then 1 else 0) ↔ m = 0 ∨ m = 1
      grind
    | bool => exact iff_of_true rfl True.intro
    | _ => exact iff_of_true True.intro True.intro
  | LIST =>
    cases v with
    | arr elements =>
      show Forall₂ (EntryOf y) elements (elements.map (listEntry y)) ↔ ∀ e ∈ elements, _
      rw [forall₂_map_right_iff, forall₂_same]
      exact forall₂_congr fun e _ => entryOf_iff e
    | _ => exact iff_of_true True.intro True.intro
  | STRING =>
    cases v with
    | str s => exact cString_eq_self
    | null => exact iff_of_true True.intro True.intro
    | _ => exact iff_of_true (faithful_written fun t h => h) True.intro

/-! ## 5. The rows -/

variable {members : List (Bytes × JsonVal)}

theorem exists_between {text : Bytes} (h : y.read text = some (.obj members)) :
    ∃ inner, betweenBraces text = some inner := by
  obtain ⟨before, inner, after, rfl⟩ := y.braces h
  have hclosing : (0x7d : UInt8) ∈ (before ++ 0x7b :: (inner ++ 0x7d :: after)).dropWhile
      (· != 0x7b) := by
    rw [dropWhile_append]
    split
    · exact mem_cons_of_mem _ (by simp)
    · exact mem_append_right _ (by simp)
  refine ⟨_, if_neg fun hempty => ?_⟩
  rw [List.isEmpty_iff, rdropWhile_eq_nil_iff] at hempty
  exact absurd (hempty _ hclosing) (by decide)

theorem populateStructResult_object {fields : List SchemaField} {rawOutput text : Bytes}
    (htext : betweenBraces rawOutput = some text) (hread : y.read text = some (.obj members)) :
    populateStructResult y fields rawOutput = some (fields.map (writeMember y members)) := by
  unfold populateStructResult stripCodeFence
  rw [htext, getD_some, hread]

variable (y) in
/-- No value is forged exactly when every member fits in its field. -/
theorem neverForges_iff (schemaJson : Bytes) (outputs : List Bytes) :
    NeverForges y schemaJson outputs ↔
      ∀ fields, parseSchema y schemaJson = .ok fields → ∀ rawOutput ∈ outputs, ∀ text members,
        betweenBraces rawOutput = some text → y.read text = some (.obj members) → ∀ field ∈ fields,
            Fits y field.type ((getMember field.name (.obj members)).getD .null) := by
  have hnull : ∀ fields rawOutput, populateStructResult y fields rawOutput = none ↔
      ¬ ∃ text members, betweenBraces rawOutput = some text ∧ y.read text = some (.obj members) := by
    intro fields rawOutput
    constructor
    · rintro hnone ⟨text, members, htext, hread⟩
      rw [populateStructResult_object htext hread] at hnone
      cases hnone
    · intro hno
      unfold populateStructResult
      split
      · next members hread =>
        unfold stripCodeFence at hread
        cases htext : betweenBraces rawOutput with
        | none =>
          rw [htext] at hread
          obtain ⟨inner, hinner⟩ := exists_between hread
          cases htext.symm.trans hinner
        | some text =>
          rw [htext] at hread
          exact absurd ⟨text, members, htext, hread⟩ hno
      · rfl
  refine forall₄_congr fun fields hschema rawOutput houtput => ?_
  rw [and_iff_right (hnull fields rawOutput)]
  refine forall₄_congr fun text members htext hread => ?_
  simp only [populateStructResult_object htext hread, some.injEq, exists_eq_left',
    forall₂_map_right_iff, forall₂_same]
  exact forall₂_congr fun field _ => faithful_iff _ _

end

def integerSchema : Bytes := ascii
  "\x7b\"type\":\"object\",\"properties\":\x7b\"n\":\x7b\"type\":\"integer\"\x7d\x7d\x7d"

def hugeOutput : Bytes := ascii "\x7b\"n\":18446744073709551615\x7d"

/-- The parser, on two texts. -/
def twoTexts : Yyjson where
  read text :=
    if text = integerSchema then some (.obj [(ascii "type", .str (ascii "object")),
      (ascii "properties", .obj [(ascii "n", .obj [(ascii "type", .str (ascii "integer"))])])])
    else if text = hugeOutput then some (.obj [(ascii "n", .uint 18446744073709551615)])
    else none
  write _ := none
  braces h := by
    split at h
    · next heq => exact ⟨[], (integerSchema.drop 1).dropLast, [], by rw [heq]; decide⟩
    split at h
    · next heq => exact ⟨[], (hugeOutput.drop 1).dropLast, [], by rw [heq]; decide⟩
    · cases h

/-- The field of the type `INT64` is -1. -/
theorem neverForges_wrapped : ¬ NeverForges twoTexts integerSchema [hugeOutput] := by
  intro h
  have hschema : parseSchema twoTexts integerSchema = .ok [⟨ascii "n", .INT64⟩] := by
    rfl
  have hread : twoTexts.read hugeOutput = some (.obj [(ascii "n", .uint 18446744073709551615)]) := by
    unfold twoTexts
    dsimp only
    rw [if_neg (by decide), if_pos rfl]
  obtain ⟨values, hvalues, hfaithful⟩ := (h _ hschema hugeOutput (mem_singleton_self _)).2 hugeOutput _
    (by decide) hread
  rw [populateStructResult_object (by decide) hread] at hvalues
  cases hvalues
  cases hfaithful with
  | cons hfirst _ =>
    have hfits : (18446744073709551615 : UInt64).toNat < 2 ^ 63 :=
      (faithful_iff .INT64 (.uint 18446744073709551615)).mp hfirst
    exact absurd hfits (by decide)

end Ladybug.ExtractRecord
