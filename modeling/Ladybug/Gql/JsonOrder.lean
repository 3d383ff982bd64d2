import Mathlib.Data.List.DropRight
import Ladybug.Base.OrderedFields

/-!
# Decimal texts and parsed JSON (`gql/src/function/gql_json_functions.cpp`)

Numbers are compared as exact decimals, whatever their spelling; parsed documents under the order
`null < bool < array < string < number < object`.  The parser, the formatting of doubles and the
serializer belong to the engine: a `Core` stands for them.  Where the source returns an `int`, its
sign is returned here.
-/

namespace Ladybug.Gql

/-- The kinds of number that the parser makes. -/
inductive JsonNumber (D : Type) where
  | uint (n : UInt64)
  | sint (n : Int64)
  | real (d : D)
  deriving DecidableEq

/-- A parsed document. -/
inductive JsonVal (D : Type) where
  | null
  | bool (b : Bool)
  | num (n : JsonNumber D)
  | str (text : Bytes)
  | arr (elements : List (JsonVal D))
  | obj (members : List (Bytes × JsonVal D))

/-- What the functions below use of the engine. -/
structure Core where
  Double : Type
  Float : Type
  toDouble : Float → Double
  isFinite : Double → Bool
  /-- `std::format` of a double: its shortest form. -/
  formatDouble : Double → Bytes
  stringToJsonNoError : Bytes → Option (JsonVal Double)
  /-- A value of a `LIST` or `ARRAY` type, and its text after `jsonify`; empty if that fails. -/
  ListValue : Type
  jsonToString : ListValue → Bytes

def ascii (text : Bytes) : String := String.ofList (text.map fun b => Char.ofNat b.toNat)

def bytesOf (text : String) : Bytes := text.toList.map fun c => UInt8.ofNat c.toNat

/-- `TypeUtils::toString` of an integer. -/
def integerText (n : Int) : Bytes :=
  let digits := (Nat.toDigits 10 n.natAbs).map fun c => UInt8.ofNat c.toNat
  if n < 0 then 0x2d :: digits else digits

/-- `sign * 0.<digits> * 10^exponent`; zero has no digits. -/
structure DecimalParts where
  sign : Int := 0
  digits : Bytes := []
  exponent : Int := 0
  deriving DecidableEq

def isDigit (c : UInt8) : Bool := decide (0x30 ≤ c) && decide (c ≤ 0x39)

def allDigits (text : Bytes) : Bool := !text.isEmpty && text.all isDigit

def int64Max : Int := 2 ^ 63 - 1

def int64Min : Int := -2 ^ 63

def int64OfSize (size : Nat) : Int := (size : Int).bmod (2 ^ 64)

def checkedAddInt64 (lhs rhs : Int) (errorPrefix : String) : Except String Int :=
  if (rhs > 0 ∧ lhs > int64Max - rhs) ∨ (rhs < 0 ∧ lhs < int64Min - rhs) then
    .error (errorPrefix ++ ": number exponent out of range")
  else .ok (lhs + rhs)

def splitSign : Bytes → Int × Bytes
  | 0x2b :: text => (1, text)
  | 0x2d :: text => (-1, text)
  | text => (1, text)

def addDigit (errorPrefix : String) (value : Int) (c : UInt8) : Except String Int :=
  let digit : Int := c.toNat - 0x30
  if value > (int64Max - digit) / 10 then
    .error (errorPrefix ++ ": number exponent out of range")
  else .ok (value * 10 + digit)

def parseExponent (text : Bytes) (errorPrefix : String) : Except String Int :=
  let (sign, text) := splitSign text
  if !allDigits text then .error (errorPrefix ++ ": invalid number text")
  else do
    let value ← text.foldlM (addDigit errorPrefix) 0
    return sign * value

def splitAtFirst (p : UInt8 → Bool) (text : Bytes) : Bytes × Option Bytes :=
  match text.dropWhile fun c => !p c with
  | [] => (text.takeWhile fun c => !p c, none)
  | _ :: rest => (text.takeWhile fun c => !p c, some rest)

def isZero (c : UInt8) : Bool := c == 0x30

def normalizeDecimalText (text : Bytes) (errorPrefix : String) : Except String DecimalParts := do
  let (sign, text) := splitSign text
  let (mantissa, exponentText) := splitAtFirst (fun c => c == 0x65 || c == 0x45) text
  let exponent ← match exponentText with
    | none => .ok 0
    | some text => parseExponent text errorPrefix
  let (intPart, fracPart) := splitAtFirst (· == 0x2e) mantissa
  if !allDigits intPart || (match fracPart with | none => false | some frac => !allDigits frac) then
    .error (errorPrefix ++ ": invalid number text")
  else
    let frac := fracPart.getD []
    -- leading zeros go first; what is left is counted before the trailing ones go
    let significant := (intPart ++ frac).dropWhile isZero
    if significant.isEmpty then return {}
    else do
      let exponent ← checkedAddInt64 (int64OfSize significant.length) exponent errorPrefix
      let exponent ← checkedAddInt64 exponent (-int64OfSize frac.length) errorPrefix
      return { sign, digits := significant.rdropWhile isZero, exponent }

/-- Byte order, the shorter prefix first. -/
def compareOperandTexts (lhs rhs : Bytes) : Ordering :=
  (memcmp (min lhs.length rhs.length) lhs rhs).then (compare lhs.length rhs.length)

def compareDecimalParts (lhs rhs : DecimalParts) : Ordering :=
  if lhs.sign ≠ rhs.sign then (if lhs.sign < rhs.sign then .lt else .gt)
  else if lhs.sign = 0 then .eq
  else
    let cmp := if lhs.exponent ≠ rhs.exponent then
        (if lhs.exponent < rhs.exponent then .lt else .gt)
      else compareOperandTexts lhs.digits rhs.digits
    if lhs.sign < 0 then cmp.swap else cmp

def compareDecimalTexts (lhs rhs : Bytes) (errorPrefix : String) : Except String Ordering := do
  let lhsParts ← normalizeDecimalText lhs errorPrefix
  let rhsParts ← normalizeDecimalText rhs errorPrefix
  return compareDecimalParts lhsParts rhsParts

section

variable (core : Core)

def formatJsonReal (val : core.Double) : Except String Bytes :=
  if !core.isFinite val then
    .error ("_GQL_SUM/_GQL_AVG: non-finite value cannot be encoded as JSON: " ++
      ascii (core.formatDouble val))
  else
    let text := core.formatDouble val
    if text.any fun c ↦ c == 0x2e || c == 0x65 then .ok text else .ok (text ++ bytesOf ".0")

def realToNumberText (value : core.Double) (errorPrefix : String) : Except String Bytes :=
  if !core.isFinite value then
    .error (errorPrefix ++ ": non-finite value cannot be ordered: " ++ ascii (core.formatDouble value))
  else formatJsonReal core value

def parsedNumberText (n : JsonNumber core.Double) (errorPrefix : String) : Except String Bytes :=
  match n with
  | .uint n => .ok (integerText n.toNat)
  | .sint n => .ok (integerText n.toInt)
  | .real d => realToNumberText core d errorPrefix

def minMaxPrefix : String := "_GQL_MAX/_GQL_MIN"

def compareJsonNumbers (lhs rhs : JsonNumber core.Double) : Except String Ordering := do
  let lhsText ← parsedNumberText core lhs minMaxPrefix
  let rhsText ← parsedNumberText core rhs minMaxPrefix
  compareDecimalTexts lhsText rhsText minMaxPrefix

variable {core}

def jsonRank : JsonVal core.Double → Nat
  | .null => 0
  | .bool _ => 1
  | .arr _ => 2
  | .str _ => 3
  | .num _ => 4
  | .obj _ => 5

def compareBools (l r : Bool) : Ordering := if l = r then .eq else if l then .gt else .lt

def objGet (members : List (Bytes × JsonVal core.Double)) (key : Bytes) :
    Option (JsonVal core.Double) :=
  (members.find? fun m => m.1 == key).map Prod.snd

mutual

def jsonDeepEquals : JsonVal core.Double → JsonVal core.Double → Except String Bool
  | .null, .null => .ok true
  | .bool l, .bool r => .ok (l == r)
  | .num l, .num r => (compareJsonNumbers core l r).map (· == .eq)
  | .str l, .str r => .ok (l == r)
  | .arr l, .arr r => if l.length ≠ r.length then .ok false else elementsDeepEqual l r
  | .obj l, .obj r => if l.length ≠ r.length then .ok false else membersDeepEqual l r
  | _, _ => .ok false

def elementsDeepEqual : List (JsonVal core.Double) → List (JsonVal core.Double) → Except String Bool
  | l :: ls, r :: rs =>
    match jsonDeepEquals l r with
    | .ok true => elementsDeepEqual ls rs
    | stop => stop
  | _, _ => .ok true

def membersDeepEqual :
    List (Bytes × JsonVal core.Double) → List (Bytes × JsonVal core.Double) → Except String Bool
  | [], _ => .ok true
  | (key, l) :: ls, rs =>
    match objGet rs key with
    | none => .ok false
    | some r =>
      match jsonDeepEquals l r with
      | .ok true => membersDeepEqual ls rs
      | stop => stop

end

def objectsUnordered (errorPrefix : String) : String :=
  errorPrefix ++ ": JSON objects do not have a well-defined total order"

mutual

def compareJsonValues : JsonVal core.Double → JsonVal core.Double → Except String Ordering
  | .null, .null => .ok .eq
  | .bool l, .bool r => .ok (compareBools l r)
  | .arr l, .arr r => compareElements l r
  | .str l, .str r => .ok (compareOperandTexts l r)
  | .num l, .num r => compareJsonNumbers core l r
  | .obj l, .obj r => do
      if ← jsonDeepEquals (.obj l) (.obj r) then return .eq
      else throw (objectsUnordered minMaxPrefix)
  | lhs, rhs => .ok (compare (jsonRank lhs) (jsonRank rhs))

def compareElements :
    List (JsonVal core.Double) → List (JsonVal core.Double) → Except String Ordering
  | l :: ls, r :: rs => do
      let cmp ← compareJsonValues l r
      if cmp ≠ .eq then return cmp else compareElements ls rs
  | ls, rs => .ok (compare ls.length rs.length)

end

end

end Ladybug.Gql
