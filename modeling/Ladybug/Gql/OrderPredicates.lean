import Ladybug.Gql.JsonOrder

/-!
# The order predicates and the sort key

`_GQL_LT` and its siblings classify both operands and compare them; `_GQL_SORTKEY` encodes one operand
as a string whose byte order is meant to be the order of the predicates.
-/

namespace Ladybug.Gql

inductive IntegerType where
  | int8 | int16 | int32 | int64 | int128
  | uint8 | uint16 | uint32 | uint64 | uint128
  deriving DecidableEq

def IntegerType.bits : IntegerType → Nat
  | .int8 | .uint8 => 8
  | .int16 | .uint16 => 16
  | .int32 | .uint32 => 32
  | .int64 | .uint64 => 64
  | .int128 | .uint128 => 128

def IntegerType.signed : IntegerType → Bool
  | .int8 | .int16 | .int32 | .int64 | .int128 => true
  | _ => false

def IntegerType.Holds (t : IntegerType) (n : Int) : Prop :=
  if t.signed then -2 ^ (t.bits - 1) ≤ n ∧ n < 2 ^ (t.bits - 1) else 0 ≤ n ∧ n < 2 ^ t.bits

instance (t : IntegerType) (n : Int) : Decidable (t.Holds n) :=
  inferInstanceAs (Decidable
    (if t.signed then -2 ^ (t.bits - 1) ≤ n ∧ n < 2 ^ (t.bits - 1) else 0 ≤ n ∧ n < 2 ^ t.bits))

section

variable (core : Core)

/-- A value of one of the types that `classifyOperand` accepts. -/
inductive GqlValue where
  | json (text : Bytes)
  | string (text : Bytes)
  | bool (b : Bool)
  | integer (type : IntegerType) (n : {n : Int // type.Holds n})
  | float (f : core.Float)
  | double (d : core.Double)
  | list (l : core.ListValue)

/-- A value classified into the total order. -/
inductive GqlOrderedOperand where
  | null
  | bool (b : Bool)
  | array (elements : List (JsonVal core.Double))
  | string (text : Bytes)
  | number (text : Bytes)
  | object (members : List (Bytes × JsonVal core.Double))

variable {core}

def GqlOrderedOperand.rank : GqlOrderedOperand core → Nat
  | .null => 0
  | .bool _ => 1
  | .array _ => 2
  | .string _ => 3
  | .number _ => 4
  | .object _ => 5

def isJsonSpace (c : UInt8) : Bool := c == 0x20 || c == 0x09 || c == 0x0a || c == 0x0d

/-- The number token, when the root spans the whole input. -/
def trimJsonSpace (text : Bytes) : Bytes := (text.dropWhile isJsonSpace).rdropWhile isJsonSpace

def classifyParsedJson (root : JsonVal core.Double) (numberToken : Bytes) (errorPrefix : String) :
    Except String (GqlOrderedOperand core) :=
  match root with
  | .null => .ok .null
  | .bool b => .ok (.bool b)
  | .arr elements => .ok (.array elements)
  | .str text => .ok (.string text)
  | .num n =>
    if !numberToken.isEmpty then do
      let token := trimJsonSpace numberToken
      let _ ← normalizeDecimalText token errorPrefix
      return .number token
    else (parsedNumberText core n errorPrefix).map .number
  | .obj members => .ok (.object members)

/-- Text that does not parse is a string, but for the two spellings of the cast from `BOOL`. -/
def classifyJsonText (raw : Bytes) (errorPrefix : String) : Except String (GqlOrderedOperand core) :=
  match core.stringToJsonNoError raw with
  | none =>
    if raw = bytesOf "True" ∨ raw = bytesOf "False" then .ok (.bool (raw == bytesOf "True"))
    else .ok (.string raw)
  | some root => classifyParsedJson root raw errorPrefix

def classifyOperand (value : GqlValue core) (errorPrefix : String) :
    Except String (GqlOrderedOperand core) :=
  match value with
  | .json text => classifyJsonText text errorPrefix
  | .string text => .ok (.string text)
  | .bool b => .ok (.bool b)
  | .integer _ n => .ok (.number (integerText n))
  | .float f => (realToNumberText core (core.toDouble f) errorPrefix).map .number
  | .double d => (realToNumberText core d errorPrefix).map .number
  | .list l =>
    let serialized := core.jsonToString l
    if serialized.isEmpty then .error (errorPrefix ++ ": failed to serialize LIST operand")
    else classifyJsonText serialized errorPrefix

def compareOrderedOperands (lhs rhs : GqlOrderedOperand core) (errorPrefix : String) :
    Except String Ordering :=
  match lhs, rhs with
  | .null, .null => .ok .eq
  | .bool l, .bool r => .ok (compareBools l r)
  | .array l, .array r =>
    match compareJsonValues (.arr l) (.arr r) with
    | .ok cmp => .ok cmp
    | .error _ => .error (objectsUnordered errorPrefix)
  | .string l, .string r => .ok (compareOperandTexts l r)
  | .number l, .number r => compareDecimalTexts l r errorPrefix
  | .object l, .object r => do
      if ← jsonDeepEquals (.obj l) (.obj r) then return .eq
      else throw (objectsUnordered errorPrefix)
  | _, _ => .ok (compare lhs.rank rhs.rank)

inductive OrderComparison where
  | LT | LE | GT | GE | EQ | NE
  deriving DecidableEq

def OrderComparison.value : OrderComparison → Ordering → Bool
  | .LT, cmp => cmp == .lt
  | .LE, cmp => cmp != .gt
  | .GT, cmp => cmp == .gt
  | .GE, cmp => cmp != .lt
  | .EQ, cmp => cmp == .eq
  | .NE, cmp => cmp != .eq

def orderPredicatePrefix : String := "_GQL_LT/_GQL_LE/_GQL_GT/_GQL_GE"

def sortKeyPrefix : String := "_GQL_SORTKEY"

def orderPredicate (op : OrderComparison) (lhs rhs : GqlValue core) : Except String Bool := do
  let lhsOperand ← classifyOperand lhs orderPredicatePrefix
  let rhsOperand ← classifyOperand rhs orderPredicatePrefix
  let cmp ← compareOrderedOperands lhsOperand rhsOperand orderPredicatePrefix
  return op.value cmp

def complementDigit (c : UInt8) : UInt8 := 0x39 - (c - 0x30)

/-- The key of a number: its sign, the biased exponent in twenty digits, the mantissa and a terminator;
all digits are complemented if the number is negative. -/
def numberSortKey (text : Bytes) (errorPrefix : String) : Except String Bytes := do
  let parts ← normalizeDecimalText text errorPrefix
  if parts.sign = 0 then return [0x65, 0x31]
  else
    let exponentText := numeral 20 (parts.exponent + 2 ^ 63).toNat
    if parts.sign > 0 then return 0x65 :: 0x32 :: (exponentText ++ (parts.digits ++ [0x00]))
    else return 0x65 :: 0x30 ::
      (exponentText.map complementDigit ++ (parts.digits.map complementDigit ++ [0xFF]))

mutual

def elementSortKey (errorPrefix : String) : JsonVal core.Double → Except String Bytes
  | .null => .ok [0x61]
  | .bool b => .ok [0x62, if b then 0x31 else 0x30]
  | .arr elements => (elementsSortKey errorPrefix elements).map fun key => 0x63 :: (key ++ [0x00])
  | .str text => .ok (0x64 :: (escaped text ++ [0x00]))
  | .num n => do
      let text ← parsedNumberText core n errorPrefix
      numberSortKey text errorPrefix
  | .obj _ => .error (objectsUnordered errorPrefix)

def elementsSortKey (errorPrefix : String) : List (JsonVal core.Double) → Except String Bytes
  | [] => .ok []
  | e :: es => do
      let key ← elementSortKey errorPrefix e
      let keys ← elementsSortKey errorPrefix es
      return key ++ keys

end

def appendSortKey (operand : GqlOrderedOperand core) (asElement : Bool) (errorPrefix : String) :
    Except String Bytes :=
  match operand with
  | .null => .ok [0x61]
  | .bool b => .ok [0x62, if b then 0x31 else 0x30]
  | .array elements =>
    (elementsSortKey errorPrefix elements).map fun key => 0x63 :: (key ++ [0x00])
  | .string text => .ok (0x64 :: if asElement then escaped text ++ [0x00] else text)
  | .number text => numberSortKey text errorPrefix
  | .object _ => .error (objectsUnordered errorPrefix)

def sortKey (value : GqlValue core) : Except String Bytes := do
  let operand ← classifyOperand value sortKeyPrefix
  appendSortKey operand false sortKeyPrefix

end

end Ladybug.Gql
