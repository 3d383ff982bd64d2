import Ladybug.Gql.MinMax
import Mathlib.Algebra.BigOperators.Group.List.Basic

/-!
# `_GQL_SUM` and `_GQL_AVG`

A state holds one accumulator for each family of inputs.  The first contribution is assigned and the
others are added; two states are merged field by field.  Over integers the accumulator is the exact sum,
in whatever order the values are added and the states merged.
-/

namespace Ladybug.Gql

open List

/-! ## 1. States -/

/-- `SERIAL` holds an `INT64`. -/
inductive LogicalTypeID where
  | ANY
  | JSON
  | SERIAL
  | integer (type : IntegerType)
  | FLOAT
  | DOUBLE
  | other (name : String)
  deriving DecidableEq

structure Reals (R : Type) where
  zero : R
  one : R
  ofInt64 : Int64 → R
  ofUInt64 : UInt64 → R
  neg : R → R
  add : R → R → R
  sub : R → R → R
  mul : R → R → R
  div : R → R → R

/-- What the aggregates use of the engine and of the machine. -/
structure SumEngine (core : Core) where
  LongDouble : Type
  double : Reals core.Double
  longDouble : Reals LongDouble
  widen : core.Double → LongDouble
  narrow : LongDouble → core.Double
  addInt128 : Int → Int → Except String Int
  addUInt128 : Int → Int → Except String Int
  typeName : LogicalTypeID → String

section

variable {core : Core}

variable (core) in
inductive SumInput where
  | json (text : Bytes)
  | serial (n : Int64)
  | integer (type : IntegerType) (n : {n : Int // type.Holds n})
  | float (f : core.Float)
  | double (d : core.Double)
  | other (type : String)

def SumInput.typeID : SumInput core → LogicalTypeID
  | .json _ => .JSON
  | .serial _ => .SERIAL
  | .integer type _ => .integer type
  | .float _ => .FLOAT
  | .double _ => .DOUBLE
  | .other type => .other type

variable (core) in
@[ext]
structure GqlSumAvgState where
  isNull : Bool
  storedType : LogicalTypeID
  intSum : Int
  uintSum : Int
  dblSum : core.Double
  count : UInt64
  sawReal : Bool

variable (core) in
inductive SumOutput where
  | json (text : Bytes)
  | int128 (n : Int)
  | uint128 (n : Int)
  | double (d : core.Double)

def sumAvgPrefix : String := "_GQL_SUM/_GQL_AVG"

/-! ## 2. The functions -/

def int128ToFloating {R : Type} (reals : Reals R) (input : Int) : R :=
  let high := input / 2 ^ 64
  let low := UInt64.ofNat (input % 2 ^ 64).toNat
  if high = -1 then reals.sub (reals.neg (reals.ofUInt64 (UInt64.ofNat (2 ^ 64 - 1) - low))) reals.one
  else reals.add (reals.mul (reals.ofInt64 (Int64.ofInt high)) (reals.ofUInt64 (UInt64.ofNat (2 ^ 64 - 1))))
    (reals.ofUInt64 low)

def uint128ToFloating {R : Type} (reals : Reals R) (input : Int) : R :=
  let high := UInt64.ofNat (input / 2 ^ 64).toNat
  let low := UInt64.ofNat (input % 2 ^ 64).toNat
  reals.add (reals.mul (reals.ofUInt64 high) (reals.ofUInt64 (UInt64.ofNat (2 ^ 64 - 1))))
    (reals.ofUInt64 low)

variable (engine : SumEngine core)

def sumAvgInitialize : GqlSumAvgState core where
  isNull := true
  storedType := .ANY
  intSum := 0
  uintSum := 0
  dblSum := engine.double.zero
  count := 0
  sawReal := false

def contributeOnce (assign add : GqlSumAvgState core → Except String (GqlSumAvgState core))
    (state : GqlSumAvgState core) : Except String (GqlSumAvgState core) :=
  if state.isNull then assign state else add state

/-- The loop over the multiplicity. -/
def contribute (assign add : GqlSumAvgState core → Except String (GqlSumAvgState core)) :
    Nat → GqlSumAvgState core → Except String (GqlSumAvgState core)
  | 0, state => .ok state
  | n + 1, state => do
      let state ← contributeOnce assign add state
      contribute assign add n state

def contributeInt (val : Int) (multiplicity : UInt64) (state : GqlSumAvgState core) :
    Except String (GqlSumAvgState core) :=
  contribute (fun state => .ok { state with intSum := val, isNull := false })
    (fun state => (engine.addInt128 state.intSum val).map fun sum => { state with intSum := sum })
    multiplicity.toNat state

def contributeUInt (val : Int) (multiplicity : UInt64) (state : GqlSumAvgState core) :
    Except String (GqlSumAvgState core) :=
  contribute (fun state => .ok { state with uintSum := val, isNull := false })
    (fun state ↦ (engine.addUInt128 state.uintSum val).map fun sum ↦ { state with uintSum := sum })
    multiplicity.toNat state

/-- Only a JSON number sets `sawReal`. -/
def contributeDouble (json : Bool) (val : core.Double) (multiplicity : UInt64)
    (state : GqlSumAvgState core) : Except String (GqlSumAvgState core) :=
  contribute
    (fun state ↦ .ok { state with dblSum := val, isNull := false, sawReal := json || state.sawReal })
    (fun state => .ok { state with
      dblSum := engine.double.add state.dblSum val, sawReal := json || state.sawReal })
    multiplicity.toNat state

def GqlSumAvgState.counted (isAvg : Bool) (multiplicity : UInt64) (state : GqlSumAvgState core) :
    GqlSumAvgState core :=
  if isAvg then { state with count := state.count + multiplicity } else state

def accumulateJson (isAvg : Bool) (state : GqlSumAvgState core) (text : Bytes) (multiplicity : UInt64) :
    Except String (GqlSumAvgState core) :=
  match core.stringToJsonNoError text with
  | none => .error (sumAvgPrefix ++ ": invalid JSON value: " ++ jsonTextSnippet text)
  | some .null => .ok state
  | some (.num (.real d)) =>
    (contributeDouble engine true d multiplicity state).map (·.counted isAvg multiplicity)
  | some (.num (.uint n)) =>
    (contributeInt engine n.toNat multiplicity state).map (·.counted isAvg multiplicity)
  | some (.num (.sint n)) =>
    (contributeInt engine n.toInt multiplicity state).map (·.counted isAvg multiplicity)
  | some _ =>
    .error (sumAvgPrefix ++ ": non-numeric JSON value in aggregate: " ++ jsonTextSnippet text)

def sumAvgUnsupportedTypeError (type : LogicalTypeID) : String :=
  sumAvgPrefix ++ ": unsupported input type " ++ engine.typeName type

/-- The value, added to the accumulator of its family. -/
def accumulateValue (isAvg : Bool) (state : GqlSumAvgState core) (value : SumInput core)
    (multiplicity : UInt64) : Except String (GqlSumAvgState core) :=
  match value with
  | .json text => accumulateJson engine isAvg state text multiplicity
  | .serial n => (contributeInt engine n.toInt multiplicity state).map (·.counted isAvg multiplicity)
  | .integer type n =>
    if type.signed then (contributeInt engine n multiplicity state).map (·.counted isAvg multiplicity)
    else (contributeUInt engine n multiplicity state).map (·.counted isAvg multiplicity)
  | .float f => (contributeDouble engine false (core.toDouble f) multiplicity state).map
      (·.counted isAvg multiplicity)
  | .double d => (contributeDouble engine false d multiplicity state).map (·.counted isAvg multiplicity)
  | .other type => .error (sumAvgUnsupportedTypeError engine (.other type))

def updateSumAvgSingle (isAvg : Bool) (state : GqlSumAvgState core)
    (input : Option (SumInput core) × UInt64) : Except String (GqlSumAvgState core) :=
  match input with
  | (none, _) => .ok state
  | (some value, multiplicity) =>
    if state.isNull then
      accumulateValue engine isAvg { state with storedType := value.typeID } value multiplicity
    else if state.storedType ≠ value.typeID then
      .error (sumAvgPrefix ++ ": cannot aggregate " ++ engine.typeName state.storedType ++ " with " ++
        engine.typeName value.typeID)
    else accumulateValue engine isAvg state value multiplicity

def sumAvgCombine (state other : GqlSumAvgState core) : Except String (GqlSumAvgState core) :=
  if other.isNull then .ok state
  else if state.isNull then .ok { other with isNull := false }
  else if state.storedType ≠ other.storedType then
    .error (sumAvgPrefix ++ ": cannot combine " ++ engine.typeName state.storedType ++ " with " ++
      engine.typeName other.storedType)
  else do
    let intSum ← engine.addInt128 state.intSum other.intSum
    let uintSum ← engine.addUInt128 state.uintSum other.uintSum
    return { state with
      intSum
      uintSum
      dblSum := engine.double.add state.dblSum other.dblSum
      count := state.count + other.count
      sawReal := state.sawReal || other.sawReal }

def averageOf (sum : engine.LongDouble) (count : UInt64) : core.Double :=
  engine.narrow (engine.longDouble.div sum (engine.longDouble.ofUInt64 count))

def writeFloating (isAvg : Bool) (state : GqlSumAvgState core) : Except String (SumOutput core) :=
  let out := if isAvg then engine.double.div state.dblSum (engine.double.ofUInt64 state.count)
    else state.dblSum
  if !core.isFinite out then
    .error (sumAvgPrefix ++ ": non-finite result: " ++ ascii (core.formatDouble out))
  else .ok (.double out)

/-- The value of a group; the framework writes NULL where `isNull` is set. -/
def writeToVector (isAvg : Bool) (state : GqlSumAvgState core) : Except String (SumOutput core) :=
  match state.storedType with
  | .ANY => .error (sumAvgPrefix ++ ": no value to materialize")
  | .JSON =>
    if isAvg then (formatJsonReal core (averageOf engine
      (engine.longDouble.add (int128ToFloating engine.longDouble state.intSum)
        (engine.widen state.dblSum)) state.count)).map .json
    else if state.sawReal then (formatJsonReal core
      (engine.double.add (int128ToFloating engine.double state.intSum) state.dblSum)).map .json
    else .ok (.json (integerText state.intSum))
  | .SERIAL => .ok (if isAvg then
      .double (averageOf engine (int128ToFloating engine.longDouble state.intSum) state.count)
      else .int128 state.intSum)
  | .integer type =>
    if type.signed then .ok (if isAvg then
      .double (averageOf engine (int128ToFloating engine.longDouble state.intSum) state.count)
      else .int128 state.intSum)
    else .ok (if isAvg then
      .double (averageOf engine (uint128ToFloating engine.longDouble state.uintSum) state.count)
      else .uint128 state.uintSum)
  | .FLOAT => writeFloating engine isAvg state
  | .DOUBLE => writeFloating engine isAvg state
  | .other type => .error (sumAvgUnsupportedTypeError engine (.other type))

/-! ## 3. Exact sums -/

def InInt128 (n : Int) : Prop := -2 ^ 127 ≤ n ∧ n < 2 ^ 127

def InUInt128 (n : Int) : Prop := 0 ≤ n ∧ n < 2 ^ 128

instance InInt128.decidable (n : Int) : Decidable (InInt128 n) := inferInstanceAs (Decidable (_ ∧ _))

instance InUInt128.decidable (n : Int) : Decidable (InUInt128 n) := inferInstanceAs (Decidable (_ ∧ _))

/-- Additions whose results fit are exact. -/
structure SumEngine.AddsExactly (engine : SumEngine core) : Prop where
  int128 : ∀ l r, InInt128 l → InInt128 r → InInt128 (l + r) → engine.addInt128 l r = .ok (l + r)
  uint128 : ∀ l r, InUInt128 l → InUInt128 r → InUInt128 (l + r) → engine.addUInt128 l r = .ok (l + r)

omit engine

abbrev Item (core : Core) := Option (SumInput core) × UInt64

variable (core) in
def jsonInteger (text : Bytes) : Option Int :=
  match core.stringToJsonNoError text with
  | some (.num (.uint n)) => some n.toNat
  | some (.num (.sint n)) => some n.toInt
  | _ => none

def contribution : Option (SumInput core) → Option Int
  | some (.json text) => jsonInteger core text
  | some (.serial n) => some n.toInt
  | some (.integer _ n) => some n
  | _ => none

def SumInput.Integral : SumInput core → Prop
  | .json text => core.stringToJsonNoError text = some .null ∨
      (∃ n, core.stringToJsonNoError text = some (.num (.uint n))) ∨
      ∃ n, core.stringToJsonNoError text = some (.num (.sint n))
  | .serial _ => True
  | .integer type _ => type.bits ≤ 64
  | _ => False

def InColumn (column : LogicalTypeID) (item : Item core) : Prop :=
  0 < item.2.toNat ∧ ∀ value, item.1 = some value → value.typeID = column ∧ value.Integral

def LogicalTypeID.unsigned : LogicalTypeID → Bool
  | .integer type => !type.signed
  | _ => false

/-- The range of the accumulator. -/
def LogicalTypeID.Fits (column : LogicalTypeID) (n : Int) : Prop :=
  if column.unsigned then InUInt128 n else InInt128 n

def GqlSumAvgState.accumulator (column : LogicalTypeID) (state : GqlSumAvgState core) : Int :=
  if column.unsigned then state.uintSum else state.intSum

def weighted (item : Item core) : Int := item.2.toNat * (contribution item.1).getD 0

/-- The sum of the values, each as often as its multiplicity says. -/
def exactSum (items : List (Item core)) : Int := (items.map weighted).sum

def contributing (items : List (Item core)) : Nat :=
  (items.map fun item => if (contribution item.1).isSome then item.2.toNat else 0).sum

/-- Every sum that occurs on the way is in the range of the accumulator. -/
def PartialSumsFit (column : LogicalTypeID) : MergeTree (Item core) → Prop
  | .empty => True
  | .add tree item => PartialSumsFit column tree ∧
      ∀ j ≤ item.2.toNat, column.Fits (exactSum tree.items + j * (contribution item.1).getD 0)
  | .merge left right => PartialSumsFit column left ∧ PartialSumsFit column right ∧
      column.Fits (exactSum left.items + exactSum right.items)

structure SumInv (isAvg : Bool) (column : LogicalTypeID) (items : List (Item core))
    (state : GqlSumAvgState core) : Prop where
  isNull : state.isNull = items.all fun item => (contribution item.1).isNone
  storedType : state.isNull = false → state.storedType = column
  intSum : state.intSum = if column.unsigned then 0 else exactSum items
  uintSum : state.uintSum = if column.unsigned then exactSum items else 0
  count : state.count = if isAvg then UInt64.ofNat (contributing items) else 0
  sawReal : state.sawReal = false

theorem exactSum_append (as bs : List (Item core)) :
    exactSum (as ++ bs) = exactSum as + exactSum bs := by
  unfold exactSum
  rw [map_append, sum_append]

theorem exactSum_singleton (item : Item core) : exactSum [item] = weighted item := by
  unfold exactSum
  rw [map_singleton, sum_singleton]

theorem contributing_append (as bs : List (Item core)) :
    contributing (as ++ bs) = contributing as + contributing bs := by
  unfold contributing
  rw [map_append, sum_append]

theorem exactSum_of_none {items : List (Item core)}
    (h : items.all (fun item => (contribution item.1).isNone) = true) :
    exactSum items = 0 ∧ contributing items = 0 := by
  induction items with
  | nil => exact ⟨rfl, rfl⟩
  | cons item items ih =>
    rw [all_cons, Bool.and_eq_true] at h
    have hnone := Option.isNone_iff_eq_none.mp h.1
    obtain ⟨hsum, hcount⟩ := ih h.2
    constructor
    · show exactSum ([item] ++ items) = 0
      rw [exactSum_append, exactSum_singleton, hsum]
      unfold weighted
      rw [hnone]
      simp
    · show contributing ([item] ++ items) = 0
      rw [contributing_append, hcount]
      unfold contributing
      rw [map_singleton, sum_singleton, hnone]
      rfl

/-! ## 4. The loop over the multiplicity -/

/-- One accumulator, seen as a function of its value and of the flag: the loop adds the value to it. -/
theorem contribute_sum {assign add : GqlSumAvgState core → Except String (GqlSumAvgState core)}
    {Fits : Int → Prop} {val : Int} (states : Int → Bool → GqlSumAvgState core)
    (hnull : ∀ sum b, (states sum b).isNull = b)
    (hassign : ∀ sum, assign (states sum true) = .ok (states val false))
    (hadd : ∀ sum, Fits sum → Fits (sum + val) → add (states sum false) = .ok (states (sum + val) false))
    (n : Nat) {sum : Int} {b : Bool} (hzero : b = true → sum = 0)
    (hfit : ∀ j : Nat, j ≤ n → Fits (sum + j * val)) :
    contribute assign add n (states sum b) = .ok (states (sum + n * val) (b && n == 0)) := by
  induction n generalizing sum b with
  | zero =>
    show Except.ok (states sum b) = .ok (states (sum + (0 : Nat) * val) (b && true))
    rw [Bool.and_true, Nat.cast_zero, zero_mul, add_zero]
  | succ n ih =>
    have honce : contributeOnce assign add (states sum b) = .ok (states (sum + val) false) := by
      unfold contributeOnce
      rw [hnull]
      cases b with
      | true =>
        rw [if_pos rfl, hassign, hzero rfl, zero_add]
      | false =>
        have hnow := hfit 0 (Nat.zero_le _)
        have hnext := hfit 1 (Nat.succ_le_succ (Nat.zero_le n))
        rw [Nat.cast_zero, zero_mul, add_zero] at hnow
        rw [Nat.cast_one, one_mul] at hnext
        rw [if_neg Bool.false_ne_true, hadd sum hnow hnext]
    have hrest : ∀ j : Nat, j ≤ n → Fits (sum + val + j * val) := by
      intro j hj
      have hlater := hfit (j + 1) (Nat.succ_le_succ hj)
      rwa [Nat.cast_succ, add_mul, one_mul, add_comm (j * val) val, ← add_assoc] at hlater
    have hloop := ih (fun h => absurd h Bool.false_ne_true) hrest
    have hsum : sum + val + n * val = sum + (n + 1 : Nat) * val := by
      rw [Nat.cast_succ]
      ring
    have hlast : (n + 1 == 0) = false := rfl
    rw [contribute, honce]
    show contribute assign add n (states (sum + val) false) = _
    rw [hloop, hsum, hlast, Bool.false_and, Bool.and_false]

variable {engine : SumEngine core}

omit engine in
theorem counted_eq (isAvg : Bool) (multiplicity : UInt64) (state : GqlSumAvgState core) :
    state.counted isAvg multiplicity =
      { state with count := state.count + if isAvg then multiplicity else 0 } := by
  cases isAvg with
  | false => simp [GqlSumAvgState.counted]
  | true => rfl

theorem contributeInt_eq (hadd : engine.AddsExactly) {state : GqlSumAvgState core} {val : Int}
    {multiplicity : UInt64} (hzero : state.isNull = true → state.intSum = 0) (hval : InInt128 val)
    (hfit : ∀ j : Nat, j ≤ multiplicity.toNat → InInt128 (state.intSum + j * val)) :
    contributeInt engine val multiplicity state = .ok { state with
      intSum := state.intSum + multiplicity.toNat * val
      isNull := state.isNull && multiplicity.toNat == 0 } := by
  have hstep : ∀ sum, InInt128 sum → InInt128 (sum + val) →
      (engine.addInt128 sum val).map (fun sum => { state with intSum := sum, isNull := false }) =
        .ok { state with intSum := sum + val, isNull := false } := by
    intro sum hsum hnext
    rw [hadd.int128 sum val hsum hval hnext]
    rfl
  exact contribute_sum (fun sum b => { state with intSum := sum, isNull := b }) (fun _ _ => rfl)
    (fun _ => rfl) hstep multiplicity.toNat hzero hfit

theorem contributeUInt_eq (hadd : engine.AddsExactly) {state : GqlSumAvgState core} {val : Int}
    {multiplicity : UInt64} (hzero : state.isNull = true → state.uintSum = 0) (hval : InUInt128 val)
    (hfit : ∀ j : Nat, j ≤ multiplicity.toNat → InUInt128 (state.uintSum + j * val)) :
    contributeUInt engine val multiplicity state = .ok { state with
      uintSum := state.uintSum + multiplicity.toNat * val
      isNull := state.isNull && multiplicity.toNat == 0 } := by
  have hstep : ∀ sum, InUInt128 sum → InUInt128 (sum + val) →
      (engine.addUInt128 sum val).map (fun sum => { state with uintSum := sum, isNull := false }) =
        .ok { state with uintSum := sum + val, isNull := false } := by
    intro sum hsum hnext
    rw [hadd.uint128 sum val hsum hval hnext]
    rfl
  exact contribute_sum (fun sum b => { state with uintSum := sum, isNull := b }) (fun _ _ => rfl)
    (fun _ => rfl) hstep multiplicity.toNat hzero hfit

/-! ## 5. Additions -/

variable {isAvg : Bool} {column : LogicalTypeID} {items : List (Item core)} {state : GqlSumAvgState core}

theorem SumInv.zero (h : SumInv isAvg column items state) (hnull : state.isNull = true) :
    state.intSum = 0 ∧ state.uintSum = 0 ∧ state.count = 0 := by
  rw [h.isNull] at hnull
  obtain ⟨hsum, hcount⟩ := exactSum_of_none hnull
  rw [h.intSum, h.uintSum, h.count, hsum, hcount]
  exact ⟨ite_self 0, ite_self 0, ite_self 0⟩

theorem SumInv.skip (h : SumInv isAvg column items state) {item : Item core}
    (hnone : contribution item.1 = none) {type : LogicalTypeID}
    (htype : state.isNull = false → type = column) :
    SumInv isAvg column (items ++ [item]) { state with storedType := type } := by
  have hweight : exactSum (items ++ [item]) = exactSum items := by
    rw [exactSum_append, exactSum_singleton]
    unfold weighted
    rw [hnone, Option.getD_none, mul_zero, add_zero]
  have hcount : contributing (items ++ [item]) = contributing items := by
    rw [contributing_append]
    unfold contributing
    rw [map_singleton, sum_singleton, hnone]
    rfl
  constructor
  · rw [all_append, all_cons, hnone, Option.isNone_none, all_nil, Bool.and_true, Bool.and_true]
    exact h.isNull
  · exact htype
  · rw [hweight]
    exact h.intSum
  · rw [hweight]
    exact h.uintSum
  · rw [hcount]
    exact h.count
  · exact h.sawReal

theorem totals_of_some {item : Item core} {val : Int} (hval : contribution item.1 = some val) :
    exactSum (items ++ [item]) = exactSum items + item.2.toNat * val ∧
      contributing (items ++ [item]) = contributing items + item.2.toNat ∧
      (items ++ [item]).all (fun item => (contribution item.1).isNone) = false := by
  refine ⟨?_, ?_, ?_⟩
  · rw [exactSum_append, exactSum_singleton]
    unfold weighted
    rw [hval, Option.getD_some]
  · rw [contributing_append]
    unfold contributing
    rw [map_singleton, sum_singleton, hval]
    rfl
  · rw [all_append, all_cons, hval, Option.isNone_some, Bool.false_and, Bool.and_false]

theorem count_contributed {total : Nat} {multiplicity : UInt64} :
    (if isAvg then UInt64.ofNat total else 0) + (if isAvg then multiplicity else 0) =
      if isAvg then UInt64.ofNat (total + multiplicity.toNat) else 0 := by
  cases isAvg with
  | false => rfl
  | true => simp

omit engine in
theorem SumInv.contributed (h : SumInv isAvg column items state) {item : Item core} {val int uint : Int}
    (hval : contribution item.1 = some val) (hpos : 0 < item.2.toNat)
    (hint : int = if column.unsigned then 0 else exactSum items + item.2.toNat * val)
    (huint : uint = if column.unsigned then exactSum items + item.2.toNat * val else 0) :
    SumInv isAvg column (items ++ [item]) (GqlSumAvgState.counted isAvg item.2 { state with
      storedType := column, intSum := int, uintSum := uint
      isNull := state.isNull && item.2.toNat == 0 }) := by
  obtain ⟨htotal, hcount, hall⟩ := @totals_of_some core items item val hval
  rw [counted_eq]
  constructor
  · rw [hall, Bool.and_eq_false_iff]
    exact .inr (beq_eq_false_iff_ne.mpr hpos.ne')
  · exact fun _ => rfl
  · rw [htotal]
    exact hint
  · rw [htotal]
    exact huint
  · rw [hcount, h.count, count_contributed]
  · exact h.sawReal

section

variable (hadd : engine.AddsExactly) (h : SumInv isAvg column items state)

include hadd h

theorem SumInv.addInt {item : Item core} {val : Int} (hval : contribution item.1 = some val)
    (hrange : InInt128 val) (hpos : 0 < item.2.toNat) (hsigned : column.unsigned = false)
    (hfit : ∀ j : Nat, j ≤ item.2.toNat → InInt128 (exactSum items + j * val)) :
    ∃ state', (contributeInt engine val item.2 { state with storedType := column }).map
        (·.counted isAvg item.2) = .ok state' ∧ SumInv isAvg column (items ++ [item]) state' := by
  have hsum : state.intSum = exactSum items := by
    rw [h.intSum, hsigned]
    rfl
  have hother := h.uintSum
  rw [hsigned] at hother
  have hloop : contributeInt engine val item.2 { state with storedType := column } = _ :=
    contributeInt_eq hadd (fun hnull => (h.zero hnull).1) hrange (by rw [hsum]; exact hfit)
  rw [hloop]
  refine ⟨_, rfl, h.contributed hval hpos ?_ ?_⟩
  · rw [hsigned]
    exact congrArg (· + _) hsum
  · rw [hsigned]
    exact hother

theorem SumInv.addUInt {item : Item core} {val : Int} (hval : contribution item.1 = some val)
    (hrange : InUInt128 val) (hpos : 0 < item.2.toNat) (hsigned : column.unsigned = true)
    (hfit : ∀ j : Nat, j ≤ item.2.toNat → InUInt128 (exactSum items + j * val)) :
    ∃ state', (contributeUInt engine val item.2 { state with storedType := column }).map
        (·.counted isAvg item.2) = .ok state' ∧ SumInv isAvg column (items ++ [item]) state' := by
  have hsum : state.uintSum = exactSum items := by
    rw [h.uintSum, hsigned]
    rfl
  have hother := h.intSum
  rw [hsigned] at hother
  have hloop : contributeUInt engine val item.2 { state with storedType := column } = _ :=
    contributeUInt_eq hadd (fun hnull => (h.zero hnull).2.1) hrange (by rw [hsum]; exact hfit)
  rw [hloop]
  refine ⟨_, rfl, h.contributed hval hpos ?_ ?_⟩
  · rw [hsigned]
    exact hother
  · rw [hsigned]
    exact congrArg (· + _) hsum

end

theorem inInt128_zero : InInt128 0 := by
  decide

theorem inUInt128_zero : InUInt128 0 := by
  decide

theorem inInt128_of_bits {type : IntegerType} {n : Int} (hn : type.Holds n) (hbits : type.bits ≤ 64)
    (hsigned : type.signed = true) : InInt128 n := by
  unfold IntegerType.Holds at hn
  rw [if_pos hsigned] at hn
  unfold InInt128
  cases type <;> simp only [IntegerType.bits] at hn hbits <;> omega

theorem inUInt128_of_bits {type : IntegerType} {n : Int} (hn : type.Holds n) (hbits : type.bits ≤ 64)
    (hsigned : type.signed = false) : InUInt128 n := by
  unfold IntegerType.Holds at hn
  rw [if_neg (by rw [hsigned]; exact Bool.false_ne_true)] at hn
  unfold InUInt128
  cases type <;> simp only [IntegerType.bits] at hn hbits <;> omega

theorem inInt128_uint (n : UInt64) : InInt128 n.toNat := by
  have hlt := n.toNat_lt
  unfold InInt128
  omega

theorem inInt128_sint (n : Int64) : InInt128 n.toInt := by
  have hlow := n.le_toInt
  have hhigh := n.toInt_lt
  unfold InInt128
  omega

theorem unsigned_of_typeID {value : SumInput core} (htype : value.typeID = column) :
    (∀ text, value = .json text → column.unsigned = false) ∧
      (∀ n, value = .serial n → column.unsigned = false) ∧
      ∀ type n, value = .integer type n → column.unsigned = !type.signed := by
  refine ⟨?_, ?_, ?_⟩
  · rintro text rfl
    rw [← htype]
    rfl
  · rintro n rfl
    rw [← htype]
    rfl
  · rintro type n rfl
    rw [← htype]
    rfl

section

variable (hadd : engine.AddsExactly) (h : SumInv isAvg column items state)

include hadd h

theorem SumInv.accumulate {value : SumInput core} {multiplicity : UInt64}
    (hitem : InColumn column (some value, multiplicity))
    (hfit : ∀ j : Nat, j ≤ multiplicity.toNat → column.Fits (exactSum items + j * (contribution (some value)).getD 0)) :
    ∃ state', accumulateValue engine isAvg { state with storedType := column } value multiplicity =
        .ok state' ∧ SumInv isAvg column (items ++ [(some value, multiplicity)]) state' := by
  obtain ⟨hpos, hvalue⟩ := hitem
  obtain ⟨htype, hintegral⟩ := hvalue value rfl
  obtain ⟨hjson, hserial, hinteger⟩ := unsigned_of_typeID htype
  have hsigned : ∀ val, contribution (some value) = some val → column.unsigned = false →
      ∀ j : Nat, j ≤ multiplicity.toNat → InInt128 (exactSum items + j * val) := by
    intro val hval hcolumn j hj
    have hj' := hfit j hj
    unfold LogicalTypeID.Fits at hj'
    rw [hval, hcolumn] at hj'
    exact hj'
  have hunsigned : ∀ val, contribution (some value) = some val → column.unsigned = true →
      ∀ j : Nat, j ≤ multiplicity.toNat → InUInt128 (exactSum items + j * val) := by
    intro val hval hcolumn j hj
    have hj' := hfit j hj
    unfold LogicalTypeID.Fits at hj'
    rw [hval, hcolumn] at hj'
    exact hj'
  cases value with
  | json text =>
    have hcolumn := hjson text rfl
    rcases hintegral with hnull | ⟨n, hn⟩ | ⟨n, hn⟩
    · refine ⟨{ state with storedType := column }, ?_, h.skip ?_ fun _ => rfl⟩
      · show accumulateJson engine isAvg _ text multiplicity = _
        unfold accumulateJson
        rw [hnull]
      · show jsonInteger core text = none
        unfold jsonInteger
        rw [hnull]
    · have hval : contribution (some (.json text : SumInput core)) = some (n.toNat : Int) := by
        show jsonInteger core text = _
        unfold jsonInteger
        rw [hn]
      show ∃ state', accumulateJson engine isAvg _ text multiplicity = _ ∧ _
      unfold accumulateJson
      rw [hn]
      exact h.addInt hadd hval (inInt128_uint n) hpos hcolumn (hsigned _ hval hcolumn)
    · have hval : contribution (some (.json text : SumInput core)) = some n.toInt := by
        show jsonInteger core text = _
        unfold jsonInteger
        rw [hn]
      show ∃ state', accumulateJson engine isAvg _ text multiplicity = _ ∧ _
      unfold accumulateJson
      rw [hn]
      exact h.addInt hadd hval (inInt128_sint n) hpos hcolumn (hsigned _ hval hcolumn)
  | serial n => exact h.addInt hadd rfl (inInt128_sint n) hpos (hserial n rfl) (hsigned _ rfl (hserial n rfl))
  | integer type n =>
    have hcolumn := hinteger type n rfl
    show ∃ state', (if type.signed = true then _ else _) = Except.ok state' ∧ _
    cases hsign : type.signed with
    | true =>
      rw [hsign] at hcolumn
      exact h.addInt hadd rfl (inInt128_of_bits n.2 hintegral hsign) hpos hcolumn
        (hsigned _ rfl hcolumn)
    | false =>
      rw [hsign] at hcolumn
      exact h.addUInt hadd rfl (inUInt128_of_bits n.2 hintegral hsign) hpos hcolumn
        (hunsigned _ rfl hcolumn)
  | float | double | other => exact hintegral.elim

theorem SumInv.update {item : Item core} (hitem : InColumn column item)
    (hfit : ∀ j : Nat, j ≤ item.2.toNat → column.Fits (exactSum items + j * (contribution item.1).getD 0)) :
    ∃ state', updateSumAvgSingle engine isAvg state item = .ok state' ∧
      SumInv isAvg column (items ++ [item]) state' := by
  obtain ⟨input, multiplicity⟩ := item
  cases input with
  | none => exact ⟨state, rfl, h.skip rfl h.storedType⟩
  | some value =>
    have haccumulate := h.accumulate hadd hitem hfit
    have htype := (hitem.2 value rfl).1
    by_cases hnull : state.isNull = true
    · have hupdate : updateSumAvgSingle engine isAvg state (some value, multiplicity) =
          accumulateValue engine isAvg { state with storedType := value.typeID } value multiplicity :=
        if_pos hnull
      rw [hupdate, htype]
      exact haccumulate
    · have hstored := h.storedType (Bool.eq_false_iff.mpr hnull)
      have hsame : { state with storedType := column } = state := by
        rw [← hstored]
      have hupdate : updateSumAvgSingle engine isAvg state (some value, multiplicity) =
          accumulateValue engine isAvg state value multiplicity :=
        (if_neg hnull).trans (if_neg (not_not_intro (hstored.trans htype.symm)))
      rw [hsame] at haccumulate
      rw [hupdate]
      exact haccumulate

end

/-! ## 6. Merges -/

theorem SumInv.combine (hadd : engine.AddsExactly) {items' : List (Item core)}
    {other : GqlSumAvgState core} (h : SumInv isAvg column items state)
    (h' : SumInv isAvg column items' other) (hleft : column.Fits (exactSum items))
    (hright : column.Fits (exactSum items')) (hfit : column.Fits (exactSum items + exactSum items')) :
    ∃ state', sumAvgCombine engine state other = .ok state' ∧
      SumInv isAvg column (items ++ items') state' := by
  unfold sumAvgCombine
  by_cases hother : other.isNull = true
  · rw [if_pos hother]
    rw [h'.isNull] at hother
    obtain ⟨hsum, hcount⟩ := exactSum_of_none hother
    refine ⟨state, rfl, ?_⟩
    constructor
    · rw [all_append, hother, Bool.and_true]
      exact h.isNull
    · exact h.storedType
    · rw [exactSum_append, hsum, add_zero]
      exact h.intSum
    · rw [exactSum_append, hsum, add_zero]
      exact h.uintSum
    · rw [contributing_append, hcount, add_zero]
      exact h.count
    · exact h.sawReal
  rw [Bool.not_eq_true] at hother
  rw [if_neg (by rw [hother]; exact Bool.false_ne_true)]
  have hall' : (items'.all fun item => (contribution item.1).isNone) = false := by
    rw [← h'.isNull, hother]
  have hall : ((items ++ items').all fun item => (contribution item.1).isNone) = false := by
    rw [all_append, hall', Bool.and_false]
  by_cases hnull : state.isNull = true
  · rw [if_pos hnull]
    rw [h.isNull] at hnull
    obtain ⟨hsum, hcount⟩ := exactSum_of_none hnull
    refine ⟨_, rfl, ?_⟩
    constructor
    · exact hall.symm
    · exact fun _ => h'.storedType hother
    · rw [exactSum_append, hsum, zero_add]
      exact h'.intSum
    · rw [exactSum_append, hsum, zero_add]
      exact h'.uintSum
    · rw [contributing_append, hcount, zero_add]
      exact h'.count
    · exact h'.sawReal
  rw [Bool.not_eq_true] at hnull
  have htypes : state.storedType = other.storedType := by
    rw [h.storedType hnull, h'.storedType hother]
  rw [if_neg (by rw [hnull]; exact Bool.false_ne_true), if_neg (not_not_intro htypes)]
  -- the accumulator of the other family is zero on both sides
  have hsums : engine.addInt128 state.intSum other.intSum = .ok (state.intSum + other.intSum) ∧
      engine.addUInt128 state.uintSum other.uintSum = .ok (state.uintSum + other.uintSum) := by
    unfold LogicalTypeID.Fits at hleft hright hfit
    rw [h.intSum, h'.intSum, h.uintSum, h'.uintSum]
    cases hcolumn : column.unsigned with
    | true =>
      rw [hcolumn] at hleft hright hfit
      exact ⟨hadd.int128 0 0 inInt128_zero inInt128_zero inInt128_zero,
        hadd.uint128 _ _ hleft hright hfit⟩
    | false =>
      rw [hcolumn] at hleft hright hfit
      exact ⟨hadd.int128 _ _ hleft hright hfit,
        hadd.uint128 0 0 inUInt128_zero inUInt128_zero inUInt128_zero⟩
  rw [hsums.1]
  rw [hsums.2]
  refine ⟨_, rfl, ?_⟩
  constructor
  · rw [hall]
    exact hnull
  · exact h.storedType
  · rw [exactSum_append, h.intSum, h'.intSum]
    cases column.unsigned with
    | true | false => rfl
  · rw [exactSum_append, h.uintSum, h'.uintSum]
    cases column.unsigned with
    | true | false => rfl
  · rw [contributing_append, h.count, h'.count]
    cases isAvg with
    | true => exact (UInt64.ofNat_add _ _).symm
    | false => rfl
  · rw [h.sawReal, h'.sawReal]
    rfl

/-! ## 7. Runs -/

theorem SumInv.initial (engine : SumEngine core) (isAvg : Bool) (column : LogicalTypeID) :
    SumInv isAvg column [] (sumAvgInitialize engine) := by
  constructor
  · rfl
  · exact fun h => absurd h.symm Bool.false_ne_true
  · exact (ite_self 0).symm
  · exact (ite_self 0).symm
  · exact (ite_self 0).symm
  · rfl

theorem fits_zero (column : LogicalTypeID) : column.Fits 0 := by
  unfold LogicalTypeID.Fits
  cases column.unsigned with
  | true => exact inUInt128_zero
  | false => exact inInt128_zero

theorem PartialSumsFit.root {tree : MergeTree (Item core)} (h : PartialSumsFit column tree) :
    column.Fits (exactSum tree.items) := by
  cases tree with
  | empty => exact fits_zero column
  | add tree item =>
    show column.Fits (exactSum (tree.items ++ [item]))
    rw [exactSum_append, exactSum_singleton]
    exact h.2 item.2.toNat le_rfl
  | merge left right =>
    show column.Fits (exactSum (left.items ++ right.items))
    rw [exactSum_append]
    exact h.2.2

theorem run_sumInv (hadd : engine.AddsExactly) (tree : MergeTree (Item core))
    (hitems : ∀ item ∈ tree.items, InColumn column item) (hfit : PartialSumsFit column tree) :
    ∃ state, tree.run (updateSumAvgSingle engine isAvg) (sumAvgCombine engine)
        (sumAvgInitialize engine) = .ok state ∧ SumInv isAvg column tree.items state := by
  induction tree with
  | empty => exact ⟨_, rfl, .initial engine isAvg column⟩
  | add tree item ih =>
    obtain ⟨state, hstate, hinv⟩ := ih (fun x hx => hitems x (mem_append_left _ hx)) hfit.1
    obtain ⟨state', hstate', hinv'⟩ := hinv.update hadd
      (hitems item (mem_append_right _ mem_cons_self)) hfit.2
    refine ⟨state', ?_, hinv'⟩
    rw [MergeTree.run, hstate]
    exact hstate'
  | merge left right ihl ihr =>
    obtain ⟨state, hstate, hinv⟩ := ihl (fun x hx => hitems x (mem_append_left _ hx)) hfit.1
    obtain ⟨other, hother, hinv'⟩ := ihr (fun x hx => hitems x (mem_append_right _ hx)) hfit.2.1
    obtain ⟨state', hstate', hinv''⟩ := hinv.combine hadd hinv' hfit.1.root hfit.2.1.root hfit.2.2
    refine ⟨state', ?_, hinv''⟩
    rw [MergeTree.run, hstate, hother]
    exact hstate'

theorem exactSum_perm {as bs : List (Item core)} (h : as.Perm bs) : exactSum as = exactSum bs :=
  (h.map weighted).sum_eq

theorem contributing_perm {as bs : List (Item core)} (h : as.Perm bs) :
    contributing as = contributing bs :=
  (h.map _).sum_eq

def LogicalTypeID.render (column : LogicalTypeID) (sum : Int) : SumOutput core :=
  match column with
  | .JSON => .json (integerText sum)
  | _ => if column.unsigned then .uint128 sum else .int128 sum

def LogicalTypeID.OfIntegers : LogicalTypeID → Prop
  | .JSON => True
  | .SERIAL => True
  | .integer _ => True
  | _ => False

theorem ofIntegers_of_item {item : Item core} (hitem : InColumn column item)
    (hsome : contribution item.1 ≠ none) : column.OfIntegers := by
  obtain ⟨input, multiplicity⟩ := item
  cases input with
  | none => exact absurd rfl hsome
  | some value =>
    obtain ⟨htype, hintegral⟩ := hitem.2 value rfl
    rw [← htype]
    cases value with
    | json | serial | integer => trivial
    | float | double | other => exact hintegral.elim

theorem writeToVector_exact {state : GqlSumAvgState core} (htype : state.storedType = column)
    (hcolumn : column.OfIntegers) (hreal : state.sawReal = false) :
    writeToVector engine false state = .ok (column.render (state.accumulator column)) := by
  unfold writeToVector
  rw [htype]
  cases column with
  | JSON =>
    simp only [Bool.false_eq_true, if_false, hreal]
    rfl
  | SERIAL => rfl
  | integer type =>
    show (if type.signed = true then _ else _) = _
    have hunsigned : (LogicalTypeID.integer type).unsigned = !type.signed := rfl
    unfold LogicalTypeID.render GqlSumAvgState.accumulator
    rw [hunsigned]
    cases type.signed with
    | true | false => simp
  | ANY | FLOAT | DOUBLE | other => exact hcolumn.elim

/-- Over one column of integers every tree of additions and merges ends in the exact sum of the bag, which
`_GQL_SUM` renders.  Only `_GQL_AVG` counts, in 64 bits. -/
theorem sumAvg_exact (hadd : engine.AddsExactly) (isAvg : Bool) (column : LogicalTypeID)
    (bag : List (Item core)) (hbag : ∀ item ∈ bag, InColumn column item)
    (tree : MergeTree (Item core)) (hperm : tree.items.Perm bag) (hfit : PartialSumsFit column tree) :
    ∃ state, tree.run (updateSumAvgSingle engine isAvg) (sumAvgCombine engine)
        (sumAvgInitialize engine) = .ok state ∧
      (state.isNull = true ↔ ∀ item ∈ bag, contribution item.1 = none) ∧
      state.accumulator column = exactSum bag ∧
      state.count = (if isAvg then UInt64.ofNat (contributing bag) else 0) ∧
      state.sawReal = false ∧
      (state.isNull = false → writeToVector engine false state = .ok (column.render (exactSum bag))) := by
  obtain ⟨state, hrun, hinv⟩ := @run_sumInv core engine isAvg column hadd tree
    (fun item hitem => hbag item (hperm.mem_iff.mp hitem)) hfit
  have hnull : state.isNull = true ↔ ∀ item ∈ bag, contribution item.1 = none := by
    rw [hinv.isNull, all_eq_true]
    constructor
    · intro hall item hitem
      exact Option.isNone_iff_eq_none.mp (hall item (hperm.mem_iff.mpr hitem))
    · intro hall item hitem
      exact Option.isNone_iff_eq_none.mpr (hall item (hperm.mem_iff.mp hitem))
  have hsum : state.accumulator column = exactSum bag := by
    rw [← exactSum_perm hperm]
    unfold GqlSumAvgState.accumulator
    rw [hinv.intSum, hinv.uintSum]
    cases column.unsigned with
    | true | false => rfl
  refine ⟨state, hrun, hnull, hsum, ?_, hinv.sawReal, fun hlive => ?_⟩
  · rw [hinv.count, contributing_perm hperm]
  · have hcontributes : ∃ item ∈ bag, contribution item.1 ≠ none := by
      by_contra hnone
      push Not at hnone
      rw [hnull.mpr hnone] at hlive
      exact Bool.false_ne_true hlive.symm
    obtain ⟨item, hitem, hsome⟩ := hcontributes
    rw [writeToVector_exact (hinv.storedType hlive) (ofIntegers_of_item (hbag item hitem) hsome)
      hinv.sawReal, hsum]

end

/-! ## 8. Samples -/

/-- Integers in place of doubles; a quotient is rounded. -/
def sampleReals : Reals (Option Int) where
  zero := some 0
  one := some 1
  ofInt64 n := some n.toInt
  ofUInt64 n := some n.toNat
  neg x := x.map (- ·)
  add x y := x.bind fun x => y.map (x + ·)
  sub x y := x.bind fun x => y.map (x - ·)
  mul x y := x.bind fun x => y.map (x * ·)
  div x y := x.bind fun x => y.map (x / ·)

def sampleEngine : SumEngine sampleCore where
  LongDouble := Option Int
  double := sampleReals
  longDouble := sampleReals
  widen := id
  narrow := id
  addInt128 l r := if InInt128 (l + r) then .ok (l + r) else .error "INT128 is out of range"
  addUInt128 l r := if InUInt128 (l + r) then .ok (l + r) else .error "UINT128 is out of range"
  typeName type := if type = .JSON then "JSON" else "INT64"

theorem sampleEngine_addsExactly : sampleEngine.AddsExactly where
  int128 := fun _ _ _ _ hsum => if_pos hsum
  uint128 := fun _ _ _ _ hsum => if_pos hsum

theorem five_holds : IntegerType.int64.Holds 5 := by
  decide

theorem minusSeven_holds : IntegerType.int64.Holds (-7) := by
  decide

def fiveTwice : Item sampleCore := (some (.integer .int64 ⟨5, five_holds⟩), 2)

def minusSevenThrice : Item sampleCore := (some (.integer .int64 ⟨-7, minusSeven_holds⟩), 3)

/-- Two contributes twice, and yet the state of `_GQL_SUM` counts nothing. -/
theorem sum_counts_nothing : ∃ state, (MergeTree.add .empty fiveTwice).run
      (updateSumAvgSingle sampleEngine false) (sumAvgCombine sampleEngine)
      (sumAvgInitialize sampleEngine) = .ok state ∧
    state.isNull = false ∧ contributing [fiveTwice] = 2 ∧ state.count = 0 :=
  ⟨_, rfl, rfl, rfl, rfl⟩

theorem multiples_fit {sum val : Int} (hsum : sum = 0) (hval : -7 ≤ val ∧ val ≤ 5) {j : Nat}
    (hj : j ≤ 3) : (LogicalTypeID.integer .int64).Fits (sum + j * val) := by
  show InInt128 (sum + j * val)
  have hlow : (j : Int) * (-7) ≤ j * val := Int.mul_le_mul_of_nonneg_left hval.1 (Int.natCast_nonneg j)
  have hhigh : (j : Int) * val ≤ j * 5 := Int.mul_le_mul_of_nonneg_left hval.2 (Int.natCast_nonneg j)
  unfold InInt128
  omega

def partedBag : MergeTree (Item sampleCore) :=
  .merge (.add (.add .empty (none, 1)) fiveTwice) (.merge .empty (.add .empty minusSevenThrice))

theorem sumAvg_exact_parted : ∃ state, partedBag.run (updateSumAvgSingle sampleEngine true)
        (sumAvgCombine sampleEngine) (sumAvgInitialize sampleEngine) = .ok state ∧
      (state.isNull = true ↔
        ∀ item ∈ [minusSevenThrice, (none, 1), fiveTwice], contribution item.1 = none) ∧
      state.accumulator (.integer .int64) = exactSum [minusSevenThrice, (none, 1), fiveTwice] ∧
      state.count = UInt64.ofNat (contributing [minusSevenThrice, (none, 1), fiveTwice]) ∧
      state.sawReal = false ∧
      (state.isNull = false → writeToVector sampleEngine false state = .ok
        ((LogicalTypeID.integer .int64).render (exactSum [minusSevenThrice, (none, 1), fiveTwice]))) := by
  apply sumAvg_exact sampleEngine_addsExactly true
  · intro item hitem
    rcases mem_cons.mp hitem with rfl | hitem
    · exact ⟨by decide, fun value hvalue => by cases hvalue; exact ⟨rfl, Nat.le_refl 64⟩⟩
    rcases mem_cons.mp hitem with rfl | hitem
    · exact ⟨by decide, fun value hvalue => by cases hvalue⟩
    rw [mem_singleton.mp hitem]
    exact ⟨by decide, fun value hvalue => by cases hvalue; exact ⟨rfl, Nat.le_refl 64⟩⟩
  · exact perm_append_comm
  · have hnone : ∀ j : Nat, j ≤ 1 → (LogicalTypeID.integer .int64).Fits
        (exactSum ([] : List (Item sampleCore)) + j * 0) :=
      fun j hj => multiples_fit rfl (by decide) (by omega)
    have hfive : ∀ j : Nat, j ≤ 2 → (LogicalTypeID.integer .int64).Fits
        (exactSum [((none, 1) : Item sampleCore)] + j * 5) :=
      fun j hj => multiples_fit (by decide) (by decide) (by omega)
    have hseven : ∀ j : Nat, j ≤ 3 → (LogicalTypeID.integer .int64).Fits
        (exactSum ([] : List (Item sampleCore)) + j * (-7)) :=
      fun j hj => multiples_fit rfl (by decide) hj
    have hright : InInt128 (exactSum ([] : List (Item sampleCore)) + exactSum [minusSevenThrice]) := by
      decide
    have hroot : InInt128 (exactSum [(none, 1), fiveTwice] + exactSum [minusSevenThrice]) := by
      decide
    exact ⟨⟨⟨trivial, hnone⟩, hfive⟩, ⟨trivial, ⟨trivial, hseven⟩, hright⟩, hroot⟩

end Ladybug.Gql
