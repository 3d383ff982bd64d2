import Ladybug.Gql.NumberTexts

/-!
# Decimal comparison is exact

`compareDecimalTexts` orders numbers by their values, however they are spelled.  It refuses a number whose
exponent does not fit in an `int64`, and one more exponent, which fits.  The arithmetic of the source is
repeated here with the operations on `int64` made explicit; none of them overflows.
-/

namespace Ladybug.Gql

open List Option Except

/-- A computation that may throw; `none` stands for an operation that has overflowed. -/
abbrev Machine (α : Type) := Option (Except String α)

def Machine.andThen {α β : Type} (m : Machine α) (f : α → Machine β) : Machine β :=
  match m with
  | none => none
  | some (.error msg) => some (.error msg)
  | some (.ok a) => f a

/-- The value of an operation. -/
def int64 (v : Int) : Machine Int := if InInt64 v then some (.ok v) else none

section

variable (errorPrefix : String)

/-- `checkedAddInt64`; a difference is computed for the sign that needs it. -/
def checkedAddMachine (lhs rhs : Int) : Machine Int :=
  Machine.andThen
    (if rhs > 0 then (int64 (int64Max - rhs)).andThen fun bound => some (.ok (decide (lhs > bound)))
      else some (.ok false)) fun above =>
  if above then some (.error (outOfRange errorPrefix))
  else
    Machine.andThen
      (if rhs < 0 then (int64 (int64Min - rhs)).andThen fun bound ↦ some (.ok (decide (lhs < bound)))
        else some (.ok false)) fun below =>
    if below then some (.error (outOfRange errorPrefix)) else int64 (lhs + rhs)

/-- A turn of the loop of `parseExponent`. -/
def addDigitMachine (value : Int) (c : UInt8) : Machine Int :=
  (int64 ((c.toNat : Int) - 0x30)).andThen fun digit =>
  (int64 (int64Max - digit)).andThen fun room =>
  if value > room / 10 then some (.error (outOfRange errorPrefix))
  else (int64 (value * 10)).andThen fun tens => int64 (tens + digit)

def addDigitsMachine : Int → Bytes → Machine Int
  | value, [] => some (.ok value)
  | value, c :: text => (addDigitMachine errorPrefix value c).andThen fun value =>
      addDigitsMachine value text

def parseExponentMachine (text : Bytes) : Machine Int :=
  let (sign, text) := splitSign text
  if !allDigits text then some (.error (errorPrefix ++ ": invalid number text"))
  else (addDigitsMachine errorPrefix 0 text).andThen fun value =>
    if sign = -1 then int64 (-value) else some (.ok value)

def exponentMachine (exponentText : Option Bytes) : Machine Int :=
  match exponentText with
  | none => some (.ok 0)
  | some text => parseExponentMachine errorPrefix text

/-- What `normalizeDecimalText` does with the mantissa. -/
def mantissaMachine (sign : Int) (mantissa : Bytes) (exponent : Int) : Machine DecimalParts :=
  let (intPart, fracPart) := splitAtFirst (· == 0x2e) mantissa
  if !validMantissa intPart fracPart then some (.error (errorPrefix ++ ": invalid number text"))
  else
    let frac := fracPart.getD []
    let significant := (intPart ++ frac).dropWhile isZero
    if significant.isEmpty then some (.ok {})
    else
      (checkedAddMachine errorPrefix (int64OfSize significant.length) exponent).andThen fun exponent ↦
      (int64 (-int64OfSize frac.length)).andThen fun back =>
      (checkedAddMachine errorPrefix exponent back).andThen fun exponent =>
      some (.ok { sign, digits := significant.rdropWhile isZero, exponent })

def normalizeDecimalTextMachine (text : Bytes) : Machine DecimalParts :=
  let (sign, text) := splitSign text
  let (mantissa, exponentText) := splitAtFirst (fun c => c == 0x65 || c == 0x45) text
  (exponentMachine errorPrefix exponentText).andThen (mantissaMachine errorPrefix sign mantissa)

end

variable {v : Int} {α : Type} {t : DecimalToken}

theorem int64_ok (h : InInt64 v) : int64 v = some (.ok v) := if_pos h

theorem int64_andThen (h : InInt64 v) (f : Int → Machine α) : (int64 v).andThen f = f v := by
  rw [int64_ok h]
  rfl

theorem andThen_ok {β : Type} (r : Except String α) (f : α → Machine β) (g : α → Except String β)
    (h : ∀ a, r = .ok a → f a = some (g a)) : Machine.andThen (some r) f = some (r >>= g) := by
  cases r with
  | error msg => rfl
  | ok a => exact h a rfl

theorem checkedAddMachine_eq {lhs rhs : Int} (hl : InInt64 lhs) (hr : InInt64 rhs) (errorPrefix : String) :
    checkedAddMachine errorPrefix lhs rhs = some (checkedAddInt64 lhs rhs errorPrefix) := by
  rw [checkedAddInt64_exact hl]
  unfold checkedAddMachine
  rcases lt_trichotomy rhs 0 with hneg | hzero | hpos
  · have hbound : InInt64 (int64Min - rhs) := by
      unfold InInt64 int64Min int64Max at *
      omega
    rw [if_neg (by omega), if_pos hneg, int64_ok hbound]
    show (if decide (lhs < int64Min - rhs) = true then _ else _) = _
    by_cases hbelow : lhs < int64Min - rhs
    · have hout : ¬ InInt64 (lhs + rhs) := fun h => by
        have hge := h.1
        omega
      rw [if_pos (decide_eq_true hbelow), if_neg hout]
    · have hin : InInt64 (lhs + rhs) := by
        unfold InInt64 at *
        omega
      rw [if_neg (by rw [decide_eq_false hbelow]; exact Bool.false_ne_true), if_pos hin, int64_ok hin]
  · have hin : InInt64 (lhs + rhs) := by
      rw [hzero, Int.add_zero]
      exact hl
    rw [if_neg (by omega), if_neg (by omega), if_pos hin]
    exact int64_ok hin
  · have hbound : InInt64 (int64Max - rhs) := by
      unfold InInt64 int64Min int64Max at *
      omega
    rw [if_pos hpos, if_neg (by omega), int64_ok hbound]
    show (if decide (lhs > int64Max - rhs) = true then _ else _) = _
    by_cases habove : lhs > int64Max - rhs
    · have hout : ¬ InInt64 (lhs + rhs) := fun h => by
        have hle := h.2
        omega
      rw [if_pos (decide_eq_true habove), if_neg hout]
    · have hin : InInt64 (lhs + rhs) := by
        unfold InInt64 at *
        omega
      rw [if_neg (by rw [decide_eq_false habove]; exact Bool.false_ne_true), if_pos hin]
      exact int64_ok hin

theorem addDigitMachine_eq {value : Int} (h0 : 0 ≤ value) (hmax : value ≤ int64Max) {c : UInt8}
    (hc : isDigit c = true) (errorPrefix : String) :
    addDigitMachine errorPrefix value c = some (addDigit errorPrefix value c) ∧
      ∀ result, addDigit errorPrefix value c = .ok result → 0 ≤ result ∧ result ≤ int64Max := by
  obtain ⟨hlow, hhigh⟩ := isDigit_iff.mp hc
  change 48 ≤ c.toNat at hlow
  change c.toNat ≤ 57 at hhigh
  have hdigit : InInt64 ((c.toNat : Int) - 0x30) := by
    unfold InInt64 int64Min int64Max
    omega
  have hroom : InInt64 (int64Max - ((c.toNat : Int) - 0x30)) := by
    unfold InInt64 int64Min int64Max
    omega
  unfold addDigitMachine addDigit
  rw [int64_andThen hdigit, int64_andThen hroom]
  by_cases hlarge : value > (int64Max - ((c.toNat : Int) - 0x30)) / 10
  · simp only [if_pos hlarge]
    exact ⟨rfl, fun result hresult => by cases hresult⟩
  · simp only [if_neg hlarge]
    have htens : InInt64 (value * 10) := by
      unfold InInt64 int64Min int64Max at *
      omega
    have hsum : InInt64 (value * 10 + ((c.toNat : Int) - 0x30)) := by
      unfold InInt64 int64Min int64Max at *
      omega
    rw [int64_andThen htens]
    refine ⟨int64_ok hsum, fun result hresult => ?_⟩
    cases hresult
    exact ⟨by omega, hsum.2⟩

variable (errorPrefix : String)

theorem addDigitsMachine_eq (text : Bytes) (h : text.all isDigit = true) {value : Int}
    (h0 : 0 ≤ value) (hmax : value ≤ int64Max) :
    addDigitsMachine errorPrefix value text = some (text.foldlM (addDigit errorPrefix) value) ∧
      ∀ result, text.foldlM (addDigit errorPrefix) value = .ok result →
        0 ≤ result ∧ result ≤ int64Max := by
  induction text generalizing value with
  | nil =>
    refine ⟨rfl, fun result hresult => ?_⟩
    cases hresult
    exact ⟨h0, hmax⟩
  | cons c text ih =>
    rw [all_cons, Bool.and_eq_true] at h
    obtain ⟨hmachine, hresult⟩ := addDigitMachine_eq h0 hmax h.1 errorPrefix
    unfold addDigitsMachine
    rw [foldlM_cons, hmachine]
    cases hadd : addDigit errorPrefix value c with
    | error msg => exact ⟨rfl, fun result hresult => by cases hresult⟩
    | ok next =>
      obtain ⟨hnext0, hnext⟩ := hresult next hadd
      exact ih h.2 hnext0 hnext

theorem parseExponentMachine_eq (text : Bytes) :
    parseExponentMachine errorPrefix text = some (parseExponent text errorPrefix) ∧
      ∀ e, parseExponent text errorPrefix = .ok e → InInt64 e := by
  unfold parseExponentMachine parseExponent
  have hsign := splitSign_sign text
  generalize splitSign text = split at *
  obtain ⟨sign, digits⟩ := split
  by_cases hdigits : allDigits digits = true
  · obtain ⟨hmachine, hrange⟩ := addDigitsMachine_eq errorPrefix digits (all_of_allDigits hdigits)
      (le_refl 0) (by decide)
    simp only [hdigits, Bool.not_true, Bool.false_eq_true, if_false]
    rw [hmachine]
    cases hfold : digits.foldlM (addDigit errorPrefix) 0 with
    | error msg => exact ⟨rfl, fun e he => by cases he⟩
    | ok value =>
      obtain ⟨hvalue0, hvalue⟩ := hrange value hfold
      have hneg : InInt64 (-value) := by
        unfold InInt64 int64Min int64Max at *
        omega
      have hpos : InInt64 value := by
        unfold InInt64 int64Min int64Max at *
        omega
      show (if sign = -1 then int64 (-value) else some (.ok value)) = some (.ok (sign * value)) ∧
        ∀ e, ok (sign * value) = ok e → InInt64 e
      rcases hsign with rfl | rfl
      · rw [if_pos rfl, int64_ok hneg, neg_one_mul]
        exact ⟨rfl, fun e he => by cases he; exact hneg⟩
      · rw [if_neg (by decide), one_mul]
        exact ⟨rfl, fun e he => by cases he; exact hpos⟩
  · rw [Bool.not_eq_true] at hdigits
    simp only [hdigits, Bool.not_false, if_true]
    exact ⟨trivial, fun e he => by cases he⟩

theorem splitSign_length (text : Bytes) : (splitSign text).2.length ≤ text.length := by
  unfold splitSign
  split
  · exact Nat.le_succ _
  · exact Nat.le_succ _
  · exact Nat.le_refl _

theorem splitAtFirst_length (p : UInt8 → Bool) (text : Bytes) :
    (splitAtFirst p text).1.length + ((splitAtFirst p text).2.getD []).length ≤ text.length := by
  have hwhole : (text.takeWhile fun c => !p c).length + (text.dropWhile fun c => !p c).length =
      text.length := by
    rw [← length_append, takeWhile_append_dropWhile]
  unfold splitAtFirst
  cases hdrop : text.dropWhile fun c => !p c with
  | nil =>
    rw [hdrop] at hwhole
    exact Nat.le_of_eq hwhole
  | cons c rest =>
    rw [hdrop, length_cons] at hwhole
    show (text.takeWhile fun c => !p c).length + rest.length ≤ text.length
    omega

theorem exponentMachine_eq (exponentText : Option Bytes) :
    exponentMachine errorPrefix exponentText = some (exponentOf exponentText errorPrefix) ∧
      ∀ e, exponentOf exponentText errorPrefix = .ok e → InInt64 e := by
  cases exponentText with
  | some text => exact parseExponentMachine_eq errorPrefix text
  | none =>
    refine ⟨rfl, fun e he => ?_⟩
    cases he
    decide

theorem mantissaMachine_eq (sign : Int) {mantissa : Bytes} (hsize : mantissa.length < 2 ^ 63)
    {exponent : Int} (hexponent : InInt64 exponent) :
    mantissaMachine errorPrefix sign mantissa exponent =
      some (normalizeMantissa sign mantissa exponent errorPrefix) := by
  have hlength := splitAtFirst_length (· == 0x2e) mantissa
  unfold mantissaMachine normalizeMantissa
  simp only []
  generalize splitAtFirst (· == 0x2e) mantissa = cut at *
  by_cases hvalid : (!validMantissa cut.1 cut.2) = true
  · rw [if_pos hvalid, if_pos hvalid]
  rw [if_neg hvalid, if_neg hvalid]
  by_cases hempty : ((cut.1 ++ cut.2.getD []).dropWhile isZero).isEmpty = true
  · rw [if_pos hempty, if_pos hempty]
    rfl
  rw [if_neg hempty, if_neg hempty]
  have hsub := (dropWhile_sublist (l := cut.1 ++ cut.2.getD []) isZero).length_le
  rw [length_append] at hsub
  have hcount : InInt64 (int64OfSize ((cut.1 ++ cut.2.getD []).dropWhile isZero).length) := by
    rw [int64OfSize_eq (by omega)]
    unfold InInt64 int64Min int64Max
    omega
  have hback : InInt64 (-int64OfSize (cut.2.getD []).length) := by
    rw [int64OfSize_eq (by omega)]
    unfold InInt64 int64Min int64Max
    omega
  rw [checkedAddMachine_eq hcount hexponent]
  apply andThen_ok
  intro sum hsum
  rw [checkedAddInt64_exact hcount] at hsum
  have hsumRange : InInt64 sum := by
    by_cases hin : InInt64 (int64OfSize ((cut.1 ++ cut.2.getD []).dropWhile isZero).length + exponent)
    · rw [if_pos hin] at hsum
      rw [← ok.inj hsum]
      exact hin
    · rw [if_neg hin] at hsum
      cases hsum
  rw [int64_andThen hback, checkedAddMachine_eq hsumRange hback]
  apply andThen_ok
  intro _ _
  rfl

theorem normalizeDecimalTextMachine_eq {text : Bytes} (hsize : text.length < 2 ^ 63) :
    normalizeDecimalTextMachine errorPrefix text = some (normalizeDecimalText text errorPrefix) := by
  have hunsigned := splitSign_length text
  have hmantissa := splitAtFirst_length (fun c => c == 0x65 || c == 0x45) (splitSign text).2
  obtain ⟨hmachine, hrange⟩ := exponentMachine_eq errorPrefix
    (splitAtFirst (fun c => c == 0x65 || c == 0x45) (splitSign text).2).2
  rw [normalizeDecimalText_eq]
  unfold normalizeDecimalTextMachine
  simp only []
  rw [hmachine]
  apply andThen_ok
  intro e he
  exact mantissaMachine_eq errorPrefix _ (by omega) (hrange e he)

def DecimalToken.OutOfInt64 (t : DecimalToken) : Prop := ¬ InInt64 t.exponentValue ∨ ¬ t.SumsInRange

theorem DecimalToken.exponentValue_eq (t : DecimalToken) :
    t.exponentValue = t.exponentSize ∨ t.exponentValue = -(t.exponentSize : Int) := by
  unfold DecimalToken.exponentValue DecimalToken.exponentSize
  cases t.exponent with
  | none => exact .inl rfl
  | some e =>
    show e.value = _ ∨ e.value = _
    unfold ExponentToken.value
    by_cases hminus : e.sign = some minusSign
    · rw [if_pos hminus]
      exact .inr rfl
    · rw [if_neg hminus]
      exact .inl rfl

theorem refused_iff (t : DecimalToken) : int64Max < t.exponentSize ∨ ¬ t.SumsInRange ↔
    t.OutOfInt64 ∨ t.exponentValue = int64Min := by
  have hlarge : int64Max < t.exponentSize ↔ ¬ InInt64 t.exponentValue ∨ t.exponentValue = int64Min := by
    have hvalue := t.exponentValue_eq
    unfold InInt64 int64Min int64Max
    omega
  unfold DecimalToken.OutOfInt64
  rw [hlarge, or_right_comm]

section

variable (hsize : t.text.length < 2 ^ 63)

include hsize

theorem normalize_refused (errorPrefix : String) (h : t.OutOfInt64 ∨ t.exponentValue = int64Min) :
    normalizeDecimalText t.text errorPrefix = .error (outOfRange errorPrefix) := by
  rw [normalize_decimal t hsize, if_pos ((refused_iff t).mpr h)]

theorem normalize_accepted (errorPrefix : String)
    (h : ¬ (t.OutOfInt64 ∨ t.exponentValue = int64Min)) :
    normalizeDecimalText t.text errorPrefix = .ok t.parts := by
  rw [normalize_decimal t hsize, if_neg (fun hout => h ((refused_iff t).mp hout))]

theorem normalize_parts {errorPrefix : String} {parts : DecimalParts}
    (h : normalizeDecimalText t.text errorPrefix = .ok parts) :
    parts = t.parts := by
  by_cases hout : t.OutOfInt64 ∨ t.exponentValue = int64Min
  · rw [normalize_refused hsize errorPrefix hout] at h
    cases h
  · rw [normalize_accepted hsize errorPrefix hout] at h
    exact (ok.inj h).symm

end

/-- The comparison of two numbers is that of their values; it throws only for an exponent that is not an
`int64`, unless one of the exponents is the least `int64`.  In no text an operation overflows. -/
theorem compareDecimalTexts_exact_iff (l r : DecimalToken) (hl : l.text.length < 2 ^ 63)
    (hr : r.text.length < 2 ^ 63) (errorPrefix : String) :
    ((∀ cmp, compareDecimalTexts l.text r.text errorPrefix = .ok cmp → cmp = compare l.value r.value) ∧
      (∀ msg, compareDecimalTexts l.text r.text errorPrefix = .error msg →
        l.OutOfInt64 ∨ r.OutOfInt64) ∧
      (∀ lhs rhs, InInt64 lhs → InInt64 rhs → checkedAddMachine errorPrefix lhs rhs ≠ none) ∧
      (∀ text, parseExponentMachine errorPrefix text ≠ none) ∧
      ∀ text : Bytes, text.length < 2 ^ 63 → normalizeDecimalTextMachine errorPrefix text ≠ none) ↔
    l.OutOfInt64 ∨ r.OutOfInt64 ∨ l.exponentValue ≠ int64Min ∧ r.exponentValue ≠ int64Min := by
  constructor
  · rintro ⟨-, hthrows, -⟩
    by_contra hnot
    rw [not_or, not_or] at hnot
    obtain ⟨hlin, hrin, hmin⟩ := hnot
    -- one of the exponents is the least `int64`, so that the comparison throws
    have hthrow : ∃ msg, compareDecimalTexts l.text r.text errorPrefix = .error msg := by
      unfold compareDecimalTexts
      by_cases hlmin : l.exponentValue = int64Min
      · rw [normalize_refused hl errorPrefix (.inr hlmin)]
        exact ⟨_, rfl⟩
      · have hrmin : r.exponentValue = int64Min := by
          by_contra hrmin
          exact hmin ⟨hlmin, hrmin⟩
        rw [normalize_accepted hl errorPrefix (fun h => h.elim hlin hlmin),
          normalize_refused hr errorPrefix (.inr hrmin)]
        exact ⟨_, rfl⟩
    obtain ⟨msg, hmsg⟩ := hthrow
    exact (hthrows msg hmsg).elim hlin hrin
  · intro hcond
    refine ⟨?_, ?_, ?_, ?_, ?_⟩
    · intro cmp hcmp
      obtain ⟨p, hp, hcmp⟩ := bind_eq_ok.mp hcmp
      obtain ⟨q, hq, hcmp⟩ := bind_eq_ok.mp hcmp
      rw [normalize_parts hl hp, normalize_parts hr hq] at hcmp
      rw [← ok.inj hcmp, compareDecimalParts_value l.parts_value.1 r.parts_value.1,
        l.parts_value.2, r.parts_value.2]
    · intro msg hmsg
      by_contra hnot
      rw [not_or] at hnot
      obtain ⟨hlmin, hrmin⟩ := (hcond.resolve_left hnot.1).resolve_left hnot.2
      unfold compareDecimalTexts at hmsg
      rw [normalize_accepted hl errorPrefix (fun h => h.elim hnot.1 hlmin),
        normalize_accepted hr errorPrefix (fun h => h.elim hnot.2 hrmin)] at hmsg
      cases hmsg
    · intro lhs rhs hlhs hrhs hnone
      rw [checkedAddMachine_eq hlhs hrhs] at hnone
      cases hnone
    · intro text hnone
      rw [(parseExponentMachine_eq errorPrefix text).1] at hnone
      cases hnone
    · intro text hsize hnone
      rw [normalizeDecimalTextMachine_eq errorPrefix hsize] at hnone
      cases hnone

theorem lower_e_ok : (0x65 : UInt8) = 0x65 ∨ (0x65 : UInt8) = 0x45 := .inl rfl

theorem no_sign_ok (s : UInt8) (hs : none = some s) : s = plusSign ∨ s = minusSign := by cases hs

theorem one_ok : allDigits (bytesOf "1") = true := by decide

theorem no_frac_ok (f : Bytes) (hf : none = some f) : allDigits f = true := by cases hf

theorem zero_frac_ok (f : Bytes) (hf : some (bytesOf "0") = some f) : allDigits f = true := by
  rw [← some.inj hf]
  decide

def leastExponentToken : DecimalToken where
  sign := none
  int := bytesOf "1"
  frac := none
  exponent := some {
    letter := 0x65
    sign := some minusSign
    digits := bytesOf "9223372036854775808"
    letter_e := lower_e_ok
    sign_ok := fun s hs => .inr (some.inj hs).symm
    digits_ok := by decide }
  sign_ok := no_sign_ok
  int_ok := one_ok
  frac_ok := no_frac_ok

/-- The exponent is an `int64`, and so is its sum with the number of digits. -/
theorem least_exponent_refused : leastExponentToken.text = bytesOf "1e-9223372036854775808" ∧
    ¬ leastExponentToken.OutOfInt64 ∧
    compareDecimalTexts leastExponentToken.text leastExponentToken.text "" =
      .error (outOfRange "") := by
  unfold DecimalToken.OutOfInt64
  decide

/-- +01.50E0 -/
def paddedToken : DecimalToken where
  sign := some plusSign
  int := bytesOf "01"
  frac := some (bytesOf "50")
  exponent := some {
    letter := 0x45
    sign := none
    digits := bytesOf "0"
    letter_e := .inr rfl
    sign_ok := no_sign_ok
    digits_ok := by decide }
  sign_ok := fun s hs => .inl (some.inj hs).symm
  int_ok := by decide
  frac_ok := fun f hf => by
    rw [← some.inj hf]
    decide

theorem compareDecimalTexts_exact_padded : paddedToken.text.length < 2 ^ 63 ∧
    ∀ cmp, compareDecimalTexts paddedToken.text paddedToken.text "" = .ok cmp →
      cmp = compare paddedToken.value paddedToken.value :=
  have hsize : paddedToken.text.length < 2 ^ 63 := by decide
  ⟨hsize, ((compareDecimalTexts_exact_iff paddedToken paddedToken hsize hsize "").mpr
    (.inr (.inr ⟨by decide, by decide⟩))).1⟩

end Ladybug.Gql
