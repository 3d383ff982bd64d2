import Ladybug.Base.DecimalFractions
import Ladybug.Gql.SortKeyOrder

/-!
# Numbers and their values

The numbers of RFC 8259 and the rational numbers that they denote.  `normalizeDecimalText` keeps the
value, or the exponent does not fit in an `int64`.
-/

namespace Ladybug.Gql

open List

/-! ## 1. The grammar -/

def minusSign : UInt8 := 0x2d

def plusSign : UInt8 := 0x2b

structure ExponentToken where
  letter : UInt8
  sign : Option UInt8
  digits : Bytes
  letter_e : letter = 0x65 ∨ letter = 0x45
  sign_ok : ∀ s, sign = some s → s = plusSign ∨ s = minusSign
  digits_ok : allDigits digits = true

/-- A decimal text, which may have either sign and zeros in front. -/
structure DecimalToken where
  sign : Option UInt8
  int : Bytes
  frac : Option Bytes
  exponent : Option ExponentToken
  sign_ok : ∀ s, sign = some s → s = plusSign ∨ s = minusSign
  int_ok : allDigits int = true
  frac_ok : ∀ f, frac = some f → allDigits f = true

structure NumberToken where
  minus : Bool
  int : Bytes
  frac : Option Bytes
  exponent : Option ExponentToken
  int_ok : allDigits int = true
  int_zero : int = [0x30] ∨ int.head? ≠ some 0x30
  frac_ok : ∀ f, frac = some f → allDigits f = true

def ExponentToken.text (e : ExponentToken) : Bytes := e.letter :: (e.sign.toList ++ e.digits)

def NumberToken.fracText (t : NumberToken) : Bytes :=
  match t.frac with
  | none => []
  | some f => 0x2e :: f

def NumberToken.exponentText (t : NumberToken) : Bytes :=
  match t.exponent with
  | none => []
  | some e => e.text

def NumberToken.unsigned (t : NumberToken) : Bytes := t.int ++ t.fracText ++ t.exponentText

def NumberToken.text (t : NumberToken) : Bytes :=
  if t.minus then minusSign :: t.unsigned else t.unsigned

def DecimalToken.fracText (t : DecimalToken) : Bytes :=
  match t.frac with
  | none => []
  | some f => 0x2e :: f

def DecimalToken.exponentText (t : DecimalToken) : Bytes :=
  match t.exponent with
  | none => []
  | some e => e.text

def DecimalToken.unsigned (t : DecimalToken) : Bytes := t.int ++ t.fracText ++ t.exponentText

def DecimalToken.text (t : DecimalToken) : Bytes := t.sign.toList ++ t.unsigned

def digitOf (c : UInt8) : ℕ := c.toNat - 0x30

def digitsOf (text : Bytes) : List ℕ := text.map digitOf

def ExponentToken.value (e : ExponentToken) : ℤ :=
  if e.sign = some minusSign then -digitsValue 10 (digitsOf e.digits)
  else digitsValue 10 (digitsOf e.digits)

def NumberToken.exponentValue (t : NumberToken) : ℤ :=
  match t.exponent with
  | none => 0
  | some e => e.value

def NumberToken.digits (t : NumberToken) : Bytes := t.int ++ t.frac.getD []

def NumberToken.magnitude (t : NumberToken) : ℚ :=
  digitsValue 10 (digitsOf t.digits) * (10 : ℚ) ^ (t.exponentValue - (t.frac.getD []).length)

def NumberToken.value (t : NumberToken) : ℚ := if t.minus then -t.magnitude else t.magnitude

def DecimalToken.exponentValue (t : DecimalToken) : ℤ :=
  match t.exponent with
  | none => 0
  | some e => e.value

def DecimalToken.exponentSize (t : DecimalToken) : ℕ :=
  match t.exponent with
  | none => 0
  | some e => digitsValue 10 (digitsOf e.digits)

def DecimalToken.digits (t : DecimalToken) : Bytes := t.int ++ t.frac.getD []

def DecimalToken.magnitude (t : DecimalToken) : ℚ :=
  digitsValue 10 (digitsOf t.digits) * (10 : ℚ) ^ (t.exponentValue - (t.frac.getD []).length)

def DecimalToken.value (t : DecimalToken) : ℚ :=
  if t.sign = some minusSign then -t.magnitude else t.magnitude

def NumberToken.decimal (t : NumberToken) : DecimalToken where
  sign := if t.minus then some minusSign else none
  int := t.int
  frac := t.frac
  exponent := t.exponent
  sign_ok := by
    intro s hs
    cases hminus : t.minus with
    | true =>
      rw [hminus] at hs
      exact .inr (Option.some.inj hs).symm
    | false =>
      rw [hminus] at hs
      cases hs
  int_ok := t.int_ok
  frac_ok := t.frac_ok

theorem NumberToken.decimal_text (t : NumberToken) : t.decimal.text = t.text := by
  cases hminus : t.minus with
  | true | false => simp [DecimalToken.text, NumberToken.text, NumberToken.decimal, hminus]; rfl

theorem NumberToken.decimal_value (t : NumberToken) : t.decimal.value = t.value := by
  unfold DecimalToken.value NumberToken.value
  have hsign : t.decimal.sign = some minusSign ↔ t.minus = true := by
    show (if t.minus then some minusSign else none) = some minusSign ↔ _
    cases t.minus <;> simp
  by_cases hminus : t.minus = true
  · rw [if_pos (hsign.mpr hminus), if_pos hminus]
    rfl
  · rw [if_neg (fun h => hminus (hsign.mp h)), if_neg hminus]
    rfl

/-! ## 2. Digits -/

variable {c : UInt8} {p q : DecimalParts}

theorem digitOf_lt (h : isDigit c = true) : digitOf c < 10 := by
  obtain ⟨hlow, hhigh⟩ := isDigit_iff.mp h
  change c.toNat ≤ 57 at hhigh
  show c.toNat - 48 < 10
  omega

theorem digitOf_lt_iff {d : UInt8} (hc : isDigit c = true) (hd : isDigit d = true) :
    digitOf c < digitOf d ↔ c < d := by
  obtain ⟨hlow, -⟩ := isDigit_iff.mp hc
  obtain ⟨hlow', -⟩ := isDigit_iff.mp hd
  change 48 ≤ c.toNat at hlow
  rw [UInt8.lt_iff_toNat_lt]
  show c.toNat - 48 < d.toNat - 48 ↔ _
  omega

theorem digitOf_eq_zero (h : isDigit c = true) : digitOf c = 0 ↔ c = 0x30 := by
  obtain ⟨hlow, -⟩ := isDigit_iff.mp h
  change 48 ≤ c.toNat at hlow
  rw [← UInt8.toNat_inj]
  show c.toNat - 48 = 0 ↔ c.toNat = 48
  omega

theorem digits_of_all {text : Bytes} (h : text.all isDigit = true) : Digits 10 (digitsOf text) := by
  intro d hd
  obtain ⟨c, hc, rfl⟩ := mem_map.mp hd
  exact digitOf_lt (all_eq_true.mp h c hc)

theorem compare_digitsOf (l r : Bytes) (hl : l.all isDigit = true) (hr : r.all isDigit = true) :
    compare (digitsOf l) (digitsOf r) = compare l r := by
  induction l generalizing r with
  | nil =>
    cases r with
    | nil | cons => rfl
  | cons c l ih =>
    cases r with
    | nil => rfl
    | cons d r =>
      rw [all_cons, Bool.and_eq_true] at hl hr
      have hrest := ih r hl.2 hr.2
      have hlt := digitOf_lt_iff hl.1 hr.1
      have hgt := digitOf_lt_iff hr.1 hl.1
      show compare (digitOf c :: digitsOf l) (digitOf d :: digitsOf r) = _
      rw [List.compare_cons_cons, List.compare_cons_cons, hrest]
      congr 1
      rcases Nat.lt_trichotomy c.toNat d.toNat with h | h | h
      · have hcd : c < d := UInt8.lt_iff_toNat_lt.mpr h
        rw [Std.compare_eq_lt.mpr hcd, Nat.compare_eq_lt.mpr (hlt.mpr hcd)]
      · rw [UInt8.toNat_inj.mp h, Nat.compare_eq_eq.mpr rfl]
        exact (Std.compare_eq_iff_eq.mpr rfl).symm
      · have hdc : d < c := UInt8.lt_iff_toNat_lt.mpr h
        rw [Std.compare_eq_gt.mpr hdc, Nat.compare_eq_gt.mpr (hgt.mpr hdc)]

theorem all_of_allDigits {text : Bytes} (h : allDigits text = true) : text.all isDigit = true := by
  unfold allDigits at h
  rw [Bool.and_eq_true] at h
  exact h.2

variable (t : DecimalToken)

theorem DecimalToken.digits_all : t.digits.all isDigit = true := by
  unfold DecimalToken.digits
  rw [all_append, Bool.and_eq_true]
  refine ⟨all_of_allDigits t.int_ok, ?_⟩
  cases hfrac : t.frac with
  | none => rfl
  | some f => exact all_of_allDigits (t.frac_ok f hfrac)

/-! ## 3. Reading a number -/

def outOfRange (errorPrefix : String) : String := errorPrefix ++ ": number exponent out of range"

def InInt64 (v : Int) : Prop := int64Min ≤ v ∧ v ≤ int64Max

instance (v : Int) : Decidable (InInt64 v) := inferInstanceAs (Decidable (_ ∧ _))

theorem le_foldl_digits (ds : List ℕ) (value : ℕ) : value ≤ ds.foldl (fun n d ↦ n * 10 + d) value := by
  induction ds generalizing value with
  | nil => exact Nat.le_refl value
  | cons d ds ih => exact Nat.le_trans (by omega) (ih (value * 10 + d))

theorem addDigits (errorPrefix : String) (text : Bytes) (h : text.all isDigit = true) (value : ℕ)
    (hvalue : (value : Int) ≤ int64Max) :
    text.foldlM (addDigit errorPrefix) (value : Int) =
      if int64Max < ((digitsOf text).foldl (fun n d => n * 10 + d) value : ℕ) then
        .error (outOfRange errorPrefix)
      else .ok ((digitsOf text).foldl (fun n d => n * 10 + d) value : ℕ) := by
  induction text generalizing value with
  | nil => exact (if_neg (Int.not_lt.mpr hvalue)).symm
  | cons c text ih =>
    rw [all_cons, Bool.and_eq_true] at h
    obtain ⟨hlow, -⟩ := isDigit_iff.mp h.1
    change 48 ≤ c.toNat at hlow
    have hdigit : ((value * 10 + digitOf c : ℕ) : Int) = value * 10 + ((c.toNat : Int) - 0x30) := by
      show ((value * 10 + (c.toNat - 48) : ℕ) : Int) = value * 10 + (c.toNat - 48)
      omega
    have hfold : (digitsOf (c :: text)).foldl (fun n d => n * 10 + d) value =
        (digitsOf text).foldl (fun n d => n * 10 + d) (value * 10 + digitOf c) := rfl
    rw [foldlM_cons, hfold]
    by_cases hlarge : (value : Int) > (int64Max - ((c.toNat : Int) - 0x30)) / 10
    · have herror : addDigit errorPrefix value c = .error (outOfRange errorPrefix) := if_pos hlarge
      have hle := le_foldl_digits (digitsOf text) (value * 10 + digitOf c)
      rw [herror, if_pos (by omega)]
      rfl
    · have hadd : addDigit errorPrefix value c = .ok ((value * 10 + digitOf c : ℕ) : Int) := by
        rw [addDigit_eq_ok]
        exact ⟨hlarge, hdigit⟩
      rw [hadd]
      exact ih h.2 (value * 10 + digitOf c) (by omega)

theorem parseExponent_token (e : ExponentToken) (errorPrefix : String) :
    parseExponent (e.sign.toList ++ e.digits) errorPrefix =
      if int64Max < (digitsValue 10 (digitsOf e.digits) : ℕ) then .error (outOfRange errorPrefix)
      else .ok e.value := by
  have hfold := addDigits errorPrefix e.digits (all_of_allDigits e.digits_ok) 0 (by decide)
  have hsplit : splitSign (e.sign.toList ++ e.digits)
      = (if e.sign = some minusSign then -1 else 1, e.digits) := by
    cases hsign : e.sign with
    | none =>
      exact splitSign_digits e.digits_ok
    | some s =>
      rcases e.sign_ok s hsign with rfl | rfl
      · rw [if_neg (by decide)]
        rfl
      · rw [if_pos rfl]
        rfl
  unfold parseExponent
  rw [hsplit]
  simp only [e.digits_ok, Bool.not_true, Bool.false_eq_true, if_false]
  change e.digits.foldlM (addDigit errorPrefix) 0 = if int64Max < (digitsValue 10 (digitsOf e.digits) : ℕ)
    then _ else .ok ((digitsValue 10 (digitsOf e.digits) : ℕ) : Int) at hfold
  rw [hfold]
  by_cases hlarge : int64Max < (digitsValue 10 (digitsOf e.digits) : ℕ)
  · rw [if_pos hlarge, if_pos hlarge]
    rfl
  · rw [if_neg hlarge, if_neg hlarge]
    show Except.ok _ = _
    unfold ExponentToken.value
    by_cases hminus : e.sign = some minusSign
    · rw [if_pos hminus, if_pos hminus, neg_one_mul]
    · rw [if_neg hminus, if_neg hminus, one_mul]

theorem splitAtFirst_cons {p : UInt8 → Bool} {front back : Bytes}
    (hfront : ∀ d ∈ front, p d = false) (hc : p c = true) :
    splitAtFirst p (front ++ c :: back) = (front, some back) := by
  have hp : ∀ d ∈ front, (!p d) = true := fun d hd => by rw [hfront d hd]; rfl
  have hstop : ¬ (fun d => !p d) c = true := by simp [hc]
  unfold splitAtFirst
  rw [dropWhile_append_of_pos hp, takeWhile_append_of_pos hp,
    dropWhile_cons_of_neg (p := fun d => !p d) hstop,
    takeWhile_cons_of_neg (p := fun d => !p d) hstop, append_nil]

theorem splitSign_decimal :
    splitSign t.text = (if t.sign = some minusSign then -1 else 1, t.unsigned) := by
  unfold DecimalToken.text
  cases hsign : t.sign with
  | some s =>
    rcases t.sign_ok s hsign with rfl | rfl
    · rw [if_neg (by decide)]
      rfl
    · rw [if_pos rfl]
      rfl
  | none =>
    obtain ⟨c, int, hint⟩ : ∃ c int, t.int = c :: int := by
      cases hint : t.int with
      | nil =>
        have hok := t.int_ok
        rw [hint] at hok
        cases hok
      | cons c int => exact ⟨c, int, rfl⟩
    have hdigit := digit_of_allDigits t.int_ok
    rw [hint] at hdigit
    have hlow := (hdigit c mem_cons_self).1
    unfold DecimalToken.unsigned
    rw [hint]
    unfold splitSign
    split
    · exact absurd (List.cons.inj ‹_›).1 (fun heq ↦ by rw [heq] at hlow; exact absurd hlow (by decide))
    · exact absurd (List.cons.inj ‹_›).1 (fun heq ↦ by rw [heq] at hlow; exact absurd hlow (by decide))
    · rfl

theorem isDigit_not_letter (h : isDigit c = true) :
    (c == 0x65 || c == 0x45) = false ∧ (c == 0x2e) = false := by
  obtain ⟨hlow, hhigh⟩ := isDigit_iff.mp h
  rw [Bool.or_eq_false_iff, beq_eq_false_iff_ne, beq_eq_false_iff_ne, beq_eq_false_iff_ne]
  refine ⟨⟨?_, ?_⟩, ?_⟩
  · intro heq
    rw [heq] at hhigh
    exact absurd hhigh (by decide)
  · intro heq
    rw [heq] at hhigh
    exact absurd hhigh (by decide)
  · intro heq
    rw [heq] at hlow
    exact absurd hlow (by decide)

theorem splitAtFirst_decimal : splitAtFirst (fun c => c == 0x65 || c == 0x45) t.unsigned
      = (t.int ++ t.fracText, t.exponent.map fun e => e.sign.toList ++ e.digits) := by
  have hmantissa : ∀ c ∈ t.int ++ t.fracText, (c == 0x65 || c == 0x45) = false := by
    intro c hc
    rcases mem_append.mp hc with hint | hfrac
    · exact (isDigit_not_letter (all_eq_true.mp (all_of_allDigits t.int_ok) c hint)).1
    · unfold DecimalToken.fracText at hfrac
      cases hf : t.frac with
      | none =>
        rw [hf] at hfrac
        cases hfrac
      | some f =>
        rw [hf] at hfrac
        rcases mem_cons.mp hfrac with rfl | hmem
        · decide
        · exact (isDigit_not_letter (all_eq_true.mp (all_of_allDigits (t.frac_ok f hf)) c hmem)).1
  unfold DecimalToken.unsigned DecimalToken.exponentText
  cases t.exponent with
  | none =>
    rw [append_nil]
    exact splitAtFirst_none hmantissa
  | some e =>
    apply splitAtFirst_cons hmantissa
    rcases e.letter_e with h | h
    · rw [h]
      rfl
    · rw [h]
      rfl

theorem splitAtFirst_mantissa :
    splitAtFirst (· == 0x2e) (t.int ++ t.fracText) = (t.int, t.frac) := by
  have hint : ∀ c ∈ t.int, (c == 0x2e) = false := fun c hc =>
    (isDigit_not_letter (all_eq_true.mp (all_of_allDigits t.int_ok) c hc)).2
  unfold DecimalToken.fracText
  cases t.frac with
  | none =>
    rw [append_nil]
    exact splitAtFirst_none hint
  | some f => exact splitAtFirst_cons hint rfl

/-! ## 4. The value of the parts -/

/-- Zero has no parts; the digits of another number begin and end with other digits than zero. -/
structure DecimalParts.Canonical (parts : DecimalParts) : Prop where
  sign : parts.sign = -1 ∨ parts.sign = 0 ∨ parts.sign = 1
  digits : parts.digits.all isDigit = true
  zero : parts.sign = 0 → parts.digits = []
  first : parts.sign ≠ 0 → ∃ d ds, digitsOf parts.digits = d :: ds ∧ d ≠ 0
  last : NoTrailingZero (digitsOf parts.digits)

def DecimalParts.value (parts : DecimalParts) : ℚ :=
  parts.sign * (fraction 10 (digitsOf parts.digits) * (10 : ℚ) ^ parts.exponent)

theorem map_dropWhile_isZero {text : Bytes} (h : text.all isDigit = true) :
    digitsOf (text.dropWhile isZero) = (digitsOf text).dropWhile (· == 0) := by
  induction text with
  | nil => rfl
  | cons c text ih =>
    rw [all_cons, Bool.and_eq_true] at h
    have hzero := digitOf_eq_zero h.1
    by_cases hc : c = 0x30
    · rw [dropWhile_cons_of_pos (show isZero c = true by rw [hc]; rfl)]
      show digitsOf (text.dropWhile isZero) = (digitOf c :: digitsOf text).dropWhile (· == 0)
      rw [dropWhile_cons_of_pos (p := (· == 0)) (beq_iff_eq.mpr (hzero.mpr hc)), ih h.2]
    · rw [dropWhile_cons_of_neg (by unfold isZero; simpa using hc)]
      show _ = (digitOf c :: digitsOf text).dropWhile (· == 0)
      rw [dropWhile_cons_of_neg (by simpa using fun heq => hc (hzero.mp heq))]
      rfl

theorem rdropWhile_isZero (text : Bytes) :
    ∃ zeros, text = text.rdropWhile isZero ++ zeros ∧ ∀ c ∈ zeros, c = 0x30 := by
  induction text using reverseRecOn with
  | nil => exact ⟨[], rfl, forall_mem_nil _⟩
  | append_singleton text c ih =>
    by_cases hc : c = 0x30
    · obtain ⟨zeros, hcut, hzeros⟩ := ih
      refine ⟨zeros ++ [c], ?_, ?_⟩
      · rw [rdropWhile_concat_pos _ _ _ (show isZero c = true by rw [hc]; rfl),
          ← append_assoc, ← hcut]
      · intro x hx
        rcases mem_append.mp hx with hmem | hmem
        · exact hzeros x hmem
        · rw [mem_singleton.mp hmem, hc]
    · refine ⟨[], ?_, forall_mem_nil _⟩
      rw [rdropWhile_concat_neg _ _ _ (by unfold isZero; simpa using hc), append_nil]

theorem last_rdropWhile_isZero {text : Bytes} (h : text.all isDigit = true) :
    NoTrailingZero (digitsOf (text.rdropWhile isZero)) := by
  unfold NoTrailingZero digitsOf
  rw [getLast?_map]
  intro heq
  obtain ⟨c, hc, hzero⟩ := Option.map_eq_some_iff.mp heq
  have hne : text.rdropWhile isZero ≠ [] := by
    intro hnil
    rw [hnil] at hc
    cases hc
  rw [getLast?_eq_some_getLast hne, Option.some.injEq] at hc
  have hnot := rdropWhile_last_not isZero text hne
  have hmem : c ∈ text := by
    apply ( rdropWhile_prefix isZero text).subset
    rw [← hc]
    exact getLast_mem hne
  have hc0 := (digitOf_eq_zero (all_eq_true.mp h c hmem)).mp hzero
  rw [hc, hc0] at hnot
  exact hnot rfl

theorem checkedAddInt64_exact {lhs : Int} (h : InInt64 lhs) (rhs : Int) (errorPrefix : String) :
    checkedAddInt64 lhs rhs errorPrefix =
      if InInt64 (lhs + rhs) then .ok (lhs + rhs) else .error (outOfRange errorPrefix) := by
  have hcheck : (rhs > 0 ∧ lhs > int64Max - rhs) ∨ (rhs < 0 ∧ lhs < int64Min - rhs) ↔
      ¬ InInt64 (lhs + rhs) := by
    unfold InInt64 at *
    omega
  unfold checkedAddInt64
  by_cases hsum : InInt64 (lhs + rhs)
  · rw [if_neg (fun hout => hcheck.mp hout hsum), if_pos hsum]
  · rw [if_pos (hcheck.mpr hsum), if_neg hsum]
    rfl

theorem int64OfSize_eq {size : Nat} (h : size < 2 ^ 63) : int64OfSize size = size := by
  apply Int.bmod_eq_of_le
  · omega
  · omega

theorem significant_parts {text : Bytes} (h : text.all isDigit = true)
    (hne : text.dropWhile isZero ≠ []) {sign : Int} (hsign : sign = -1 ∨ sign = 1)
    {exponent : Int} {fracLength : ℕ} {parts : DecimalParts}
    (hparts : parts = {
      sign := sign
      digits := (text.dropWhile isZero).rdropWhile isZero
      exponent := (text.dropWhile isZero).length + exponent + -(fracLength : Int) }) :
    parts.Canonical ∧ parts.value
        = sign * (digitsValue 10 (digitsOf text) * (10 : ℚ) ^ (exponent - fracLength)) := by
  have hdrop := map_dropWhile_isZero h
  have hall : (text.dropWhile isZero).all isDigit = true :=
    all_eq_true.mpr fun c hc =>
      all_eq_true.mp h c ((dropWhile_sublist isZero).subset hc)
  have hall' : ((text.dropWhile isZero).rdropWhile isZero).all isDigit = true :=
    all_eq_true.mpr fun c hc =>
      all_eq_true.mp hall c (( rdropWhile_prefix isZero _).subset hc)
  obtain ⟨zeros, hcut, hzeros⟩ := rdropWhile_isZero (text.dropWhile isZero)
  subst hparts
  constructor
  · exact {
      sign := by
        show sign = -1 ∨ sign = 0 ∨ sign = 1
        omega
      digits := hall'
      zero := by
        intro hzero
        change sign = 0 at hzero
        omega
      first := by
        intro _
        cases hfirst : text.dropWhile isZero with
        | nil => exact absurd hfirst hne
        | cons c rest =>
          have hc : isZero c = false := by
            have hhead := head_dropWhile_not isZero hne
            simp only [hfirst, head_cons] at hhead
            exact hhead
          rw [hfirst] at hcut hall
          rw [all_cons, Bool.and_eq_true] at hall
          have hdigit : digitOf c ≠ 0 := by
            rw [Ne, digitOf_eq_zero hall.1]
            intro heq
            rw [heq] at hc
            cases hc
          cases hstart : (c :: rest).rdropWhile isZero with
          | nil =>
            rw [hstart, nil_append] at hcut
            have heq := hzeros c (by rw [← hcut]; exact mem_cons_self)
            rw [heq] at hc
            cases hc
          | cons d ds =>
            rw [hstart, cons_append] at hcut
            rw [(cons_eq_cons.mp hcut).1] at hdigit
            exact ⟨digitOf d, digitsOf ds, rfl, hdigit⟩
      last := last_rdropWhile_isZero hall }
  · -- the zeros that were left out do not count
    have hfraction : fraction 10 (digitsOf ((text.dropWhile isZero).rdropWhile isZero))
        = fraction 10 (digitsOf (text.dropWhile isZero)) := by
      conv_rhs => rw [hcut]
      unfold digitsOf
      rw [map_append]
      apply Eq.symm
      apply fraction_append_zeros
      intro d hd
      obtain ⟨c, hc, rfl⟩ := mem_map.mp hd
      rw [hzeros c hc]
      rfl
    have hpow := fraction_mul_pow (show 0 < 10 by decide) (digitsOf (text.dropWhile isZero))
    have hlen : (digitsOf (text.dropWhile isZero)).length = (text.dropWhile isZero).length :=
      length_map _
    rw [hlen, hdrop, digitsValue_dropWhile, ← hdrop] at hpow
    show (sign : ℚ) * (fraction 10 (digitsOf ((text.dropWhile isZero).rdropWhile isZero))
      * (10 : ℚ) ^ (((text.dropWhile isZero).length : Int) + exponent + -(fracLength : Int))) = _
    rw [hfraction, ← hpow, show ((text.dropWhile isZero).length : Int) + exponent + -(fracLength : Int)
      = (text.dropWhile isZero).length + (exponent - fracLength) by omega,
      zpow_add₀ (by norm_num), zpow_natCast]
    ring

theorem DecimalToken.lengths :
    t.digits.length ≤ t.text.length ∧ (t.frac.getD []).length ≤ t.text.length := by
  have hfrac : (t.frac.getD []).length ≤ t.fracText.length := by
    unfold DecimalToken.fracText
    cases t.frac with
    | none => exact Nat.le_refl 0
    | some f => exact Nat.le_succ f.length
  have hunsigned : t.unsigned.length ≤ t.text.length := by
    unfold DecimalToken.text
    rw [length_append]
    exact Nat.le_add_left _ _
  unfold DecimalToken.unsigned at hunsigned
  unfold DecimalToken.digits
  simp only [length_append] at hunsigned ⊢
  omega

def DecimalToken.significant (t : DecimalToken) : Bytes := t.digits.dropWhile isZero

/-- The exponent is counted from the first of these digits, and then moved by the fraction. -/
def DecimalToken.SumsInRange (t : DecimalToken) : Prop :=
  t.significant = [] ∨ InInt64 (t.significant.length + t.exponentValue) ∧
    InInt64 (t.significant.length + t.exponentValue + -((t.frac.getD []).length : Int))

instance (t : DecimalToken) : Decidable t.SumsInRange := inferInstanceAs (Decidable (_ ∨ _ ∧ _))

def DecimalToken.parts (t : DecimalToken) : DecimalParts :=
  if t.significant = [] then {}
  else {
    sign := if t.sign = some minusSign then -1 else 1
    digits := t.significant.rdropWhile isZero
    exponent := t.significant.length + t.exponentValue + -((t.frac.getD []).length : Int) }

theorem exponentOf_decimal (errorPrefix : String) :
    exponentOf (t.exponent.map fun e => e.sign.toList ++ e.digits) errorPrefix =
      if int64Max < t.exponentSize then .error (outOfRange errorPrefix) else .ok t.exponentValue := by
  unfold DecimalToken.exponentSize DecimalToken.exponentValue
  cases t.exponent with
  | none => rfl
  | some e => exact parseExponent_token e errorPrefix

theorem normalize_decimal (hsize : t.text.length < 2 ^ 63) (errorPrefix : String) :
    normalizeDecimalText t.text errorPrefix =
      if int64Max < t.exponentSize ∨ ¬ t.SumsInRange then .error (outOfRange errorPrefix)
      else .ok t.parts := by
  rw [normalizeDecimalText_eq, splitSign_decimal, splitAtFirst_decimal, exponentOf_decimal]
  by_cases hlarge : int64Max < t.exponentSize
  · have hout : int64Max < t.exponentSize ∨ ¬ t.SumsInRange := .inl hlarge
    rw [if_pos hlarge, if_pos hout]
    rfl
  rw [if_neg hlarge]
  have hvalid : validMantissa t.int t.frac = true := by
    unfold validMantissa
    rw [t.int_ok, Bool.true_and]
    cases hfrac : t.frac with
    | none => rfl
    | some f => exact t.frac_ok f hfrac
  have hdigits : t.int ++ t.frac.getD [] = t.digits := rfl
  unfold normalizeMantissa
  simp only [splitAtFirst_mantissa, hvalid, Bool.not_true, Bool.false_eq_true, if_false, hdigits]
  change (if t.significant.isEmpty = true then _ else _) = _
  by_cases hempty : t.significant = []
  · -- zero
    have hnot : ¬ (int64Max < t.exponentSize ∨ ¬ t.SumsInRange) := fun h =>
      h.elim hlarge fun hsums => hsums (.inl hempty)
    rw [if_pos (by rw [hempty]; rfl), if_neg hnot]
    unfold DecimalToken.parts
    rw [if_pos hempty]
    rfl
  · rw [if_neg (by rw [List.isEmpty_iff]; exact hempty)]
    obtain ⟨hlen, hfraclen⟩ := t.lengths
    have hsub := (dropWhile_sublist (l := t.digits) isZero).length_le
    change t.significant.length ≤ t.digits.length at hsub
    have hcount : InInt64 (t.significant.length : Int) := by
      unfold InInt64 int64Min int64Max
      omega
    change (checkedAddInt64 (int64OfSize t.significant.length) t.exponentValue errorPrefix >>= fun _ ↦ _) = _
    rw [int64OfSize_eq (by omega), int64OfSize_eq (by omega), checkedAddInt64_exact hcount]
    by_cases hsum : InInt64 (t.significant.length + t.exponentValue)
    · rw [if_pos hsum]
      change (checkedAddInt64 _ _ errorPrefix >>= fun _ => _) = _
      rw [checkedAddInt64_exact hsum]
      by_cases hsum' : InInt64 (t.significant.length + t.exponentValue + -((t.frac.getD []).length : Int))
      · have hnot : ¬ (int64Max < t.exponentSize ∨ ¬ t.SumsInRange) := fun h =>
          h.elim hlarge fun hsums => hsums (.inr ⟨hsum, hsum'⟩)
        rw [if_pos hsum', if_neg hnot]
        unfold DecimalToken.parts
        rw [if_neg hempty]
        rfl
      · have hout : int64Max < t.exponentSize ∨ ¬ t.SumsInRange :=
          .inr fun h => h.elim hempty fun h => hsum' h.2
        rw [if_neg hsum', if_pos hout]
        rfl
    · have hout : int64Max < t.exponentSize ∨ ¬ t.SumsInRange :=
        .inr fun h => h.elim hempty fun h => hsum h.1
      rw [if_neg hsum, if_pos hout]
      rfl

theorem DecimalToken.parts_value : t.parts.Canonical ∧ t.parts.value = t.value := by
  have hall := t.digits_all
  unfold DecimalToken.parts
  by_cases hempty : t.significant = []
  · rw [if_pos hempty]
    constructor
    · exact {
        sign := .inr (.inl rfl)
        digits := rfl
        zero := fun _ => rfl
        first := fun h => absurd rfl h
        last := fun h => by cases h }
    · have hvalue := digitsValue_dropWhile (b := 10) (digitsOf t.digits)
      change t.digits.dropWhile isZero = [] at hempty
      rw [← map_dropWhile_isZero hall, hempty] at hvalue
      have hzero : digitsValue 10 (digitsOf t.digits) = 0 := hvalue.symm
      unfold DecimalParts.value DecimalToken.value DecimalToken.magnitude
      rw [hzero]
      simp
  · rw [if_neg hempty]
    have hsign : (if t.sign = some minusSign then (-1 : Int) else 1) = -1 ∨
        (if t.sign = some minusSign then (-1 : Int) else 1) = 1 := by
      by_cases hminus : t.sign = some minusSign
      · exact .inl (if_pos hminus)
      · exact .inr (if_neg hminus)
    obtain ⟨hcanonical, hvalue⟩ := @significant_parts t.digits hall hempty _ hsign t.exponentValue
      (t.frac.getD []).length _ rfl
    refine ⟨hcanonical, hvalue.trans ?_⟩
    unfold DecimalToken.value DecimalToken.magnitude
    by_cases hminus : t.sign = some minusSign
    · rw [if_pos hminus, if_pos hminus]
      simp
    · rw [if_neg hminus, if_neg hminus]
      simp

theorem normalize_number (t : NumberToken) (hsize : t.text.length < 2 ^ 63) (errorPrefix : String) :
    normalizeDecimalText t.text errorPrefix = .error (outOfRange errorPrefix)
      ∨ ∃ parts, normalizeDecimalText t.text errorPrefix = .ok parts
        ∧ parts.Canonical ∧ parts.value = t.value := by
  rw [← t.decimal_text] at hsize ⊢
  rw [normalize_decimal t.decimal hsize, ← t.decimal_value]
  by_cases hout : int64Max < t.decimal.exponentSize ∨ ¬ t.decimal.SumsInRange
  · exact .inl (if_pos hout)
  · exact .inr ⟨t.decimal.parts, if_neg hout, t.decimal.parts_value⟩

/-! ## 5. The order of the values -/

/-- The number without its sign. -/
def DecimalParts.magnitude (parts : DecimalParts) : ℚ :=
  fraction 10 (digitsOf parts.digits) * (10 : ℚ) ^ parts.exponent

theorem DecimalParts.Canonical.magnitude_pos (hp : p.Canonical) (h : p.sign ≠ 0) :
    0 < p.magnitude := by
  obtain ⟨d, ds, hdigits, hd⟩ := hp.first h
  apply mul_pos
  · apply fraction_pos (by decide)
    rw [hdigits]
    exact ⟨d, mem_cons_self, hd⟩
  · exact zpow_pos (by norm_num) _

theorem compare_magnitude (hp : p.Canonical) (hq : q.Canonical) (hp' : p.sign ≠ 0)
    (hq' : q.sign ≠ 0) :
    (compare p.exponent q.exponent).then (compare p.digits q.digits)
      = compare p.magnitude q.magnitude := by
  obtain ⟨d, ds, hdigits, hd⟩ := hp.first hp'
  obtain ⟨e, es, hdigits', he⟩ := hq.first hq'
  have hds : Digits 10 (d :: ds) := hdigits ▸ digits_of_all hp.digits
  have hes : Digits 10 (e :: es) := hdigits' ▸ digits_of_all hq.digits
  unfold DecimalParts.magnitude
  rcases lt_trichotomy p.exponent q.exponent with hlt | heq | hgt
  · have hless := @scaled_lt 10 d e ds es p.exponent q.exponent hds he hlt
    rw [compare_lt_iff_lt.mpr hlt, hdigits, hdigits', compare_lt_iff_lt.mpr (by exact_mod_cast hless)]
    rfl
  · have hpow : (0 : ℚ) < (10 : ℚ) ^ q.exponent := zpow_pos (by norm_num) _
    have hfraction := compare_fraction (show 0 < 10 by decide) _ _ (digits_of_all hp.digits)
      (digits_of_all hq.digits) hp.last hq.last
    rw [compare_digitsOf _ _ hp.digits hq.digits] at hfraction
    rw [heq, compare_eq_iff_eq.mpr rfl, Ordering.eq_then, hfraction]
    rcases lt_trichotomy (fraction 10 (digitsOf p.digits)) (fraction 10 (digitsOf q.digits)) with
      hlt | heq | hgt
    · rw [compare_lt_iff_lt.mpr hlt, compare_lt_iff_lt.mpr (mul_lt_mul_of_pos_right hlt hpow)]
    · rw [heq, compare_eq_iff_eq.mpr rfl, compare_eq_iff_eq.mpr rfl]
    · rw [compare_gt_iff_gt.mpr hgt, compare_gt_iff_gt.mpr (mul_lt_mul_of_pos_right hgt hpow)]
  · have hless := @scaled_lt 10 e d es ds q.exponent p.exponent hes hd hgt
    rw [compare_gt_iff_gt.mpr hgt, hdigits, hdigits', compare_gt_iff_gt.mpr (by exact_mod_cast hless)]
    rfl

theorem compareDecimalParts_value (hp : p.Canonical) (hq : q.Canonical) :
    compareDecimalParts p q = compare p.value q.value := by
  have hvalue : ∀ r : DecimalParts, r.value = r.sign * r.magnitude := fun _ => rfl
  rw [hvalue p, hvalue q]
  by_cases hsign : p.sign = q.sign
  · by_cases hzero : p.sign = 0
    · have hzero' : q.sign = 0 := hsign ▸ hzero
      unfold compareDecimalParts
      rw [if_neg (not_not_intro hsign), if_pos hzero, hzero, hzero']
      simp
    · rw [compareDecimalParts_same_sign hsign hzero,
        compare_magnitude hp hq hzero (hsign ▸ hzero), ← hsign]
      rcases hp.sign with hs | hs | hs
      · rw [hs, if_pos (by decide)]
        rcases lt_trichotomy p.magnitude q.magnitude with hlt | heq | hgt
        · rw [compare_lt_iff_lt.mpr hlt, compare_gt_iff_gt.mpr (by simpa using hlt)]
          rfl
        · rw [heq, compare_eq_iff_eq.mpr rfl, compare_eq_iff_eq.mpr rfl]
          rfl
        · rw [compare_gt_iff_gt.mpr hgt, compare_lt_iff_lt.mpr (by simpa using hgt)]
          rfl
      · exact absurd hs hzero
      · rw [hs, if_neg (by decide), Int.cast_one, one_mul, one_mul]
  · -- the sign decides
    have hpos : ∀ {r : DecimalParts}, r.Canonical → r.sign ≠ 0 → 0 < r.magnitude :=
      fun hr h => hr.magnitude_pos h
    have hless : ∀ {r s : DecimalParts}, r.Canonical → s.Canonical → r.sign < s.sign →
        (r.sign : ℚ) * r.magnitude < s.sign * s.magnitude := by
      intro r s hr hs hlt
      rcases hr.sign with h | h | h
      · have hr' := hpos hr (by omega)
        rcases hs.sign with h' | h' | h'
        · omega
        · rw [h, h']
          simpa using hr'
        · have hs' := hpos hs (by omega)
          rw [h, h']
          push_cast
          linarith
      · rcases hs.sign with h' | h' | h'
        · omega
        · omega
        · have hs' := hpos hs (by omega)
          rw [h, h']
          simpa using hs'
      · rcases hs.sign with h' | h' | h'
        all_goals omega
    unfold compareDecimalParts
    rw [if_pos hsign]
    by_cases hlt : p.sign < q.sign
    · rw [if_pos hlt, compare_lt_iff_lt.mpr (hless hp hq hlt)]
    · rw [if_neg hlt, compare_gt_iff_gt.mpr (hless hq hp (by omega))]

end Ladybug.Gql
