import Ladybug.Gql.NumberTexts
import Ladybug.Gql.OrderBridge

/-!
# The order of JSON numbers

Classification asks the parser first.  A number that the parser reads is compared by its text, as a
rational number; a number that the parser refuses, as its double is infinite, is taken for a string.
-/

namespace Ladybug.Gql

open List

/-- The text is the number, between JSON white space; a `std::string` has fewer than `2^63` bytes. -/
structure IsNumberText (raw : Bytes) (t : NumberToken) : Prop where
  spaces : ∃ front back : Bytes, raw = front ++ (t.text ++ back)
    ∧ front.all isJsonSpace = true ∧ back.all isJsonSpace = true
  fits : raw.length < 2 ^ 63

/-- From here on the nearest double is infinite. -/
def doubleLimit : ℚ := 2 ^ 1024 - 2 ^ 970

structure ReadsNumber (core : Core) (raw : Bytes) (value : ℚ) : Prop where
  infinite : doubleLimit ≤ |value| → core.stringToJsonNoError raw = none
  finite : |value| < doubleLimit → ∃ n, core.stringToJsonNoError raw = some (.num n)

theorem not_space_of_digit {c : UInt8} (h : isDigit c = true) : isJsonSpace c = false := by
  obtain ⟨hlow, -⟩ := isDigit_iff.mp h
  unfold isJsonSpace
  simp only [Bool.or_eq_false_iff, beq_eq_false_iff_ne]
  refine ⟨⟨⟨?_, ?_⟩, ?_⟩, ?_⟩
  all_goals
    intro heq
    rw [heq] at hlow
    exact absurd hlow (by decide)

theorem not_space_of_digits {text : Bytes} (h : allDigits text = true) :
    ∀ c ∈ text, isJsonSpace c = false :=
  fun c hc => not_space_of_digit (all_eq_true.mp (all_of_allDigits h) c hc)

theorem NumberToken.not_space (t : NumberToken) : ∀ c ∈ t.text, isJsonSpace c = false := by
  have hfrac : ∀ c ∈ t.fracText, isJsonSpace c = false := by
    unfold NumberToken.fracText
    cases hf : t.frac with
    | none => exact forall_mem_nil _
    | some f =>
      rw [forall_mem_cons]
      exact ⟨by decide, not_space_of_digits (t.frac_ok f hf)⟩
  have hexponent : ∀ c ∈ t.exponentText, isJsonSpace c = false := by
    unfold NumberToken.exponentText
    cases t.exponent with
    | none => exact forall_mem_nil _
    | some e =>
      unfold ExponentToken.text
      rw [forall_mem_cons, forall_mem_append]
      refine ⟨?_, ?_, not_space_of_digits e.digits_ok⟩
      · rcases e.letter_e with h | h
        all_goals
          rw [h]
          decide
      · intro c hc
        rcases e.sign_ok c (Option.mem_toList.mp hc) with rfl | rfl
        · decide
        · decide
  have hunsigned : ∀ c ∈ t.unsigned, isJsonSpace c = false := by
    unfold NumberToken.unsigned
    rw [forall_mem_append, forall_mem_append]
    exact ⟨⟨not_space_of_digits t.int_ok, hfrac⟩, hexponent⟩
  unfold NumberToken.text
  cases t.minus with
  | true => exact forall_mem_cons.mpr ⟨by decide, hunsigned⟩
  | false => exact hunsigned

theorem NumberToken.text_ne_nil (t : NumberToken) : t.text ≠ [] := by
  have hint : t.int ≠ [] := by
    intro h
    have hok := t.int_ok
    rw [h] at hok
    cases hok
  unfold NumberToken.text
  cases t.minus with
  | true => exact cons_ne_nil _ _
  | false =>
    unfold NumberToken.unsigned
    rw [append_assoc]
    exact append_ne_nil_of_left_ne_nil hint _

theorem dropWhile_spaces {front text : Bytes} (hfront : front.all isJsonSpace = true)
    (hsome : text ≠ []) (htext : ∀ c ∈ text, isJsonSpace c = false) (back : Bytes) :
    (front ++ (text ++ back)).dropWhile isJsonSpace = text ++ back := by
  rw [dropWhile_append_of_pos (all_eq_true.mp hfront)]
  cases text with
  | nil => exact absurd rfl hsome
  | cons c text =>
    rw [cons_append, dropWhile_cons_of_neg]
    rw [htext c mem_cons_self]
    decide

theorem trimJsonSpace_number {front back : Bytes} {t : NumberToken}
    (hfront : front.all isJsonSpace = true) (hback : back.all isJsonSpace = true) :
    trimJsonSpace (front ++ (t.text ++ back)) = t.text := by
  unfold trimJsonSpace
  rw [dropWhile_spaces hfront t.text_ne_nil t.not_space]
  unfold rdropWhile
  have hreverse := @dropWhile_spaces back.reverse t.text.reverse (by rwa [all_reverse])
    (by rw [Ne, reverse_eq_nil_iff]; exact t.text_ne_nil)
    (fun c hc => t.not_space c (mem_reverse.mp hc)) []
  rw [append_nil] at hreverse
  rw [reverse_append, hreverse, reverse_reverse]

section

variable {core : Core} {raw raw' : Bytes} {s t : NumberToken}

theorem classifyJsonText_number (h : IsNumberText raw t) {n : JsonNumber core.Double}
    (hread : core.stringToJsonNoError raw = some (.num n)) (errorPrefix : String) :
    (classifyJsonText raw errorPrefix : Except String (GqlOrderedOperand core))
        = .error (outOfRange errorPrefix)
      ∨ ∃ parts, normalizeDecimalText t.text errorPrefix = .ok parts ∧ parts.Canonical
        ∧ parts.value = t.value
        ∧ (classifyJsonText raw errorPrefix : Except String (GqlOrderedOperand core))
          = .ok (.number t.text) := by
  obtain ⟨⟨front, back, hraw, hfront, hback⟩, hfits⟩ := h
  have hsome : raw.isEmpty = false := by
    rw [hraw]
    cases front with
    | nil =>
      cases htext : t.text with
      | nil => exact absurd htext t.text_ne_nil
      | cons c text => rfl
    | cons c front => rfl
  have htrim : trimJsonSpace raw = t.text := by
    rw [hraw]
    exact trimJsonSpace_number hfront hback
  have hsize : t.text.length < 2 ^ 63 := by
    rw [hraw, length_append, length_append] at hfits
    omega
  have hclassify : (classifyJsonText raw errorPrefix : Except String (GqlOrderedOperand core))
      = normalizeDecimalText t.text errorPrefix >>= fun _ => .ok (.number t.text) := by
    unfold classifyJsonText
    rw [hread]
    show (if (!raw.isEmpty) = true then _ else _) = _
    rw [hsome, Bool.not_false, if_pos rfl]
    simp only [htrim]
    rfl
  rw [hclassify]
  rcases normalize_number t hsize errorPrefix with herror | ⟨parts, hparts, hcanonical, hvalue⟩
  · left
    rw [herror]
    rfl
  · right
    rw [hparts]
    exact ⟨parts, rfl, hcanonical, hvalue, rfl⟩

def OrderComparison.relation : OrderComparison → ℚ → ℚ → Bool
  | .LT, x, y => x < y
  | .LE, x, y => x ≤ y
  | .GT, x, y => y < x
  | .GE, x, y => y ≤ x
  | .EQ, x, y => x = y
  | .NE, x, y => x ≠ y

theorem relation_eq (op : OrderComparison) (x y : ℚ) :
    op.value (compare x y) = op.relation x y := by
  rcases lt_trichotomy x y with hlt | heq | hgt
  · rw [compare_lt_iff_lt.mpr hlt]
    cases op
    all_goals simp [OrderComparison.value, OrderComparison.relation, hlt, hlt.le, hlt.ne, hlt.not_gt,
      hlt.not_ge]
  · rw [heq, compare_eq_iff_eq.mpr rfl]
    cases op
    all_goals simp [OrderComparison.value, OrderComparison.relation]
  · rw [compare_gt_iff_gt.mpr hgt]
    cases op
    all_goals simp [OrderComparison.value, OrderComparison.relation, hgt, hgt.le, hgt.ne', hgt.not_gt,
      hgt.not_ge]

/-- Both texts are classified as numbers and compared by their values, or an exponent is refused. -/
structure OrderedByValue (core : Core) (raw raw' : Bytes) (x y : ℚ) : Prop where
  ranks : ∀ text ∈ [raw, raw'], ∀ operand : GqlOrderedOperand core,
    classifyJsonText text orderPredicatePrefix = .ok operand → operand.rank = 4
  refused : ∀ text ∈ [raw, raw'], ∀ msg,
    (classifyJsonText text orderPredicatePrefix : Except String (GqlOrderedOperand core))
        = .error msg →
      msg = outOfRange orderPredicatePrefix
  predicates : ∀ op,
    orderPredicate op (.json raw : GqlValue core) (.json raw') = .ok (op.relation x y)
      ∨ orderPredicate op (.json raw : GqlValue core) (.json raw')
        = .error (outOfRange orderPredicatePrefix)

theorem rank_of_refused (hread : core.stringToJsonNoError raw = none) (errorPrefix : String) :
    ∃ operand : GqlOrderedOperand core,
      classifyJsonText raw errorPrefix = .ok operand ∧ operand.rank ≠ 4 := by
  unfold classifyJsonText
  rw [hread]
  by_cases hbool : raw = bytesOf "True" ∨ raw = bytesOf "False"
  · refine ⟨.bool (raw == bytesOf "True"), ?_, ?_⟩
    · simp only [if_pos hbool]
    · show 1 ≠ 4
      decide
  · refine ⟨.string raw, ?_, ?_⟩
    · simp only [if_neg hbool]
    · show 3 ≠ 4
      decide

theorem ordered_of_read (h : IsNumberText raw s) (h' : IsNumberText raw' t)
    {m n : JsonNumber core.Double} (hread : core.stringToJsonNoError raw = some (.num m))
    (hread' : core.stringToJsonNoError raw' = some (.num n)) :
    OrderedByValue core raw raw' s.value t.value := by
  have hclass := classifyJsonText_number h hread orderPredicatePrefix
  have hclass' := classifyJsonText_number h' hread' orderPredicatePrefix
  have hrank : ∀ {text : Bytes} {u : NumberToken},
      ((classifyJsonText text orderPredicatePrefix : Except String (GqlOrderedOperand core))
          = .error (outOfRange orderPredicatePrefix)
        ∨ ∃ parts, normalizeDecimalText u.text orderPredicatePrefix = .ok parts ∧ parts.Canonical
          ∧ parts.value = u.value
          ∧ (classifyJsonText text orderPredicatePrefix : Except String (GqlOrderedOperand core))
            = .ok (.number u.text)) →
      (∀ operand : GqlOrderedOperand core,
          classifyJsonText text orderPredicatePrefix = .ok operand → operand.rank = 4)
        ∧ ∀ msg, (classifyJsonText text orderPredicatePrefix : Except String (GqlOrderedOperand core))
            = .error msg → msg = outOfRange orderPredicatePrefix := by
    intro text u hor
    rcases hor with herror | ⟨_, _, _, _, hok⟩
    · rw [herror]
      exact ⟨nofun, fun msg hmsg => (Except.error.inj hmsg).symm⟩
    · rw [hok]
      refine ⟨fun operand hoperand => ?_, nofun⟩
      rw [← Except.ok.inj hoperand]
      rfl
  exact {
    ranks := by
      intro text htext
      simp only [mem_cons, not_mem_nil, or_false] at htext
      rcases htext with rfl | rfl
      · exact (hrank hclass).1
      · exact (hrank hclass').1
    refused := by
      intro text htext
      simp only [mem_cons, not_mem_nil, or_false] at htext
      rcases htext with rfl | rfl
      · exact (hrank hclass).2
      · exact (hrank hclass').2
    predicates := by
      intro op
      show (classifyJsonText raw orderPredicatePrefix >>= fun lhs =>
          classifyJsonText raw' orderPredicatePrefix >>= fun rhs =>
            compareOrderedOperands lhs rhs orderPredicatePrefix >>= fun cmp ↦ .ok (op.value cmp)) = _
        ∨ (classifyJsonText raw orderPredicatePrefix >>= fun lhs =>
          classifyJsonText raw' orderPredicatePrefix >>= fun rhs =>
            compareOrderedOperands lhs rhs orderPredicatePrefix >>= fun cmp ↦ .ok (op.value cmp)) = _
      rcases hclass with herror | ⟨p, hp, hcanonical, hvalue, hok⟩
      · right
        rw [herror]
        rfl
      · rcases hclass' with herror | ⟨q, hq, hcanonical', hvalue', hok'⟩
        · right
          rw [hok, herror]
          rfl
        · left
          rw [hok, hok']
          show (compareDecimalTexts s.text t.text orderPredicatePrefix >>= fun cmp => _) = _
          unfold compareDecimalTexts
          rw [hp, hq]
          show Except.ok (op.value (compareDecimalParts p q)) = _
          rw [compareDecimalParts_value hcanonical hcanonical', hvalue, hvalue', relation_eq] }

/-- Two numbers are ordered by value exactly where the doubles of both are finite. -/
theorem numbers_ordered_by_value (core : Core) (raw raw' : Bytes) (s t : NumberToken)
    (h : IsNumberText raw s) (h' : IsNumberText raw' t) (hread : ReadsNumber core raw s.value)
    (hread' : ReadsNumber core raw' t.value) :
    OrderedByValue core raw raw' s.value t.value
      ↔ |s.value| < doubleLimit ∧ |t.value| < doubleLimit := by
  constructor
  · intro hordered
    constructor
    · by_contra hge
      obtain ⟨operand, hok, hrank⟩ :=
        rank_of_refused (hread.infinite (not_lt.mp hge)) orderPredicatePrefix
      exact hrank (hordered.ranks raw mem_cons_self operand hok)
    · by_contra hge
      obtain ⟨operand, hok, hrank⟩ :=
        rank_of_refused (hread'.infinite (not_lt.mp hge)) orderPredicatePrefix
      exact hrank (hordered.ranks raw' (mem_cons_of_mem _ mem_cons_self) operand hok)
  · rintro ⟨hfinite, hfinite'⟩
    obtain ⟨m, hm⟩ := hread.finite hfinite
    obtain ⟨n, hn⟩ := hread'.finite hfinite'
    exact ordered_of_read h h' hm hn

end

/-- `9007199254740992.0` and its successor have one double. -/
def evenToken : NumberToken where
  minus := false
  int := bytesOf "9007199254740992"
  frac := some (bytesOf "0")
  exponent := none
  int_ok := by decide
  int_zero := by decide
  frac_ok := by decide

def oddToken : NumberToken where
  minus := false
  int := bytesOf "9007199254740993"
  frac := some (bytesOf "0")
  exponent := none
  int_ok := by decide
  int_zero := by decide
  frac_ok := by decide

theorem value_of_integer {t : NumberToken} {n : ℕ} (hminus : t.minus = false)
    (hdigits : digitsValue 10 (digitsOf t.digits) = n * 10)
    (hexponent : t.exponentValue - (t.frac.getD []).length = -1) : t.value = n := by
  unfold NumberToken.value NumberToken.magnitude
  rw [hminus, if_neg Bool.false_ne_true, hdigits, hexponent, Nat.cast_mul, zpow_neg_one, mul_assoc,
    Nat.cast_ofNat, mul_inv_cancel₀ (by norm_num), mul_one]

theorem le_doubleLimit : (2 : ℚ) ^ 54 - 1 ≤ doubleLimit := by
  have hone : (1 : ℚ) ≤ 2 ^ 970 := one_le_pow₀ (by norm_num)
  have hpos : (0 : ℚ) ≤ 2 ^ 54 - 1 := by norm_num
  have hlimit : doubleLimit = 2 ^ 970 * (2 ^ 54 - 1) := by
    unfold doubleLimit
    rw [show 1024 = 970 + 54 from rfl, pow_add, mul_sub, mul_one]
  rw [hlimit]
  exact le_mul_of_one_le_left hpos hone

theorem doubleLimit_le : doubleLimit ≤ (10 : ℚ) ^ 400 := by
  have hbase : (2 : ℚ) ^ 128 ≤ 10 ^ 50 := by norm_num
  have hpow : ((2 : ℚ) ^ 128) ^ 8 ≤ (10 ^ 50) ^ 8 := pow_le_pow_left₀ (by positivity) hbase 8
  rw [← pow_mul, ← pow_mul, show 128 * 8 = 1024 from rfl, show 50 * 8 = 400 from rfl] at hpow
  have hpos : (0 : ℚ) ≤ 2 ^ 970 := by positivity
  exact (sub_le_self _ hpos).trans hpow

theorem numbers_ordered_by_value_sample :
    OrderedByValue sampleCore (bytesOf "9007199254740993.0") (bytesOf "9007199254740992.0")
      oddToken.value evenToken.value := by
  have hodd : oddToken.value = (9007199254740993 : ℕ) := value_of_integer rfl (by decide) (by decide)
  have heven : evenToken.value = (9007199254740992 : ℕ) :=
    value_of_integer rfl (by decide) (by decide)
  have hless : |oddToken.value| < doubleLimit ∧ |evenToken.value| < doubleLimit := by
    rw [hodd, heven, abs_of_nonneg (Nat.cast_nonneg _), abs_of_nonneg (Nat.cast_nonneg _)]
    have hlimit := le_doubleLimit
    norm_num at hlimit ⊢
    constructor
    all_goals linarith
  apply (numbers_ordered_by_value sampleCore _ _ oddToken evenToken
    ⟨⟨[], [], by decide, rfl, rfl⟩, by decide⟩ ⟨⟨[], [], by decide, rfl, rfl⟩, by decide⟩
    ⟨fun h => absurd hless.1 (not_lt.mpr h), fun _ => ⟨.real (some 9007199254740992), by rfl⟩⟩
    ⟨fun h => absurd hless.2 (not_lt.mpr h), fun _ => ⟨.real (some 9007199254740992), by rfl⟩⟩).mpr
  exact hless

/-- `1e400` -/
def hugeToken : NumberToken where
  minus := false
  int := bytesOf "1"
  frac := none
  exponent := some {
    letter := 0x65
    sign := none
    digits := bytesOf "400"
    letter_e := by decide
    sign_ok := by decide +kernel
    digits_ok := by decide }
  int_ok := by decide +kernel
  int_zero := by decide
  frac_ok := by decide

/-- `5.0` -/
def fiveToken : NumberToken where
  minus := false
  int := bytesOf "5"
  frac := some (bytesOf "0")
  exponent := none
  int_ok := by decide
  int_zero := by decide
  frac_ok := by decide

/-- An engine that reads `5.0` and refuses `1e400`. -/
def refusingCore : Core :=
  { sampleCore with
    stringToJsonNoError := fun text =>
      if text = bytesOf "5.0" then some (.num (.real (some 5))) else none }

/-- A number whose double is infinite is a string, and less than every number. -/
theorem huge_number_is_string :
    ¬∀ (core : Core) (raw raw' : Bytes) (s t : NumberToken), IsNumberText raw s →
      IsNumberText raw' t → ReadsNumber core raw s.value → ReadsNumber core raw' t.value →
        OrderedByValue core raw raw' s.value t.value := by
  intro h
  have hhuge : hugeToken.value = (10 : ℚ) ^ (400 : ℤ) := by
    have hdigits : digitsValue 10 (digitsOf hugeToken.digits) = 1 := by decide
    have hexponent : hugeToken.exponentValue - (hugeToken.frac.getD []).length = 400 := by decide
    show (digitsValue 10 (digitsOf hugeToken.digits) : ℚ)
      * (10 : ℚ) ^ (hugeToken.exponentValue - (hugeToken.frac.getD []).length) = _
    rw [hdigits, hexponent, Nat.cast_one, one_mul]
  have hfive : fiveToken.value = (5 : ℕ) := value_of_integer rfl (by decide) (by decide)
  have hinfinite : doubleLimit ≤ |hugeToken.value| := by
    rw [hhuge, show (400 : ℤ) = (400 : ℕ) from rfl, zpow_natCast, abs_of_pos (by positivity)]
    exact doubleLimit_le
  have hfinite : |fiveToken.value| < doubleLimit := by
    rw [hfive, abs_of_nonneg (Nat.cast_nonneg _)]
    have hlimit := le_doubleLimit
    norm_num at hlimit ⊢
    linarith
  have hordered := h refusingCore (bytesOf "1e400") (bytesOf "5.0") hugeToken fiveToken
    ⟨⟨[], [], by decide, rfl, rfl⟩, by decide⟩ ⟨⟨[], [], by decide, rfl, rfl⟩, by decide⟩
    ⟨fun _ => by rfl, fun h => absurd hinfinite (not_le.mpr h)⟩
    ⟨fun h => absurd hfinite (not_lt.mpr h), fun _ => ⟨.real (some 5), by rfl⟩⟩
  have hrank := hordered.ranks (bytesOf "1e400") mem_cons_self (.string (bytesOf "1e400")) (by rfl)
  exact absurd hrank (by show 3 ≠ 4; decide)

end Ladybug.Gql
