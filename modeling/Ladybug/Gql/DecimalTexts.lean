import Ladybug.Gql.OrderPredicates

/-!
# What `normalizeDecimalText` accepts

The prefix of the errors plays no part in what is accepted.  The digits of a number are decimal, its
exponent is an `int64`, and two numbers are ordered by the numbers' parts alone.  The text of an
integer of any width is accepted.
-/

namespace Ladybug.Gql

open List

def Decimal (text : Bytes) : Prop := ∃ parts, normalizeDecimalText text "" = .ok parts

/-- The parts that `normalizeDecimalText` returns: zero has none; other numbers have decimal digits. -/
structure DecimalParts.Normal (parts : DecimalParts) : Prop where
  sign : parts.sign = -1 ∨ parts.sign = 0 ∨ parts.sign = 1
  digits : ∀ c ∈ parts.digits, 0x30 ≤ c ∧ c ≤ 0x39
  exponent : int64Min ≤ parts.exponent ∧ parts.exponent ≤ int64Max

theorem splitSign_sign (text : Bytes) : (splitSign text).1 = -1 ∨ (splitSign text).1 = 1 := by
  unfold splitSign
  split
  · exact .inr rfl
  · exact .inl rfl
  · exact .inr rfl

variable {errorPrefix : String} {e sign : Int} {lhs rhs sum : Int} {c : UInt8} {mantissa : Bytes}

theorem checkedAddInt64_eq_ok : checkedAddInt64 lhs rhs errorPrefix = .ok sum ↔
      ¬((rhs > 0 ∧ lhs > int64Max - rhs) ∨ (rhs < 0 ∧ lhs < int64Min - rhs)) ∧ sum = lhs + rhs := by
  unfold checkedAddInt64
  split
  · rename_i h
    exact ⟨fun hok => (nomatch hok), fun hok => absurd h hok.1⟩
  · rename_i h
    rw [Except.ok.injEq]
    exact ⟨fun hok => ⟨h, hok.symm⟩, fun hok => hok.2.symm⟩

theorem addDigit_eq_ok {value result : Int} : addDigit errorPrefix value c = .ok result ↔
      ¬value > (int64Max - ((c.toNat : Int) - 0x30)) / 10 ∧
        result = value * 10 + ((c.toNat : Int) - 0x30) := by
  unfold addDigit
  simp only
  split
  · rename_i h
    exact ⟨fun hok => (nomatch hok), fun hok => absurd h hok.1⟩
  · rename_i h
    rw [Except.ok.injEq]
    exact ⟨fun hok => ⟨h, hok.symm⟩, fun hok => hok.2.symm⟩

theorem int64OfSize_range (size : Nat) :
    int64Min ≤ int64OfSize size ∧ int64OfSize size ≤ int64Max := by
  have hlow := Int.le_bmod (x := (size : Int)) (m := 2 ^ 64) (by decide)
  have hhigh := Int.bmod_lt (x := (size : Int)) (m := 2 ^ 64) (by decide)
  unfold int64Min int64Max int64OfSize
  omega

theorem checkedAddInt64_range (hlhs : int64Min ≤ lhs ∧ lhs ≤ int64Max)
    (h : checkedAddInt64 lhs rhs errorPrefix = .ok sum) : int64Min ≤ sum ∧ sum ≤ int64Max := by
  obtain ⟨hin, rfl⟩ := checkedAddInt64_eq_ok.mp h
  omega

theorem foldlM_ok_congr {α σ ε : Type} {f g : σ → α → Except ε σ}
    (hfg : ∀ s x s', f s x = .ok s' → g s x = .ok s') {items : List α} {s s' : σ}
    (h : items.foldlM f s = .ok s') : items.foldlM g s = .ok s' := by
  induction items generalizing s with
  | nil => exact h
  | cons x items ih =>
    obtain ⟨s₁, hs₁, hrest⟩ := bind_eq_ok.mp h
    exact bind_eq_ok.mpr ⟨s₁, hfg s x s₁ hs₁, ih hrest⟩

variable {text : Bytes}

theorem parseExponent_anyPrefix (h : parseExponent text errorPrefix = .ok e)
    (errorPrefix' : String) :
    parseExponent text errorPrefix' = .ok e := by
  unfold parseExponent at h ⊢
  simp only at h ⊢
  split at h
  · cases h
  · obtain ⟨value, hvalue, hresult⟩ := bind_eq_ok.mp h
    rename_i hdigits
    rw [if_neg hdigits]
    apply bind_eq_ok.mpr
    refine ⟨value, ?_, hresult⟩
    apply foldlM_ok_congr _ hvalue
    intro s c s' hstep
    rw [addDigit_eq_ok] at hstep ⊢
    exact hstep

def exponentOf (exponentText : Option Bytes) (errorPrefix : String) : Except String Int :=
  match exponentText with
  | none => .ok 0
  | some text => parseExponent text errorPrefix

theorem exponentOf_anyPrefix {exponentText : Option Bytes}
    (h : exponentOf exponentText errorPrefix = .ok e) (errorPrefix' : String) :
    exponentOf exponentText errorPrefix' = .ok e := by
  cases exponentText with
  | none => exact h
  | some text => exact parseExponent_anyPrefix h errorPrefix'

theorem isDigit_iff : isDigit c = true ↔ 0x30 ≤ c ∧ c ≤ 0x39 := by
  unfold isDigit
  rw [Bool.and_eq_true, decide_eq_true_iff, decide_eq_true_iff]

theorem digit_of_allDigits (h : allDigits text = true) : ∀ c ∈ text, 0x30 ≤ c ∧ c ≤ 0x39 := by
  intro c hc
  unfold allDigits at h
  rw [Bool.and_eq_true, all_eq_true] at h
  exact isDigit_iff.mp (h.2 c hc)

def validMantissa (intPart : Bytes) (fracPart : Option Bytes) : Bool :=
  allDigits intPart && (match fracPart with | none => true | some frac => allDigits frac)

def normalizeMantissa (sign : Int) (mantissa : Bytes) (exponent : Int) (errorPrefix : String) :
    Except String DecimalParts :=
  let (intPart, fracPart) := splitAtFirst (· == 0x2e) mantissa
  if !validMantissa intPart fracPart then .error (errorPrefix ++ ": invalid number text")
  else
    let frac := fracPart.getD []
    let significant := (intPart ++ frac).dropWhile isZero
    if significant.isEmpty then return {}
    else do
      let exponent ← checkedAddInt64 (int64OfSize significant.length) exponent errorPrefix
      let exponent ← checkedAddInt64 exponent (-int64OfSize frac.length) errorPrefix
      return { sign, digits := significant.rdropWhile isZero, exponent }

theorem normalizeDecimalText_eq (text : Bytes) (errorPrefix : String) :
    normalizeDecimalText text errorPrefix =
      exponentOf (splitAtFirst (fun c ↦ c == 0x65 || c == 0x45) (splitSign text).2).2 errorPrefix >>=
        fun exponent => normalizeMantissa (splitSign text).1
          (splitAtFirst (fun c ↦ c == 0x65 || c == 0x45) (splitSign text).2).1 exponent errorPrefix := by
  have hvalid : ∀ intPart fracPart, (!validMantissa intPart fracPart) =
      (!allDigits intPart || (match fracPart with | none => false | some frac => !allDigits frac)) := by
    intro intPart fracPart
    unfold validMantissa
    cases fracPart <;> simp
  unfold normalizeDecimalText exponentOf normalizeMantissa
  simp only [hvalid]
  cases h : (splitAtFirst (fun c => c == 0x65 || c == 0x45) (splitSign text).2).2 <;> rfl

theorem normalizeMantissa_anyPrefix {parts : DecimalParts}
    (h : normalizeMantissa sign mantissa e errorPrefix = .ok parts) (errorPrefix' : String) :
    normalizeMantissa sign mantissa e errorPrefix' = .ok parts := by
  unfold normalizeMantissa at h ⊢
  simp only at h ⊢
  obtain ⟨hdigits, h⟩ := guard_eq_ok.mp h
  rw [if_neg hdigits]
  split at h
  · rename_i hzero
    rw [if_pos hzero]
    exact h
  · rename_i hzero
    rw [if_neg hzero]
    obtain ⟨e₁, he₁, h⟩ := bind_eq_ok.mp h
    obtain ⟨e₂, he₂, h⟩ := bind_eq_ok.mp h
    rw [checkedAddInt64_eq_ok] at he₁ he₂
    apply bind_eq_ok.mpr
    refine ⟨e₁, checkedAddInt64_eq_ok.mpr he₁, ?_⟩
    apply bind_eq_ok.mpr
    exact ⟨e₂, checkedAddInt64_eq_ok.mpr he₂, h⟩

theorem normalizeDecimalText_anyPrefix {parts : DecimalParts}
    (h : normalizeDecimalText text errorPrefix = .ok parts) (errorPrefix' : String) :
    normalizeDecimalText text errorPrefix' = .ok parts := by
  rw [normalizeDecimalText_eq] at h ⊢
  obtain ⟨e, he, h⟩ := bind_eq_ok.mp h
  exact bind_eq_ok.mpr ⟨e, exponentOf_anyPrefix he errorPrefix', normalizeMantissa_anyPrefix h errorPrefix'⟩

theorem Decimal.parts (h : Decimal text) :
    ∃ parts, ∀ errorPrefix, normalizeDecimalText text errorPrefix = .ok parts := by
  obtain ⟨parts, hparts⟩ := h
  exact ⟨parts, normalizeDecimalText_anyPrefix hparts⟩

theorem normalizeMantissa_normal {parts : DecimalParts} (hsign : sign = -1 ∨ sign = 1)
    (h : normalizeMantissa sign mantissa e errorPrefix = .ok parts) : parts.Normal := by
  unfold normalizeMantissa at h
  simp only at h
  obtain ⟨hdigits, h⟩ := guard_eq_ok.mp h
  split at h
  · cases h
    refine ⟨.inr (.inl rfl), fun c hc => absurd hc not_mem_nil, ?_⟩
    decide
  · obtain ⟨e₁, he₁, h⟩ := bind_eq_ok.mp h
    obtain ⟨e₂, he₂, h⟩ := bind_eq_ok.mp h
    cases h
    rw [Bool.not_eq_true, Bool.not_eq_false'] at hdigits
    unfold validMantissa at hdigits
    rw [Bool.and_eq_true] at hdigits
    refine ⟨?_, ?_, ?_⟩
    · show sign = -1 ∨ sign = 0 ∨ sign = 1
      omega
    · intro c hc
      have hmem : c ∈ (splitAtFirst (· == 0x2e) mantissa).1 ++
          (splitAtFirst (· == 0x2e) mantissa).2.getD [] :=
        (dropWhile_sublist isZero).subset (( rdropWhile_prefix isZero _).subset hc)
      rcases mem_append.mp hmem with hmem | hmem
      · apply digit_of_allDigits _ c hmem
        exact hdigits.1
      · cases hfrac : (splitAtFirst (· == 0x2e) mantissa).2 with
        | none =>
          rw [hfrac] at hmem
          exact absurd hmem not_mem_nil
        | some frac =>
          rw [hfrac] at hmem
          apply digit_of_allDigits _ c hmem
          rw [hfrac] at hdigits
          exact hdigits.2
    · exact checkedAddInt64_range (checkedAddInt64_range (int64OfSize_range _) he₁) he₂

theorem normalizeDecimalText_normal {parts : DecimalParts}
    (h : normalizeDecimalText text errorPrefix = .ok parts) : parts.Normal := by
  rw [normalizeDecimalText_eq] at h
  obtain ⟨e, he, h⟩ := bind_eq_ok.mp h
  exact normalizeMantissa_normal (splitSign_sign text) h

theorem splitAtFirst_none {p : UInt8 → Bool} (h : ∀ c ∈ text, p c = false) :
    splitAtFirst p text = (text, none) := by
  have hp : ∀ c ∈ text, (!p c) = true := fun c hc => by rw [h c hc]; rfl
  unfold splitAtFirst
  rw [dropWhile_eq_nil_iff.mpr hp, takeWhile_eq_self_iff.mpr hp]

theorem normalize_allDigits (h : allDigits text = true) (sign : Int) (errorPrefix : String) :
    ∃ parts, normalizeMantissa sign text 0 errorPrefix = .ok parts := by
  have hdigit := digit_of_allDigits h
  have hdot : splitAtFirst (· == 0x2e) text = (text, none) := by
    apply splitAtFirst_none
    intro c hc
    have hc := hdigit c hc
    rw [beq_eq_false_iff_ne]
    intro heq
    rw [heq] at hc
    exact absurd hc.1 (by decide)
  have hvalid : validMantissa text none = true := by
    unfold validMantissa
    rw [h]
    rfl
  have hadd : ∀ a : Int, checkedAddInt64 a 0 errorPrefix = .ok a := by
    intro a
    rw [checkedAddInt64_eq_ok]
    omega
  unfold normalizeMantissa
  simp only [hdot, hvalid]
  rw [if_neg (by decide)]
  split
  · exact ⟨_, rfl⟩
  · rw [hadd]
    exact ⟨_, rfl⟩

theorem splitAtFirst_exponent (h : allDigits text = true) :
    splitAtFirst (fun c => c == 0x65 || c == 0x45) text = (text, none) := by
  apply splitAtFirst_none
  intro c hc
  have hdigit := digit_of_allDigits h c hc
  rw [Bool.or_eq_false_iff, beq_eq_false_iff_ne, beq_eq_false_iff_ne]
  have hle := hdigit.2
  constructor
  all_goals
    intro heq
    rw [heq] at hle
    exact absurd hle (by decide)

theorem splitSign_digits (h : allDigits text = true) : splitSign text = (1, text) := by
  have hdigit := digit_of_allDigits h
  unfold splitSign
  split
  · exact absurd (hdigit 0x2b mem_cons_self).1 (by decide)
  · exact absurd (hdigit 0x2d mem_cons_self).1 (by decide)
  · rfl

theorem decimal_of_split {text rest : Bytes} (hsplit : splitSign text = (sign, rest))
    (h : allDigits rest = true) : Decimal text := by
  obtain ⟨parts, hparts⟩ := normalize_allDigits h sign ""
  refine ⟨parts, ?_⟩
  rw [normalizeDecimalText_eq, hsplit]
  rw [splitAtFirst_exponent h]
  exact hparts

theorem digitByte {d : Char} (h : d.isDigit = true) : isDigit (UInt8.ofNat d.toNat) = true := by
  unfold Char.isDigit at h
  rw [Bool.and_eq_true, decide_eq_true_iff, decide_eq_true_iff, ge_iff_le, UInt32.le_iff_toNat_le,
    UInt32.le_iff_toNat_le] at h
  have hlow : 48 ≤ d.toNat := h.1
  have hhigh : d.toNat ≤ 57 := h.2
  rw [isDigit_iff, UInt8.le_iff_toNat_le, UInt8.le_iff_toNat_le, UInt8.toNat_ofNat_of_lt' (show d.toNat < 256 by omega)]
  exact ⟨hlow, hhigh⟩

theorem integerText_decimal (n : Int) : Decimal (integerText n) := by
  have hdigits : allDigits ((Nat.toDigits 10 n.natAbs).map fun c ↦ UInt8.ofNat c.toNat) = true := by
    unfold allDigits
    rw [Bool.and_eq_true, all_eq_true]
    constructor
    · simp [Nat.toDigits_ne_nil]
    · intro c hc
      obtain ⟨d, hd, rfl⟩ := mem_map.mp hc
      exact digitByte (Nat.isDigit_of_mem_toDigits (by decide) (by decide) hd)
  unfold integerText
  split
  · exact decimal_of_split (rfl : splitSign (0x2d :: _) = (-1, _)) hdigits
  · exact decimal_of_split (splitSign_digits hdigits) hdigits

end Ladybug.Gql
