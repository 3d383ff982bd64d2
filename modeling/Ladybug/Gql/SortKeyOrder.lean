import Ladybug.Gql.DecimalTexts

/-!
# The order of sort keys

The key of an element keeps its order in front of whatever follows it in the array, so by induction on
the document the byte order of two keys is the order of the values.
-/

namespace Ladybug.Gql

open List Except

def numberKey (parts : DecimalParts) : Bytes :=
  if parts.sign = 0 then [0x65, 0x31]
  else
    let exponentText := numeral 20 (parts.exponent + 2 ^ 63).toNat
    if parts.sign > 0 then 0x65 :: 0x32 :: (exponentText ++ (parts.digits ++ [0x00]))
    else 0x65 :: 0x30 ::
      (exponentText.map complementDigit ++ (parts.digits.map complementDigit ++ [0xFF]))

theorem numberSortKey_eq_ok {text key : Bytes} {errorPrefix : String} :
    numberSortKey text errorPrefix = .ok key ↔
      ∃ parts, normalizeDecimalText text errorPrefix = .ok parts ∧ key = numberKey parts := by
  have hkey : ∀ parts : DecimalParts, (numberSortKey text errorPrefix =
      normalizeDecimalText text errorPrefix >>= fun parts => .ok (numberKey parts)) := by
    intro parts
    unfold numberSortKey numberKey
    apply congrArg
    funext parts
    split_ifs <;> rfl
  rw [hkey {}, bind_eq_ok]
  constructor
  · intro h
    obtain ⟨parts, hparts, hok⟩ := h
    exact ⟨parts, hparts, (ok.inj hok).symm⟩
  · intro h
    obtain ⟨parts, hparts, rfl⟩ := h
    exact ⟨parts, hparts, rfl⟩

theorem compareOperandTexts_eq (lhs rhs : Bytes) : compareOperandTexts lhs rhs = compare lhs rhs :=
  memcmp_then_length lhs rhs

def IsDigitByte (c : UInt8) : Prop := 0x30 ≤ c ∧ c ≤ 0x39

theorem complementDigit_toNat {c : UInt8} (h : IsDigitByte c) :
    (complementDigit c).toNat = 0x69 - c.toNat := by
  have hlow := UInt8.le_iff_toNat_le.mp h.1
  have hhigh := UInt8.le_iff_toNat_le.mp h.2
  change 48 ≤ c.toNat at hlow
  change c.toNat ≤ 57 at hhigh
  unfold complementDigit
  rw [UInt8.toNat_sub_of_le, UInt8.toNat_sub_of_le _ _ h.1]
  · show 57 - (c.toNat - 48) = 105 - c.toNat
    omega
  · rw [UInt8.le_iff_toNat_le, UInt8.toNat_sub_of_le _ _ h.1]
    show c.toNat - 48 ≤ 57
    omega

theorem complementDigit_lt {x y : UInt8} (hx : IsDigitByte x) (hy : IsDigitByte y) (h : x < y) :
    complementDigit y < complementDigit x := by
  have hhigh := UInt8.le_iff_toNat_le.mp hy.2
  change y.toNat ≤ 57 at hhigh
  rw [UInt8.lt_iff_toNat_lt] at h ⊢
  rw [complementDigit_toNat hx, complementDigit_toNat hy]
  omega

theorem complementDigit_end {x : UInt8} (hx : IsDigitByte x) : complementDigit x < 0xFF := by
  rw [UInt8.lt_iff_toNat_lt, complementDigit_toNat hx]
  show 105 - x.toNat < 255
  omega

theorem biased_lt {e : Int} (h : int64Min ≤ e ∧ e ≤ int64Max) : (e + 2 ^ 63).toNat < 10 ^ 20 := by
  unfold int64Min int64Max at h
  omega

theorem compare_biased {e e' : Int} (h : int64Min ≤ e ∧ e ≤ int64Max)
    (h' : int64Min ≤ e' ∧ e' ≤ int64Max) :
    compare (e + 2 ^ 63).toNat (e' + 2 ^ 63).toNat = compare e e' := by
  unfold int64Min int64Max at h h'
  rcases lt_trichotomy e e' with hlt | heq | hgt
  · rw [Std.compare_eq_lt.mpr hlt, Nat.compare_eq_lt]
    omega
  · rw [heq, Nat.compare_eq_eq.mpr rfl, Std.compare_eq_iff_eq.mpr rfl]
  · rw [Std.compare_eq_gt.mpr hgt, Nat.compare_eq_gt]
    omega

variable {p q : DecimalParts}

theorem compareDecimalParts_same_sign (hsign : p.sign = q.sign) (h : p.sign ≠ 0) :
    compareDecimalParts p q =
      if p.sign < 0 then ((compare p.exponent q.exponent).then (compare p.digits q.digits)).swap
      else (compare p.exponent q.exponent).then (compare p.digits q.digits) := by
  have hmagnitude : (if p.exponent ≠ q.exponent then
      (if p.exponent < q.exponent then Ordering.lt else .gt)
      else compareOperandTexts p.digits q.digits) =
        (compare p.exponent q.exponent).then (compare p.digits q.digits) := by
    rw [compareOperandTexts_eq]
    rcases lt_trichotomy p.exponent q.exponent with hlt | heq | hgt
    · rw [if_pos (by omega), if_pos hlt, Std.compare_eq_lt.mpr hlt]
      rfl
    · rw [if_neg (by omega), Std.compare_eq_iff_eq.mpr heq]
      rfl
    · rw [if_pos (by omega), if_neg (by omega), Std.compare_eq_gt.mpr hgt]
      rfl
  unfold compareDecimalParts
  rw [if_neg (not_not_intro hsign), if_neg h]
  simp only [hmagnitude]

def signByte (parts : DecimalParts) : UInt8 :=
  if parts.sign = 0 then 0x31 else if parts.sign > 0 then 0x32 else 0x30

def magnitudeKey (parts : DecimalParts) : Bytes :=
  if parts.sign = 0 then []
  else
    let exponentText := numeral 20 (parts.exponent + 2 ^ 63).toNat
    if parts.sign > 0 then exponentText ++ (parts.digits ++ [0x00])
    else exponentText.map complementDigit ++ (parts.digits.map complementDigit ++ [0xFF])

theorem numberKey_eq (parts : DecimalParts) :
    numberKey parts = 0x65 :: signByte parts :: magnitudeKey parts := by
  unfold numberKey signByte magnitudeKey
  split_ifs <;> rfl

section

variable (hp : p.Normal) (hq : q.Normal)

include hp hq

theorem compare_signByte (h : p.sign ≠ q.sign) :
    compare (signByte p) (signByte q) = compareDecimalParts p q ∧
      compareDecimalParts p q ≠ .eq := by
  unfold compareDecimalParts
  rw [if_pos h]
  unfold signByte
  rcases hp.sign with hps | hps | hps <;> rcases hq.sign with hqs | hqs | hqs <;>
    rw [hps, hqs] at h ⊢ <;> first | exact absurd rfl h | decide

theorem compare_magnitude_pos (u v : Bytes) :
    compare (numeral 20 (p.exponent + 2 ^ 63).toNat ++ (p.digits ++ [0x00]) ++ u)
        (numeral 20 (q.exponent + 2 ^ 63).toNat ++ (q.digits ++ [0x00]) ++ v) =
      ((compare p.exponent q.exponent).then (compare p.digits q.digits)).then (compare u v) := by
  have hdigit : ∀ parts : DecimalParts, parts.Normal → ∀ x ∈ parts.digits, (0x00 : UInt8) < x := by
    intro parts hparts x hx
    exact UInt8.lt_of_lt_of_le (show (0x00 : UInt8) < 0x30 by decide) (hparts.digits x hx).1
  simp only [append_assoc, singleton_append]
  rw [compare_append_of_length_eq (by rw [numeral_length, numeral_length]),
    compare_numeral (biased_lt hp.exponent) (biased_lt hq.exponent),
    compare_biased hp.exponent hq.exponent, compare_terminated (hdigit p hp) (hdigit q hq),
    Ordering.then_assoc]

theorem compare_magnitude_neg (u v : Bytes) :
    compare ((numeral 20 (p.exponent + 2 ^ 63).toNat).map complementDigit ++
        (p.digits.map complementDigit ++ [0xFF]) ++ u)
        ((numeral 20 (q.exponent + 2 ^ 63).toNat).map complementDigit ++
          (q.digits.map complementDigit ++ [0xFF]) ++ v) =
      ((compare p.exponent q.exponent).then (compare p.digits q.digits)).swap.then
        (compare u v) := by
  simp only [append_assoc, singleton_append]
  rw [compare_append_of_length_eq (by simp only [length_map, numeral_length]),
    compare_reversed (S := IsDigitByte) (fun x y hx hy => complementDigit_lt hx hy)
      (by rw [numeral_length, numeral_length]) numeral_digit numeral_digit,
    compare_numeral (biased_lt hp.exponent) (biased_lt hq.exponent),
    compare_biased hp.exponent hq.exponent,
    compare_reversed_terminated (S := IsDigitByte) (fun x y hx hy => complementDigit_lt hx hy)
      (fun x hx => complementDigit_end hx) hp.digits hq.digits,
    Ordering.swap_then, Ordering.then_assoc]

theorem compare_numberKey (u v : Bytes) : compare (numberKey p ++ u) (numberKey q ++ v) =
      (compareDecimalParts p q).then (compare u v) := by
  rw [numberKey_eq, numberKey_eq]
  simp only [cons_append]
  rw [compare_cons_self, List.compare_cons_cons]
  by_cases hsign : p.sign = q.sign
  · have hbyte : signByte p = signByte q := by
      unfold signByte
      rw [hsign]
    rw [hbyte, compare_byte_self, Ordering.eq_then]
    unfold magnitudeKey
    rw [← hsign]
    by_cases hzero : p.sign = 0
    · rw [if_pos hzero, if_pos hzero]
      unfold compareDecimalParts
      rw [if_neg (not_not_intro hsign), if_pos hzero]
      rfl
    · rw [if_neg hzero, if_neg hzero, compareDecimalParts_same_sign hsign hzero]
      split_ifs with hpos hneg
      · omega
      · exact compare_magnitude_pos hp hq u v
      · exact compare_magnitude_neg hp hq u v
      · omega
  · obtain ⟨hcmp, hne⟩ := compare_signByte hp hq hsign
    rw [hcmp]
    cases hparts : compareDecimalParts p q with
    | eq => exact absurd hparts hne
    | lt | gt => rfl

end

theorem compare_numberSortKey {l r key key' : Bytes} {errorPrefix errorPrefix' : String}
    (hl : numberSortKey l errorPrefix = .ok key) (hr : numberSortKey r errorPrefix' = .ok key')
    (callerPrefix : String) : ∃ cmp, compareDecimalTexts l r callerPrefix = .ok cmp ∧
      ∀ u v, compare (key ++ u) (key' ++ v) = cmp.then (compare u v) := by
  obtain ⟨p, hp, rfl⟩ := numberSortKey_eq_ok.mp hl
  obtain ⟨q, hq, rfl⟩ := numberSortKey_eq_ok.mp hr
  refine ⟨compareDecimalParts p q, ?_, ?_⟩
  · unfold compareDecimalTexts
    rw [normalizeDecimalText_anyPrefix hp callerPrefix, normalizeDecimalText_anyPrefix hq callerPrefix]
    rfl
  · exact compare_numberKey (normalizeDecimalText_normal hp) (normalizeDecimalText_normal hq)

section

variable {core : Core} {errorPrefix : String} {es : List (JsonVal core.Double)}

theorem realToNumberText_anyPrefix {d : core.Double} {text : Bytes}
    (h : realToNumberText core d errorPrefix = .ok text) (errorPrefix' : String) :
    realToNumberText core d errorPrefix' = .ok text := by
  unfold realToNumberText at h ⊢
  obtain ⟨hfinite, h⟩ := guard_eq_ok.mp h
  rw [if_neg hfinite]
  exact h

theorem parsedNumberText_anyPrefix {n : JsonNumber core.Double} {text : Bytes}
    (h : parsedNumberText core n errorPrefix = .ok text) (errorPrefix' : String) :
    parsedNumberText core n errorPrefix' = .ok text := by
  cases n with
  | uint | sint => exact h
  | real d => exact realToNumberText_anyPrefix h errorPrefix'

def rankTag (v : JsonVal core.Double) : UInt8 := UInt8.ofNat (0x61 + jsonRank v)

theorem elementSortKey_tag {v : JsonVal core.Double} {key : Bytes}
    (h : elementSortKey errorPrefix v = .ok key) : ∃ rest, key = rankTag v :: rest := by
  cases v with
  | null => exact ⟨[], (ok.inj h).symm⟩
  | bool | str => exact ⟨_, (ok.inj h).symm⟩
  | arr elements =>
    unfold elementSortKey at h
    cases hkeys : elementsSortKey errorPrefix elements with
    | error e => rw [hkeys] at h; cases h
    | ok keys =>
      rw [hkeys] at h
      exact ⟨_, (ok.inj h).symm⟩
  | num n =>
    obtain ⟨text, htext, h⟩ := bind_eq_ok.mp h
    obtain ⟨parts, hparts, rfl⟩ := numberSortKey_eq_ok.mp h
    exact ⟨_, numberKey_eq parts⟩
  | obj members => cases h

theorem compare_rankTag (l r : JsonVal core.Double) :
    compare (rankTag l) (rankTag r) = compare (jsonRank l) (jsonRank r) := by
  cases l <;> cases r <;> rfl

theorem rankTag_range (v : JsonVal core.Double) : 0 < rankTag v ∧ rankTag v < 0xFF := by
  cases v <;> exact ⟨of_decide_eq_true rfl, of_decide_eq_true rfl⟩

theorem compareJsonValues_of_rank_ne {l r : JsonVal core.Double} (h : jsonRank l ≠ jsonRank r) :
    compareJsonValues l r = .ok (compare (jsonRank l) (jsonRank r)) := by
  cases l <;> cases r <;> first | rfl | exact absurd rfl h

theorem elementsSortKey_endsField {keys : Bytes} (h : elementsSortKey errorPrefix es = .ok keys)
    (u : Bytes) : EndsField (keys ++ 0 :: u) := by
  cases es with
  | nil =>
    cases h
    intro b hb
    cases hb
    decide
  | cons e es =>
    obtain ⟨key, hkey, h⟩ := bind_eq_ok.mp h
    obtain ⟨keys', hkeys', h⟩ := bind_eq_ok.mp h
    obtain ⟨rest, rfl⟩ := elementSortKey_tag hkey
    cases h
    intro b hb
    cases hb
    exact (rankTag_range e).2

theorem compareBools_eq (l r : Bool) :
    compareBools l r = compare (if l then (0x31 : UInt8) else 0x30) (if r then 0x31 else 0x30) := by
  cases l <;> cases r <;> decide

theorem compare_elementSortKey_of_rank_ne {l r : JsonVal core.Double} {key key' : Bytes}
    (hrank : jsonRank l ≠ jsonRank r) (hl : elementSortKey errorPrefix l = .ok key)
    (hr : elementSortKey errorPrefix r = .ok key') (u v : Bytes) :
    compare (key ++ u) (key' ++ v) = (compare (jsonRank l) (jsonRank r)).then (compare u v) := by
  obtain ⟨rest, rfl⟩ := elementSortKey_tag hl
  obtain ⟨rest', rfl⟩ := elementSortKey_tag hr
  rw [cons_append, cons_append, List.compare_cons_cons, compare_rankTag]
  cases hcmp : compare (jsonRank l) (jsonRank r) with
  | eq => exact absurd (Nat.compare_eq_eq.mp hcmp) hrank
  | lt | gt => rfl

theorem compare_boolKey (l r : Bool) (u v : Bytes) :
    compare ((0x62 : UInt8) :: (if l then 0x31 else 0x30) :: u)
      ((0x62 : UInt8) :: (if r then 0x31 else 0x30) :: v) = (compareBools l r).then (compare u v) := by
  rw [compare_cons_self, List.compare_cons_cons, compareBools_eq]

theorem compare_numberElements {m n : JsonNumber core.Double} {key key' : Bytes}
    (hl : elementSortKey errorPrefix (.num m) = .ok key)
    (hr : elementSortKey errorPrefix (.num n) = .ok key') :
    ∃ cmp, compareJsonNumbers core m n = .ok cmp ∧
      ∀ u v, compare (key ++ u) (key' ++ v) = cmp.then (compare u v) := by
  obtain ⟨text, htext, hl⟩ := bind_eq_ok.mp hl
  obtain ⟨text', htext', hr⟩ := bind_eq_ok.mp hr
  obtain ⟨cmp, hcmp, horder⟩ := compare_numberSortKey hl hr minMaxPrefix
  refine ⟨cmp, ?_, horder⟩
  unfold compareJsonNumbers
  rw [parsedNumberText_anyPrefix htext minMaxPrefix, parsedNumberText_anyPrefix htext' minMaxPrefix]
  exact hcmp

theorem elementSortKey_arr {key : Bytes} (h : elementSortKey errorPrefix (.arr es) = .ok key) :
    ∃ keys, elementsSortKey errorPrefix es = .ok keys ∧ key = 0x63 :: (keys ++ [0x00]) := by
  unfold elementSortKey at h
  cases hkeys : elementsSortKey errorPrefix es with
  | error e => rw [hkeys] at h; cases h
  | ok keys =>
    rw [hkeys] at h
    exact ⟨keys, rfl, (ok.inj h).symm⟩

theorem compare_end_elements {e : JsonVal core.Double} {keys : Bytes}
    (h : elementsSortKey errorPrefix (e :: es) = .ok keys) (u v : Bytes) :
    compare (0 :: u) (keys ++ 0 :: v) = .lt := by
  obtain ⟨key, hkey, h⟩ := bind_eq_ok.mp h
  obtain ⟨keysTail, hkeysTail, h⟩ := bind_eq_ok.mp h
  obtain ⟨rest, rfl⟩ := elementSortKey_tag hkey
  cases h
  rw [cons_append, cons_append, List.compare_cons_cons, compare_byte_lt (rankTag_range e).1]
  rfl

mutual

theorem compare_elementSortKey {errorPrefix : String} (l r : JsonVal core.Double) {key key' : Bytes}
    (hl : elementSortKey errorPrefix l = .ok key) (hr : elementSortKey errorPrefix r = .ok key') :
    ∃ cmp, compareJsonValues l r = .ok cmp ∧ ∀ u v, EndsField u → EndsField v →
      compare (key ++ u) (key' ++ v) = cmp.then (compare u v) := by
  by_cases hrank : jsonRank l = jsonRank r
  · cases l with
    | null =>
      cases r with
      | null =>
        cases hl
        cases hr
        exact ⟨.eq, rfl, fun u v _ _ => compare_cons_self 0x61 u v⟩
      | _ => cases hrank
    | bool b =>
      cases r with
      | bool b' =>
        cases hl
        cases hr
        exact ⟨compareBools b b', rfl, fun u v _ _ => compare_boolKey b b' u v⟩
      | _ => cases hrank
    | arr ls =>
      cases r with
      | arr rs =>
        obtain ⟨keys, hkeys, rfl⟩ := elementSortKey_arr hl
        obtain ⟨keys', hkeys', rfl⟩ := elementSortKey_arr hr
        obtain ⟨cmp, hcmp, horder⟩ := compare_elementsSortKey ls rs hkeys hkeys'
        refine ⟨cmp, hcmp, fun u v _ _ => ?_⟩
        simp only [cons_append, append_assoc, nil_append]
        rw [compare_cons_self, horder]
      | _ => cases hrank
    | str text =>
      cases r with
      | str text' =>
        cases hl
        cases hr
        refine ⟨compareOperandTexts text text', rfl, fun u v hu hv => ?_⟩
        simp only [cons_append, append_assoc, nil_append]
        rw [compare_cons_self, compare_escaped hu hv, compareOperandTexts_eq]
      | _ => cases hrank
    | num m =>
      cases r with
      | num n =>
        obtain ⟨cmp, hcmp, horder⟩ := compare_numberElements hl hr
        exact ⟨cmp, hcmp, fun u v _ _ => horder u v⟩
      | _ => cases hrank
    | obj members => cases hl
  · exact ⟨compare (jsonRank l) (jsonRank r), compareJsonValues_of_rank_ne hrank,
      fun u v _ _ => compare_elementSortKey_of_rank_ne hrank hl hr u v⟩

theorem compare_elementsSortKey {errorPrefix : String} (ls rs : List (JsonVal core.Double))
    {keys keys' : Bytes} (hl : elementsSortKey errorPrefix ls = .ok keys)
    (hr : elementsSortKey errorPrefix rs = .ok keys') :
    ∃ cmp, compareElements ls rs = .ok cmp ∧
      ∀ u v, compare (keys ++ 0 :: u) (keys' ++ 0 :: v) = cmp.then (compare u v) := by
  cases ls with
  | nil =>
    cases hl
    cases rs with
    | nil =>
      cases hr
      exact ⟨.eq, rfl, fun u v => compare_cons_self 0 u v⟩
    | cons r rs =>
      have hlength : compare 0 (rs.length + 1) = .lt := Nat.compare_eq_lt.mpr (by omega)
      refine ⟨.lt, congrArg ok hlength, fun u v => ?_⟩
      exact compare_end_elements hr u v
  | cons l ls =>
    cases rs with
    | nil =>
      cases hr
      have hlength : compare (ls.length + 1) 0 = .gt := Nat.compare_eq_gt.mpr (by omega)
      refine ⟨.gt, congrArg ok hlength, fun u v => ?_⟩
      have hswap : compare (keys ++ 0 :: u) (0 :: v) = (compare (0 :: v) (keys ++ 0 :: u)).swap :=
        Std.OrientedCmp.eq_swap
      show compare (keys ++ 0 :: u) (0 :: v) = .gt
      rw [hswap, compare_end_elements hl v u]
      rfl
    | cons r rs =>
      obtain ⟨key, hkey, hl⟩ := bind_eq_ok.mp hl
      obtain ⟨keysTail, hkeysTail, hl⟩ := bind_eq_ok.mp hl
      obtain ⟨key', hkey', hr⟩ := bind_eq_ok.mp hr
      obtain ⟨keysTail', hkeysTail', hr⟩ := bind_eq_ok.mp hr
      cases hl
      cases hr
      obtain ⟨cmp, hcmp, horder⟩ := compare_elementSortKey l r hkey hkey'
      obtain ⟨cmpTail, hcmpTail, horderTail⟩ :=
        compare_elementsSortKey ls rs hkeysTail hkeysTail'
      refine ⟨cmp.then cmpTail, ?_, ?_⟩
      · unfold compareElements
        rw [hcmp]
        cases cmp with
        | eq => exact hcmpTail
        | lt | gt => rfl
      · intro u v
        rw [append_assoc, append_assoc, horder _ _
          (elementsSortKey_endsField hkeysTail u) (elementsSortKey_endsField hkeysTail' v),
          horderTail, Ordering.then_assoc]

end

end

end Ladybug.Gql
