import Ladybug.Gql.DecimalExact
import Ladybug.Gql.DocumentOrder

/-!
# Equal documents

`jsonDeepEquals` looks the members of one object up in the other one, so that it compares in one
direction.  Where no key is there twice the other direction follows by counting.
-/

namespace Ladybug.Gql

open List Option

section

variable {core : Core}

/-! ## 1. Documents -/

theorem sizeOf_element {elements : List (JsonVal core.Double)} {v : JsonVal core.Double}
    (h : v ∈ elements) : sizeOf v < sizeOf (JsonVal.arr elements) := by
  have hlt := sizeOf_lt_of_mem h
  rw [JsonVal.arr.sizeOf_spec]
  omega

variable {m : Bytes × JsonVal core.Double} {t : DecimalToken} {n : JsonNumber core.Double}
  {l r a b x y : JsonVal core.Double} {ls rs : List (Bytes × JsonVal core.Double)}
  {R : JsonVal core.Double → JsonVal core.Double → Prop}

theorem sizeOf_member {members : List (Bytes × JsonVal core.Double)} (h : m ∈ members) :
    sizeOf m.2 < sizeOf (JsonVal.obj members) := by
  have hlt := sizeOf_lt_of_mem h
  obtain ⟨key, v⟩ := m
  rw [Prod.mk.sizeOf_spec] at hlt
  rw [JsonVal.obj.sizeOf_spec]
  show sizeOf v < _
  omega

@[elab_as_elim]
theorem JsonVal.children_induction {P : JsonVal core.Double → Prop} (null : P .null)
    (bool : ∀ b, P (.bool b)) (num : ∀ n, P (.num n)) (str : ∀ text, P (.str text))
    (arr : ∀ elements, (∀ v ∈ elements, P v) → P (.arr elements))
    (obj : ∀ members, (∀ m ∈ members, P m.2) → P (.obj members)) (v : JsonVal core.Double) : P v :=
  match v with
  | .null => null
  | .bool b => bool b
  | .num n => num n
  | .str text => str text
  | .arr elements => arr elements fun w _ => JsonVal.children_induction null bool num str arr obj w
  | .obj members => obj members fun m _ => JsonVal.children_induction null bool num str arr obj m.2
termination_by sizeOf v
decreasing_by
  · exact sizeOf_element ‹_›
  · exact sizeOf_member ‹_›

inductive FiniteReals : JsonVal core.Double → Prop
  | null : FiniteReals .null
  | bool (b : Bool) : FiniteReals (.bool b)
  | num {n : JsonNumber core.Double} : (∀ d, n = .real d → core.isFinite d = true) → FiniteReals (.num n)
  | str (text : Bytes) : FiniteReals (.str text)
  | arr {elements : List (JsonVal core.Double)} : (∀ v ∈ elements, FiniteReals v) →
      FiniteReals (.arr elements)
  | obj {members : List (Bytes × JsonVal core.Double)} : (∀ m ∈ members, FiniteReals m.2) →
      FiniteReals (.obj members)

inductive DistinctKeys : JsonVal core.Double → Prop
  | null : DistinctKeys .null
  | bool (b : Bool) : DistinctKeys (.bool b)
  | num (n : JsonNumber core.Double) : DistinctKeys (.num n)
  | str (text : Bytes) : DistinctKeys (.str text)
  | arr {elements : List (JsonVal core.Double)} : (∀ v ∈ elements, DistinctKeys v) →
      DistinctKeys (.arr elements)
  | obj {members : List (Bytes × JsonVal core.Double)} : (members.map (·.1)).Nodup →
      (∀ m ∈ members, DistinctKeys m.2) → DistinctKeys (.obj members)

theorem FiniteReals.elements {elements : List (JsonVal core.Double)} (h : FiniteReals (.arr elements)) :
    ∀ v ∈ elements, FiniteReals v := by
  cases h with
  | arr helements => exact helements

theorem FiniteReals.members {members : List (Bytes × JsonVal core.Double)}
    (h : FiniteReals (.obj members)) : ∀ m ∈ members, FiniteReals m.2 := by
  cases h with
  | obj hmembers => exact hmembers

theorem DistinctKeys.elements {elements : List (JsonVal core.Double)}
    (h : DistinctKeys (.arr elements)) : ∀ v ∈ elements, DistinctKeys v := by
  cases h with
  | arr helements => exact helements

theorem DistinctKeys.keys {members : List (Bytes × JsonVal core.Double)}
    (h : DistinctKeys (.obj members)) : (members.map (·.1)).Nodup := by
  cases h with
  | obj hkeys _ => exact hkeys

theorem DistinctKeys.members {members : List (Bytes × JsonVal core.Double)}
    (h : DistinctKeys (.obj members)) : ∀ m ∈ members, DistinctKeys m.2 := by
  cases h with
  | obj _ hmembers => exact hmembers

theorem objGet_mem {members : List (Bytes × JsonVal core.Double)} {key : Bytes}
    {v : JsonVal core.Double} (h : objGet members key = some v) : (key, v) ∈ members := by
  obtain ⟨m, hfind, hv⟩ := map_eq_some_iff.mp h
  have hkey : m.1 = key :=
    beq_iff_eq.mp (@List.find?_some _ (fun m : Bytes × JsonVal core.Double => m.1 == key) _ _ hfind)
  have hm := mem_of_find?_eq_some hfind
  rw [← hkey, ← hv]
  exact hm

theorem objGet_isSome {members : List (Bytes × JsonVal core.Double)} (hm : m ∈ members) :
    ∃ v, objGet members m.1 = some v := by
  cases hget : objGet members m.1 with
  | some v => exact ⟨v, rfl⟩
  | none =>
    have hnone := List.find?_eq_none.mp (map_eq_none_iff.mp hget) m hm
    exact absurd (beq_self_eq_true m.1) hnone

theorem objGet_of_mem {members : List (Bytes × JsonVal core.Double)}
    (hkeys : (members.map (·.1)).Nodup) (hm : m ∈ members) : objGet members m.1 = some m.2 := by
  obtain ⟨v, hget⟩ := objGet_isSome hm
  have hsame := inj_on_of_nodup_map hkeys (objGet_mem hget) hm rfl
  rw [hget, ← hsame]

/-! ## 2. Numbers -/

/-- What the engine promises of a double: a finite one is formatted in a short form, with a small
exponent after an `e`. -/
structure Core.FormatsShortly (core : Core) : Prop where
  format : ∀ d, core.isFinite d = true → ∃ t : DecimalToken, core.formatDouble d = t.text ∧
    t.text.length ≤ 32 ∧ t.exponentSize ≤ 400 ∧ ∀ e, t.exponent = some e → e.letter = 0x65

theorem small_token_accepted (hlength : t.text.length ≤ 34) (hexponent : t.exponentSize ≤ 400) :
    Decimal t.text := by
  refine ⟨t.parts, normalize_accepted (by omega) "" ?_⟩
  have hvalue := t.exponentValue_eq
  obtain ⟨hdigits, hfrac⟩ := t.lengths
  have hsub : t.significant.length ≤ t.digits.length := (dropWhile_sublist isZero).length_le
  rintro ((hout | hsums) | hmin)
  · apply hout
    unfold InInt64 int64Min int64Max
    omega
  · apply hsums
    refine .inr ⟨?_, ?_⟩
    all_goals
      unfold InInt64 int64Min int64Max
      omega
  · unfold int64Min at hmin
    omega

def DecimalToken.withFraction (t : DecimalToken) : DecimalToken where
  sign := t.sign
  int := t.int
  frac := some (bytesOf "0")
  exponent := none
  sign_ok := t.sign_ok
  int_ok := t.int_ok
  frac_ok := zero_frac_ok

theorem DecimalToken.withFraction_text (hfrac : t.frac = none) (hexponent : t.exponent = none) :
    t.withFraction.text = t.text ++ bytesOf ".0" := by
  unfold DecimalToken.text DecimalToken.unsigned DecimalToken.fracText DecimalToken.exponentText
  rw [hfrac, hexponent]
  show t.sign.toList ++ (t.int ++ bytesOf ".0" ++ []) = _
  rw [append_nil, append_nil, append_nil, append_assoc]

theorem DecimalToken.plain_of_text (hletter : ∀ e, t.exponent = some e → e.letter = 0x65)
    (h : ∀ c ∈ t.text, (c == 0x2e || c == 0x65) = false) : t.frac = none ∧ t.exponent = none := by
  constructor
  · cases hfrac : t.frac with
    | none => rfl
    | some f =>
      have hmem : (0x2e : UInt8) ∈ t.text := by
        unfold DecimalToken.text DecimalToken.unsigned DecimalToken.fracText
        rw [hfrac]
        simp
      cases h _ hmem
  · cases hexponent : t.exponent with
    | none => rfl
    | some e =>
      have hmem : (0x65 : UInt8) ∈ t.text := by
        unfold DecimalToken.text DecimalToken.unsigned DecimalToken.exponentText
        rw [hexponent, ← hletter e hexponent]
        unfold ExponentToken.text
        simp
      cases h _ hmem

theorem finite_accepted (hcore : core.FormatsShortly) {d : core.Double} (hd : core.isFinite d = true) :
    NumberAccepted core (.real d) := by
  obtain ⟨t, htext, hlength, hexponent, hletter⟩ := hcore.format d hd
  by_cases hpoint : ((core.formatDouble d).any fun c => c == 0x2e || c == 0x65) = true
  · refine ⟨core.formatDouble d, ?_, ?_⟩
    · show realToNumberText core d "" = _
      unfold realToNumberText formatJsonReal
      simp only [hd, hpoint, Bool.not_true, Bool.false_eq_true, if_false, if_true]
    · rw [htext]
      exact small_token_accepted (by omega) hexponent
  · rw [Bool.not_eq_true] at hpoint
    have hplain : ∀ c ∈ t.text, (c == 0x2e || c == 0x65) = false := by
      intro c hc
      rw [← htext] at hc
      exact Bool.eq_false_iff.mpr (any_eq_false.mp hpoint c hc)
    obtain ⟨hfrac, hnone⟩ := DecimalToken.plain_of_text hletter hplain
    have htext' := DecimalToken.withFraction_text hfrac hnone
    refine ⟨core.formatDouble d ++ bytesOf ".0", ?_, ?_⟩
    · show realToNumberText core d "" = _
      unfold realToNumberText formatJsonReal
      simp only [hd, hpoint, Bool.not_true, Bool.false_eq_true, if_false]
    · rw [htext, ← htext']
      apply small_token_accepted
      · rw [htext', length_append]
        show _ + 2 ≤ 34
        omega
      · exact Nat.zero_le _

theorem finite_number_accepted (hcore : core.FormatsShortly) (hn : FiniteReals (.num n)) :
    NumberAccepted core n := by
  cases n with
  | uint | sint => exact ⟨_, rfl, integerText_decimal _⟩
  | real d =>
    cases hn with
    | num hreal => exact finite_accepted hcore (hreal d rfl)

theorem compareJsonNumbers_eq_iff {m : JsonNumber core.Double} :
    compareJsonNumbers core m n = .ok .eq ↔
      ∃ key, elementSortKey "" (.num m) = .ok key ∧ elementSortKey "" (.num n) = .ok key := by
  constructor
  · intro h
    obtain ⟨km, kn, hkm, hkn, hcmp⟩ := compareJsonNumbers_key h
    have hsame := Std.compare_eq_iff_eq.mp hcmp.symm
    exact ⟨km, hkm, hsame ▸ hkn⟩
  · rintro ⟨key, hm, hn⟩
    obtain ⟨tm, htm, hkm⟩ := bind_eq_ok.mp hm
    obtain ⟨tn, htn, hkn⟩ := bind_eq_ok.mp hn
    obtain ⟨p, hp, hpkey⟩ := numberSortKey_eq_ok.mp hkm
    obtain ⟨q, hq, hqkey⟩ := numberSortKey_eq_ok.mp hkn
    apply bind_eq_ok.mpr
    refine ⟨tm, parsedNumberText_anyPrefix htm _, bind_eq_ok.mpr ?_⟩
    refine ⟨tn, parsedNumberText_anyPrefix htn _, bind_eq_ok.mpr ?_⟩
    refine ⟨p, normalizeDecimalText_anyPrefix hp _, bind_eq_ok.mpr ?_⟩
    refine ⟨q, normalizeDecimalText_anyPrefix hq _, ?_⟩
    rw [compareDecimalParts_eq (normalizeDecimalText_normal hp) (normalizeDecimalText_normal hq),
      ← hpkey, ← hqkey, Std.compare_eq_iff_eq.mpr rfl]
    rfl

theorem compareJsonNumbers_total {m : JsonNumber core.Double} (hm : NumberAccepted core m)
    (hn : NumberAccepted core n) : ∃ cmp, compareJsonNumbers core m n = .ok cmp := by
  obtain ⟨tm, htm, hdm⟩ := hm.text
  obtain ⟨tn, htn, hdn⟩ := hn.text
  obtain ⟨p, hp⟩ := hdm.parts
  obtain ⟨q, hq⟩ := hdn.parts
  refine ⟨compareDecimalParts p q, ?_⟩
  unfold compareJsonNumbers compareDecimalTexts
  rw [htm, htn]
  show (normalizeDecimalText tm minMaxPrefix >>= _) = _
  rw [hp, hq]
  rfl

theorem compareJsonNumbers_refl (hn : NumberAccepted core n) :
    compareJsonNumbers core n n = .ok .eq := by
  obtain ⟨key, hkey⟩ := elementSortKey_of_plain (.num n) (by unfold JsonVal.Plain; exact hn)
  exact compareJsonNumbers_eq_iff.mpr ⟨key, hkey "", hkey ""⟩

/-! ## 3. What `jsonDeepEquals` decides -/

def Deep (l r : JsonVal core.Double) : Prop := jsonDeepEquals l r = .ok true

theorem elementsDeepEqual_cons {ls rs : List (JsonVal core.Double)} :
    elementsDeepEqual (l :: ls) (r :: rs) = .ok true ↔ Deep l r ∧ elementsDeepEqual ls rs = .ok true := by
  unfold Deep
  rw [elementsDeepEqual]
  split
  next htrue =>
    rw [htrue]
    exact (and_iff_right rfl).symm
  next hstop => exact ⟨fun h => absurd h hstop, fun h => absurd h.1 hstop⟩

theorem elementsDeepEqual_iff {ls rs : List (JsonVal core.Double)} (hlength : ls.length = rs.length) :
    elementsDeepEqual ls rs = .ok true ↔ Forall₂ Deep ls rs := by
  induction ls generalizing rs with
  | nil =>
    rw [eq_nil_of_length_eq_zero hlength.symm]
    exact ⟨fun _ => .nil, fun _ => rfl⟩
  | cons l ls ih =>
    cases rs with
    | nil => cases hlength
    | cons r rs => rw [forall₂_cons, elementsDeepEqual_cons, ih (Nat.succ.inj hlength)]

theorem membersDeepEqual_cons {key : Bytes} : membersDeepEqual ((key, l) :: ls) rs = .ok true ↔
      (∃ v, objGet rs key = some v ∧ Deep l v) ∧ membersDeepEqual ls rs = .ok true := by
  unfold Deep
  rw [membersDeepEqual]
  cases objGet rs key with
  | none => simp
  | some r =>
    simp only [some.injEq, exists_eq_left']
    split
    next htrue =>
      rw [htrue]
      exact (and_iff_right rfl).symm
    next hstop => exact ⟨fun h => absurd h hstop, fun h => absurd h.1 hstop⟩

theorem membersDeepEqual_iff :
    membersDeepEqual ls rs = .ok true ↔ ∀ m ∈ ls, ∃ v, objGet rs m.1 = some v ∧ Deep m.2 v := by
  induction ls with
  | nil => exact ⟨fun _ m hm => absurd hm not_mem_nil, fun _ => by rw [membersDeepEqual]⟩
  | cons m ls ih => rw [forall_mem_cons, ← ih, membersDeepEqual_cons]

theorem jsonDeepEquals_of_rank_ne (h : jsonRank l ≠ jsonRank r) :
    jsonDeepEquals l r = .ok false := by
  cases l <;> cases r <;> first | rfl | exact absurd rfl h

theorem Deep.rank (h : Deep l r) : jsonRank l = jsonRank r := by
  by_contra hne
  unfold Deep at h
  rw [jsonDeepEquals_of_rank_ne hne] at h
  exact Bool.false_ne_true (Except.ok.inj h)

theorem deep_null : Deep .null r ↔ r = .null := by
  constructor
  · intro h
    have hrank := h.rank
    cases r with
    | null => rfl
    | _ => cases hrank
  · rintro rfl
    rfl

theorem deep_bool {b : Bool} : Deep (.bool b) r ↔ r = .bool b := by
  constructor
  · intro h
    have hrank := h.rank
    cases r with
    | bool c =>
      have hsame : (b == c) = true := Except.ok.inj h
      rw [beq_iff_eq.mp hsame]
    | _ => cases hrank
  · rintro rfl
    show Except.ok (b == b) = _
    rw [beq_self_eq_true]

theorem deep_str {text : Bytes} : Deep (.str text) r ↔ r = .str text := by
  constructor
  · intro h
    have hrank := h.rank
    cases r with
    | str text' =>
      have hsame : (text == text') = true := Except.ok.inj h
      rw [beq_iff_eq.mp hsame]
    | _ => cases hrank
  · rintro rfl
    show Except.ok (text == text) = _
    rw [beq_self_eq_true]

theorem deep_num {m : JsonNumber core.Double} : Deep (.num m) r ↔
    ∃ n, r = .num n ∧ compareJsonNumbers core m n = .ok .eq := by
  have hdef : ∀ n, Deep (.num m) (.num n) ↔ compareJsonNumbers core m n = .ok .eq := by
    intro n
    show (compareJsonNumbers core m n).map (· == .eq) = .ok true ↔ _
    cases compareJsonNumbers core m n with
    | error | ok => simp [Except.map]
  constructor
  · intro h
    obtain ⟨n, rfl⟩ := num_of_rank h.rank.symm
    exact ⟨n, rfl, (hdef n).mp h⟩
  · rintro ⟨n, rfl, hn⟩
    exact (hdef n).mpr hn

theorem deep_arr {ls : List (JsonVal core.Double)} : Deep (.arr ls) r ↔
    ∃ rs, r = .arr rs ∧ Forall₂ Deep ls rs := by
  have hdef : ∀ rs, Deep (.arr ls) (.arr rs) ↔ Forall₂ Deep ls rs := by
    intro rs
    show (if ls.length ≠ rs.length then .ok false else elementsDeepEqual ls rs) = .ok true ↔ _
    by_cases hlength : ls.length = rs.length
    · rw [if_neg (not_not_intro hlength)]
      exact elementsDeepEqual_iff hlength
    · rw [if_pos hlength]
      exact ⟨fun h ↦ (Bool.false_ne_true (Except.ok.inj h)).elim, fun h ↦ absurd h.length_eq hlength⟩
  constructor
  · intro h
    have hrank := h.rank
    cases r with
    | arr rs => exact ⟨rs, rfl, (hdef rs).mp h⟩
    | _ => cases hrank
  · rintro ⟨rs, rfl, hrs⟩
    exact (hdef rs).mpr hrs

theorem deep_obj : Deep (.obj ls) r ↔ ∃ rs, r = .obj rs ∧ ls.length = rs.length ∧
      ∀ m ∈ ls, ∃ v, objGet rs m.1 = some v ∧ Deep m.2 v := by
  have hdef : ∀ rs : List (Bytes × JsonVal core.Double), Deep (.obj ls) (.obj rs) ↔
      ls.length = rs.length ∧ ∀ m ∈ ls, ∃ v, objGet rs m.1 = some v ∧ Deep m.2 v := by
    intro rs
    show (if ls.length ≠ rs.length then .ok false else membersDeepEqual ls rs) = .ok true ↔ _
    by_cases hlength : ls.length = rs.length
    · rw [if_neg (not_not_intro hlength), membersDeepEqual_iff]
      exact (and_iff_right hlength).symm
    · rw [if_pos hlength]
      exact ⟨fun h => (Bool.false_ne_true (Except.ok.inj h)).elim, fun h => absurd h.1 hlength⟩
  constructor
  · intro h
    have hrank := h.rank
    cases r with
    | obj rs => exact ⟨rs, rfl, (hdef rs).mp h⟩
    | _ => cases hrank
  · rintro ⟨rs, rfl, hrs⟩
    exact (hdef rs).mpr hrs

/-! ## 4. Totality -/

theorem elementsDeepEqual_total {ls rs : List (JsonVal core.Double)}
    (h : ∀ l ∈ ls, ∀ r ∈ rs, ∃ b, jsonDeepEquals l r = .ok b) : ∃ b, elementsDeepEqual ls rs = .ok b := by
  induction ls generalizing rs with
  | nil => exact ⟨true, rfl⟩
  | cons l ls ih =>
    cases rs with
    | nil => exact ⟨true, rfl⟩
    | cons r rs =>
      obtain ⟨b, hb⟩ := h l mem_cons_self r mem_cons_self
      rw [elementsDeepEqual, hb]
      cases b with
      | false => exact ⟨false, rfl⟩
      | true => exact ih fun l hl r hr => h l (mem_cons_of_mem _ hl) r (mem_cons_of_mem _ hr)

theorem membersDeepEqual_total (h : ∀ l ∈ ls, ∀ r ∈ rs, ∃ b, jsonDeepEquals l.2 r.2 = .ok b) :
    ∃ b, membersDeepEqual ls rs = .ok b := by
  induction ls with
  | nil => exact ⟨true, by rw [membersDeepEqual]⟩
  | cons m ls ih =>
    obtain ⟨key, l⟩ := m
    rw [membersDeepEqual]
    cases hget : objGet rs key with
    | none => exact ⟨false, rfl⟩
    | some r =>
      obtain ⟨b, hb⟩ := h (key, l) mem_cons_self (key, r) (objGet_mem hget)
      simp only [hb]
      cases b with
      | false => exact ⟨false, rfl⟩
      | true => exact ih fun l hl r hr => h l (mem_cons_of_mem _ hl) r hr

theorem jsonDeepEquals_total (hcore : core.FormatsShortly) (l r : JsonVal core.Double)
    (hl : FiniteReals l) (hr : FiniteReals r) : ∃ b, jsonDeepEquals l r = .ok b := by
  induction l using JsonVal.children_induction generalizing r with
  | null | bool | str => cases r <;> exact ⟨_, rfl⟩
  | num m =>
    cases r with
    | num n =>
      obtain ⟨cmp, hcmp⟩ := compareJsonNumbers_total (finite_number_accepted hcore hl)
        (finite_number_accepted hcore hr)
      refine ⟨cmp == .eq, ?_⟩
      show (compareJsonNumbers core m n).map (· == .eq) = _
      rw [hcmp]
      rfl
    | _ => exact ⟨_, rfl⟩
  | arr elements ih =>
    cases r with
    | arr elements' =>
      show ∃ b, (if elements.length ≠ elements'.length then .ok false
        else elementsDeepEqual elements elements') = .ok b
      split
      · exact ⟨false, rfl⟩
      · exact elementsDeepEqual_total fun v hv w hw ↦ ih v hv w (hl.elements v hv) (hr.elements w hw)
    | _ => exact ⟨_, rfl⟩
  | obj members ih =>
    cases r with
    | obj members' =>
      show ∃ b, (if members.length ≠ members'.length then .ok false
        else membersDeepEqual members members') = .ok b
      split
      · exact ⟨false, rfl⟩
      · exact membersDeepEqual_total fun m hm n hn ↦ ih m hm n.2 (hl.members m hm) (hr.members n hn)
    | _ => exact ⟨_, rfl⟩

/-! ## 5. The laws -/

theorem forall₂_trans {as bs cs : List (JsonVal core.Double)}
    (htrans : ∀ a ∈ as, ∀ b c, R a b → R b c → R a c) (hab : Forall₂ R as bs)
    (hbc : Forall₂ R bs cs) : Forall₂ R as cs := by
  induction hab generalizing cs with
  | nil => exact hbc
  | cons hhead _ ih =>
    cases hbc with
    | cons hhead' hrest =>
      apply List.Forall₂.cons
      · exact htrans _ mem_cons_self _ _ hhead hhead'
      · exact ih (fun a ha => htrans a (mem_cons_of_mem _ ha)) hrest

theorem exists_of_forall₂ {ls rs : List (JsonVal core.Double)} (h : Forall₂ R ls rs)
    (hr : r ∈ rs) : ∃ l ∈ ls, R l r := by
  induction h with
  | nil => cases hr
  | cons hhead _ ih =>
    cases hr with
    | head => exact ⟨_, mem_cons_self, hhead⟩
    | tail _ hr =>
      obtain ⟨l, hl, hrel⟩ := ih hr
      exact ⟨l, mem_cons_of_mem _ hl, hrel⟩

theorem forall₂_mono_mem {Q : JsonVal core.Double → JsonVal core.Double → Prop}
    {ls rs : List (JsonVal core.Double)} (himp : ∀ l ∈ ls, ∀ r, R l r → Q l r)
    (h : Forall₂ R ls rs) : Forall₂ Q ls rs := by
  induction h with
  | nil => exact .nil
  | cons hhead _ ih =>
    apply List.Forall₂.cons
    · exact himp _ mem_cons_self _ hhead
    · exact ih fun l hl => himp l (mem_cons_of_mem _ hl)

theorem Deep.trans {c : JsonVal core.Double} (hab : Deep a b) (hbc : Deep b c) : Deep a c := by
  induction a using JsonVal.children_induction generalizing b c with
  | null => rwa [deep_null.mp hab] at hbc
  | bool x => rwa [deep_bool.mp hab] at hbc
  | str text => rwa [deep_str.mp hab] at hbc
  | num m =>
    obtain ⟨n, rfl, hmn⟩ := deep_num.mp hab
    obtain ⟨p, rfl, hnp⟩ := deep_num.mp hbc
    obtain ⟨key, hkm, hkn⟩ := compareJsonNumbers_eq_iff.mp hmn
    obtain ⟨key', hkn', hkp⟩ := compareJsonNumbers_eq_iff.mp hnp
    rw [hkn] at hkn'
    cases hkn'
    exact deep_num.mpr ⟨p, rfl, compareJsonNumbers_eq_iff.mpr ⟨key, hkm, hkp⟩⟩
  | arr elements ih =>
    obtain ⟨bs, rfl, hbs⟩ := deep_arr.mp hab
    obtain ⟨cs, rfl, hcs⟩ := deep_arr.mp hbc
    exact deep_arr.mpr ⟨cs, rfl, forall₂_trans (fun a ha b c h h' => ih a ha h h') hbs hcs⟩
  | obj members ih =>
    obtain ⟨bs, rfl, hlength, hbs⟩ := deep_obj.mp hab
    obtain ⟨cs, rfl, hlength', hcs⟩ := deep_obj.mp hbc
    refine deep_obj.mpr ⟨cs, rfl, hlength.trans hlength', fun m hm => ?_⟩
    obtain ⟨v, hv, hmv⟩ := hbs m hm
    obtain ⟨w, hw, hvw⟩ := hcs (m.1, v) (objGet_mem hv)
    exact ⟨w, hw, ih m hm hmv hvw⟩

theorem Deep.refl (hcore : core.FormatsShortly) (ha : FiniteReals a) (hkeys : DistinctKeys a) :
    Deep a a := by
  induction a using JsonVal.children_induction with
  | null => exact deep_null.mpr rfl
  | bool x => exact deep_bool.mpr rfl
  | str text => exact deep_str.mpr rfl
  | num n => exact deep_num.mpr ⟨n, rfl, compareJsonNumbers_refl (finite_number_accepted hcore ha)⟩
  | arr elements ih =>
    refine deep_arr.mpr ⟨elements, rfl, forall₂_same.mpr fun v hv => ?_⟩
    exact ih v hv (ha.elements v hv) (hkeys.elements v hv)
  | obj members ih =>
    refine deep_obj.mpr ⟨members, rfl, rfl, fun m hm => ?_⟩
    exact ⟨m.2, objGet_of_mem hkeys.keys hm, ih m hm (ha.members m hm) (hkeys.members m hm)⟩

section

variable (hkeys : (ls.map (·.1)).Nodup) (hlength : ls.length = rs.length)
  (h : ∀ m ∈ ls, ∃ v, objGet rs m.1 = some v ∧ Deep m.2 v)

include hkeys hlength h

theorem keys_perm : (ls.map (·.1)).Perm (rs.map (·.1)) := by
  have hsubset : ls.map (·.1) ⊆ rs.map (·.1) := by
    intro key hkey
    obtain ⟨m, hm, rfl⟩ := mem_map.mp hkey
    obtain ⟨v, hv, _⟩ := h m hm
    exact mem_map.mpr ⟨_, objGet_mem hv, rfl⟩
  apply (hkeys.subperm hsubset).perm_of_length_le
  rw [length_map, length_map, hlength]

theorem exists_member {n : Bytes × JsonVal core.Double} (hn : n ∈ rs) :
    ∃ m ∈ ls, m.1 = n.1 ∧ Deep m.2 n.2 := by
  have hperm := keys_perm hkeys hlength h
  have hkey := hperm.mem_iff.mpr (mem_map_of_mem hn)
  obtain ⟨m, hm, hmn⟩ := mem_map.mp hkey
  obtain ⟨v, hv, hdeep⟩ := h m hm
  rw [hmn, objGet_of_mem (hperm.nodup_iff.mp hkeys) hn] at hv
  cases hv
  exact ⟨m, hm, hmn, hdeep⟩

end

theorem DistinctKeys.of_deep (ha : DistinctKeys a) (h : Deep a b) : DistinctKeys b := by
  induction a using JsonVal.children_induction generalizing b with
  | null =>
    rw [deep_null.mp h]
    exact .null
  | bool x =>
    rw [deep_bool.mp h]
    exact .bool x
  | str text =>
    rw [deep_str.mp h]
    exact .str text
  | num n =>
    obtain ⟨m, rfl, _⟩ := deep_num.mp h
    exact .num m
  | arr elements ih =>
    obtain ⟨bs, rfl, hbs⟩ := deep_arr.mp h
    refine .arr fun v hv => ?_
    obtain ⟨u, hu, huv⟩ := exists_of_forall₂ hbs hv
    exact ih u hu (ha.elements u hu) huv
  | obj members ih =>
    obtain ⟨bs, rfl, hlength, hbs⟩ := deep_obj.mp h
    refine .obj ((keys_perm ha.keys hlength hbs).nodup_iff.mp ha.keys) fun n hn => ?_
    obtain ⟨m, hm, _, hmn⟩ := exists_member ha.keys hlength hbs hn
    exact ih m hm (ha.members m hm) hmn

theorem Deep.symm (ha : DistinctKeys a) (h : Deep a b) : Deep b a := by
  induction a using JsonVal.children_induction generalizing b with
  | null =>
    rw [deep_null.mp h]
    exact deep_null.mpr rfl
  | bool x =>
    rw [deep_bool.mp h]
    exact deep_bool.mpr rfl
  | str text =>
    rw [deep_str.mp h]
    exact deep_str.mpr rfl
  | num n =>
    obtain ⟨m, rfl, hnm⟩ := deep_num.mp h
    obtain ⟨key, hkn, hkm⟩ := compareJsonNumbers_eq_iff.mp hnm
    exact deep_num.mpr ⟨n, rfl, compareJsonNumbers_eq_iff.mpr ⟨key, hkm, hkn⟩⟩
  | arr elements ih =>
    obtain ⟨bs, rfl, hbs⟩ := deep_arr.mp h
    refine deep_arr.mpr ⟨elements, rfl, ?_⟩
    apply List.Forall₂.flip
    exact forall₂_mono_mem (fun u hu v huv => ih u hu (ha.elements u hu) huv) hbs
  | obj members ih =>
    obtain ⟨bs, rfl, hlength, hbs⟩ := deep_obj.mp h
    refine deep_obj.mpr ⟨members, rfl, hlength.symm, fun n hn => ?_⟩
    obtain ⟨m, hm, hkey, hmn⟩ := exists_member ha.keys hlength hbs hn
    refine ⟨m.2, ?_, ih m hm (ha.members m hm) hmn⟩
    rw [← hkey]
    exact objGet_of_mem ha.keys hm

/-- A document that equals itself equals one without repeated keys: each key keeps one member, and new
keys make up for the others. -/
theorem exists_repaired (ha : FiniteReals a) (hself : Deep a a) :
    ∃ w, FiniteReals w ∧ DistinctKeys w ∧ Deep a w := by
  induction a using JsonVal.children_induction with
  | null => exact ⟨.null, .null, .null, hself⟩
  | bool x => exact ⟨.bool x, .bool x, .bool x, hself⟩
  | str text => exact ⟨.str text, .str text, .str text, hself⟩
  | num n => exact ⟨.num n, ha, .num n, hself⟩
  | arr elements ih =>
    obtain ⟨es, hes, hpairs⟩ := deep_arr.mp hself
    cases hes
    have hchild := forall₂_same.mp hpairs
    have hrepaired : ∀ v : {v // v ∈ elements}, ∃ w, FiniteReals w ∧ DistinctKeys w ∧ Deep v.1 w :=
      fun v => ih v.1 v.2 (ha.elements v.1 v.2) (hchild v.1 v.2)
    choose repaired hrepaired using hrepaired
    refine ⟨.arr (elements.attach.map repaired), .arr ?_, .arr ?_, deep_arr.mpr ⟨_, rfl, ?_⟩⟩
    · intro w hw
      obtain ⟨v, _, rfl⟩ := mem_map.mp hw
      exact (hrepaired v).1
    · intro w hw
      obtain ⟨v, _, rfl⟩ := mem_map.mp hw
      exact (hrepaired v).2.1
    · rw [forall₂_map_right_iff]
      have hall : Forall₂ (fun (v w : {v // v ∈ elements}) => Deep v.1 (repaired w))
          elements.attach elements.attach :=
        forall₂_same.mpr fun v _ => (hrepaired v).2.2
      have hvals := forall₂_map_left_iff (f := Subtype.val) (l := elements.attach)
        (R := fun v w => Deep v (repaired w)) |>.mpr hall
      rwa [List.attach_map_subtype_val] at hvals
  | obj members ih =>
    obtain ⟨ms, hms, _, hlookup⟩ := deep_obj.mp hself
    cases hms
    -- what a key leads to equals itself
    have hfirst : ∀ key, ∃ w : JsonVal core.Double, FiniteReals w ∧ DistinctKeys w ∧
        ∀ v, objGet members key = some v → Deep v w := by
      intro key
      cases hget : objGet members key with
      | none => exact ⟨.null, .null, .null, fun v hv => by cases hv⟩
      | some v =>
        have hv := objGet_mem hget
        obtain ⟨u, hu, hvu⟩ := hlookup (key, v) hv
        rw [hget] at hu
        cases hu
        obtain ⟨w, hw, hkeys, hvw⟩ := ih (key, v) hv (ha.members _ hv) hvu
        exact ⟨w, hw, hkeys, fun v' hv' => some.inj hv' ▸ hvw⟩
    choose repaired hrepaired using hfirst
    have hcard : (members.map (·.1)).toFinset.card ≤ members.length :=
      (toFinset_card_le _).trans_eq (length_map _)
    obtain ⟨keys, hsubset, hsize⟩ := Infinite.exists_superset_card_eq _ _ hcard
    have hnodup : ((keys.toList.map fun key => (key, repaired key)).map (·.1)).Nodup := by
      rw [List.map_map]
      show (keys.toList.map id).Nodup
      rw [List.map_id]
      exact keys.nodup_toList
    refine ⟨.obj (keys.toList.map fun key => (key, repaired key)), .obj ?_, .obj hnodup ?_,
      deep_obj.mpr ⟨_, rfl, ?_, ?_⟩⟩
    · intro w hw
      obtain ⟨key, _, rfl⟩ := mem_map.mp hw
      exact (hrepaired key).1
    · intro w hw
      obtain ⟨key, _, rfl⟩ := mem_map.mp hw
      exact (hrepaired key).2.1
    · rw [length_map, Finset.length_toList, hsize]
    · intro m hm
      obtain ⟨v, hv, hmv⟩ := hlookup m hm
      have hkey : m.1 ∈ keys.toList :=
        Finset.mem_toList.mpr (hsubset (mem_toFinset.mpr (mem_map_of_mem hm)))
      have hmem : (m.1, repaired m.1) ∈ keys.toList.map fun key => (key, repaired key) :=
        mem_map.mpr ⟨m.1, hkey, rfl⟩
      exact ⟨repaired m.1, objGet_of_mem hnodup hmem, hmv.trans ((hrepaired m.1).2.2 v hv)⟩

/-! ## 6. `_GQL_EQ` -/

variable {cmp : Ordering}

theorem compareElements_answers {ls rs : List (JsonVal core.Double)}
    (hswap : ∀ l ∈ ls, ∀ r ∈ rs, ∀ cmp, compareJsonValues l r = .ok cmp → ∃ cmp',
      compareJsonValues r l = .ok cmp')
    (h : compareElements ls rs = .ok cmp) : ∃ cmp', compareElements rs ls = .ok cmp' := by
  induction ls generalizing rs with
  | nil => cases rs <;> exact ⟨_, rfl⟩
  | cons l ls ih =>
    cases rs with
    | nil => exact ⟨_, rfl⟩
    | cons r rs =>
      obtain ⟨head, hhead, h⟩ := bind_eq_ok.mp h
      obtain ⟨head', hhead'⟩ := hswap l mem_cons_self r mem_cons_self head hhead
      have hsame := compareJsonValues_swap l r hhead hhead'
      rw [compareElements, hhead', hsame]
      by_cases heq : head = .eq
      · rw [heq] at h ⊢
        exact ih (fun l hl r hr => hswap l (mem_cons_of_mem _ hl) r (mem_cons_of_mem _ hr)) h
      · have hne : head.swap ≠ .eq := fun hno => heq (by cases head <;> first | rfl | cases hno)
        refine ⟨head.swap, ?_⟩
        show (if head.swap ≠ .eq then _ else _) = _
        rw [if_pos hne]
        rfl

/-- Where documents without repeated keys can be compared, they can be compared the other way round. -/
theorem compareJsonValues_answers (hcore : core.FormatsShortly) (hl : FiniteReals l)
    (hr : FiniteReals r) (hkeys : DistinctKeys l) (h : compareJsonValues l r = .ok cmp) :
    ∃ cmp', compareJsonValues r l = .ok cmp' := by
  induction l using JsonVal.children_induction generalizing r cmp with
  | null | bool | str => cases r <;> exact ⟨_, rfl⟩
  | num m =>
    cases r with
    | num n => exact compareJsonNumbers_total (finite_number_accepted hcore hr) (finite_number_accepted hcore hl)
    | _ => exact ⟨_, rfl⟩
  | arr elements ih =>
    cases r with
    | arr elements' =>
      apply compareElements_answers _ h
      intro v hv w hw cmp hcmp
      exact ih v hv (hl.elements v hv) (hr.elements w hw) (hkeys.elements v hv) hcmp
    | _ => exact ⟨_, rfl⟩
  | obj members ih =>
    cases r with
    | obj members' =>
      obtain ⟨b, hb, h⟩ := bind_eq_ok.mp h
      cases b with
      | false => cases h
      | true =>
        refine ⟨.eq, ?_⟩
        exact bind_eq_ok.mpr ⟨true, Deep.symm hkeys hb, rfl⟩
    | _ => exact ⟨_, rfl⟩

theorem compareOrderedOperands_answers (hcore : core.FormatsShortly) (hx : FiniteReals x)
    (hy : FiniteReals y) (hkeys : DistinctKeys x) {tx ty : Bytes} {l r : GqlOrderedOperand core}
    {errorPrefix : String} (hl : classifyParsedJson x tx errorPrefix = .ok l)
    (hr : classifyParsedJson y ty errorPrefix = .ok r)
    (h : compareOrderedOperands l r errorPrefix = .ok cmp) :
    ∃ cmp', compareOrderedOperands r l errorPrefix = .ok cmp' := by
  have hlrank := classifyParsedJson_rank hl
  have hrrank := classifyParsedJson_rank hr
  by_cases hrank : l.rank = r.rank
  · have hdocs : jsonRank x = jsonRank y := by rw [← hlrank, ← hrrank, hrank]
    by_cases hnum : jsonRank x = 4
    · obtain ⟨text, rfl⟩ := number_of_rank (hlrank.trans hnum)
      obtain ⟨text', rfl⟩ := number_of_rank (hrrank.trans (hdocs.symm.trans hnum))
      obtain ⟨p, hp, h⟩ := bind_eq_ok.mp h
      obtain ⟨q, hq, h⟩ := bind_eq_ok.mp h
      exact ⟨compareDecimalParts q p, bind_eq_ok.mpr ⟨q, hq, bind_eq_ok.mpr ⟨p, hp, rfl⟩⟩⟩
    · have hvalues := compareJsonValues_of_operands hl hr (fun hboth => hnum hboth.1) h
      obtain ⟨cmp', hvalues'⟩ := compareJsonValues_answers hcore hx hy hkeys hvalues
      cases x with
      | null =>
        cases y with
        | null => cases hl; cases hr; exact ⟨_, rfl⟩
        | _ => cases hdocs
      | bool b =>
        cases y with
        | bool b' => cases hl; cases hr; exact ⟨_, rfl⟩
        | _ => cases hdocs
      | str text =>
        cases y with
        | str text' => cases hl; cases hr; exact ⟨_, rfl⟩
        | _ => cases hdocs
      | num n => exact absurd rfl hnum
      | arr ls =>
        cases y with
        | arr rs =>
          cases hl
          cases hr
          refine ⟨cmp', ?_⟩
          unfold compareOrderedOperands
          simp only [hvalues']
        | _ => cases hdocs
      | obj ls =>
        cases y with
        | obj rs =>
          cases hl
          cases hr
          obtain ⟨b, hb, h⟩ := bind_eq_ok.mp h
          cases b with
          | false => cases h
          | true => exact ⟨.eq, bind_eq_ok.mpr ⟨true, Deep.symm hkeys hb, rfl⟩⟩
        | _ => cases hdocs
  · rw [compareOrderedOperands_of_rank_ne (Ne.symm hrank)]
    exact ⟨_, rfl⟩

theorem equal_value_swap (cmp : Ordering) :
    OrderComparison.value .EQ cmp.swap = OrderComparison.value .EQ cmp := by
  cases cmp <;> rfl

theorem orderPredicate_equal_symm (hcore : core.FormatsShortly) (hx : FiniteReals x)
    (hy : FiniteReals y) (hkeys : DistinctKeys x) {tx ty : Bytes}
    (htx : core.stringToJsonNoError tx = some x) (hty : core.stringToJsonNoError ty = some y)
    {b : Bool} (h : orderPredicate .EQ (.json tx : GqlValue core) (.json ty) = .ok b) :
    orderPredicate .EQ (.json ty : GqlValue core) (.json tx) = .ok b := by
  obtain ⟨l, hl, h⟩ := bind_eq_ok.mp h
  obtain ⟨r, hr, h⟩ := bind_eq_ok.mp h
  obtain ⟨cmp, hcmp, h⟩ := bind_eq_ok.mp h
  have hl' : classifyParsedJson x tx orderPredicatePrefix = .ok l := by
    have hclass : classifyJsonText tx orderPredicatePrefix = .ok l := hl
    unfold classifyJsonText at hclass
    rw [htx] at hclass
    exact hclass
  have hr' : classifyParsedJson y ty orderPredicatePrefix = .ok r := by
    have hclass : classifyJsonText ty orderPredicatePrefix = .ok r := hr
    unfold classifyJsonText at hclass
    rw [hty] at hclass
    exact hclass
  obtain ⟨cmp', hcmp'⟩ := compareOrderedOperands_answers hcore hx hy hkeys hl' hr' hcmp
  have hswap := compareOrderedOperands_swap hcmp hcmp'
  refine bind_eq_ok.mpr ⟨r, hr, bind_eq_ok.mpr ⟨l, hl, bind_eq_ok.mpr ⟨cmp', hcmp', ?_⟩⟩⟩
  rw [hswap, equal_value_swap]
  exact h

theorem toOption_eq_of_iff {α : Type} {a b : Except String α} (h : ∀ v, a = .ok v ↔ b = .ok v) :
    a.toOption = b.toOption := by
  cases a with
  | ok v => rw [(h v).mp rfl]
  | error e =>
    cases b with
    | ok v => cases (h v).mpr rfl
    | error e' => rfl

/-- Both orders of the operands give one answer, and `_GQL_EQ` throws for both or for neither. -/
def EqualsAlike (x y : JsonVal core.Double) : Prop :=
  jsonDeepEquals y x = jsonDeepEquals x y ∧
    ∀ tx ty, core.stringToJsonNoError tx = some x → core.stringToJsonNoError ty = some y →
      (orderPredicate .EQ (.json ty : GqlValue core) (.json tx)).toOption =
        (orderPredicate .EQ (.json tx : GqlValue core) (.json ty)).toOption

theorem equalsAlike_of_distinct (hcore : core.FormatsShortly) (hx : FiniteReals x)
    (hy : FiniteReals y) (hkx : DistinctKeys x) (hky : DistinctKeys y) : EqualsAlike x y := by
  constructor
  · obtain ⟨b, hb⟩ := jsonDeepEquals_total hcore x y hx hy
    obtain ⟨b', hb'⟩ := jsonDeepEquals_total hcore y x hy hx
    rw [hb, hb']
    cases b with
    | true => exact hb'.symm.trans (Deep.symm hkx hb)
    | false =>
      cases b' with
      | false => rfl
      | true =>
        have hdeep : jsonDeepEquals x y = .ok true := Deep.symm hky hb'
        exact hdeep.symm.trans hb
  · intro tx ty htx hty
    exact toOption_eq_of_iff fun b =>
      ⟨orderPredicate_equal_symm hcore hy hx hky hty htx, orderPredicate_equal_symm hcore hx hy hkx htx hty⟩

/-- Equality of documents is transitive.  A document equals itself, and whatever it is compared with in
either order, just where none of its objects has a key twice. -/
theorem jsonDeepEquals_equivalence_iff (hcore : core.FormatsShortly) (x : JsonVal core.Double)
    (hx : FiniteReals x) :
    (Deep x x ∧ (∀ y, FiniteReals y → DistinctKeys y → EqualsAlike x y) ∧
      ∀ y z, Deep x y → Deep y z → Deep x z) ↔ DistinctKeys x := by
  constructor
  · rintro ⟨hself, halike, -⟩
    obtain ⟨w, hw, hkeys, hdeep⟩ := exists_repaired hx hself
    exact hkeys.of_deep ((halike w hw hkeys).1.trans hdeep)
  · intro hkeys
    exact ⟨Deep.refl hcore hx hkeys, fun y hy hky => equalsAlike_of_distinct hcore hx hy hkeys hky,
      fun y z hxy hyz => hxy.trans hyz⟩

end

/-- An engine with two doubles, 1.5 and one that is not a number, for two texts. -/
def duplicateCore : Core where
  Double := Bool
  Float := Bool
  toDouble := id
  isFinite := id
  formatDouble d := if d then bytesOf "1.5" else bytesOf "nan"
  stringToJsonNoError text :=
    if text = bytesOf "\x7b\"a\":null,\"a\":null\x7d" then
      some (.obj [(bytesOf "a", .null), (bytesOf "a", .null)])
    else if text = bytesOf "\x7b\"a\":null,\"b\":1.5\x7d" then
      some (.obj [(bytesOf "a", .null), (bytesOf "b", .num (.real true))])
    else none
  ListValue := Empty
  jsonToString := Empty.elim

def repeatedKey : JsonVal duplicateCore.Double := .obj [(bytesOf "a", .null), (bytesOf "a", .null)]

def twoKeys : JsonVal duplicateCore.Double :=
  .obj [(bytesOf "a", .null), (bytesOf "b", .num (.real true))]

/-- The member `b` is never looked at from the left; from the right `_GQL_EQ` throws. -/
theorem repeated_key_asymmetric :
    let x : GqlValue duplicateCore := .json (bytesOf "\x7b\"a\":null,\"a\":null\x7d")
    let y : GqlValue duplicateCore := .json (bytesOf "\x7b\"a\":null,\"b\":1.5\x7d")
    jsonDeepEquals repeatedKey twoKeys = .ok true ∧ jsonDeepEquals twoKeys repeatedKey = .ok false ∧
      orderPredicate .EQ x y = .ok true ∧
      orderPredicate .EQ y x = .error (objectsUnordered orderPredicatePrefix) :=
  ⟨rfl, rfl, rfl, rfl⟩

/-- 1.5 -/
def oneAndHalf : DecimalToken where
  sign := none
  int := bytesOf "1"
  frac := some (bytesOf "5")
  exponent := none
  sign_ok := no_sign_ok
  int_ok := one_ok
  frac_ok := fun f hf => by
    rw [← some.inj hf]
    decide

theorem duplicateCore_formatsShortly : duplicateCore.FormatsShortly := by
  refine ⟨fun d hd => ⟨oneAndHalf, ?_, by decide, by decide, fun e he => by cases he⟩⟩
  have htrue : d = true := hd
  rw [htrue]
  rfl

theorem twoKeys_finite : FiniteReals twoKeys := by
  refine .obj fun m hm => ?_
  rcases mem_cons.mp hm with rfl | hm
  · exact .null
  · rw [mem_singleton.mp hm]
    refine .num fun d hd => ?_
    cases hd
    rfl

theorem twoKeys_distinct : DistinctKeys twoKeys := by
  refine .obj (by decide) fun m hm => ?_
  rcases mem_cons.mp hm with rfl | hm
  · exact .null
  · rw [mem_singleton.mp hm]
    exact .num _

theorem jsonDeepEquals_equivalence_two : Deep twoKeys twoKeys ∧
    (∀ y, FiniteReals y → DistinctKeys y → EqualsAlike twoKeys y) ∧
      ∀ y z, Deep twoKeys y → Deep y z → Deep twoKeys z :=
  (jsonDeepEquals_equivalence_iff duplicateCore_formatsShortly twoKeys twoKeys_finite).mpr
    twoKeys_distinct

end Ladybug.Gql
