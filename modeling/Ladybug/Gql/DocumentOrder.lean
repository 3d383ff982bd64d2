import Ladybug.Gql.OrderBridge

/-!
# The order of documents

`compareJsonValues` may refuse a pair that holds objects.  Where it answers, its answers are those of a
total preorder; unless both operands are numbers the predicates give the same ones.
-/

namespace Ladybug.Gql

section

variable {core : Core}

theorem compareDecimalParts_eq {p q : DecimalParts} (hp : p.Normal) (hq : q.Normal) :
    compareDecimalParts p q = compare (numberKey p) (numberKey q) := by
  have h := compare_numberKey hp hq [] []
  rw [List.append_nil, List.append_nil] at h
  rw [h]
  exact Ordering.then_eq.symm

variable {errorPrefix : String} {m n : JsonNumber core.Double} {cmp' ab bc ac : Ordering}
  {operand l r : GqlOrderedOperand core}

variable {cmp : Ordering}

theorem compareDecimalTexts_key {l r : Bytes} (h : compareDecimalTexts l r errorPrefix = .ok cmp) :
    ∃ kl kr, numberSortKey l "" = .ok kl ∧ numberSortKey r "" = .ok kr ∧ cmp = compare kl kr := by
  obtain ⟨p, hp, h⟩ := bind_eq_ok.mp h
  obtain ⟨q, hq, h⟩ := bind_eq_ok.mp h
  refine ⟨numberKey p, numberKey q, numberSortKey_eq_ok.mpr ⟨p, normalizeDecimalText_anyPrefix hp "", rfl⟩,
    numberSortKey_eq_ok.mpr ⟨q, normalizeDecimalText_anyPrefix hq "", rfl⟩, ?_⟩
  rw [← compareDecimalParts_eq (normalizeDecimalText_normal hp) (normalizeDecimalText_normal hq)]
  exact (Except.ok.inj h).symm

theorem compareJsonNumbers_key (h : compareJsonNumbers core m n = .ok cmp) :
    ∃ km kn, elementSortKey "" (.num m) = .ok km ∧ elementSortKey "" (.num n) = .ok kn ∧
      cmp = compare km kn := by
  obtain ⟨text, htext, h⟩ := bind_eq_ok.mp h
  obtain ⟨text', htext', h⟩ := bind_eq_ok.mp h
  obtain ⟨km, kn, hkm, hkn, hcmp⟩ := compareDecimalTexts_key h
  refine ⟨km, kn, ?_, ?_, hcmp⟩
  · exact bind_eq_ok.mpr ⟨text, parsedNumberText_anyPrefix htext "", hkm⟩
  · exact bind_eq_ok.mpr ⟨text', parsedNumberText_anyPrefix htext' "", hkn⟩

theorem compare_swap (a b : Bytes) : compare b a = (compare a b).swap := Std.OrientedCmp.eq_swap

theorem compareJsonNumbers_swap (h : compareJsonNumbers core m n = .ok cmp)
    (h' : compareJsonNumbers core n m = .ok cmp') : cmp' = cmp.swap := by
  obtain ⟨km, kn, hkm, hkn, rfl⟩ := compareJsonNumbers_key h
  obtain ⟨kn', km', hkn', hkm', rfl⟩ := compareJsonNumbers_key h'
  rw [hkm] at hkm'
  rw [hkn] at hkn'
  cases hkm'
  cases hkn'
  exact compare_swap km kn

theorem compare_then_of_le {a b c : Bytes} (hab : compare a b ≠ .gt) (hbc : compare b c ≠ .gt) :
    compare a c = (compare a b).then (compare b c) := by
  cases hab' : compare a b with
  | gt => exact absurd hab' hab
  | eq => rw [Std.compare_eq_iff_eq.mp hab']; rfl
  | lt =>
    have hle : (compare b c).isLE = true := by
      cases hbc' : compare b c with
      | gt => exact absurd hbc' hbc
      | lt | eq => rfl
    exact Std.TransCmp.lt_of_lt_of_isLE hab' hle

theorem compareBools_swap (l r : Bool) : compareBools r l = (compareBools l r).swap := by
  cases l <;> cases r <;> rfl

theorem compareOperandTexts_swap (l r : Bytes) :
    compareOperandTexts r l = (compareOperandTexts l r).swap := by
  rw [compareOperandTexts_eq, compareOperandTexts_eq, compare_swap]

theorem compareNat_swap (m n : Nat) : compare n m = (compare m n).swap := Std.OrientedCmp.eq_swap

theorem compareJsonValues_obj {l r : List (Bytes × JsonVal core.Double)}
    (h : compareJsonValues (.obj l) (.obj r) = .ok cmp) : cmp = .eq := by
  obtain ⟨b, hb, h⟩ := bind_eq_ok.mp h
  cases b with
  | true => exact (Except.ok.inj h).symm
  | false => cases h

mutual

theorem compareJsonValues_swap (l r : JsonVal core.Double) {cmp cmp' : Ordering}
    (h : compareJsonValues l r = .ok cmp) (h' : compareJsonValues r l = .ok cmp') :
    cmp' = cmp.swap := by
  by_cases hrank : jsonRank l = jsonRank r
  · cases l with
    | null =>
      cases r with
      | null =>
        cases h
        cases h'
        rfl
      | _ => cases hrank
    | bool b =>
      cases r with
      | bool b' =>
        cases h
        cases h'
        exact compareBools_swap b b'
      | _ => cases hrank
    | arr ls =>
      cases r with
      | arr rs => exact compareElements_swap ls rs h h'
      | _ => cases hrank
    | str text =>
      cases r with
      | str text' =>
        cases h
        cases h'
        exact compareOperandTexts_swap text text'
      | _ => cases hrank
    | num m =>
      cases r with
      | num n => exact compareJsonNumbers_swap h h'
      | _ => cases hrank
    | obj members =>
      cases r with
      | obj members' =>
        rw [compareJsonValues_obj h, compareJsonValues_obj h']
        rfl
      | _ => cases hrank
  · rw [compareJsonValues_of_rank_ne hrank] at h
    rw [compareJsonValues_of_rank_ne (Ne.symm hrank)] at h'
    cases h
    cases h'
    exact compareNat_swap _ _

theorem compareElements_swap (ls rs : List (JsonVal core.Double)) {cmp cmp' : Ordering}
    (h : compareElements ls rs = .ok cmp) (h' : compareElements rs ls = .ok cmp') :
    cmp' = cmp.swap := by
  cases ls with
  | nil =>
    cases rs with
    | nil =>
      cases h
      cases h'
      rfl
    | cons r rs =>
      cases h
      cases h'
      exact compareNat_swap _ _
  | cons l ls =>
    cases rs with
    | nil =>
      cases h
      cases h'
      exact compareNat_swap _ _
    | cons r rs =>
      obtain ⟨head, hhead, h⟩ := bind_eq_ok.mp h
      obtain ⟨head', hhead', h'⟩ := bind_eq_ok.mp h'
      have hswap := compareJsonValues_swap l r hhead hhead'
      cases head with
      | eq =>
        rw [hswap] at h'
        exact compareElements_swap ls rs h h'
      | lt | gt =>
        rw [hswap] at h'
        cases h
        cases h'
        rfl

end

theorem compareJsonNumbers_trans {a b c : JsonNumber core.Double}
    (hab : compareJsonNumbers core a b = .ok ab) (hbc : compareJsonNumbers core b c = .ok bc)
    (hac : compareJsonNumbers core a c = .ok ac) (h₁ : ab ≠ .gt) (h₂ : bc ≠ .gt) :
    ac = ab.then bc := by
  obtain ⟨ka, kb, hka, hkb, rfl⟩ := compareJsonNumbers_key hab
  obtain ⟨kb', kc, hkb', hkc, rfl⟩ := compareJsonNumbers_key hbc
  obtain ⟨ka', kc', hka', hkc', rfl⟩ := compareJsonNumbers_key hac
  rw [hka] at hka'
  rw [hkb] at hkb'
  rw [hkc] at hkc'
  cases hka'
  cases hkb'
  cases hkc'
  exact compare_then_of_le h₁ h₂

theorem compareBools_trans (a b c : Bool) (h₁ : compareBools a b ≠ .gt)
    (h₂ : compareBools b c ≠ .gt) : compareBools a c = (compareBools a b).then (compareBools b c) := by
  revert h₁ h₂
  cases a <;> cases b <;> cases c <;> decide

theorem compareJsonValues_rank {l r : JsonVal core.Double} (h : compareJsonValues l r = .ok cmp)
    (hne : cmp ≠ .gt) : jsonRank l ≤ jsonRank r := by
  by_cases hrank : jsonRank l = jsonRank r
  · exact hrank.le
  · rw [compareJsonValues_of_rank_ne hrank] at h
    cases h
    rw [Ne, Nat.compare_eq_gt] at hne
    omega

theorem compareJsonValues_trans_rank {a b c : JsonVal core.Double}
    (hab : compareJsonValues a b = .ok ab) (hbc : compareJsonValues b c = .ok bc)
    (hac : compareJsonValues a c = .ok ac) (h₁ : ab ≠ .gt) (h₂ : bc ≠ .gt)
    (hrank : jsonRank a ≠ jsonRank b ∨ jsonRank b ≠ jsonRank c) : ac = ab.then bc := by
  have hle := compareJsonValues_rank hab h₁
  have hle' := compareJsonValues_rank hbc h₂
  have hne : jsonRank a ≠ jsonRank c := by omega
  rw [compareJsonValues_of_rank_ne hne, Nat.compare_eq_lt.mpr (by omega)] at hac
  cases hac
  by_cases hab' : jsonRank a = jsonRank b
  · have hne' : jsonRank b ≠ jsonRank c := by omega
    rw [compareJsonValues_of_rank_ne hne', Nat.compare_eq_lt.mpr (by omega)] at hbc
    cases hbc
    cases ab with
    | lt | eq => rfl
    | gt => exact absurd rfl h₁
  · rw [compareJsonValues_of_rank_ne hab', Nat.compare_eq_lt.mpr (by omega)] at hab
    cases hab
    rfl

mutual

theorem compareJsonValues_trans (a b c : JsonVal core.Double) {ab bc ac : Ordering}
    (hab : compareJsonValues a b = .ok ab) (hbc : compareJsonValues b c = .ok bc)
    (hac : compareJsonValues a c = .ok ac) (h₁ : ab ≠ .gt) (h₂ : bc ≠ .gt) : ac = ab.then bc := by
  by_cases hrank : jsonRank a ≠ jsonRank b ∨ jsonRank b ≠ jsonRank c
  · exact compareJsonValues_trans_rank hab hbc hac h₁ h₂ hrank
  · rw [not_or, not_not, not_not] at hrank
    obtain ⟨hrank, hrank'⟩ := hrank
    cases a with
    | null =>
      cases b with
      | null =>
        cases hab
        rw [hbc] at hac
        cases hac
        rfl
      | _ => cases hrank
    | bool x =>
      cases b with
      | bool y =>
        cases c with
        | bool z =>
          cases hab
          cases hbc
          cases hac
          exact compareBools_trans x y z h₁ h₂
        | _ => cases hrank'
      | _ => cases hrank
    | arr as =>
      cases b with
      | arr bs =>
        cases c with
        | arr cs => exact compareElements_trans as bs cs hab hbc hac h₁ h₂
        | _ => cases hrank'
      | _ => cases hrank
    | str x =>
      cases b with
      | str y =>
        cases c with
        | str z =>
          cases hab
          cases hbc
          cases hac
          rw [compareOperandTexts_eq] at h₁ h₂
          rw [compareOperandTexts_eq, compareOperandTexts_eq, compareOperandTexts_eq]
          exact compare_then_of_le h₁ h₂
        | _ => cases hrank'
      | _ => cases hrank
    | num x =>
      cases b with
      | num y =>
        cases c with
        | num z => exact compareJsonNumbers_trans hab hbc hac h₁ h₂
        | _ => cases hrank'
      | _ => cases hrank
    | obj x =>
      cases b with
      | obj y =>
        cases c with
        | obj z =>
          rw [compareJsonValues_obj hab, compareJsonValues_obj hbc, compareJsonValues_obj hac]
          rfl
        | _ => cases hrank'
      | _ => cases hrank

theorem compareElements_trans (as bs cs : List (JsonVal core.Double)) {ab bc ac : Ordering}
    (hab : compareElements as bs = .ok ab) (hbc : compareElements bs cs = .ok bc)
    (hac : compareElements as cs = .ok ac) (h₁ : ab ≠ .gt) (h₂ : bc ≠ .gt) : ac = ab.then bc := by
  have hend : ∀ (e : JsonVal core.Double) (es : List (JsonVal core.Double)),
      compareElements [] (e :: es) = .ok .lt ∧ compareElements (e :: es) [] = .ok .gt := by
    intro e es
    have hlt : compare 0 (es.length + 1) = .lt := Nat.compare_eq_lt.mpr (by omega)
    have hgt : compare (es.length + 1) 0 = .gt := Nat.compare_eq_gt.mpr (by omega)
    exact ⟨congrArg Except.ok hlt, congrArg Except.ok hgt⟩
  cases as with
  | nil =>
    cases bs with
    | nil =>
      cases hab
      rw [hbc] at hac
      cases hac
      rfl
    | cons b bs =>
      rw [(hend b bs).1] at hab
      cases hab
      cases cs with
      | nil =>
        rw [(hend b bs).2] at hbc
        cases hbc
        exact absurd rfl h₂
      | cons c cs =>
        rw [(hend c cs).1] at hac
        cases hac
        rfl
  | cons a as =>
    cases bs with
    | nil =>
      rw [(hend a as).2] at hab
      cases hab
      exact absurd rfl h₁
    | cons b bs =>
      cases cs with
      | nil =>
        rw [(hend b bs).2] at hbc
        cases hbc
        exact absurd rfl h₂
      | cons c cs =>
        obtain ⟨headAB, hheadAB, hab⟩ := bind_eq_ok.mp hab
        obtain ⟨headBC, hheadBC, hbc⟩ := bind_eq_ok.mp hbc
        obtain ⟨headAC, hheadAC, hac⟩ := bind_eq_ok.mp hac
        have hneAB : headAB ≠ .gt := by
          intro hgt
          rw [hgt] at hab
          cases hab
          exact h₁ rfl
        have hneBC : headBC ≠ .gt := by
          intro hgt
          rw [hgt] at hbc
          cases hbc
          exact h₂ rfl
        have hhead := compareJsonValues_trans a b c hheadAB hheadBC hheadAC hneAB hneBC
        -- the first elements decide unless all three are equal
        cases headAB with
        | gt => exact absurd rfl hneAB
        | lt =>
          rw [hhead] at hac
          cases hab
          cases hac
          rfl
        | eq =>
          cases headBC with
          | gt => exact absurd rfl hneBC
          | lt =>
            rw [hhead] at hac
            cases hbc
            cases hac
            cases ab with
            | lt | eq => rfl
            | gt => exact absurd rfl h₁
          | eq =>
            rw [hhead] at hac
            exact compareElements_trans as bs cs hab hbc hac h₁ h₂

end

theorem classifyParsedJson_rank {root : JsonVal core.Double} {token : Bytes}
    (h : classifyParsedJson root token errorPrefix = .ok operand) :
    operand.rank = jsonRank root := by
  cases root with
  | num n =>
    unfold classifyParsedJson at h
    simp only at h
    split at h
    · obtain ⟨parts, _, h⟩ := bind_eq_ok.mp h
      cases h
      rfl
    · cases htext : parsedNumberText core n errorPrefix with
      | error e => rw [htext] at h; cases h
      | ok text => rw [htext] at h; cases h; rfl
  | _ => cases h; rfl

theorem compareJsonValues_of_operands {u v : JsonVal core.Double} {x y : Bytes}
    (hl : classifyParsedJson u x errorPrefix = .ok l)
    (hr : classifyParsedJson v y errorPrefix = .ok r) (hnum : ¬(jsonRank u = 4 ∧ jsonRank v = 4))
    (h : compareOrderedOperands l r errorPrefix = .ok cmp) : compareJsonValues u v = .ok cmp := by
  have hlrank := classifyParsedJson_rank hl
  have hrrank := classifyParsedJson_rank hr
  by_cases hrank : jsonRank u = jsonRank v
  · cases u with
    | null =>
      cases v with
      | null => cases hl; cases hr; exact h
      | _ => cases hrank
    | bool b =>
      cases v with
      | bool b' => cases hl; cases hr; exact h
      | _ => cases hrank
    | arr ls =>
      cases v with
      | arr rs =>
        cases hl
        cases hr
        cases hvalues : compareJsonValues (.arr ls) (.arr rs) with
        | error e =>
          unfold compareOrderedOperands at h
          simp only [hvalues] at h
          cases h
        | ok cmpValues =>
          unfold compareOrderedOperands at h
          simp only [hvalues] at h
          exact h
      | _ => cases hrank
    | str text =>
      cases v with
      | str text' => cases hl; cases hr; exact h
      | _ => cases hrank
    | num m => exact absurd ⟨rfl, hrank.symm⟩ hnum
    | obj ls =>
      cases v with
      | obj rs =>
        cases hl
        cases hr
        obtain ⟨b, hb, h⟩ := bind_eq_ok.mp h
        cases b with
        | false => cases h
        | true =>
          exact bind_eq_ok.mpr ⟨true, hb, h⟩
      | _ => cases hrank
  · rw [compareJsonValues_of_rank_ne hrank, ← hlrank, ← hrrank]
    rw [compareOrderedOperands_of_rank_ne (by rw [hlrank, hrrank]; exact hrank)] at h
    exact h

theorem compareOrderedOperands_swap (h : compareOrderedOperands l r errorPrefix = .ok cmp)
    (h' : compareOrderedOperands r l errorPrefix = .ok cmp') : cmp' = cmp.swap := by
  by_cases hrank : l.rank = r.rank
  · cases l with
    | null =>
      cases r with
      | null => cases h; cases h'; rfl
      | _ => cases hrank
    | bool b =>
      cases r with
      | bool b' =>
        cases h
        cases h'
        exact compareBools_swap b b'
      | _ => cases hrank
    | array ls =>
      cases r with
      | array rs =>
        unfold compareOrderedOperands at h h'
        cases hvalues : compareJsonValues (.arr ls) (.arr rs) with
        | error e => simp only [hvalues] at h; cases h
        | ok cmpValues =>
          cases hvalues' : compareJsonValues (.arr rs) (.arr ls) with
          | error e => simp only [hvalues'] at h'; cases h'
          | ok cmpValues' =>
            simp only [hvalues] at h
            simp only [hvalues'] at h'
            cases h
            cases h'
            exact compareJsonValues_swap _ _ hvalues hvalues'
      | _ => cases hrank
    | string text =>
      cases r with
      | string text' =>
        cases h
        cases h'
        exact compareOperandTexts_swap text text'
      | _ => cases hrank
    | number text =>
      cases r with
      | number text' =>
        obtain ⟨kl, kr, hkl, hkr, rfl⟩ := compareDecimalTexts_key h
        obtain ⟨kr', kl', hkr', hkl', rfl⟩ := compareDecimalTexts_key h'
        rw [hkl] at hkl'
        rw [hkr] at hkr'
        cases hkl'
        cases hkr'
        exact compare_swap kl kr
      | _ => cases hrank
    | object members =>
      cases r with
      | object members' =>
        obtain ⟨b, _, h⟩ := bind_eq_ok.mp h
        obtain ⟨b', _, h'⟩ := bind_eq_ok.mp h'
        cases b with
        | false => cases h
        | true =>
          cases b' with
          | false => cases h'
          | true => cases h; cases h'; rfl
      | _ => cases hrank
  · rw [compareOrderedOperands_of_rank_ne hrank] at h
    rw [compareOrderedOperands_of_rank_ne (Ne.symm hrank)] at h'
    cases h
    cases h'
    exact compareNat_swap _ _

theorem number_of_rank (h : operand.rank = 4) : ∃ text, operand = .number text := by
  cases operand with
  | number text => exact ⟨text, rfl⟩
  | _ => cases h

theorem num_of_rank {root : JsonVal core.Double} (h : jsonRank root = 4) : ∃ n, root = .num n := by
  cases root with
  | num n => exact ⟨n, rfl⟩
  | _ => cases h

end

end Ladybug.Gql
