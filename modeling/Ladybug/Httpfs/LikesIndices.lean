import Ladybug.Base.CheckedReads
import Ladybug.Httpfs.S3Likes

/-!
# `likes` over its two indices (`httpfs/src/s3fs.cpp`)

The code walks over the string and the pattern with an index into each.  Every read is checked
here, so that a result also says that nothing was read outside them.  The ends of a range are compared
as `char`, which is signed.
-/

namespace Ladybug.S3Glob

open Globs Bytes List Except

def skipAsterisksAt (pattern : Bytes) (pidx : Nat) : Except Stop Nat :=
  if _h : pidx < pattern.length then do
    let p ← readByte pattern pidx
    if p = asterisk then skipAsterisksAt pattern (pidx + 1) else return pidx
  else return pidx
termination_by pattern.length - pidx

/-- The loop of `parse_bracket`: `found_match` and the index after the bracket, or `none` where it
ends without a closing bracket. -/
def bracketLoopAt (pattern : Bytes) (s : UInt8) (invert : Bool) (startPos : Nat)
    (foundMatch : Bool) (pidx : Nat) : Except Stop (Option (Bool × Nat)) :=
  if _h : pidx < pattern.length then do
    let p ← readByte pattern pidx
    if p = closeBracket ∧ startPos < pidx then return some (foundMatch, pidx + 1)
    else if pidx + 1 = pattern.length then return none
    else
      let next ← readByte pattern (pidx + 1)
      if next = dash then
        if pidx + 2 = pattern.length then return none
        else
          let nextChar ← readByte pattern (pidx + 2)
          let matched := charLe p s && charLe s nextChar
          bracketLoopAt pattern s invert startPos
            (if foundMatch == invert && matched then !invert else foundMatch) (pidx + 3)
      else
        bracketLoopAt pattern s invert startPos
          (if foundMatch == invert && p == s then !invert else foundMatch) (pidx + 1)
  else return none
termination_by pattern.length - pidx

def parseBracketAt (string pattern : Bytes) (sidx pidx : Nat) : Except Stop (Option Nat) :=
  if pidx = pattern.length then return none
  else do
    let p ← readByte pattern pidx
    let s ← readByte string sidx
    let invert := p == exclamation
    let pidx := if invert then pidx + 1 else pidx
    match ← bracketLoopAt pattern s invert pidx invert pidx with
    | some (true, pidx) => return some pidx
    | _ => return none

/-- `main_loop`; a recursive call gets the rest of the string and of the pattern. -/
def likesAt : (fuel : Nat) → (string pattern : Bytes) → (sidx pidx : Nat) → Except Stop Bool
  | 0, _, _, _, _ => .error .diverged
  | fuel + 1, string, pattern, sidx, pidx =>
    if sidx < string.length ∧ pidx < pattern.length then do
      let s ← readByte string sidx
      let p ← readByte pattern pidx
      if p = asterisk then
        let pidx ← skipAsterisksAt pattern (pidx + 1)
        if pidx = pattern.length then return true
        else
          (List.range' sidx (string.length - sidx)).anyM fun sidx =>
            likesAt fuel (string.drop sidx) (pattern.drop pidx) 0 0
      else if p = anyCharacter then likesAt fuel string pattern (sidx + 1) (pidx + 1)
      else if p = openBracket then
        match ← parseBracketAt string pattern sidx (pidx + 1) with
        | some pidx => likesAt fuel string pattern (sidx + 1) pidx
        | none => return false
      else if p = backslash then
        if pidx + 1 = pattern.length then return false
        else
          let p ← readByte pattern (pidx + 1)
          if s ≠ p then return false else likesAt fuel string pattern (sidx + 1) (pidx + 2)
      else
        if s ≠ p then return false else likesAt fuel string pattern (sidx + 1) (pidx + 1)
    else do
      let pidx ← skipAsterisksAt pattern pidx
      return pidx == pattern.length && sidx == string.length

theorem readByte_drop {b : Bytes} {i : Nat} (h : i < b.length) :
    ∃ x, readByte b i = .ok x ∧ b.drop i = x :: b.drop (i + 1) := by
  refine ⟨b[i], ?_, drop_eq_getElem_cons h⟩
  unfold readByte
  rw [getElem?_eq_getElem h]

variable {α : Type} {l : List α} {pattern : Bytes} {pidx : Nat}

theorem anyM_ok {f : α → Except Stop Bool} {g : α → Bool} (h : ∀ x ∈ l, f x = .ok (g x)) :
    l.anyM f = .ok (l.any g) := by
  induction l with
  | nil => rfl
  | cons x l ih =>
    have hrest := ih fun y hy => h y (mem_cons_of_mem x hy)
    rw [anyM, h x mem_cons_self, any_cons]
    cases hx : g x with
    | true => rfl
    | false => exact hrest

theorem suffixes_drop (l : List α) (n : Nat) :
    suffixes (l.drop n) = (range' n (l.length - n)).map fun i => l.drop i := by
  induction hk : l.length - n generalizing n with
  | zero =>
    rw [drop_of_length_le (by omega)]
    rfl
  | succ k ih =>
    have hn : n < l.length := by omega
    rw [range'_succ, map_cons, ← ih (n + 1) (by omega), drop_eq_getElem_cons hn]
    rfl

theorem isEmpty_drop {n : Nat} (h : n ≤ l.length) : (l.drop n).isEmpty = (n == l.length) := by
  rw [Bool.eq_iff_iff, List.isEmpty_iff, drop_eq_nil_iff, beq_iff_eq]
  omega

theorem skipAsterisksAt_ok (h : pidx ≤ pattern.length) :
    ∃ after, skipAsterisksAt pattern pidx = .ok after ∧ pidx ≤ after ∧ after ≤ pattern.length ∧
      skipAsterisks (pattern.drop pidx) = pattern.drop after := by
  induction hk : pattern.length - pidx generalizing pidx with
  | zero =>
    refine ⟨pidx, ?_, Nat.le_refl _, h, ?_⟩
    · unfold skipAsterisksAt
      rw [dif_neg (by omega)]
      rfl
    · rw [drop_of_length_le (by omega)]
      rfl
  | succ k ih =>
    have hlt : pidx < pattern.length := by omega
    obtain ⟨p, hp, hdrop⟩ := readByte_drop hlt
    unfold skipAsterisksAt
    rw [dif_pos hlt, hp, hdrop]
    by_cases hstar : p = asterisk
    · obtain ⟨after, hafter, hle, hlen, hskip⟩ := @ih (pidx + 1) hlt (by omega)
      refine ⟨after, ?_, by omega, hlen, ?_⟩
      · show (if p = asterisk then skipAsterisksAt pattern (pidx + 1) else _) = _
        rw [if_pos hstar, hafter]
      · rw [← hskip]
        exact dropWhile_cons_of_pos (by simpa using hstar)
    · refine ⟨pidx, ?_, Nat.le_refl _, h, ?_⟩
      · show (if p = asterisk then _ else ok pidx) = _
        rw [if_neg hstar]
      · rw [hdrop]
        exact dropWhile_cons_of_neg (by simpa using hstar)

/-- The result of the loop over the rest of the pattern, its index turned into a rest. -/
def afterBracket (pattern : Bytes) (r : Bool × Nat) : Bool × Bytes := (r.1, pattern.drop r.2)

theorem bracketLoopAt_ok (pattern : Bytes) (s : UInt8) (invert : Bool) {startPos : Nat}
    (found : Bool) (hstart : startPos ≤ pidx) :
    ∃ r, bracketLoopAt pattern s invert startPos found pidx = .ok r ∧
      bracketLoop s invert (decide (pidx = startPos)) found (pattern.drop pidx)
        = r.map (afterBracket pattern) ∧
      ∀ after, r = some after → pidx < after.2 ∧ after.2 ≤ pattern.length := by
  induction hk : pattern.length - pidx using Nat.strong_induction_on generalizing found pidx with
  | _ k ih =>
    unfold bracketLoopAt
    by_cases hlt : pidx < pattern.length
    · rw [dif_pos hlt]
      obtain ⟨p, hp, hdrop⟩ := readByte_drop hlt
      rw [hp, hdrop, bracketLoop.eq_def]
      simp only [decide_eq_false_iff_not]
      by_cases hclose : p = closeBracket ∧ startPos < pidx
      · refine ⟨some (found, pidx + 1), ?_, ?_, ?_⟩
        · show (if p = closeBracket ∧ startPos < pidx then _ else _) = _
          rw [if_pos hclose]
          rfl
        · rw [if_pos ⟨hclose.1, by omega⟩]
          rfl
        · intro after h
          cases h
          exact ⟨Nat.lt_succ_self _, hlt⟩
      · have hliteral : ¬ (p = closeBracket ∧ pidx ≠ startPos) := by
          intro h
          exact hclose ⟨h.1, by omega⟩
        rw [if_neg hliteral]
        -- the decision falls with the character behind this one, where there is one
        show ∃ r, (if p = closeBracket ∧ startPos < pidx then _ else _) = _ ∧ _
        rw [if_neg hclose]
        by_cases hlast : pidx + 1 = pattern.length
        · refine ⟨none, ?_, ?_, nofun⟩
          · rw [if_pos hlast]
            rfl
          · rw [drop_of_length_le (by omega)]
            rfl
        · rw [if_neg hlast]
          obtain ⟨next, hnext, hdrop'⟩ := readByte_drop (b := pattern) (i := pidx + 1) (by omega)
          rw [hnext, hdrop']
          show ∃ r, (if next = dash then _ else _) = _ ∧ _
          by_cases hdash : next = dash
          · rw [if_pos hdash]
            simp only [if_pos hdash]
            by_cases hlast' : pidx + 2 = pattern.length
            · refine ⟨none, ?_, ?_, nofun⟩
              · rw [if_pos hlast']
                rfl
              · rw [drop_of_length_le (by omega)]
                rfl
            · rw [if_neg hlast']
              obtain ⟨nextChar, hnextChar, hdrop''⟩ :=
                readByte_drop (b := pattern) (i := pidx + 2) (by omega)
              rw [hnextChar, hdrop'']
              obtain ⟨r, hr, hloop, hafter⟩ := ih (pattern.length - (pidx + 3)) (by omega)
                (if found == invert && (charLe p s && charLe s nextChar) then !invert else found)
                (show startPos ≤ pidx + 3 by omega) rfl
              refine ⟨r, hr, ?_, ?_⟩
              · rw [← hloop, decide_eq_false (by omega)]
              · intro after h
                have hlt' := hafter after h
                omega
          · rw [if_neg hdash]
            simp only [if_neg hdash]
            obtain ⟨r, hr, hloop, hafter⟩ := ih (pattern.length - (pidx + 1)) (by omega)
              (if found == invert && p == s then !invert else found)
              (show startPos ≤ pidx + 1 by omega) rfl
            refine ⟨r, hr, ?_, ?_⟩
            · rw [← hloop, decide_eq_false (by omega), hdrop']
            · intro after h
              have hlt' := hafter after h
              omega
    · refine ⟨none, ?_, ?_, nofun⟩
      · rw [dif_neg hlt]
        rfl
      · rw [drop_of_length_le (by omega)]
        rfl

theorem parseBracketAt_ok {string : Bytes} {s : UInt8} {sidx : Nat}
    (hs : readByte string sidx = .ok s) (hp : pidx ≤ pattern.length) :
    ∃ r, parseBracketAt string pattern sidx pidx = .ok r ∧
      parseBracket s (pattern.drop pidx) = r.map pattern.drop ∧
      ∀ after, r = some after → pidx < after ∧ after ≤ pattern.length := by
  unfold parseBracketAt
  by_cases hlast : pidx = pattern.length
  · refine ⟨none, ?_, ?_, nofun⟩
    · rw [if_pos hlast]
      rfl
    · rw [drop_of_length_le (by omega)]
      rfl
  · rw [if_neg hlast]
    obtain ⟨p, hread, hdrop⟩ := readByte_drop (b := pattern) (i := pidx) (by omega)
    rw [hread, hs, hdrop]
    unfold parseBracket
    -- the index behind the exclamation mark
    have hstart : (if (p == exclamation) = true then pattern.drop (pidx + 1)
        else p :: pattern.drop (pidx + 1))
          = pattern.drop (if (p == exclamation) = true then pidx + 1 else pidx) := by
      split
      · rfl
      · exact hdrop.symm
    have hle : pidx ≤ if (p == exclamation) = true then pidx + 1 else pidx := by
      split
      · exact Nat.le_succ _
      · exact Nat.le_refl _
    obtain ⟨r, hr, hloop, hafter⟩ := bracketLoopAt_ok pattern s (p == exclamation)
      (p == exclamation) (Nat.le_refl (if (p == exclamation) = true then pidx + 1 else pidx))
    rw [decide_eq_true rfl] at hloop
    simp only [hstart, hloop]
    show ∃ r, (bracketLoopAt pattern s (p == exclamation)
      (if (p == exclamation) = true then pidx + 1 else pidx) (p == exclamation)
      (if (p == exclamation) = true then pidx + 1 else pidx) >>= _) = _ ∧ _
    rw [hr]
    cases r with
    | none => exact ⟨none, rfl, rfl, nofun⟩
    | some after =>
      obtain ⟨found, after⟩ := after
      cases found with
      | false => exact ⟨none, rfl, rfl, nofun⟩
      | true =>
        refine ⟨some after, rfl, rfl, ?_⟩
        intro i hi
        cases hi
        have hlt := (hafter _ rfl).1
        exact ⟨Nat.lt_of_le_of_lt hle hlt, (hafter _ rfl).2⟩

/-- With fuel for the rest of the pattern the code ends, has read nothing outside the strings and
gives the result for the rests of both. -/
theorem likesAt_ok (fuel : Nat) (string pattern : Bytes) (sidx pidx : Nat)
    (hs : sidx ≤ string.length) (hp : pidx ≤ pattern.length)
    (hfuel : pattern.length - pidx < fuel) :
    likesAt fuel string pattern sidx pidx = .ok (likes (string.drop sidx) (pattern.drop pidx)) := by
  induction fuel generalizing string pattern sidx pidx with
  | zero => omega
  | succ fuel ih =>
    unfold likesAt
    by_cases hin : sidx < string.length ∧ pidx < pattern.length
    · rw [if_pos hin]
      obtain ⟨s, hread, hsdrop⟩ := readByte_drop hin.1
      obtain ⟨p, hpread, hpdrop⟩ := readByte_drop hin.2
      rw [hread, hpread, hsdrop, hpdrop, likes.eq_def]
      show (if p = asterisk then _ else _) = _
      by_cases hstar : p = asterisk
      · -- the asterisk takes the characters up to one of the rests of the string
        simp only [if_pos hstar]
        obtain ⟨after, hafter, hle, hlen, hskip⟩ := skipAsterisksAt_ok hin.2
        rw [hafter, hskip, isEmpty_drop hlen]
        show (if after = pattern.length then _ else _) = _
        by_cases hlast : after = pattern.length
        · rw [if_pos hlast, beq_iff_eq.mpr hlast]
          rfl
        · have hrest := anyM_ok (f := fun i ↦ likesAt fuel (string.drop i) (pattern.drop after) 0 0)
            (g := fun i => likes (string.drop i) (pattern.drop after))
            (l := range' sidx (string.length - sidx)) fun i _ => by
              rw [ih _ _ 0 0 (Nat.zero_le _) (Nat.zero_le _) (by rw [length_drop]; omega)]
              rfl
          rw [if_neg hlast, hrest, beq_eq_false_iff_ne.mpr hlast, Bool.false_or, ← hsdrop,
            suffixes_drop, any_map]
          rfl
      · simp only [if_neg hstar]
        by_cases hany : p = anyCharacter
        · simp only [if_pos hany]
          exact ih string pattern _ _ hin.1 hin.2 (by omega)
        · simp only [if_neg hany]
          by_cases hbracket : p = openBracket
          · simp only [if_pos hbracket]
            obtain ⟨r, hr, hparse, hafter⟩ := parseBracketAt_ok hread hin.2
            rw [hr]
            split
            next rest hrest =>
              obtain ⟨after, rfl, rfl⟩ := Option.map_eq_some_iff.mp (hparse.symm.trans hrest)
              have hlt := hafter after rfl
              exact ih string pattern _ _ hin.1 hlt.2 (by omega)
            next hrest =>
              have hnone : r = none := Option.map_eq_none_iff.mp (hparse.symm.trans hrest)
              rw [hnone]
              rfl
          · simp only [if_neg hbracket]
            by_cases hbackslash : p = backslash
            · simp only [if_pos hbackslash]
              by_cases hlast : pidx + 1 = pattern.length
              · rw [if_pos hlast, drop_of_length_le (by omega)]
                rfl
              · obtain ⟨q, hqread, hqdrop⟩ :=
                  readByte_drop (b := pattern) (i := pidx + 1) (by omega)
                rw [if_neg hlast, hqread, hqdrop]
                show (if s ≠ q then _ else _) = _
                by_cases hsq : s = q
                · rw [if_neg (by simpa using hsq),
                    ih string pattern _ _ hin.1 (by omega : pidx + 2 ≤ _) (by omega)]
                  simp [hsq]
                · rw [if_pos hsq]
                  show ok false = ok (s == q && _)
                  rw [beq_eq_false_iff_ne.mpr hsq, Bool.false_and]
            · simp only [if_neg hbackslash]
              by_cases hsp : s = p
              · rw [if_neg (by simpa using hsp), ih string pattern _ _ hin.1 hin.2 (by omega),
                  beq_iff_eq.mpr hsp]
                rfl
              · rw [if_pos hsp, beq_eq_false_iff_ne.mpr hsp]
                rfl
    · rw [if_neg hin]
      obtain ⟨after, hafter, hle, hlen, hskip⟩ := skipAsterisksAt_ok hp
      rw [hafter]
      show ok (after == pattern.length && sidx == string.length) = _
      by_cases hend : sidx = string.length
      · rw [drop_of_length_le (by omega : string.length ≤ sidx), likes.eq_def]
        simp only [hskip, isEmpty_drop hlen, beq_iff_eq.mpr hend, Bool.and_true]
      · obtain ⟨s, _, hsdrop⟩ := readByte_drop (b := string) (i := sidx) (by omega)
        rw [hsdrop, drop_of_length_le (by omega : pattern.length ≤ pidx), likes.eq_def,
          beq_eq_false_iff_ne.mpr hend, Bool.and_false]

def likesBytes (string pattern : Bytes) : Except Stop Bool :=
  likesAt (pattern.length + 1) string pattern 0 0

/-- The code ends without a read outside the string or the pattern, and tells whether the string is one
of those that the pattern stands for. -/
def Decided (string pattern : Bytes) : Prop :=
  ∃ b, likesBytes string pattern = .ok b ∧ (b = true ↔ NameMatches byteLe pattern string)

/-- No bracket of the pattern is read differently where bytes are signed, or it matches nothing in both
readings. -/
def OrderIndependent (pattern : Bytes) : Prop :=
  ∀ parts, nameParts pattern = some parts →
    (∀ k, some k ∈ parts → ∀ s, k.Has charLe s ↔ k.Has byteLe s) ∨
      EmptyClass (CharClass.Has charLe) parts ∧ EmptyClass (CharClass.Has byteLe) parts

theorem likesBytes_ok (string pattern : Bytes) :
    likesBytes string pattern = .ok (likes string pattern) :=
  likesAt_ok _ string pattern 0 0 (Nat.zero_le _) (Nat.zero_le _) (Nat.lt_succ_self _)

theorem decided_iff (string pattern : Bytes) :
    Decided string pattern ↔ (NameMatches charLe pattern string ↔ NameMatches byteLe pattern string) := by
  unfold Decided
  rw [← likes_iff]
  constructor
  · rintro ⟨b, hb, hiff⟩
    rw [likesBytes_ok] at hb
    cases hb
    exact hiff
  · exact fun hiff => ⟨_, likesBytes_ok string pattern, hiff⟩

theorem nameMatches_of_parts {le : UInt8 → UInt8 → Bool} {parts : List (Option CharClass)}
    (hparts : nameParts pattern = some parts) (name : Bytes) :
    NameMatches le pattern name ↔ MatchesBy (CharClass.Has le) parts name := by
  unfold NameMatches
  simp [hparts]

theorem likesBytes_decides_iff (pattern : Bytes) :
    ((∀ string, Decided string pattern) ↔ OrderIndependent pattern) ∧
    (∀ string parts, nameParts pattern = some parts →
      (∀ k, some k ∈ parts → ∀ s ∈ string, k.Has charLe s ↔ k.Has byteLe s) →
        Decided string pattern) ∧
    ∀ string, ∃ b, likesBytes string pattern = .ok b := by
  refine ⟨?_, ?_, fun string => ⟨_, likesBytes_ok string pattern⟩⟩
  · unfold OrderIndependent
    simp only [decided_iff]
    cases hparts : nameParts pattern with
    | none => simp [NameMatches, hparts]
    | some parts =>
      simp only [nameMatches_of_parts hparts, Option.some.injEq, forall_eq']
      exact matchesBy_same_iff
  · intro string parts hparts hagree
    rw [decided_iff, nameMatches_of_parts hparts, nameMatches_of_parts hparts]
    exact matchesBy_congr hagree

/-- A range from a letter to the last byte has no byte at all. -/
theorem likes_signed_range : likesBytes [0x80] [openBracket, 0x61, dash, 0xff, closeBracket] = .ok false ∧
    NameMatches byteLe [openBracket, 0x61, dash, 0xff, closeBracket] [0x80] := by
  have hparts : nameParts [openBracket, 0x61, dash, 0xff, closeBracket] =
      some [some (.set false [(0x61, 0xff)])] := by
    rw [nameParts_bracket, show bracket [0x61, dash, 0xff, closeBracket] =
      some (.set false [(0x61, 0xff)], []) by decide, Option.bind_some, nameParts.eq_def]
    rfl
  constructor
  · rw [likesBytes_ok, ok.injEq, Bool.eq_false_iff, ne_eq, likes_iff,
      nameMatches_of_parts hparts]
    intro h
    obtain ⟨x, rest, heq, hx, -⟩ := matchesBy_cons.mp h
    cases heq
    exact absurd hx (by unfold CharClass.Has; decide)
  · rw [nameMatches_of_parts hparts]
    exact matchesBy_cons.mpr ⟨_, _, rfl, by unfold CharClass.Has; decide, .nil⟩

theorem toInt8_toInt (a : UInt8) :
    a.toInt8.toInt = if a < 128 then (a.toNat : Int) else a.toNat - 256 := by
  have h := a.toNat_lt
  show BitVec.toInt a.toBitVec = _
  rw [BitVec.toInt_eq_toNat_cond]
  simp only [UInt8.lt_iff_toNat_lt, UInt8.toNat_toBitVec, UInt8.reduceToNat]
  split <;> split <;> omega

/-- A range within the ASCII bytes, or within the others, is the same in both orders. -/
theorem range_of_half {a b : UInt8} (h : a < 128 ↔ b < 128) (s : UInt8) :
    (charLe a s = true ∧ charLe s b = true) ↔ byteLe a s = true ∧ byteLe s b = true := by
  unfold charLe byteLe
  simp only [toInt8_toInt, decide_eq_true_eq, UInt8.le_iff_toNat_le, UInt8.lt_iff_toNat_lt,
    UInt8.reduceToNat] at h ⊢
  have ha := a.toNat_lt
  have hb := b.toNat_lt
  have hs := s.toNat_lt
  split_ifs <;> omega

theorem orderIndependent_of_halves {pattern : Bytes}
    (h : ∀ parts negated found, nameParts pattern = some parts → some (.set negated found) ∈ parts →
      ∀ range ∈ found, range.1 < 128 ↔ range.2 < 128) : OrderIndependent pattern := by
  intro parts hparts
  left
  intro k hk s
  cases k with
  | any | letter => exact Iff.rfl
  | set negated found =>
    have hin : InRanges charLe found s ↔ InRanges byteLe found s :=
      exists_congr fun range => and_congr_right fun hrange =>
        range_of_half (h parts negated found hparts hk range hrange) s
    cases negated with
    | false => exact hin
    | true => exact not_congr hin

end Ladybug.S3Glob
