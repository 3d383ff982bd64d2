import Ladybug.Base.Globs
import Ladybug.Base.Markup

/-!
# Patterns of names (`httpfs/src/s3fs.cpp`, `likes` and `match`)

A segment of a path is matched by characters, with `*`, `?`, brackets and a backslash in front of a
literal character.  The segments are matched one by one, and `**` stands for any number of them.
-/

namespace Ladybug.S3Glob

open Markup Globs List Option

/-! ## 1. `likes` -/

def asterisk : UInt8 := '*'.toUInt8

def anyCharacter : UInt8 := '?'.toUInt8

def openBracket : UInt8 := '['.toUInt8

def closeBracket : UInt8 := ']'.toUInt8

def backslash : UInt8 := '\\'.toUInt8

def dash : UInt8 := '-'.toUInt8

def exclamation : UInt8 := '!'.toUInt8

/-- The order of the code's `char`. -/
def charLe (a b : UInt8) : Bool := decide (a.toInt8.toInt ≤ b.toInt8.toInt)

/-- The loop inside a bracket: `found_match` at its end and the pattern after the bracket, or
`none` where no bracket closes. -/
def bracketLoop (s : UInt8) (invert : Bool) : (start found : Bool) → Bytes → Option (Bool × Bytes)
  | _, _, [] => none
  | start, found, p :: rest =>
    -- the first character is literal, also where it is a closing bracket
    if p = closeBracket ∧ start = false then some (found, rest)
    else
      match rest with
      | [] => none
      | next :: rest' =>
        if next = dash then
          match rest' with
          | [] => none
          | nextChar :: rest'' =>
            let matched := charLe p s && charLe s nextChar
            bracketLoop s invert false
              (if found == invert && matched then !invert else found) rest''
        else
          bracketLoop s invert false
            (if found == invert && p == s then !invert else found) (next :: rest')

def parseBracket (s : UInt8) (pattern : Bytes) : Option Bytes :=
  match pattern with
  | [] => none
  | p :: rest =>
    let invert := p == exclamation
    match bracketLoop s invert true invert (if invert then rest else p :: rest) with
    | some (true, pattern) => some pattern
    | _ => none

theorem bracketLoop_shorter (s : UInt8) (invert : Bool) :
    ∀ (start found : Bool) (pattern : Bytes) (result : Bool × Bytes),
      bracketLoop s invert start found pattern = some result → result.2.length < pattern.length := by
  intro start found pattern
  fun_induction bracketLoop s invert start found pattern with
  | case1 => nofun
  | case2 start found p rest hclose =>
    intro result h
    cases h
    exact Nat.lt_succ_self _
  | case3 => nofun
  | case4 => nofun
  | case5 start found p _ nextChar rest matched ih =>
    intro result h
    have hlt := ih result h
    simp only [length_cons]
    omega
  | case6 start found p _ next rest hnext ih =>
    intro result h
    have hlt := ih result h
    simp only [length_cons] at hlt ⊢
    omega

variable {s p : UInt8} {pattern rest : Bytes}

theorem parseBracket_shorter (h : parseBracket s pattern = some rest) :
    rest.length < pattern.length := by
  cases pattern with
  | nil => cases h
  | cons p tail =>
    unfold parseBracket at h
    simp only at h
    split at h
    next after hloop =>
      cases h
      have hlt := bracketLoop_shorter s _ true _ _ _ hloop
      have hle : (if (p == exclamation) = true then tail else p :: tail).length
          ≤ tail.length + 1 := by
        split
        · exact Nat.le_succ _
        · exact Nat.le_refl _
      exact Nat.lt_of_lt_of_le hlt hle
    next => cases h

def skipAsterisks (pattern : Bytes) : Bytes := pattern.dropWhile (· == asterisk)

def likes (string pattern : Bytes) : Bool :=
  match string, pattern with
  | [], pattern => (skipAsterisks pattern).isEmpty
  | _ :: _, [] => false
  | s :: string, p :: pattern =>
    if p = asterisk then
      (skipAsterisks pattern).isEmpty ||
        (suffixes (s :: string)).any fun suffix => likes suffix (skipAsterisks pattern)
    else if p = anyCharacter then likes string pattern
    else if p = openBracket then
      match _h : parseBracket s pattern with
      | some pattern => likes string pattern
      | none => false
    else if p = backslash then
      match pattern with
      | [] => false
      | p :: pattern => s == p && likes string pattern
    else s == p && likes string pattern
termination_by pattern.length
decreasing_by
  · exact Nat.lt_succ_of_le (dropWhile_sublist _).length_le
  · exact Nat.lt_succ_self _
  · exact Nat.lt_succ_of_lt (parseBracket_shorter _h)
  · exact Nat.lt_succ_of_lt (Nat.lt_succ_self _)
  · exact Nat.lt_succ_self _

/-! ## 2. What a pattern means -/

/-- The ranges of a bracket, a character standing for the range of itself, and the pattern after
the bracket. -/
def ranges : (start : Bool) → Bytes → Option (List (UInt8 × UInt8) × Bytes)
  | _, [] => none
  | start, p :: rest =>
    if p = closeBracket ∧ start = false then some ([], rest)
    else
      match rest with
      | [] => none
      | next :: rest' =>
        if next = dash then
          match rest' with
          | [] => none
          | nextChar :: rest'' =>
            (ranges false rest'').map fun found => ((p, nextChar) :: found.1, found.2)
        else (ranges false (next :: rest')).map fun found => ((p, p) :: found.1, found.2)

def byteLe (a b : UInt8) : Bool := decide (a ≤ b)

def InRanges (le : UInt8 → UInt8 → Bool) (found : List (UInt8 × UInt8)) (s : UInt8) : Prop :=
  ∃ range ∈ found, le range.1 s = true ∧ le s range.2 = true

instance (le : UInt8 → UInt8 → Bool) (found : List (UInt8 × UInt8)) (s : UInt8) :
    Decidable (InRanges le found s) := inferInstanceAs (Decidable (∃ range ∈ found, _))

/-- What stands for one character of a name. -/
inductive CharClass where
  | any
  | letter (c : UInt8)
  | set (negated : Bool) (found : List (UInt8 × UInt8))
  deriving DecidableEq

/-- The characters of a class, where `le` orders those of a range. -/
def CharClass.Has (le : UInt8 → UInt8 → Bool) : CharClass → UInt8 → Prop
  | .any, _ => True
  | .letter c, s => s = c
  | .set false found, s => InRanges le found s
  | .set true found, s => ¬ InRanges le found s

def bracket (pattern : Bytes) : Option (CharClass × Bytes) :=
  match pattern with
  | [] => none
  | p :: rest =>
    if p = exclamation then (ranges true rest).map fun found => (.set true found.1, found.2)
    else (ranges true (p :: rest)).map fun found => (.set false found.1, found.2)

theorem ranges_shorter (start : Bool) (pattern : Bytes) :
    ∀ result, ranges start pattern = some result → result.2.length < pattern.length := by
  fun_induction ranges start pattern with
  | case1 => nofun
  | case2 start p rest hclose =>
    intro result h
    cases h
    exact Nat.lt_succ_self _
  | case3 => nofun
  | case4 => nofun
  | case5 start p _ nextChar rest ih =>
    intro result h
    obtain ⟨found, hfound, rfl⟩ := map_eq_some_iff.mp h
    have hlt := ih found hfound
    simp only [length_cons]
    omega
  | case6 start p _ next rest hnext ih =>
    intro result h
    obtain ⟨found, hfound, rfl⟩ := map_eq_some_iff.mp h
    have hlt := ih found hfound
    simp only [length_cons] at hlt ⊢
    omega

theorem bracket_shorter {k : CharClass} (h : bracket pattern = some (k, rest)) :
    rest.length < pattern.length := by
  cases pattern with
  | nil => cases h
  | cons p tail =>
    unfold bracket at h
    simp only at h
    split at h
    · obtain ⟨found, hfound, heq⟩ := map_eq_some_iff.mp h
      cases heq
      exact Nat.lt_succ_of_lt (ranges_shorter true _ found hfound)
    · obtain ⟨found, hfound, heq⟩ := map_eq_some_iff.mp h
      cases heq
      exact ranges_shorter true _ found hfound

/-- The classes of a segment's pattern, with none for a star; a bracket that is not closed and a last
backslash have no meaning. -/
def nameParts (pattern : Bytes) : Option (List (Option CharClass)) :=
  match pattern with
  | [] => some []
  | p :: pattern =>
    if p = asterisk then (nameParts pattern).map (none :: ·)
    else if p = anyCharacter then (nameParts pattern).map (some .any :: ·)
    else if p = openBracket then
      match _h : bracket pattern with
      | some (k, rest) => (nameParts rest).map (some k :: ·)
      | none => none
    else if p = backslash then
      match pattern with
      | [] => none
      | p :: pattern => (nameParts pattern).map (some (.letter p) :: ·)
    else (nameParts pattern).map (some (.letter p) :: ·)
termination_by pattern.length
decreasing_by
  · exact Nat.lt_succ_self _
  · exact Nat.lt_succ_self _
  · exact Nat.lt_succ_of_lt (bracket_shorter _h)
  · exact Nat.lt_succ_of_lt (Nat.lt_succ_self _)
  · exact Nat.lt_succ_self _

def NameMatches (le : UInt8 → UInt8 → Bool) (pattern name : Bytes) : Prop :=
  ∃ parts, nameParts pattern = some parts ∧ MatchesBy (CharClass.Has le) parts name

/-! ## 3. `likes` decides it -/

theorem inRanges_cons (a b s : UInt8) (found : List (UInt8 × UInt8)) :
    InRanges charLe ((a, b) :: found) s ↔ (charLe a s && charLe s b) = true ∨ InRanges charLe found s := by
  unfold InRanges
  simp

theorem charLe_self_iff (p s : UInt8) : (charLe p s && charLe s p) = (p == s) := by
  unfold charLe
  rw [Bool.eq_iff_iff]
  simp only [Bool.and_eq_true, decide_eq_true_eq, beq_iff_eq]
  constructor
  · intro h
    have hint : p.toInt8.toInt = s.toInt8.toInt := by omega
    have hchar := congrArg Int8.toUInt8 (Int8.toInt_inj.mp hint)
    simpa using hchar
  · rintro rfl
    omega

theorem turn_once (invert found matched : Bool) (P Q : Prop) [Decidable P] [Decidable Q]
    (hP : P ↔ matched = true ∨ Q) :
    (if (if (found == invert && matched) = true then !invert else found) = invert ∧ Q then !invert
      else if (found == invert && matched) = true then !invert else found)
      = if found = invert ∧ P then !invert else found := by
  cases matched with
  | false =>
    have hPQ : P ↔ Q := by simpa using hP
    simp [hPQ]
  | true =>
    have hPt : P := hP.mpr (.inl rfl)
    simp only [Bool.and_true, beq_iff_eq, hPt, and_true]
    cases found with
    | false | true => cases invert with
      | false => simp
      | true => simp

theorem bracketLoop_eq (s : UInt8) (invert start found : Bool) (pattern : Bytes) :
    bracketLoop s invert start found pattern = (ranges start pattern).map fun result =>
          (if found = invert ∧ InRanges charLe result.1 s then !invert else found, result.2) := by
  fun_induction bracketLoop s invert start found pattern with
  | case1 => rfl
  | case2 start found p rest hclose =>
    unfold ranges
    rw [if_pos hclose]
    simp [InRanges]
  | case3 start found p hclose =>
    unfold ranges
    rw [if_neg hclose]
    rfl
  | case4 start found p hclose =>
    unfold ranges
    rw [if_neg hclose]
    rfl
  | case5 start found p hclose nextChar rest matched ih =>
    conv_rhs => unfold ranges
    rw [if_neg hclose]
    simp only [if_pos, ih, Option.map_map]
    congr 1
    funext result
    exact congrArg (·, result.2) (turn_once invert found matched _ _ (inRanges_cons p nextChar s _))
  | case6 start found p hclose next rest hnext ih =>
    conv_rhs => unfold ranges
    rw [if_neg hclose]
    simp only [if_neg hnext, ih, Option.map_map]
    congr 1
    funext result
    exact congrArg (·, result.2) (turn_once invert found (p == s) _ _
      (by rw [inRanges_cons, charLe_self_iff]))

theorem parseBracket_eq_some : parseBracket s pattern = some rest
      ↔ ∃ k, bracket pattern = some (k, rest) ∧ k.Has charLe s := by
  cases pattern with
  | nil => simp [parseBracket, bracket]
  | cons p tail =>
    unfold parseBracket bracket
    by_cases hp : p = exclamation
    · subst hp
      simp only [beq_self_eq_true, if_true, bracketLoop_eq]
      cases hranges : ranges true tail with
      | none => simp
      | some found =>
        by_cases hin : InRanges charLe found.1 s
        · simp [CharClass.Has, hin]
        · simp [CharClass.Has, hin]
    · have hbeq : (p == exclamation) = false := beq_eq_false_iff_ne.mpr hp
      simp only [hbeq, Bool.false_eq_true, if_false, if_neg hp, bracketLoop_eq]
      cases hranges : ranges true (p :: tail) with
      | none => simp
      | some found =>
        by_cases hin : InRanges charLe found.1 s
        · simp [CharClass.Has, hin]
        · simp [CharClass.Has, hin]

variable {le : UInt8 → UInt8 → Bool}

theorem nameParts_asterisk (pattern : Bytes) :
    nameParts (asterisk :: pattern) = (nameParts pattern).map (none :: ·) := by
  rw [nameParts.eq_def]
  exact if_pos rfl

theorem nameParts_any (pattern : Bytes) : nameParts (anyCharacter :: pattern)
      = (nameParts pattern).map (some .any :: ·) := by
  rw [nameParts.eq_def]
  rfl

theorem nameParts_bracket (pattern : Bytes) : nameParts (openBracket :: pattern)
      = (bracket pattern).bind fun found => (nameParts found.2).map (some found.1 :: ·) := by
  rw [nameParts.eq_def]
  show (match _h : bracket pattern with
    | some (k, rest) => (nameParts rest).map (some k :: ·)
    | none => none) = _
  split
  next k rest hbracket => rw [hbracket, bind_some]
  next hbracket => rw [hbracket, bind_none]

theorem nameParts_backslash (pattern : Bytes) : nameParts (backslash :: pattern)
      = match pattern with
        | [] => none
        | p :: pattern => (nameParts pattern).map (some (.letter p) :: ·) := by
  rw [nameParts.eq_def]
  rfl

def special : Bytes := [asterisk, anyCharacter, openBracket, backslash]

theorem nameParts_letter (hp : p ∉ special) (pattern : Bytes) :
    nameParts (p :: pattern) = (nameParts pattern).map (some (.letter p) :: ·) := by
  simp only [special, mem_cons, not_mem_nil, or_false, not_or] at hp
  rw [nameParts.eq_def]
  simp only [if_neg hp.1, if_neg hp.2.1, if_neg hp.2.2.1, if_neg hp.2.2.2]

theorem special_cases (p : UInt8) :
    p = asterisk ∨ p = anyCharacter ∨ p = openBracket ∨ p = backslash ∨ p ∉ special := by
  by_cases hp : p ∈ special
  · simp only [special, mem_cons, not_mem_nil, or_false] at hp
    tauto
  · tauto

theorem nameMatches_nil (name : Bytes) : NameMatches le [] name ↔ name = [] := by
  unfold NameMatches
  rw [nameParts.eq_def]
  simp

theorem nameMatches_asterisk (pattern name : Bytes) : NameMatches le (asterisk :: pattern) name
      ↔ ∃ parts, nameParts pattern = some parts ∧ MatchesBy (CharClass.Has le) (none :: parts) name := by
  unfold NameMatches
  rw [nameParts_asterisk]
  simp only [map_eq_some_iff]
  constructor
  · rintro ⟨_, ⟨parts, hparts, rfl⟩, hm⟩
    exact ⟨parts, hparts, hm⟩
  · rintro ⟨parts, hparts, hm⟩
    exact ⟨_, ⟨parts, hparts, rfl⟩, hm⟩

theorem matches_one_part {k : CharClass} :
    (∃ parts, (nameParts pattern).map (some k :: ·) = some parts ∧
        MatchesBy (CharClass.Has le) parts (s :: rest))
      ↔ k.Has le s ∧ NameMatches le pattern rest := by
  constructor
  · rintro ⟨parts, hmap, hm⟩
    obtain ⟨parts', hparts, rfl⟩ := map_eq_some_iff.mp hmap
    have hone := matches_one_iff.mp hm
    exact ⟨hone.1, parts', hparts, hone.2⟩
  · rintro ⟨hs, parts, hparts, hm⟩
    exact ⟨some k :: parts, by rw [hparts]; rfl, .one hs hm⟩

theorem nameMatches_bracket (pattern string : Bytes) (s : UInt8) :
    NameMatches charLe (openBracket :: pattern) (s :: string)
      ↔ ∃ rest, parseBracket s pattern = some rest ∧ NameMatches charLe rest string := by
  unfold NameMatches
  rw [nameParts_bracket]
  constructor
  · rintro ⟨parts, hparts, hm⟩
    obtain ⟨⟨k, rest⟩, hbracket, hmap⟩ := bind_eq_some_iff.mp hparts
    have hone := matches_one_part.mp ⟨parts, hmap, hm⟩
    exact ⟨rest, parseBracket_eq_some.mpr ⟨k, hbracket, hone.1⟩, hone.2⟩
  · rintro ⟨rest, hparse, hrest⟩
    obtain ⟨k, hbracket, hs⟩ := parseBracket_eq_some.mp hparse
    rw [hbracket, bind_some]
    exact matches_one_part.mpr ⟨hs, hrest⟩

theorem nameParts_head (hp : p ≠ asterisk) {parts : List (Option CharClass)}
    (h : nameParts (p :: pattern) = some parts) : ∃ k rest, parts = some k :: rest := by
  rcases special_cases p with rfl | rfl | rfl | rfl | hletter
  · exact absurd rfl hp
  · rw [nameParts_any] at h
    obtain ⟨parts', _, rfl⟩ := map_eq_some_iff.mp h
    exact ⟨_, parts', rfl⟩
  · rw [nameParts_bracket] at h
    obtain ⟨found, _, hmap⟩ := bind_eq_some_iff.mp h
    obtain ⟨parts', _, rfl⟩ := map_eq_some_iff.mp hmap
    exact ⟨_, parts', rfl⟩
  · rw [nameParts_backslash] at h
    cases pattern with
    | nil => cases h
    | cons q pattern =>
      obtain ⟨parts', _, rfl⟩ := map_eq_some_iff.mp h
      exact ⟨_, parts', rfl⟩
  · rw [nameParts_letter hletter] at h
    obtain ⟨parts', _, rfl⟩ := map_eq_some_iff.mp h
    exact ⟨_, parts', rfl⟩

theorem star_skipAsterisks (pattern name : Bytes) :
    (∃ parts, nameParts pattern = some parts ∧ MatchesBy (CharClass.Has le) (none :: parts) name)
      ↔ ∃ parts, nameParts (skipAsterisks pattern) = some parts ∧
        MatchesBy (CharClass.Has le) (none :: parts) name := by
  induction pattern with
  | nil => rfl
  | cons p pattern ih =>
    by_cases hp : p = asterisk
    · subst hp
      have hskip : skipAsterisks (asterisk :: pattern) = skipAsterisks pattern :=
        dropWhile_cons_of_pos (beq_self_eq_true asterisk)
      rw [hskip, ← ih]
      constructor
      · rintro ⟨_, hall, hm⟩
        rw [nameParts_asterisk] at hall
        obtain ⟨parts, hparts, rfl⟩ := map_eq_some_iff.mp hall
        exact ⟨parts, hparts, matches_star_star.mp hm⟩
      · rintro ⟨parts, hparts, hm⟩
        refine ⟨none :: parts, ?_, matches_star_star.mpr hm⟩
        rw [nameParts_asterisk, hparts]
        rfl
    · have hskip : skipAsterisks (p :: pattern) = p :: pattern :=
        dropWhile_cons_of_neg (by simpa using hp)
      rw [hskip]

theorem nameMatches_empty (pattern : Bytes) :
    NameMatches le pattern [] ↔ (skipAsterisks pattern).isEmpty = true := by
  induction pattern with
  | nil => simp [nameMatches_nil, skipAsterisks]
  | cons p pattern ih =>
    by_cases hp : p = asterisk
    · subst hp
      have hskip : skipAsterisks (asterisk :: pattern) = skipAsterisks pattern :=
        dropWhile_cons_of_pos (beq_self_eq_true asterisk)
      rw [hskip, ← ih, nameMatches_asterisk]
      constructor
      · rintro ⟨parts, hparts, hm⟩
        cases hm with
        | skip hm => exact ⟨parts, hparts, hm⟩
      · rintro ⟨parts, hparts, hm⟩
        exact ⟨parts, hparts, .skip hm⟩
    · have hskip : skipAsterisks (p :: pattern) = p :: pattern :=
        dropWhile_cons_of_neg (by simpa using hp)
      rw [hskip]
      constructor
      · rintro ⟨parts, hparts, hm⟩
        obtain ⟨k, rest, rfl⟩ := nameParts_head hp hparts
        exact absurd hm not_matches_one_nil
      · nofun

theorem skipAsterisks_head (h : skipAsterisks pattern = p :: rest) : p ≠ asterisk := by
  have hhead := head?_dropWhile_not (· == asterisk) pattern
  unfold skipAsterisks at h
  rw [h] at hhead
  simpa using hhead

theorem nameMatches_asterisk_iff (pattern name : Bytes) : NameMatches le (asterisk :: pattern) name
      ↔ (skipAsterisks pattern).isEmpty = true
        ∨ ∃ suffix ∈ suffixes name, NameMatches le (skipAsterisks pattern) suffix := by
  rw [nameMatches_asterisk, star_skipAsterisks]
  cases hrest : skipAsterisks pattern with
  | nil =>
    constructor
    · exact fun _ => .inl rfl
    · exact fun _ => ⟨[], by rw [nameParts.eq_def], matches_last_star name⟩
  | cons p rest =>
    have hp := skipAsterisks_head hrest
    simp only [isEmpty_cons, Bool.false_eq_true, false_or]
    constructor
    · rintro ⟨parts, hparts, hm⟩
      obtain ⟨k, parts', rfl⟩ := nameParts_head hp hparts
      obtain ⟨suffix, hsuffix, hm⟩ := (matches_star_suffixes not_matches_one_nil).mp hm
      exact ⟨suffix, hsuffix, _, hparts, hm⟩
    · rintro ⟨suffix, hsuffix, parts, hparts, hm⟩
      exact ⟨parts, hparts, matches_star_iff.mpr ⟨suffix, (mem_suffixes_iff.mp hsuffix).2, hm⟩⟩

theorem likes_iff (string pattern : Bytes) :
    likes string pattern = true ↔ NameMatches charLe pattern string := by
  fun_induction likes string pattern with
  | case1 pattern => exact (nameMatches_empty pattern).symm
  | case2 s string =>
    rw [nameMatches_nil]
    simp
  | case3 s string pattern ih =>
    rw [nameMatches_asterisk_iff]
    simp only [Bool.or_eq_true, List.any_eq_true, ih]
  | case4 s string pattern _ ih =>
    unfold NameMatches
    rw [nameParts_any, matches_one_part, ih]
    exact (and_iff_right trivial).symm
  | case5 s string pattern rest hparse _ _ ih =>
    rw [nameMatches_bracket, ih]
    simp [hparse]
  | case6 s string pattern hparse =>
    rw [nameMatches_bracket]
    simp [hparse]
  | case7 s string =>
    unfold NameMatches
    rw [nameParts_backslash]
    simp
  | case8 s string p pattern _ _ _ ih =>
    unfold NameMatches
    rw [nameParts_backslash]
    rw [matches_one_part, Bool.and_eq_true, beq_iff_eq, ih]
    exact Iff.rfl
  | case9 s string p pattern hstar hany hbracket hbackslash ih =>
    have hletter : p ∉ special := by
      simp only [special, mem_cons, not_mem_nil, or_false, not_or]
      exact ⟨hstar, hany, hbracket, hbackslash⟩
    unfold NameMatches
    rw [nameParts_letter hletter, matches_one_part, Bool.and_eq_true, beq_iff_eq, ih]
    exact Iff.rfl

/-! ## 4. `match` -/

def anySegments : Bytes := ascii "**"

def matchSegments (key : List Bytes) : List Bytes → Bool
  | [] => key.isEmpty
  | p :: pattern =>
    match key with
    | [] => false
    | k :: rest =>
      if p = anySegments then
        pattern.isEmpty || (suffixes (k :: rest)).any fun suffix => matchSegments suffix pattern
      else likes k p && matchSegments rest pattern

/-- Two asterisks take any number of segments, and at least one where they end the pattern. -/
def pathParts : List Bytes → List (Globs.Part Bytes)
  | [] => []
  | p :: pattern =>
    if p = anySegments then
      .star :: (if pattern = [] then [.one fun _ => True] else pathParts pattern)
    else .one (NameMatches charLe p) :: pathParts pattern

def PathMatches (pattern key : List Bytes) : Prop := Matches (pathParts pattern) key

theorem pathParts_needs {pattern : List Bytes} (h : pattern ≠ []) :
    ¬ Matches (pathParts pattern) [] := by
  induction pattern with
  | nil => exact absurd rfl h
  | cons p pattern ih =>
    unfold pathParts
    intro hm
    split at hm
    · cases hm with
      | skip hm =>
        split at hm
        · exact not_matches_one_nil hm
        next hne => exact ih hne hm
    · exact not_matches_one_nil hm

theorem matchSegments_iff (key pattern : List Bytes) :
    matchSegments key pattern = true ↔ PathMatches pattern key := by
  unfold PathMatches
  induction pattern generalizing key with
  | nil =>
    show key.isEmpty = true ↔ Matches [] key
    rw [matches_nil_iff, List.isEmpty_iff]
  | cons p pattern ih =>
    cases key with
    | nil =>
      unfold matchSegments
      simp only [Bool.false_eq_true, false_iff]
      exact pathParts_needs (cons_ne_nil p pattern)
    | cons k rest =>
      unfold matchSegments pathParts
      by_cases hp : p = anySegments
      · rw [if_pos hp]
        simp only [if_pos hp]
        by_cases hlast : pattern = []
        · -- the segment that is there is taken
          have hone : Matches [.star, .one fun _ : Bytes => True] (k :: rest) := by
            apply matches_star_iff.mpr
            refine ⟨[(k :: rest).getLast (cons_ne_nil k rest)], ?_, .one trivial .nil⟩
            exact ⟨_, dropLast_append_getLast (cons_ne_nil k rest)⟩
          simp [hlast, hone]
        · have hempty : pattern.isEmpty = false := isEmpty_eq_false_iff.mpr hlast
          rw [if_neg hlast, matches_star_suffixes (pathParts_needs hlast), hempty]
          simp only [Bool.false_or, List.any_eq_true, ih]
      · rw [if_neg hp]
        simp only [if_neg hp]
        rw [matches_one_iff, Bool.and_eq_true, likes_iff, ih]

end Ladybug.S3Glob
