import Ladybug.Base.TextSpans
import Ladybug.Fts.QueryFts

/-!
# Terms with wildcards

A query term with wildcards becomes a pattern by two replacements; nothing else in it is escaped.  The
texts of this file are lists of characters, and the strings of the program their UTF-8 encodings.
-/

namespace Ladybug.Fts

open List

open Ladybug.TextSpans (utf8)

/-- Every `*` stands for characters that are allowed, every `?` for one of them, and every other
character for itself. -/
def WildMatches (allowed : Char → Prop) : List Char → List Char → Prop
  | [], t => t = []
  | '*' :: q, t => ∃ u v, t = u ++ v ∧ (∀ c ∈ u, allowed c) ∧ WildMatches allowed q v
  | '?' :: q, t => ∃ c v, t = c :: v ∧ allowed c ∧ WildMatches allowed q v
  | x :: q, t => ∃ v, t = x :: v ∧ WildMatches allowed q v

/-- Wildcards stand for any characters. -/
def Glob (q t : List Char) : Prop := WildMatches (fun _ => True) q t

/-- Wildcards stand for characters of one line. -/
def LineGlob (q t : List Char) : Prop := WildMatches (· ≠ '\n') q t

/-- The characters with a meaning of their own, outside of brackets and repetitions. -/
def metaCharacters : List Char := ['\\', '.', '+', '*', '?', '(', ')', '[', '\x7b', '^', '$', '|']

/-- A pattern without groups, classes and escapes is a sequence of these. -/
inductive Atom where
  | char (c : Char) (h : c ∉ metaCharacters)
  | any
  | anyStar

def Atom.print : Atom → List Char
  | .char c _ => [c]
  | .any => ['.']
  | .anyStar => ['.', '*']

/-- The standard meaning: a dot stands for any character but the end of a line. -/
def AtomsMatch : List Atom → List Char → Prop
  | [], t => t = []
  | .char c _ :: atoms, t => ∃ v, t = c :: v ∧ AtomsMatch atoms v
  | .any :: atoms, t => ∃ c v, t = c :: v ∧ c ≠ '\n' ∧ AtomsMatch atoms v
  | .anyStar :: atoms, t => ∃ u v, t = u ++ v ∧ (∀ c ∈ u, c ≠ '\n') ∧ AtomsMatch atoms v

structure StandardPatterns {A : Type} (lib : QueryLibrary A) : Prop where
  fullMatch : ∀ (atoms : List Atom) (t : List Char),
    lib.fullMatch (utf8 t) (utf8 (atoms.flatMap Atom.print)) = true ↔ AtomsMatch atoms t

/-- Both replacements at once. -/
def regexChars (q : List Char) : List Char :=
  q.flatMap fun c => if c = '*' then ['.', '*'] else if c = '?' then ['.'] else [c]

variable {c x : Char} {q : List Char}

theorem mem_utf8EncodeChar {b : UInt8} (hb : b.toNat < 0x80) (h : b ∈ String.utf8EncodeChar c) :
    String.utf8EncodeChar c = [b] ∧ c.toNat = b.toNat := by
  have hlarge : ∀ ks : List Nat, (∀ k ∈ ks, 0x80 ≤ k ∧ k < 0x100) → b ∉ ks.map UInt8.ofNat := by
    intro ks hks hmem
    obtain ⟨k, hk, rfl⟩ := mem_map.mp hmem
    have hbounds := hks k hk
    rw [UInt8.toNat_ofNat'] at hb
    omega
  unfold String.utf8EncodeChar at h ⊢
  simp only at h ⊢
  -- one case for each number of bytes
  split at h
  next hsmall =>
    rw [if_pos hsmall]
    have hbyte := mem_singleton.mp h
    refine ⟨by rw [hbyte], ?_⟩
    rw [hbyte]
    show c.val.toNat = c.val.toNat % 2 ^ 8
    omega
  · exfalso
    split at h
    · exact hlarge [c.val.toNat / 64 % 0x20 + 0xc0, c.val.toNat % 0x40 + 0x80] (by simp; omega) h
    · split at h
      · exact hlarge [c.val.toNat / 4096 % 0x10 + 0xe0, c.val.toNat / 64 % 0x40 + 0x80,
          c.val.toNat % 0x40 + 0x80] (by simp; omega) h
      · exact hlarge [c.val.toNat / 262144 % 0x08 + 0xf0, c.val.toNat / 4096 % 0x40 + 0x80,
          c.val.toNat / 64 % 0x40 + 0x80, c.val.toNat % 0x40 + 0x80] (by simp; omega) h

theorem utf8EncodeChar_ascii (h : c.toNat < 0x80) :
    String.utf8EncodeChar c = [c.toNat.toUInt8] := by
  unfold String.utf8EncodeChar
  rw [if_pos (show c.val.toNat ≤ 0x7f from Nat.le_of_lt_succ h)]
  rfl

theorem replaceByte_utf8 {c₀ : Char} (hascii : c₀.toNat < 0x80) (r q : List Char) :
    replaceByte c₀.toNat.toUInt8 (utf8 r) (utf8 q) =
      utf8 (q.flatMap fun c => if c = c₀ then r else [c]) := by
  unfold replaceByte utf8
  rw [flatMap_assoc, flatMap_assoc]
  congr 1
  funext c
  by_cases hc : c = c₀
  · rw [if_pos hc, hc, utf8EncodeChar_ascii hascii, flatMap_singleton, if_pos rfl]
  · -- no byte of another character is replaced
    have hbyte : c₀.toNat.toUInt8.toNat = c₀.toNat := Nat.mod_eq_of_lt (by omega)
    have hno : ∀ b ∈ String.utf8EncodeChar c, b ≠ c₀.toNat.toUInt8 := by
      rintro b hb rfl
      have heq := (mem_utf8EncodeChar (by omega) hb).2
      rw [hbyte] at heq
      exact hc (Char.toNat_inj.mp heq)
    rw [if_neg hc, flatMap_singleton]
    have hsame : ∀ b ∈ String.utf8EncodeChar c,
        (if b = c₀.toNat.toUInt8 then flatMap String.utf8EncodeChar r else [b]) = [b] :=
      fun b hb => if_neg (hno b hb)
    rw [flatMap_congr hsame, flatMap_singleton']

theorem wildcardRegex_utf8 (q : List Char) : wildcardRegex (utf8 q) = utf8 (regexChars q) := by
  unfold wildcardRegex
  rw [show ascii ".*" = utf8 ['.', '*'] by decide +kernel, replaceByte_utf8 (by decide),
    show ascii "." = utf8 ['.'] by decide +kernel, replaceByte_utf8 (by decide), flatMap_assoc]
  congr 1
  congr 1
  funext c
  by_cases hstar : c = '*'
  · rw [if_pos hstar, if_pos hstar]
    rfl
  · rw [if_neg hstar, if_neg hstar, flatMap_singleton]

theorem hasWildcardPattern_utf8 (h : '*' ∈ q ∨ '?' ∈ q) : hasWildcardPattern (utf8 q) = true := by
  unfold hasWildcardPattern utf8
  rw [any_eq_true]
  rcases h with h | h
  · exact ⟨42, mem_flatMap.mpr ⟨'*', h, by decide +kernel⟩, by decide +kernel⟩
  · exact ⟨63, mem_flatMap.mpr ⟨'?', h, by decide +kernel⟩, by decide +kernel⟩

/-- A term without characters of the pattern language, wildcards apart. -/
def Plain (q : List Char) : Prop := ∀ c ∈ q, c ∉ metaCharacters ∨ c = '*' ∨ c = '?'

/-- A term with no such characters but wildcards and dots. -/
def Dotted (q : List Char) : Prop := ∀ c ∈ q, c ∉ metaCharacters ∨ c = '*' ∨ c = '?' ∨ c = '.'

/-- A dot of the term becomes the pattern for any character, as a `?` does. -/
def dotsAsWildcards (q : List Char) : List Char := q.map fun c => if c = '.' then '?' else c

def atomOf (c : Char) : Atom :=
  if h : c ∉ metaCharacters then .char c h else if c = '*' then .anyStar else .any

theorem wildMatches_char {allowed : Char → Prop} (hstar : x ≠ '*') (hmark : x ≠ '?')
    (q t : List Char) :
    WildMatches allowed (x :: q) t ↔ ∃ v, t = x :: v ∧ WildMatches allowed q v := by
  rw [WildMatches]
  · exact hstar
  · exact hmark

theorem not_star_of_plain (h : x ∉ metaCharacters) : x ≠ '*' ∧ x ≠ '?' ∧ x ≠ '.' := by
  refine ⟨?_, ?_, ?_⟩ <;> rintro rfl <;> exact h (by decide)

theorem print_atoms (hq : Dotted q) : (q.map atomOf).flatMap Atom.print = regexChars q := by
  rw [flatMap_map]
  apply flatMap_congr
  intro c hc
  unfold atomOf
  rcases hq c hc with h | rfl | rfl | rfl
  · obtain ⟨hstar, hmark, -⟩ := not_star_of_plain h
    rw [dif_pos h, if_neg hstar, if_neg hmark]
    rfl
  · rfl
  · rfl
  · rfl

theorem atomsMatch_iff (hq : Dotted q) (t : List Char) :
    AtomsMatch (q.map atomOf) t ↔ LineGlob (dotsAsWildcards q) t := by
  unfold LineGlob dotsAsWildcards
  induction q generalizing t with
  | nil => exact Iff.rfl
  | cons x q ih =>
    have hih := ih fun c hc => hq c (mem_cons_of_mem x hc)
    rw [map_cons, map_cons]
    rcases hq x mem_cons_self with h | rfl | rfl | rfl
    · obtain ⟨hstar, hmark, hdot⟩ := not_star_of_plain h
      rw [if_neg hdot, wildMatches_char hstar hmark]
      unfold atomOf
      rw [dif_pos h]
      exact exists_congr fun v => and_congr_right fun _ => hih v
    · show (∃ u v, t = u ++ v ∧ _ ∧ AtomsMatch _ v) ↔ ∃ u v, t = u ++ v ∧ _ ∧ WildMatches _ _ v
      simp only [hih]
    all_goals
      show (∃ c v, t = c :: v ∧ _ ∧ AtomsMatch _ v) ↔ ∃ c v, t = c :: v ∧ _ ∧ WildMatches _ _ v
      simp only [hih]

section

variable {A : Type} {lib : QueryLibrary A} {q t : List Char}

theorem matches_wildcard_iff (hlib : StandardPatterns lib) (hwild : '*' ∈ q ∨ '?' ∈ q)
    (hq : Dotted q) (t : List Char) : (vcQueryTerm (utf8 q)).matches lib (utf8 t) = true ↔
      LineGlob (dotsAsWildcards q) t := by
  unfold vcQueryTerm
  rw [if_pos (hasWildcardPattern_utf8 hwild)]
  show lib.fullMatch (utf8 t) (wildcardRegex (utf8 q)) = true ↔ _
  rw [wildcardRegex_utf8, ← print_atoms hq, hlib.fullMatch, atomsMatch_iff hq]

theorem WildMatches.mono {allowed allowed' : Char → Prop} (h : ∀ c, allowed c → allowed' c)
    (hm : WildMatches allowed q t) : WildMatches allowed' q t := by
  fun_induction WildMatches allowed q t with
  | case1 t => exact hm
  | case2 t q ih =>
    obtain ⟨u, v, rfl, hu, hv⟩ := hm
    exact ⟨u, v, rfl, fun c hc => h c (hu c hc), ih v hv⟩
  | case3 t q ih =>
    obtain ⟨c, v, rfl, hc, hv⟩ := hm
    exact ⟨c, v, rfl, h c hc, ih v hv⟩
  | case4 t x q hstar hmark ih =>
    obtain ⟨v, rfl, hv⟩ := hm
    rw [wildMatches_char hstar hmark]
    exact ⟨v, rfl, ih v hv⟩

theorem dot_mem_of_glob (hdot : '.' ∈ q) (hm : Glob q t) : '.' ∈ t := by
  unfold Glob at hm
  fun_induction WildMatches (fun _ => True) q t with
  | case1 t => cases hdot
  | case2 t q ih =>
    obtain ⟨u, v, rfl, -, hv⟩ := hm
    exact mem_append_right u (ih v (mem_of_ne_of_mem (by decide) hdot) hv)
  | case3 t q ih =>
    obtain ⟨c, v, rfl, -, hv⟩ := hm
    exact mem_cons_of_mem c (ih v (mem_of_ne_of_mem (by decide) hdot) hv)
  | case4 t x q hstar hmark ih =>
    obtain ⟨v, rfl, hv⟩ := hm
    rcases mem_cons.mp hdot with heq | hin
    · exact heq ▸ mem_cons_self
    · exact mem_cons_of_mem _ (ih v hin hv)

/-- A string that the pattern matches and that has no dot: every star stands for nothing, and every
dot and `?` for an x. -/
def undotted (q : List Char) : List Char :=
  q.flatMap fun c => if c = '*' then [] else if c = '?' ∨ c = '.' then ['x'] else [c]

theorem dot_not_mem_undotted (q : List Char) : '.' ∉ undotted q := by
  intro h
  obtain ⟨c, -, hc⟩ := mem_flatMap.mp h
  split at hc
  · cases hc
  · split at hc
    · exact absurd (mem_singleton.mp hc) (by decide)
    next hno => exact hno (.inr (mem_singleton.mp hc).symm)

theorem lineGlob_undotted (q : List Char) : LineGlob (dotsAsWildcards q) (undotted q) := by
  unfold LineGlob dotsAsWildcards undotted
  induction q with
  | nil => rfl
  | cons x q ih =>
    rw [map_cons, flatMap_cons]
    by_cases hstar : x = '*'
    · subst hstar
      exact ⟨[], _, rfl, fun c hc => absurd hc not_mem_nil, ih⟩
    · by_cases hmark : x = '?' ∨ x = '.'
      · have hx : (if x = '.' then '?' else x) = '?' := by
          rcases hmark with rfl | rfl <;> rfl
        rw [hx, if_neg hstar, if_pos hmark]
        exact ⟨'x', _, rfl, by decide, ih⟩
      · rw [if_neg hstar, if_neg hmark, if_neg (fun h => hmark (.inr h)),
          wildMatches_char hstar (fun h => hmark (.inl h))]
        exact ⟨_, rfl, ih⟩

theorem Plain.dotted (hq : Plain q) : Dotted q := by
  intro c hc
  rcases hq c hc with h | h | h
  · exact .inl h
  · exact .inr (.inl h)
  · exact .inr (.inr (.inl h))

theorem Dotted.plain_iff (hq : Dotted q) : Plain q ↔ '.' ∉ q := by
  constructor
  · intro hp hdot
    rcases hp '.' hdot with h | h | h
    · exact h (by decide)
    all_goals exact absurd h (by decide)
  · intro hdot c hc
    rcases hq c hc with h | h | h | h
    · exact .inl h
    · exact .inr (.inl h)
    · exact .inr (.inr h)
    · exact absurd (h ▸ hc) hdot

theorem dotsAsWildcards_of_plain (hq : '.' ∉ q) : dotsAsWildcards q = q := by
  have hsame : ∀ c ∈ q, (if c = '.' then '?' else c) = c := by
    intro c hc
    apply if_neg
    rintro rfl
    exact hq hc
  unfold dotsAsWildcards
  rw [map_congr_left hsame, map_id']

/-- Without other characters of the pattern language, a term is matched as its wildcards say exactly
when what they stand for is on one line; and a dot is the character that makes the difference. -/
theorem wildcard_term_matches (hlib : StandardPatterns lib) {q : List Char}
    (hwild : '*' ∈ q ∨ '?' ∈ q) :
    (Plain q → ∀ t, (((vcQueryTerm (utf8 q)).matches lib (utf8 t) = true ↔ Glob q t) ↔
      (Glob q t → LineGlob q t))) ∧
    (Dotted q → ((∀ t, (Glob q t → LineGlob q t) →
      ((vcQueryTerm (utf8 q)).matches lib (utf8 t) = true ↔ Glob q t)) ↔ Plain q)) := by
  have hplain : Plain q → ∀ t,
      (vcQueryTerm (utf8 q)).matches lib (utf8 t) = true ↔ LineGlob q t := by
    intro hq t
    rw [matches_wildcard_iff hlib hwild hq.dotted,
      dotsAsWildcards_of_plain (hq.dotted.plain_iff.mp hq)]
  have hglob : ∀ t, LineGlob q t → Glob q t := fun t h => h.mono fun _ _ => trivial
  constructor
  · intro hq t
    rw [hplain hq]
    constructor
    · intro h hg
      exact h.mpr hg
    · intro h
      exact ⟨hglob t, h⟩
  · intro hq
    constructor
    · intro h
      rw [hq.plain_iff]
      intro hdot
      -- a string without dots that the pattern matches
      have hno : ¬ Glob q (undotted q) := fun hg => dot_not_mem_undotted q (dot_mem_of_glob hdot hg)
      have hmatch := (matches_wildcard_iff hlib hwild hq (undotted q)).mpr (lineGlob_undotted q)
      exact hno ((h (undotted q) fun hg => absurd hg hno).mp hmatch)
    · intro hp t hline
      rw [hplain hp]
      exact ⟨hglob t, hline⟩

end

theorem utf8_inj {cs ds : List Char} (h : utf8 cs = utf8 ds) : cs = ds := by
  have hbytes : cs.utf8Encode = ds.utf8Encode := congrArg toByteArray h
  have hdecode : some cs.toArray = some ds.toArray := by
    rw [← utf8Decode?_utf8Encode, hbytes, utf8Decode?_utf8Encode]
  exact congrArg Array.toList (Option.some.inj hdecode)

theorem print_inj {atoms atoms' : List Atom}
    (h : atoms.flatMap Atom.print = atoms'.flatMap Atom.print) : atoms = atoms' := by
  have hstar : ∀ (atoms : List Atom) (cs : List Char), atoms.flatMap Atom.print ≠ '*' :: cs := by
    intro atoms cs heq
    cases atoms with
    | nil => cases heq
    | cons a atoms =>
      cases a with
      | char c hc =>
        obtain ⟨rfl, -⟩ := cons.inj heq
        exact hc (by decide)
      | any | anyStar => exact absurd (cons.inj heq).1 (by decide)
  have hdot : ∀ {c : Char}, c ∉ metaCharacters → c ≠ '.' := fun hc => (not_star_of_plain hc).2.2
  induction atoms generalizing atoms' with
  | nil =>
    cases atoms' with
    | nil => rfl
    | cons a atoms' => cases a <;> cases h
  | cons a atoms ih =>
    cases atoms' with
    | nil => cases a <;> cases h
    | cons a' atoms' =>
      cases a with
      | char c hc =>
        cases a' with
        | char c' hc' =>
          obtain ⟨rfl, hrest⟩ := cons.inj h
          rw [ih hrest]
        | any | anyStar => exact absurd (cons.inj h).1 (hdot hc)
      | any =>
        cases a' with
        | char c' hc' => exact absurd (cons.inj h).1.symm (hdot hc')
        | any => rw [ih (cons.inj h).2]
        | anyStar => exact absurd (cons.inj h).2 (hstar atoms _)
      | anyStar =>
        cases a' with
        | char c' hc' => exact absurd (cons.inj h).1.symm (hdot hc')
        | any => exact absurd (cons.inj h).2.symm (hstar atoms' _)
        | anyStar => rw [ih (cons.inj (cons.inj h).2).2]

open Classical in
/-- A library that knows only the patterns of this file. -/
noncomputable def standardLibrary : QueryLibrary Unit where
  lower := id
  regexpReplace := fun _ => id
  stem := fun _ => id
  toLower := id
  globalReplace := fun _ => id
  sbStemmerStem := fun _ => id
  split := splitOn 32
  cutForSearch := fun _ text => [text]
  fullMatch := fun text re => decide (∃ atoms t, text = utf8 t ∧
    re = utf8 (flatMap Atom.print atoms) ∧ AtomsMatch atoms t)

theorem standardLibrary_patterns : StandardPatterns standardLibrary where
  fullMatch := by
    intro atoms t
    apply (@decide_eq_true_iff _ (Classical.propDecidable _)).trans
    constructor
    · rintro ⟨atoms', t', ht, hatoms, hm⟩
      rw [utf8_inj ht, print_inj (utf8_inj hatoms)]
      exact hm
    · intro hm
      exact ⟨atoms, t, rfl, rfl, hm⟩

/-- The term `a.c*` matches "abc", which does not begin with "a.c"; the term `a*` does not match an a
that the end of a line follows. -/
theorem dot_of_term_matches_any :
    ((vcQueryTerm (utf8 ['a', '.', 'c', '*'])).matches standardLibrary (utf8 ['a', 'b', 'c']) = true ∧
      ¬ Glob ['a', '.', 'c', '*'] ['a', 'b', 'c']) ∧
    (vcQueryTerm (utf8 ['a', '*'])).matches standardLibrary (utf8 ['a', '\n']) = false ∧
      Glob ['a', '*'] ['a', '\n'] := by
  have hdotted : Dotted ['a', '.', 'c', '*'] := by
    simp [Dotted, metaCharacters]
  have hplain : Dotted ['a', '*'] := by
    simp [Dotted, metaCharacters]
  refine ⟨⟨?_, ?_⟩, ?_, ?_⟩
  · rw [matches_wildcard_iff standardLibrary_patterns (by decide) hdotted]
    exact ⟨_, rfl, 'b', _, rfl, by decide, _, rfl, [], [], rfl, by simp, rfl⟩
  · intro h
    exact absurd (dot_mem_of_glob (by decide) h) (by decide)
  · rw [← Bool.not_eq_true, matches_wildcard_iff standardLibrary_patterns (by decide) hplain]
    rintro ⟨v, hv, u, w, huw, hu, rfl⟩
    obtain ⟨-, rfl⟩ := cons.inj hv
    rw [append_nil] at huw
    exact hu '\n' (huw ▸ by decide) rfl
  · exact ⟨_, rfl, ['\n'], [], rfl, by simp, rfl⟩

/-- A term with both wildcards. -/
theorem wildcard_term_matches_mark : StandardPatterns standardLibrary ∧
    ('*' ∈ ['a', '?', '*'] ∨ '?' ∈ ['a', '?', '*']) ∧ Plain ['a', '?', '*'] ∧
    (((vcQueryTerm (utf8 ['a', '?', '*'])).matches standardLibrary (utf8 ['a', 'b', 'c']) = true ↔
      Glob ['a', '?', '*'] ['a', 'b', 'c']) ↔
      (Glob ['a', '?', '*'] ['a', 'b', 'c'] → LineGlob ['a', '?', '*'] ['a', 'b', 'c'])) := by
  have hplain : Plain ['a', '?', '*'] := by
    simp [Plain, metaCharacters]
  exact ⟨standardLibrary_patterns, by decide, hplain,
    (wildcard_term_matches standardLibrary_patterns (by decide)).1 hplain ['a', 'b', 'c']⟩

end Ladybug.Fts
