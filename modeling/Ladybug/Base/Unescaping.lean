import Mathlib.Data.List.Basic

/-!
# Readings of a string literal

What the text between the quotes of a literal denotes is the reader's choice, within what a doubled
quote and the usual escapes mean.
-/

namespace Ladybug

def quoteChar : Char := Char.ofNat 0x27

/-- The escapes that every reading knows, and what they stand for. -/
def knownEscape (c : Char) : Option Char :=
  if c = '\\' then some '\\'
  else if c = 'n' then some '\n'
  else if c = 'r' then some '\r'
  else if c = 't' then some '\t'
  else none

/-- A reading of what stands between the quotes of a literal; `none` where it is refused.
Lone quotes, and a backslash before any other character, are left to the reading. -/
structure Unescaping where
  body : List Char → Option (List Char)
  body_nil : body [] = some []
  body_quote : ∀ rest, body (quoteChar :: quoteChar :: rest) = (body rest).map (quoteChar :: ·)
  body_escape : ∀ c d rest, knownEscape c = some d →
    body ('\\' :: c :: rest) = (body rest).map (d :: ·)
  body_plain : ∀ c rest, c ≠ quoteChar → c ≠ '\\' → body (c :: rest) = (body rest).map (c :: ·)

def Unescaping.denote (u : Unescaping) (s : String) : Option (List Char) := u.body s.toList

/-- The text of a character with a quote doubled. -/
def doubleQuote (c : Char) : List Char := if c = quoteChar then [quoteChar, quoteChar] else [c]

theorem Unescaping.body_doubleQuote (u : Unescaping) {c : Char} (hback : c ≠ '\\')
    (rest : List Char) : u.body (doubleQuote c ++ rest) = (u.body rest).map (c :: ·) := by
  unfold doubleQuote
  by_cases hquote : c = quoteChar
  · rw [if_pos hquote, hquote]
    exact u.body_quote rest
  · rw [if_neg hquote]
    exact u.body_plain c rest hquote hback

theorem doubleQuote_of_ne {c : Char} (h : c ≠ quoteChar) : doubleQuote c = [c] := if_neg h

def strictBody : List Char → Option (List Char)
  | [] => some []
  | [c] => if c = quoteChar ∨ c = '\\' then none else some [c]
  | c :: d :: rest =>
    if c = quoteChar then
      if d = quoteChar then (strictBody rest).map (quoteChar :: ·) else none
    else if c = '\\' then
      match knownEscape d with
      | some e => (strictBody rest).map (e :: ·)
      | none => none
    else (strictBody (d :: rest)).map (c :: ·)

theorem backslash_ne_quote : '\\' ≠ quoteChar := by decide

theorem knownEscape_quote : knownEscape quoteChar = none := by decide

theorem strictBody_escape (c : Char) (rest : List Char) : strictBody ('\\' :: c :: rest) =
      (knownEscape c).bind fun d => (strictBody rest).map (d :: ·) := by
  rw [strictBody, if_neg backslash_ne_quote, if_pos rfl]
  cases knownEscape c with
  | none => rfl
  | some d => rfl

/-- The reading that refuses what is left to it. -/
def strict : Unescaping where
  body := strictBody
  body_nil := rfl
  body_quote rest := by rw [strictBody, if_pos rfl, if_pos rfl]
  body_escape c d rest h := by
    rw [strictBody_escape, h]
    rfl
  body_plain c rest hquote hback := by
    cases rest with
    | nil =>
      show (if c = quoteChar ∨ c = '\\' then none else some [c]) = some [c]
      rw [if_neg (not_or.mpr ⟨hquote, hback⟩)]
    | cons d rest => rw [strictBody, if_neg hquote, if_neg hback]

end Ladybug
