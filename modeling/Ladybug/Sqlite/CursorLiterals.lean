import Ladybug.Sqlite.SyncEngine

/-!
# The two literals of a sync path

The cursor is stored under a literal made by `escapeString` (`cdc/sync_cypher.cpp`) and looked up
under one made by `escapeCypherString` (`function/sync_engine.cpp`).
-/

namespace Ladybug.Sqlite

open List

theorem toString_toList (c : Char) : c.toString.toList = [c] := String.toList_singleton c

theorem toList_join_map (f : Char → String) (l : List Char) :
    (String.join (l.map f)).toList = l.flatMap fun c => (f c).toList := by
  rw [String.toList_join, flatMap_map]

variable (u : Unescaping)

theorem body_escapeChar (c : Char) (rest : List Char) :
    u.body ((escapeChar c).toList ++ rest) = (u.body rest).map (c :: ·) := by
  unfold escapeChar
  by_cases hquote : c = quoteChar
  · rw [if_pos hquote, hquote]
    exact u.body_quote rest
  rw [if_neg hquote]
  by_cases hback : c = '\\'
  · rw [if_pos hback, hback]
    exact u.body_escape '\\' '\\' rest rfl
  rw [if_neg hback]
  by_cases hn : c = '\n'
  · rw [if_pos hn, hn]
    exact u.body_escape 'n' '\n' rest rfl
  rw [if_neg hn]
  by_cases hr : c = '\r'
  · rw [if_pos hr, hr]
    exact u.body_escape 'r' '\r' rest rfl
  rw [if_neg hr]
  by_cases ht : c = '\t'
  · rw [if_pos ht, ht]
    exact u.body_escape 't' '\t' rest rfl
  rw [if_neg ht]
  rw [toString_toList]
  exact u.body_plain c rest hquote hback

-- every reading finds the path itself in the literal of the cursor write
theorem denote_escapeString (s : String) : u.denote (escapeString s) = some s.toList := by
  unfold Unescaping.denote escapeString
  rw [toList_join_map]
  induction s.toList with
  | nil => exact u.body_nil
  | cons c rest ih =>
    rw [flatMap_cons, body_escapeChar, ih]
    rfl

theorem escapeCypherChar_plain {c : Char} (hquote : c ≠ quoteChar) :
    (escapeCypherChar c).toList = [c] := by
  unfold escapeCypherChar
  rw [if_neg hquote, toString_toList]

theorem body_escapeCypherChar {c : Char} (hback : c ≠ '\\') (rest : List Char) :
    u.body ((escapeCypherChar c).toList ++ rest) = (u.body rest).map (c :: ·) := by
  have hc : (escapeCypherChar c).toList = doubleQuote c := by
    by_cases hquote : c = quoteChar
    · rw [hquote]
      decide
    · rw [escapeCypherChar_plain hquote, doubleQuote_of_ne hquote]
  rw [hc]
  exact u.body_doubleQuote hback rest

theorem denote_escapeCypherString {s : String} (hs : '\\' ∉ s.toList) :
    u.denote (escapeCypherString s) = some s.toList := by
  unfold Unescaping.denote escapeCypherString
  rw [toList_join_map]
  revert hs
  induction s.toList with
  | nil =>
    intro _
    exact u.body_nil
  | cons c rest ih =>
    intro hs
    have hc : c ≠ '\\' := fun h => hs (h ▸ mem_cons_self)
    have hrest : '\\' ∉ rest := fun h => hs (mem_cons_of_mem c h)
    rw [flatMap_cons, body_escapeCypherChar u hc, ih hrest]
    rfl

-- a backslash takes the next character with it, so the text read back is shorter
theorem strictBody_length : ∀ (l t : List Char),
    strictBody (l.flatMap fun c => (escapeCypherChar c).toList) = some t →
      t.length ≤ l.length ∧ ('\\' ∈ l → t.length < l.length)
  | [], t, h => by
      have ht : t = [] := (Option.some.inj h).symm
      rw [ht]
      exact ⟨le_refl 0, fun hmem => absurd hmem not_mem_nil⟩
  | c :: rest, t, h => by
      rw [flatMap_cons] at h
      by_cases hback : c = '\\'
      · have hc : (escapeCypherChar c).toList = ['\\'] := by rw [hback]; decide
        rw [hc] at h
        cases rest with
        | nil =>
          have hlone : strictBody ['\\'] = none := by decide
          cases hlone.symm.trans h
        | cons d rest =>
          rw [flatMap_cons] at h
          by_cases hquote : d = quoteChar
          · -- a backslash before a doubled quote
            have hd : (escapeCypherChar d).toList = [quoteChar, quoteChar] := by
              rw [hquote]; decide
            rw [hd] at h
            cases h
          · rw [escapeCypherChar_plain hquote] at h
            simp only [cons_append, nil_append, strictBody, if_neg backslash_ne_quote, if_true] at h
            cases he : knownEscape d with
            | none =>
              rw [he] at h
              cases h
            | some e =>
              rw [he] at h
              obtain ⟨t', ht', rfl⟩ := Option.map_eq_some_iff.mp h
              have ih := (strictBody_length rest t' ht').1
              simp only [length_cons]
              exact ⟨by omega, fun _ => by omega⟩
      · have hread : strictBody ((escapeCypherChar c).toList ++
            rest.flatMap fun c => (escapeCypherChar c).toList) =
            (strictBody (rest.flatMap fun c => (escapeCypherChar c).toList)).map (c :: ·) :=
          body_escapeCypherChar strict hback _
        rw [hread] at h
        obtain ⟨t', ht', rfl⟩ := Option.map_eq_some_iff.mp h
        have ih := strictBody_length rest t' ht'
        simp only [length_cons]
        refine ⟨by omega, fun hmem => ?_⟩
        have hrest : '\\' ∈ rest := (mem_cons.mp hmem).resolve_left (Ne.symm hback)
        have := ih.2 hrest
        omega

/-- The two literals of a path denote the same key under every reading. -/
def CursorFound (s : String) : Prop :=
  ∀ u : Unescaping, u.denote (escapeCypherString s) = u.denote (escapeString s)

theorem cursorFound_iff (s : String) : CursorFound s ↔ '\\' ∉ s.toList := by
  constructor
  · intro h hmem
    have hstrict : strict.denote (escapeCypherString s) = some s.toList := by
      rw [h strict, denote_escapeString]
    have hbody : strictBody (s.toList.flatMap fun c => (escapeCypherChar c).toList) =
        some s.toList := by
      rw [← toList_join_map]
      exact hstrict
    exact absurd ((strictBody_length s.toList s.toList hbody).2 hmem) (lt_irrefl _)
  · intro hs u
    rw [denote_escapeCypherString u hs, denote_escapeString u s]

-- the cursor of a database whose file name starts with an escape letter
theorem cursorFound_fails : ¬ ∀ s : String, CursorFound s := by
  intro h
  have hfound := h "C:\\new.db" strict
  exact absurd hfound (by decide)

end Ladybug.Sqlite
