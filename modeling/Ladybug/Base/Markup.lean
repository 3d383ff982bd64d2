import Ladybug.Base.Bytes

/-!
# Searching a text for its tags

A text with markup is a row of tags and of pieces of text in which no tag begins.  A search for
the text of a tag then finds the tag, wherever the row is cut.
-/

namespace Ladybug.Markup

open List

def ascii (text : String) : Bytes := text.toList.map Char.toUInt8

/-- The distance to the first place where `needle` begins. -/
def find (needle : Bytes) : Bytes → Option Nat
  | [] => if needle = [] then some 0 else none
  | x :: xs => if needle <+: x :: xs then some 0 else (find needle xs).map (· + 1)

def findFrom (text needle : Bytes) (pos : Nat) : Option Nat :=
  if pos ≤ text.length then (find needle (text.drop pos)).map (pos + ·) else none

theorem find_here {needle text : Bytes} (h : needle <+: text) : find needle text = some 0 := by
  cases text with
  | nil =>
    show (if needle = [] then some 0 else none) = some 0
    rw [if_pos (prefix_nil.mp h)]
  | cons x xs =>
    show (if needle <+: x :: xs then some 0 else _) = some 0
    rw [if_pos h]

theorem find_cons {needle xs : Bytes} {x : UInt8} (h : ¬ needle <+: x :: xs) :
    find needle (x :: xs) = (find needle xs).map (· + 1) := by
  show (if needle <+: x :: xs then some 0 else _) = _
  rw [if_neg h]

theorem find_skip {first : UInt8} {needle front : Bytes} (h : first ∉ front) (text : Bytes) :
    find (first :: needle) (front ++ text)
      = (find (first :: needle) text).map (front.length + ·) := by
  induction front with
  | nil =>
    simp
  | cons x front ih =>
    have hx : ¬ first :: needle <+: x :: (front ++ text) := by
      intro hpre
      rw [cons_prefix_cons] at hpre
      exact h (hpre.1 ▸ mem_cons_self)
    rw [cons_append, find_cons hx, ih (fun hin => h (mem_cons_of_mem x hin)), Option.map_map]
    congr 1
    funext n
    show front.length + n + 1 = front.length + 1 + n
    omega

theorem findFrom_length (front text needle : Bytes) : findFrom (front ++ text) needle front.length
      = (find needle text).map (front.length + ·) := by
  unfold findFrom
  rw [if_pos (by rw [length_append]; omega), drop_left]

inductive Piece where
  | tag (name : Bytes)
  | text (body : Bytes)
  deriving DecidableEq

def lt : UInt8 := '<'.toUInt8

def gt : UInt8 := '>'.toUInt8

def tagText (name : Bytes) : Bytes := lt :: (name ++ [gt])

def Piece.render : Piece → Bytes
  | .tag name => tagText name
  | .text body => body

def render (pieces : List Piece) : Bytes := pieces.flatMap Piece.render

def Piece.Proper : Piece → Prop
  | .tag name => lt ∉ name ∧ gt ∉ name
  | .text body => lt ∉ body

instance : DecidablePred Piece.Proper
  | .tag name => inferInstanceAs (Decidable (lt ∉ name ∧ gt ∉ name))
  | .text body => inferInstanceAs (Decidable (lt ∉ body))

@[simp] theorem render_nil : render [] = [] := rfl

@[simp] theorem render_cons (piece : Piece) (pieces : List Piece) :
    render (piece :: pieces) = piece.render ++ render pieces := rfl

@[simp] theorem render_append (pieces pieces' : List Piece) :
    render (pieces ++ pieces') = render pieces ++ render pieces' := flatMap_append

theorem eq_of_tag_prefixes {name name' rest : Bytes} (hname : gt ∉ name) (hname' : gt ∉ name')
    (h : name ++ [gt] <+: name' ++ [gt] ++ rest) : name = name' := by
  induction name generalizing name' with
  | nil =>
    cases name' with
    | nil => rfl
    | cons y ys =>
      have heq : gt = y := (cons_prefix_cons.mp h).1
      exact absurd (heq ▸ mem_cons_self) hname'
  | cons x xs ih =>
    cases name' with
    | nil =>
      have heq : x = gt := (cons_prefix_cons.mp h).1
      exact absurd (heq ▸ mem_cons_self) hname
    | cons y ys =>
      obtain ⟨heq, hrest⟩ := cons_prefix_cons.mp h
      rw [heq, ih (fun hin => hname (mem_cons_of_mem x hin))
        (fun hin => hname' (mem_cons_of_mem y hin)) hrest]

theorem find_tag (name text : Bytes) : find (tagText name) (tagText name ++ text) = some 0 :=
  find_here (prefix_append _ _)

theorem find_other {name other text : Bytes} (hname : gt ∉ name)
    (hother : lt ∉ other ∧ gt ∉ other) (hne : name ≠ other) :
    find (tagText name) (tagText other ++ text)
      = (find (tagText name) text).map ((tagText other).length + ·) := by
  have hhere : ¬ tagText name <+: lt :: (other ++ [gt] ++ text) := by
    intro hpre
    exact hne (eq_of_tag_prefixes hname hother.2 (cons_prefix_cons.mp hpre).2)
  have hlt : lt ∉ other ++ [gt] := by
    simp only [mem_append, mem_singleton, not_or]
    exact ⟨hother.1, by decide⟩
  show find (tagText name) (lt :: (other ++ [gt] ++ text)) = _
  rw [find_cons hhere]
  unfold tagText
  rw [find_skip hlt, Option.map_map]
  congr 1
  funext n
  show (other ++ [gt]).length + n + 1 = (other ++ [gt]).length + 1 + n
  omega

theorem find_piece {name : Bytes} (hname : gt ∉ name) {piece : Piece} (hproper : piece.Proper)
    (hne : piece ≠ .tag name) (text : Bytes) :
    find (tagText name) (piece.render ++ text)
      = (find (tagText name) text).map (piece.render.length + ·) := by
  cases piece with
  | tag other => exact find_other hname hproper (fun heq => hne (heq ▸ rfl))
  | text body => exact find_skip hproper text

theorem find_pieces {name : Bytes} (hname : gt ∉ name) {pieces : List Piece}
    (hproper : ∀ piece ∈ pieces, piece.Proper) (hno : .tag name ∉ pieces) (text : Bytes) :
    find (tagText name) (render pieces ++ text)
      = (find (tagText name) text).map ((render pieces).length + ·) := by
  induction pieces with
  | nil => simp
  | cons piece pieces ih =>
    have hne : piece ≠ .tag name := fun heq => hno (heq ▸ mem_cons_self)
    rw [render_cons, append_assoc, find_piece hname (hproper piece mem_cons_self) hne,
      ih (fun p hp => hproper p (mem_cons_of_mem piece hp))
        (fun hin => hno (mem_cons_of_mem piece hin)), Option.map_map, length_append]
    congr 1
    funext n
    show piece.render.length + ((render pieces).length + n)
      = piece.render.length + (render pieces).length + n
    omega

end Ladybug.Markup
