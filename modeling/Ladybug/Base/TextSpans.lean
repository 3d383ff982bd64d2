import Mathlib.Data.List.Pairwise
import Ladybug.Base.Bytes

/-!
# Spans of a text

A text is a row of characters or of the bytes of its UTF-8 form.  When a span by characters is the same
span by bytes, and texts in which spans are replaced.
-/

namespace Ladybug.TextSpans

open List

def utf8 (cs : List Char) : Bytes := cs.flatMap String.utf8EncodeChar

/-- The entries from `a` up to, but not including, `b`. -/
def slice {α : Type} (xs : List α) (a b : Nat) : List α := (xs.drop a).take (b - a)

def SingleByte (cs : List Char) : Prop := ∀ c ∈ cs, c.utf8Size = 1

/-- The bytes that the first `a` characters have beyond one each. -/
def extraBytes (cs : List Char) (a : Nat) : Nat := (utf8 (cs.take a)).length - a

/-- The span from `a` to `b` survives being cut by bytes: it and all before it are single bytes, or it
is single bytes and the same text happens to stand as many places before it as there are extra bytes. -/
def Kept (cs : List Char) (a b : Nat) : Prop :=
  SingleByte (cs.take b) ∨ SingleByte (slice cs a b) ∧
      slice (utf8 cs) a b = slice (utf8 cs) (a + extraBytes cs a) (b + extraBytes cs a)

theorem utf8_append (xs ys : List Char) : utf8 (xs ++ ys) = utf8 xs ++ utf8 ys :=
  flatMap_append

theorem length_utf8_cons (c : Char) (cs : List Char) :
    (utf8 (c :: cs)).length = c.utf8Size + (utf8 cs).length := by
  unfold utf8
  rw [flatMap_cons, length_append, String.length_utf8EncodeChar]

theorem length_le_utf8 (cs : List Char) : cs.length ≤ (utf8 cs).length := by
  induction cs with
  | nil => exact Nat.le_refl _
  | cons c cs ih =>
    have hpos : 0 < c.utf8Size := Char.utf8Size_pos c
    rw [length_utf8_cons, length_cons]
    omega

theorem length_utf8_iff (cs : List Char) : (utf8 cs).length = cs.length ↔ SingleByte cs := by
  unfold SingleByte
  induction cs with
  | nil => simp [utf8]
  | cons c cs ih =>
    have hpos : 0 < c.utf8Size := Char.utf8Size_pos c
    have hle := length_le_utf8 cs
    rw [length_utf8_cons, length_cons, forall_mem_cons, ← ih]
    omega

theorem drop_utf8 (cs : List Char) (a : Nat) :
    (utf8 cs).drop (utf8 (cs.take a)).length = utf8 (cs.drop a) := by
  conv_lhs => rw [← take_append_drop a cs, utf8_append]
  rw [take_append_drop, drop_left]

theorem take_utf8 (cs : List Char) (a : Nat) :
    (utf8 cs).take (utf8 (cs.take a)).length = utf8 (cs.take a) := by
  conv_lhs => rw [← take_append_drop a cs, utf8_append]
  rw [take_append_drop, take_left]

theorem length_slice {α : Type} {xs : List α} {a b : Nat} (h : b ≤ xs.length) :
    (slice xs a b).length = b - a := by
  unfold slice
  rw [length_take, length_drop]
  omega

theorem slice_slice {α : Type} {xs : List α} {base x y hi : Nat} (hbase : base ≤ x) (hy : y ≤ hi) :
    slice (slice xs base hi) (x - base) (y - base) = slice xs x y := by
  unfold slice
  rw [drop_take, drop_drop, take_take]
  congr 1
  · omega
  · congr 1
    omega

variable {a b : Nat} {cs : List Char}

theorem take_slice {xs : Bytes} (h : a ≤ b) : xs.take a ++ slice xs a b = xs.take b := by
  have htake : xs.take a = (xs.take b).take a := by
    rw [take_take, Nat.min_eq_left h]
  unfold slice
  rw [← drop_take, htake, take_append_drop]

theorem extraBytes_eq (h : a ≤ cs.length) : a + extraBytes cs a = (utf8 (cs.take a)).length := by
  have hle := length_le_utf8 (cs.take a)
  rw [length_take, Nat.min_eq_left h] at hle
  unfold extraBytes
  omega

theorem slice_shifted (hab : a ≤ b) (hb : b ≤ cs.length) (hspan : SingleByte (slice cs a b)) :
    slice (utf8 cs) (a + extraBytes cs a) (b + extraBytes cs a) = utf8 (slice cs a b) := by
  have hlen : (utf8 ((cs.drop a).take (b - a))).length = b - a :=
    ((length_utf8_iff _).mpr hspan).trans (length_slice hb)
  unfold slice
  rw [extraBytes_eq (hab.trans hb), drop_utf8]
  rw [show b + extraBytes cs a - (utf8 (cs.take a)).length = b - a by
    have := extraBytes_eq (hab.trans hb)
    omega]
  rw [← take_utf8 (cs.drop a), hlen]

theorem slice_utf8_iff (hab : a ≤ b) (hb : b ≤ cs.length) :
    slice (utf8 cs) a b = utf8 (slice cs a b) ↔ Kept cs a b := by
  constructor
  · intro h
    have hlen := congrArg length h
    rw [length_slice (hb.trans (length_le_utf8 cs)), ← @length_slice Char cs a b hb] at hlen
    have hspan : SingleByte (slice cs a b) := (length_utf8_iff _).mp hlen.symm
    exact .inr ⟨hspan, h.trans (slice_shifted hab hb hspan).symm⟩
  · rintro (hall | ⟨hspan, hrepeat⟩)
    · have hfront : SingleByte (cs.take a) :=
        fun c hc => hall c (take_subset_take_left cs hab hc)
      have hspan : SingleByte (slice cs a b) := by
        intro c hc
        apply hall c
        unfold slice at hc
        rw [← drop_take] at hc
        exact mem_of_mem_drop hc
      have hnone : extraBytes cs a = 0 := by
        unfold extraBytes
        rw [(length_utf8_iff _).mpr hfront, length_take]
        omega
      have hshift := slice_shifted hab hb hspan
      rw [hnone] at hshift
      exact hshift
    · rw [hrepeat, slice_shifted hab hb hspan]

/-- A span of a text and what replaces it. -/
structure Splice where
  start : Nat
  stop : Nat
  replacement : Bytes

/-- A text whose spans are replaced: the pieces between the spans, each given by `text`, and the
replacements. -/
def pieces (text : Nat → Nat → Bytes) : Nat → List Splice → Nat → Bytes
  | a, [], b => text a b
  | a, s :: spans, b => text a s.start ++ s.replacement ++ pieces text (s.stop + 1) spans b

/-- The ends of the pieces between the spans. -/
def gaps : Nat → List Splice → Nat → List (Nat × Nat)
  | a, [], b => [(a, b)]
  | a, s :: spans, b => (a, s.start) :: gaps (s.stop + 1) spans b

/-- Spans one after another, from `a` up to `b`. -/
def InOrder : Nat → List Splice → Nat → Prop
  | a, [], b => a ≤ b
  | a, s :: spans, b => a ≤ s.start ∧ s.start ≤ s.stop ∧ InOrder (s.stop + 1) spans b

variable {spans : List Splice}

theorem InOrder.le (h : InOrder a spans b) : a ≤ b := by
  induction spans generalizing a with
  | nil => exact h
  | cons s spans ih =>
    have hrest := ih h.2.2
    have hstart := h.1
    have hstop := h.2.1
    omega

theorem InOrder.gap_le (h : InOrder a spans b) :
    ∀ gap ∈ gaps a spans b, a ≤ gap.1 ∧ gap.1 ≤ gap.2 ∧ gap.2 ≤ b := by
  induction spans generalizing a with
  | nil =>
    intro gap hgap
    rw [mem_singleton.mp hgap]
    exact ⟨Nat.le_refl a, h, Nat.le_refl b⟩
  | cons s spans ih =>
    intro gap hgap
    have hstart := h.1
    have hstop := h.2.1
    rcases mem_cons.mp hgap with hgap | hgap
    · have hrest := h.2.2.le
      rw [hgap]
      omega
    · have hrest := ih h.2.2 gap hgap
      omega

theorem InOrder.start_lt (h : InOrder a spans b) :
    (∀ s ∈ spans, a ≤ s.start) ∧ spans.Pairwise fun s t => s.start < t.start := by
  induction spans generalizing a with
  | nil => exact ⟨fun s hs => absurd hs not_mem_nil, List.Pairwise.nil⟩
  | cons s spans ih =>
    have hrest := ih h.2.2
    have hstart := h.1
    have hstop := h.2.1
    constructor
    · intro t ht
      rcases mem_cons.mp ht with ht | ht
      · rw [ht]
        exact hstart
      · have := hrest.1 t ht
        omega
    · apply List.Pairwise.cons _ hrest.2
      intro t ht
      have := hrest.1 t ht
      omega

theorem InOrder.append {m : Nat} {xs ys : List Splice} (hxs : InOrder a xs m) (hys : InOrder m ys b) :
    InOrder a (xs ++ ys) b := by
  induction xs generalizing a with
  | nil =>
    have hle : a ≤ m := hxs
    cases ys with
    | nil => exact Nat.le_trans hle hys
    | cons s ys => exact ⟨Nat.le_trans hle hys.1, hys.2⟩
  | cons s xs ih => exact ⟨hxs.1, hxs.2.1, ih hxs.2.2⟩

def Splice.span (s : Splice) : Nat × Nat := (s.start, s.stop)

theorem gaps_congr {spans' : List Splice} (h : spans.map Splice.span = spans'.map Splice.span) :
    gaps a spans b = gaps a spans' b := by
  induction spans generalizing a spans' with
  | nil =>
    rw [map_nil, eq_comm, map_eq_nil_iff] at h
    rw [h]
  | cons s spans ih =>
    cases spans' with
    | nil => cases h
    | cons s' spans' =>
      rw [map_cons, map_cons, cons.injEq] at h
      have hstart : s.start = s'.start := congrArg Prod.fst h.1
      have hstop : s.stop = s'.stop := congrArg Prod.snd h.1
      simp only [gaps]
      rw [hstart, hstop, ih h.2]

/-- The byte that stands for a replacement when two texts are compared: it is in no UTF-8 text. -/
def noByte : UInt8 := 0xff

theorem ofNat_ne_noByte {k : Nat} (h : k < 0xff) : UInt8.ofNat k ≠ noByte := by
  intro heq
  have hnat := congrArg UInt8.toNat heq
  rw [UInt8.toNat_ofNat', Nat.mod_eq_of_lt (by omega)] at hnat
  exact absurd hnat (Nat.ne_of_lt h)

theorem noByte_not_mem_utf8 (cs : List Char) : noByte ∉ utf8 cs := by
  intro h
  rcases mem_flatMap.mp h with ⟨c, -, hc⟩
  have hsmall : ∀ ks : List Nat, (∀ k ∈ ks, k < 0xff) → noByte ∉ ks.map UInt8.ofNat := by
    intro ks hks hmem
    rcases mem_map.mp hmem with ⟨k, hk, heq⟩
    exact ofNat_ne_noByte (hks k hk) heq
  unfold String.utf8EncodeChar at hc
  simp only at hc
  -- one case for each number of bytes
  split at hc
  · exact hsmall [c.val.toNat] (by rw [forall_mem_singleton]; omega) hc
  · split at hc
    · exact hsmall [c.val.toNat / 64 % 0x20 + 0xc0, c.val.toNat % 0x40 + 0x80] (by simp; omega) hc
    · split at hc
      · exact hsmall [c.val.toNat / 4096 % 0x10 + 0xe0, c.val.toNat / 64 % 0x40 + 0x80,
          c.val.toNat % 0x40 + 0x80] (by simp; omega) hc
      · exact hsmall [c.val.toNat / 262144 % 0x08 + 0xf0, c.val.toNat / 4096 % 0x40 + 0x80,
          c.val.toNat / 64 % 0x40 + 0x80, c.val.toNat % 0x40 + 0x80] (by simp; omega) hc

theorem eq_of_append_cons {x : UInt8} {p q r s : Bytes} (hp : x ∉ p) (hq : x ∉ q)
    (h : p ++ x :: r = q ++ x :: s) : p = q ∧ r = s := by
  induction p generalizing q with
  | nil =>
    cases q with
    | nil =>
      rw [nil_append, nil_append, cons.injEq] at h
      exact ⟨rfl, h.2⟩
    | cons c q =>
      rw [nil_append, cons_append, cons.injEq] at h
      exact absurd (h.1 ▸ mem_cons_self) hq
  | cons c p ih =>
    cases q with
    | nil =>
      rw [nil_append, cons_append, cons.injEq] at h
      exact absurd (h.1 ▸ mem_cons_self) hp
    | cons d q =>
      rw [cons_append, cons_append, cons.injEq] at h
      rw [mem_cons, not_or] at hp hq
      rcases ih hp.2 hq.2 h.2 with ⟨heq, hrest⟩
      rw [h.1, heq]
      exact ⟨rfl, hrest⟩

def Marked (s : Splice) : Prop := ∃ r : Bytes, noByte ∉ r ∧ s.replacement = r ++ [noByte]

variable {text text' : Nat → Nat → Bytes}

theorem pieces_eq_iff (h : ∀ x y, noByte ∉ text x y) (h' : ∀ x y, noByte ∉ text' x y)
    (hspans : ∀ s ∈ spans, Marked s) :
    pieces text a spans b = pieces text' a spans b ↔
      ∀ gap ∈ gaps a spans b, text gap.1 gap.2 = text' gap.1 gap.2 := by
  induction spans generalizing a with
  | nil =>
    show text a b = text' a b ↔ _
    simp [gaps]
  | cons s spans ih =>
    rw [forall_mem_cons] at hspans
    rcases hspans.1 with ⟨r, hr, hreplacement⟩
    have hmark : ∀ front rest : Bytes, front ++ (r ++ [noByte]) ++ rest =
        (front ++ r) ++ noByte :: rest := by
      simp
    simp only [pieces, gaps, hreplacement, hmark, forall_mem_cons]
    rw [← ih hspans.2]
    constructor
    · intro heq
      have hboth := eq_of_append_cons (by simp [h, hr]) (by simp [h', hr]) heq
      exact ⟨append_cancel_right hboth.1, hboth.2⟩
    · rintro ⟨hhead, htail⟩
      rw [hhead, htail]

theorem pieces_congr (h : ∀ gap ∈ gaps a spans b, text gap.1 gap.2 = text' gap.1 gap.2) :
    pieces text a spans b = pieces text' a spans b := by
  induction spans generalizing a with
  | nil => exact h (a, b) mem_cons_self
  | cons s spans ih =>
    have htail := ih (fun gap hgap => h gap (mem_cons_of_mem _ hgap))
    simp only [pieces]
    rw [h (a, s.start) mem_cons_self, htail]

end Ladybug.TextSpans
