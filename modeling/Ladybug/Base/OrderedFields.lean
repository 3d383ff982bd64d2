import Mathlib.Data.UInt
import Ladybug.Base.Bytes

/-!
# Fields that keep their order as bytes

Byte strings are compared as `memcmp` does, the shorter one first when it is a prefix.  A field that
is followed by more bytes keeps the order of what it encodes if it has a fixed length, if it ends with
a byte below all of its own, or if that byte is escaped.  A field of reversed digits ends with a byte
above all of its own.
-/

namespace Ladybug

open List

/-- The first `n` bytes of two buffers. -/
def memcmp : Nat → Bytes → Bytes → Ordering
  | 0, _, _ => .eq
  | _, [], _ => .eq
  | _, _, [] => .eq
  | n + 1, a :: as, b :: bs => (compare a b).then (memcmp n as bs)

theorem memcmp_then_length (a b : Bytes) :
    (memcmp (min a.length b.length) a b).then (compare a.length b.length) = compare a b := by
  induction a generalizing b with
  | nil =>
    cases b with
    | nil => rfl
    | cons y b =>
      show compare 0 (b.length + 1) = .lt
      rw [Nat.compare_eq_lt]
      omega
  | cons x a ih =>
    cases b with
    | nil =>
      show compare (a.length + 1) 0 = .gt
      rw [Nat.compare_eq_gt]
      omega
    | cons y b =>
      have hmin : min (x :: a).length (y :: b).length = min a.length b.length + 1 := by
        simp only [length_cons]
        omega
      have hlen : compare (x :: a).length (y :: b).length = compare a.length b.length := by
        simp only [length_cons, Nat.compare_eq_ite_lt]
        split_ifs <;> first | rfl | omega
      rw [hmin, hlen, memcmp, Ordering.then_assoc, ih, List.compare_cons_cons]

theorem compare_byte_lt {a b : UInt8} (h : a < b) : compare a b = .lt := Std.compare_eq_lt.mpr h

theorem compare_byte_gt {a b : UInt8} (h : b < a) : compare a b = .gt := Std.compare_eq_gt.mpr h

theorem compare_byte_self (a : UInt8) : compare a a = .eq := Std.compare_eq_iff_eq.mpr rfl

theorem compare_cons_self (t : UInt8) (u v : Bytes) : compare (t :: u) (t :: v) = compare u v := by
  rw [List.compare_cons_cons, compare_byte_self]
  rfl

theorem compare_append_self (p u v : Bytes) : compare (p ++ u) (p ++ v) = compare u v := by
  induction p with
  | nil => rfl
  | cons t p ih => rw [cons_append, cons_append, compare_cons_self, ih]

variable {a b u : Bytes} {t x : UInt8} {f : UInt8 → UInt8} {S : UInt8 → Prop} {width n : Nat}

theorem compare_append_of_length_eq (h : a.length = b.length) (u v : Bytes) :
    compare (a ++ u) (b ++ v) = (compare a b).then (compare u v) := by
  induction a generalizing b with
  | nil =>
    obtain rfl := length_eq_zero_iff.mp h.symm
    rfl
  | cons x a ih =>
    cases b with
    | nil => cases h
    | cons y b =>
      rw [cons_append, cons_append, List.compare_cons_cons, List.compare_cons_cons,
        ih (Nat.succ.inj h), Ordering.then_assoc]

theorem compare_terminated (ha : ∀ x ∈ a, t < x) (hb : ∀ x ∈ b, t < x) (u v : Bytes) :
    compare (a ++ t :: u) (b ++ t :: v) = (compare a b).then (compare u v) := by
  induction a generalizing b with
  | nil =>
    cases b with
    | nil => exact compare_cons_self t u v
    | cons y b =>
      show compare (t :: u) (y :: (b ++ t :: v)) = .lt
      rw [List.compare_cons_cons, compare_byte_lt (hb y mem_cons_self)]
      rfl
  | cons x a ih =>
    cases b with
    | nil =>
      show compare (x :: (a ++ t :: u)) (t :: v) = .gt
      rw [List.compare_cons_cons, compare_byte_gt (ha x mem_cons_self)]
      rfl
    | cons y b =>
      have hrest := ih (fun z hz => ha z (mem_cons_of_mem x hz)) (b := b)
        fun z hz => hb z (mem_cons_of_mem y hz)
      rw [cons_append, cons_append, List.compare_cons_cons, List.compare_cons_cons,
        hrest, Ordering.then_assoc]

theorem compare_map_reversed {y : UInt8} (hxy : x < y → f y < f x) (hyx : y < x → f x < f y) :
    compare (f x) (f y) = (compare x y).swap := by
  rcases Std.lt_trichotomy x y with h | h | h
  · rw [compare_byte_lt h, compare_byte_gt (hxy h)]
    rfl
  · rw [h, compare_byte_self, compare_byte_self]
    rfl
  · rw [compare_byte_gt h, compare_byte_lt (hyx h)]
    rfl

theorem compare_reversed_terminated (hf : ∀ x y, S x → S y → x < y → f y < f x)
    (ht : ∀ x, S x → f x < t) (ha : ∀ x ∈ a, S x) (hb : ∀ x ∈ b, S x) (u v : Bytes) :
    compare (a.map f ++ t :: u) (b.map f ++ t :: v) = (compare a b).swap.then (compare u v) := by
  induction a generalizing b with
  | nil =>
    cases b with
    | nil => exact compare_cons_self t u v
    | cons y b =>
      show compare (t :: u) (f y :: (b.map f ++ t :: v)) = .gt
      rw [List.compare_cons_cons, compare_byte_gt (ht y (hb y mem_cons_self))]
      rfl
  | cons x a ih =>
    cases b with
    | nil =>
      show compare (f x :: (a.map f ++ t :: u)) (t :: v) = .lt
      rw [List.compare_cons_cons, compare_byte_lt (ht x (ha x mem_cons_self))]
      rfl
    | cons y b =>
      have hx := ha x mem_cons_self
      have hy := hb y mem_cons_self
      have hrest := ih (fun z hz => ha z (mem_cons_of_mem x hz)) (b := b)
        fun z hz => hb z (mem_cons_of_mem y hz)
      rw [map_cons, map_cons, cons_append, cons_append,
        List.compare_cons_cons, List.compare_cons_cons, hrest,
        compare_map_reversed (hf x y hx hy) (hf y x hy hx), Ordering.swap_then,
        Ordering.then_assoc]

theorem compare_reversed (hf : ∀ x y, S x → S y → x < y → f y < f x) (h : a.length = b.length)
    (ha : ∀ x ∈ a, S x) (hb : ∀ x ∈ b, S x) : compare (a.map f) (b.map f) = (compare a b).swap := by
  induction a generalizing b with
  | nil =>
    obtain rfl := length_eq_zero_iff.mp h.symm
    rfl
  | cons x a ih =>
    cases b with
    | nil => cases h
    | cons y b =>
      have hx := ha x mem_cons_self
      have hy := hb y mem_cons_self
      have hrest := ih (Nat.succ.inj h) (fun z hz => ha z (mem_cons_of_mem x hz))
        fun z hz => hb z (mem_cons_of_mem y hz)
      rw [map_cons, map_cons, List.compare_cons_cons, List.compare_cons_cons, hrest,
        compare_map_reversed (hf x y hx hy) (hf y x hy hx), Ordering.swap_then]

/-- Every zero byte is followed by `0xFF`. -/
def escaped (text : Bytes) : Bytes := text.flatMap fun b => if b = 0 then [b, 0xFF] else [b]

/-- What follows an escaped text does not look like an escape. -/
def EndsField (u : Bytes) : Prop := ∀ b ∈ u.head?, b < 0xFF

theorem escaped_cons (x : UInt8) (a : Bytes) :
    escaped (x :: a) = (if x = 0 then [x, 0xFF] else [x]) ++ escaped a := rfl

theorem byte_pos_of_ne_zero (h : x ≠ 0) : 0 < x := by
  rw [UInt8.lt_iff_toNat_lt]
  have hne : x.toNat ≠ 0 := fun h0 => h (UInt8.toNat_inj.mp h0)
  simp only [UInt8.toNat_zero]
  omega

theorem compare_end_escaped (hu : EndsField u) (y : UInt8) (b v : Bytes) :
    compare (0 :: u) (escaped (y :: b) ++ 0 :: v) = .lt := by
  rw [escaped_cons]
  by_cases hy : y = 0
  · rw [if_pos hy, hy]
    show compare (0 :: u) (0 :: 0xFF :: (escaped b ++ 0 :: v)) = .lt
    rw [compare_cons_self]
    cases u with
    | nil => rfl
    | cons x u =>
      rw [List.compare_cons_cons, compare_byte_lt (hu x rfl)]
      rfl
  · rw [if_neg hy]
    show compare (0 :: u) (y :: (escaped b ++ 0 :: v)) = .lt
    rw [List.compare_cons_cons, compare_byte_lt (byte_pos_of_ne_zero hy)]
    rfl

theorem compare_escaped {v : Bytes} (hu : EndsField u) (hv : EndsField v) (a b : Bytes) :
    compare (escaped a ++ 0 :: u) (escaped b ++ 0 :: v) = (compare a b).then (compare u v) := by
  induction a generalizing b with
  | nil =>
    cases b with
    | nil => exact compare_cons_self 0 u v
    | cons y b => exact compare_end_escaped hu y b v
  | cons x a ih =>
    cases b with
    | nil =>
      show compare (escaped (x :: a) ++ 0 :: u) (0 :: v) = .gt
      have hswap : compare (escaped (x :: a) ++ 0 :: u) (0 :: v) =
          (compare (0 :: v) (escaped (x :: a) ++ 0 :: u)).swap := Std.OrientedCmp.eq_swap
      rw [hswap, compare_end_escaped hv x a u]
      rfl
    | cons y b =>
      rw [escaped_cons, escaped_cons, append_assoc, append_assoc,
        List.compare_cons_cons, Ordering.then_assoc, ← ih b]
      by_cases hxy : x = y
      · rw [hxy, compare_append_self, compare_byte_self]
        rfl
      · -- the first bytes differ
        have hne : compare x y ≠ .eq := fun h => hxy (Std.compare_eq_iff_eq.mp h)
        have hhead : ∀ (z : UInt8) (w : Bytes),
            ∃ rest, (if z = 0 then [z, 0xFF] else [z]) ++ w = z :: rest := by
          intro z w
          split
          · exact ⟨0xFF :: w, rfl⟩
          · exact ⟨w, rfl⟩
        obtain ⟨ra, hra⟩ := hhead x (escaped a ++ 0 :: u)
        obtain ⟨rb, hrb⟩ := hhead y (escaped b ++ 0 :: v)
        rw [hra, hrb, List.compare_cons_cons]
        cases hcmp : compare x y with
        | eq => exact absurd hcmp hne
        | lt | gt => rfl

/-- The last `width` decimal digits of a number, as characters. -/
def numeral : Nat → Nat → Bytes
  | 0, _ => []
  | width + 1, n => numeral width (n / 10) ++ [UInt8.ofNat (0x30 + n % 10)]

theorem numeral_length (width n : Nat) : (numeral width n).length = width := by
  induction width generalizing n with
  | zero => rfl
  | succ width ih =>
    rw [numeral, length_append, ih]
    rfl

theorem numeral_digit : ∀ x ∈ numeral width n, 0x30 ≤ x ∧ x ≤ 0x39 := by
  induction width generalizing n with
  | zero => exact fun x hx => absurd hx not_mem_nil
  | succ width ih =>
    intro x hx
    rcases mem_append.mp hx with hx | hx
    · exact ih x hx
    · rw [mem_singleton] at hx
      subst hx
      have hlt : 0x30 + n % 10 < 256 := by omega
      rw [UInt8.le_iff_toNat_le, UInt8.le_iff_toNat_le, UInt8.toNat_ofNat_of_lt' hlt]
      show 48 ≤ _ ∧ _ ≤ 57
      omega

theorem compare_numeral {m : Nat} (hm : m < 10 ^ width) (hn : n < 10 ^ width) :
    compare (numeral width m) (numeral width n) = compare m n := by
  induction width generalizing m n with
  | zero =>
    have hm0 : m = 0 := by omega
    have hn0 : n = 0 := by omega
    rw [hm0, hn0]
    rfl
  | succ width ih =>
    have hm' : m / 10 < 10 ^ width := by omega
    have hn' : n / 10 < 10 ^ width := by omega
    rw [numeral, numeral, compare_append_of_length_eq (by rw [numeral_length, numeral_length]),
      ih hm' hn']
    have hlast : compare [UInt8.ofNat (0x30 + m % 10)] [UInt8.ofNat (0x30 + n % 10)] =
        compare (m % 10) (n % 10) := by
      rw [List.compare_cons_cons]
      have hlt : ∀ k : Nat, 0x30 + k % 10 < 256 := fun k => by omega
      rcases lt_trichotomy (m % 10) (n % 10) with h | h | h
      · rw [compare_byte_lt, Nat.compare_eq_lt.mpr h]
        · rfl
        · rw [UInt8.lt_iff_toNat_lt, UInt8.toNat_ofNat_of_lt' (hlt m),
            UInt8.toNat_ofNat_of_lt' (hlt n)]
          omega
      · rw [h, compare_byte_self, Nat.compare_eq_eq.mpr rfl]
        rfl
      · rw [compare_byte_gt, Nat.compare_eq_gt.mpr h]
        · rfl
        · rw [UInt8.lt_iff_toNat_lt, UInt8.toNat_ofNat_of_lt' (hlt m),
            UInt8.toNat_ofNat_of_lt' (hlt n)]
          omega
    rw [hlast]
    rcases lt_trichotomy (m / 10) (n / 10) with h | h | h
    · rw [Nat.compare_eq_lt.mpr h, Nat.compare_eq_lt.mpr (show m < n by omega)]
      rfl
    · rw [h, Nat.compare_eq_eq.mpr rfl]
      simp only [Nat.compare_eq_ite_lt, Ordering.then]
      split_ifs <;> first | rfl | omega
    · rw [Nat.compare_eq_gt.mpr h, Nat.compare_eq_gt.mpr (show n < m by omega)]
      rfl

end Ladybug
