import Mathlib.Algebra.Order.Field.Power
import Mathlib.Data.List.DropRight
import Mathlib.Tactic.FieldSimp
import Mathlib.Tactic.Linarith
import Mathlib.Tactic.Positivity
import Mathlib.Tactic.Ring

/-!
# Digits behind the point

A sequence of digits as the fraction `0.<digits>`, and as a number.  Without a zero at their end,
digits are ordered as their fractions are; without a zero at their start, the number that they make
with an exponent is ordered by the exponent first.
-/

namespace Ladybug

open List

section

variable (b : ℕ)

/-- `0.<digits>` -/
def fraction : List ℕ → ℚ
  | [] => 0
  | d :: ds => (d + fraction ds) / b

theorem fraction_cons (d : ℕ) (ds : List ℕ) :
    fraction b (d :: ds) = ((d : ℚ) + fraction b ds) / b := rfl

def digitsValue (ds : List ℕ) : ℕ := ds.foldl (fun n d => n * b + d) 0

def Digits (ds : List ℕ) : Prop := ∀ d ∈ ds, d < b

variable {b}

theorem fraction_nonneg (ds : List ℕ) : 0 ≤ fraction b ds := by
  induction ds with
  | nil => exact le_refl 0
  | cons d ds ih =>
    unfold fraction
    positivity

variable {ds : List ℕ} {d : ℕ}

theorem fraction_lt_one (h : Digits b ds) : fraction b ds < 1 := by
  induction ds with
  | nil => exact one_pos
  | cons d ds ih =>
    have hd : d < b := h d mem_cons_self
    have hrest := ih fun x hx => h x (mem_cons_of_mem d hx)
    have hbase : (0 : ℚ) < b := by
      have hpos : 0 < b := by omega
      exact_mod_cast hpos
    have hle : (d : ℚ) + 1 ≤ b := by exact_mod_cast hd
    unfold fraction
    rw [div_lt_one hbase]
    linarith

theorem fraction_append_zeros (ds : List ℕ) {zeros : List ℕ} (h : ∀ d ∈ zeros, d = 0) :
    fraction b (ds ++ zeros) = fraction b ds := by
  induction ds with
  | nil =>
    induction zeros with
    | nil => rfl
    | cons d zeros ih =>
      have hrest := ih fun x hx => h x (mem_cons_of_mem d hx)
      rw [nil_append] at hrest ⊢
      show ((d : ℚ) + fraction b zeros) / b = 0
      rw [hrest, h d mem_cons_self]
      show ((0 : ℕ) + (0 : ℚ)) / b = 0
      rw [Nat.cast_zero, add_zero, zero_div]
  | cons d ds ih =>
    show ((d : ℚ) + fraction b (ds ++ zeros)) / b = ((d : ℚ) + fraction b ds) / b
    rw [ih]

theorem fraction_pos (hbase : 0 < b) (hsome : ∃ d ∈ ds, d ≠ 0) : 0 < fraction b ds := by
  induction ds with
  | nil =>
    obtain ⟨d, hd, -⟩ := hsome
    cases hd
  | cons d ds ih =>
    unfold fraction
    by_cases hzero : d = 0
    · obtain ⟨x, hx, hne⟩ := hsome
      have hmem : x ∈ ds := by
        rcases mem_cons.mp hx with heq | hmem
        · exact absurd (heq.trans hzero) hne
        · exact hmem
      have hrest := ih ⟨x, hmem, hne⟩
      positivity
    · have hrest := fraction_nonneg (b := b) ds
      positivity

theorem inv_base_le_fraction (hbase : 0 < b) (hd : d ≠ 0) : (1 : ℚ) / b ≤ fraction b (d :: ds) := by
  have hb : (0 : ℚ) < b := by exact_mod_cast hbase
  have hone : (1 : ℚ) ≤ d := by exact_mod_cast Nat.one_le_iff_ne_zero.mpr hd
  have hrest := fraction_nonneg (b := b) ds
  apply div_le_div_of_nonneg_right _ hb.le
  linarith

theorem digitsValue_foldl (ds : List ℕ) (n : ℕ) :
    ds.foldl (fun n d => n * b + d) n = n * b ^ ds.length + digitsValue b ds := by
  unfold digitsValue
  induction ds generalizing n with
  | nil => simp
  | cons d ds ih =>
    rw [foldl_cons, foldl_cons, ih, ih (0 * b + d), length_cons]
    ring

theorem digitsValue_cons (d : ℕ) (ds : List ℕ) :
    digitsValue b (d :: ds) = d * b ^ ds.length + digitsValue b ds := by
  have hfold := digitsValue_foldl (b := b) ds (0 * b + d)
  rw [Nat.zero_mul, Nat.zero_add] at hfold
  rw [← hfold]
  show ds.foldl _ (0 * b + d) = _
  rw [Nat.zero_mul, Nat.zero_add]

theorem fraction_mul_pow (hbase : 0 < b) (ds : List ℕ) :
    fraction b ds * (b : ℚ) ^ ds.length = digitsValue b ds := by
  induction ds with
  | nil => simp [fraction, digitsValue]
  | cons d ds ih =>
    rw [digitsValue_cons, Nat.cast_add, Nat.cast_mul, Nat.cast_pow, ← ih]
    rw [fraction_cons, length_cons, pow_succ]
    field_simp

theorem digitsValue_dropWhile (ds : List ℕ) :
    digitsValue b (ds.dropWhile (· == 0)) = digitsValue b ds := by
  induction ds with
  | nil => rfl
  | cons d ds ih =>
    by_cases hd : d = 0
    · rw [dropWhile_cons_of_pos (by rw [hd]; rfl), ih, digitsValue_cons, hd, Nat.zero_mul,
        Nat.zero_add]
    · rw [dropWhile_cons_of_neg (by simpa using hd)]

def NoTrailingZero (ds : List ℕ) : Prop := ds.getLast? ≠ some 0

theorem NoTrailingZero.tail (h : NoTrailingZero (d :: ds)) : NoTrailingZero ds := by
  cases ds with
  | nil => nofun
  | cons e es =>
    unfold NoTrailingZero at h
    rwa [getLast?_cons_cons] at h

theorem NoTrailingZero.exists_ne (h : NoTrailingZero (d :: ds)) : ∃ x ∈ d :: ds, x ≠ 0 := by
  unfold NoTrailingZero at h
  rw [getLast?_eq_some_getLast (cons_ne_nil d ds), Ne, Option.some.injEq] at h
  exact ⟨_, getLast_mem _, h⟩

theorem fraction_cons_lt {e : ℕ} {es : List ℕ} (hds : Digits b (d :: ds)) (h : d < e) :
    fraction b (d :: ds) < fraction b (e :: es) := by
  have hd := hds d mem_cons_self
  have hb : (0 : ℚ) < b := by
    have hpos : 0 < b := by omega
    exact_mod_cast hpos
  have hone := fraction_lt_one fun x hx => hds x (mem_cons_of_mem d hx)
  have hnonneg := fraction_nonneg (b := b) es
  have hle : (d : ℚ) + 1 ≤ e := by exact_mod_cast h
  apply div_lt_div_of_pos_right _ hb
  linarith

theorem compare_fraction (hbase : 0 < b) (ds es : List ℕ) (hds : Digits b ds)
    (hes : Digits b es) (hds' : NoTrailingZero ds) (hes' : NoTrailingZero es) :
    compare ds es = compare (fraction b ds) (fraction b es) := by
  have hb : (0 : ℚ) < b := by exact_mod_cast hbase
  induction ds generalizing es with
  | nil =>
    cases es with
    | nil => rfl
    | cons e es =>
      have hpos := fraction_pos (b := b) hbase hes'.exists_ne
      rw [compare_lt_iff_lt.mpr (show fraction b [] < fraction b (e :: es) from hpos)]
      rfl
  | cons d ds ih =>
    cases es with
    | nil =>
      have hpos := fraction_pos (b := b) hbase hds'.exists_ne
      rw [compare_gt_iff_gt.mpr (show fraction b (d :: ds) > fraction b [] from hpos)]
      rfl
    | cons e es =>
      rw [List.compare_cons_cons]
      rcases Nat.lt_trichotomy d e with hlt | rfl | hgt
      · rw [compare_lt_iff_lt.mpr hlt, compare_lt_iff_lt.mpr (fraction_cons_lt hds hlt)]
        rfl
      · have hrest := ih es (fun x hx => hds x (mem_cons_of_mem d hx))
          (fun x hx => hes x (mem_cons_of_mem d hx)) hds'.tail hes'.tail
        rw [compare_eq_iff_eq.mpr rfl, Ordering.eq_then, hrest]
        -- the same first digit
        have hmono : ∀ x y : ℚ, ((d : ℚ) + x) / b < (d + y) / b ↔ x < y := by
          intro x y
          rw [div_lt_div_iff_of_pos_right hb, add_lt_add_iff_left]
        rw [fraction_cons, fraction_cons]
        rcases lt_trichotomy (fraction b ds) (fraction b es) with hlt | heq | hgt
        · rw [compare_lt_iff_lt.mpr hlt, compare_lt_iff_lt.mpr ((hmono _ _).mpr hlt)]
        · rw [heq, compare_eq_iff_eq.mpr rfl, compare_eq_iff_eq.mpr rfl]
        · rw [compare_gt_iff_gt.mpr hgt, compare_gt_iff_gt.mpr ((hmono _ _).mpr hgt)]
      · rw [compare_gt_iff_gt.mpr hgt, compare_gt_iff_gt.mpr (fraction_cons_lt hes hgt)]
        rfl

theorem scaled_lt {d e : ℕ} {ds es : List ℕ} {m n : ℤ} (hds : Digits b (d :: ds)) (he : e ≠ 0)
    (h : m < n) :
    fraction b (d :: ds) * (b : ℚ) ^ m < fraction b (e :: es) * (b : ℚ) ^ n := by
  have hd := hds d mem_cons_self
  have hpos : 0 < b := by omega
  have hb : (0 : ℚ) < b := by exact_mod_cast hpos
  have hone : (1 : ℚ) ≤ b := by exact_mod_cast hpos
  have hpow : (0 : ℚ) < (b : ℚ) ^ m := zpow_pos hb m
  calc fraction b (d :: ds) * (b : ℚ) ^ m
      < 1 * (b : ℚ) ^ m := mul_lt_mul_of_pos_right (fraction_lt_one hds) hpow
    _ = 1 / b * (b : ℚ) ^ (m + 1) := by
        rw [zpow_add_one₀ hb.ne']
        field_simp
    _ ≤ 1 / b * (b : ℚ) ^ n := by
        apply mul_le_mul_of_nonneg_left _ (by positivity)
        exact zpow_le_zpow_right₀ hone h
    _ ≤ fraction b (e :: es) * (b : ℚ) ^ n :=
        mul_le_mul_of_nonneg_right (inv_base_le_fraction hpos he) (zpow_pos hb n).le

end

end Ladybug
