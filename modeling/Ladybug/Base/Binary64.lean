import Mathlib.Data.Int.Log
import Mathlib.Data.Rat.Floor
import Mathlib.Tactic.Positivity

/-!
# Double-precision numbers

A finite double is the number that it stands for; the two zeros are one.  Conversions round to the
nearest double, and to the one with the even significand between two.
-/

namespace Ladybug

inductive Double where
  | finite (q : ℚ)
  | infinite (negative : Bool)
  | nan

def roundHalfEven (q : ℚ) : Int :=
  let below := ⌊q⌋
  if q - below < 1 / 2 ∨ q - below = 1 / 2 ∧ below % 2 = 0 then below else below + 1

/-- The exponent of the last of the 53 bits, which a subnormal number does not have all. -/
def lastBit (q : ℚ) : Int := max (Int.log 2 |q| - 52) (-1074)

/-- The number on the grid of doubles, were there no largest one. -/
def nearest (q : ℚ) : ℚ := roundHalfEven (q / 2 ^ lastBit q) * 2 ^ lastBit q

def roundDouble (q : ℚ) : Double :=
  if |nearest q| < 2 ^ 1024 then .finite (nearest q) else .infinite (q < 0)

/-- `static_cast` to `int64_t`: the fraction is dropped, and other numbers are left undefined. -/
def Double.toInt64 : Double → Option Int64
  | .finite q =>
    let n := q.num.tdiv q.den
    if -2 ^ 63 ≤ n ∧ n < 2 ^ 63 then some (Int64.ofInt n) else none
  | _ => none

variable {q : ℚ}

theorem roundHalfEven_intCast (n : Int) : roundHalfEven n = n := by
  unfold roundHalfEven
  rw [Int.floor_intCast]
  exact if_pos (.inl (by norm_num))

theorem roundHalfEven_nonneg (h : 0 ≤ q) : 0 ≤ roundHalfEven q := by
  have hfloor := Int.floor_nonneg.mpr h
  unfold roundHalfEven
  dsimp only
  split <;> omega

theorem roundHalfEven_neg (h : q ≤ -1) : roundHalfEven q < 0 := by
  have hfloor : ⌊q⌋ ≤ -1 := by
    have hle : (⌊q⌋ : ℚ) ≤ -1 := le_trans (Int.floor_le q) h
    exact_mod_cast hle
  unfold roundHalfEven
  dsimp only
  split
  · omega
  · next hup =>
    -- the number is not -1 itself
    have hne : ⌊q⌋ ≠ -1 := by
      intro heq
      apply hup
      left
      have hge := Int.floor_le q
      rw [heq] at hge ⊢
      push_cast at hge ⊢
      linarith
    omega

theorem two_zpow_pos (e : Int) : (0 : ℚ) < 2 ^ e := zpow_pos (by norm_num) e

theorem nearest_nonneg (h : 0 ≤ q) : 0 ≤ nearest q :=
  mul_nonneg (Int.cast_nonneg (roundHalfEven_nonneg (div_nonneg h (two_zpow_pos _).le)))
    (two_zpow_pos _).le

theorem nearest_neg (h : q ≤ -1) : nearest q < 0 := by
  have habs : 1 ≤ |q| := by
    rw [abs_of_neg (by linarith)]
    linarith
  have hunit : (2 : ℚ) ^ lastBit q ≤ |q| := by
    rw [show (2 : ℚ) = ((2 : ℕ) : ℚ) from rfl, Int.zpow_le_iff_le_log (by norm_num) (by linarith)]
    have hlog : 0 ≤ Int.log 2 |q| := by
      rw [← Int.zpow_le_iff_le_log (by norm_num) (by linarith)]
      simpa using habs
    unfold lastBit
    omega
  have hdiv : q / 2 ^ lastBit q ≤ -1 := by
    rw [div_le_iff₀ (two_zpow_pos _)]
    rw [abs_of_neg (by linarith)] at hunit
    linarith
  exact mul_neg_of_neg_of_pos (Int.cast_lt_zero.mpr (roundHalfEven_neg hdiv)) (two_zpow_pos _)

theorem nearest_intCast (n : Int) : ∃ m : Int, nearest n = m := by
  unfold nearest
  rcases le_or_gt 0 (lastBit n) with hnonneg | hneg
  · obtain ⟨e, he⟩ := Int.eq_ofNat_of_zero_le hnonneg
    refine ⟨roundHalfEven (n / 2 ^ lastBit n) * 2 ^ e, ?_⟩
    rw [he]
    push_cast
    rfl
  · -- an integer is on a grid finer than the integers
    obtain ⟨e, he⟩ := Int.eq_ofNat_of_zero_le (by omega : 0 ≤ -lastBit n)
    have hdiv : (n : ℚ) / 2 ^ lastBit n = ((n * 2 ^ e : Int) : ℚ) := by
      rw [show lastBit n = -(e : Int) by omega, zpow_neg, div_inv_eq_mul]
      push_cast
      rfl
    refine ⟨n, ?_⟩
    rw [hdiv, roundHalfEven_intCast, ← hdiv, div_mul_cancel₀ _ (two_zpow_pos _).ne']

theorem roundDouble_ne_of_sign {m n : Int} (hm : 0 ≤ m) (hn : n < 0) :
    roundDouble m ≠ roundDouble n := by
  have hm' : (0 : ℚ) ≤ m := Int.cast_nonneg hm
  have hn' : (n : ℚ) ≤ -1 := by exact_mod_cast (by omega : n ≤ -1)
  unfold roundDouble
  split <;> split
  · intro h
    have hle := nearest_nonneg hm'
    have hlt := nearest_neg hn'
    rw [Double.finite.inj h] at hle
    exact absurd hlt (not_lt_of_ge hle)
  · exact nofun
  · exact nofun
  · intro h
    have hsign := decide_eq_decide.mp (Double.infinite.inj h)
    exact absurd (hsign.mpr (by linarith)) (not_lt_of_ge hm')

theorem toInt64_finite (n : Int64) : (Double.finite n.toInt).toInt64 = some n := by
  show (if -2 ^ 63 ≤ n.toInt.tdiv 1 ∧ n.toInt.tdiv 1 < 2 ^ 63 then _ else none) = _
  rw [Int.tdiv_one, if_pos ⟨n.le_toInt, n.toInt_lt⟩]
  show some (Int64.ofInt (n.toInt.tdiv 1)) = _
  rw [Int.tdiv_one, Int64.ofInt_toInt]

/-- Cut to an integer, the nearest double of an integer is this integer only where it is exact. -/
theorem toInt64_roundDouble (n : Int64) :
    (roundDouble n.toInt).toInt64 = some n ↔ roundDouble n.toInt = .finite n.toInt := by
  constructor
  · intro h
    unfold roundDouble at h ⊢
    split at h
    · next hsmall =>
      obtain ⟨m, hm⟩ := nearest_intCast n.toInt
      rw [hm] at h hsmall ⊢
      rw [if_pos hsmall]
      have hcast : (if -2 ^ 63 ≤ m.tdiv 1 ∧ m.tdiv 1 < 2 ^ 63 then some (Int64.ofInt (m.tdiv 1))
        else none) = some n := h
      rw [Int.tdiv_one] at hcast
      split at hcast
      · next hrange =>
        have hn : n.toInt = m := by
          rw [← Option.some.inj hcast]
          exact Int64.toInt_ofInt_of_le hrange.1 hrange.2
        rw [hn]
      · cases hcast
    · cases h
  · intro h
    rw [h, toInt64_finite]

end Ladybug
