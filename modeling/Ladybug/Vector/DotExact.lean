import Ladybug.Vector.DotProduct
import Mathlib.Algebra.Order.Ring.Abs
import Mathlib.Tactic.Ring

/-!
# The three bodies of `computeDotI16` agree

The entries are at most 32767 in absolute value, so that a pair of products has a place in 32 bits and
a sum of `2 ^ 32` products one in 64.  The bodies with registers read blocks; the sums of their lanes
are added up to the product of the entries that the blocks cover.
-/

namespace Ladybug.Vector

open Finset

/-- The greatest product of two entries. -/
def maxProduct : Int := 32767 * 32767

theorem payloadValues_bounds (src : QuantizedInput) (i : Nat) :
    -32767 ≤ (src.payloadValues i).toInt ∧ (src.payloadValues i).toInt ≤ 32767 := by
  unfold QuantizedInput.payloadValues
  split
  · decide
  · split
    · decide
    · split
      · decide
      · rw [Int16.toInt_ofInt_of_le (by omega) (by omega)]
        omega

/-- Entries in the symmetric range. -/
def Clamped (v : Nat → Int16) : Prop := ∀ i, -32767 ≤ (v i).toInt ∧ (v i).toInt ≤ 32767

section

variable {left right : Nat → Int16} (hleft : Clamped left) (hright : Clamped right)

/-- The product of two entries as a number. -/
def term (left right : Nat → Int16) (i : Nat) : Int := (left i).toInt * (right i).toInt

include hleft hright

theorem term_bounds (i : Nat) : -maxProduct ≤ term left right i ∧ term left right i ≤ maxProduct := by
  have habs : |term left right i| ≤ maxProduct := by
    unfold term maxProduct
    rw [abs_mul]
    exact mul_le_mul (abs_le.mpr (hleft i)) (abs_le.mpr (hright i)) (abs_nonneg _) (by decide)
  exact abs_le.mp habs

theorem product_eq {bits : Nat} (hbits : 32 ≤ bits) (i : Nat) :
    product left right bits i = Lane.ofInt (term left right i) := by
  obtain ⟨hlo, hhi⟩ := term_bounds hleft hright i
  apply Lane.mul_of_fits
  apply Lane.fits_of_abs hlo hhi
  apply lt_of_lt_of_le (show maxProduct * 2 < 2 ^ 32 by decide)
  exact pow_le_pow_right₀ (by decide) hbits

theorem pair_eq {bits : Nat} (hbits : 32 ≤ bits) (i j : Nat) :
    Lane.add bits (product left right 32 i) (product left right 32 j) =
      Lane.ofInt (term left right i + term left right j) := by
  obtain ⟨hlo, hhi⟩ := term_bounds hleft hright i
  obtain ⟨hlo', hhi'⟩ := term_bounds hleft hright j
  rw [product_eq hleft hright (Nat.le_refl 32), product_eq hleft hright (Nat.le_refl 32)]
  have hlt : 2 * maxProduct * 2 < 2 ^ bits := by
    apply lt_of_lt_of_le (show 2 * maxProduct * 2 < 2 ^ 32 by decide)
    exact pow_le_pow_right₀ (by decide) hbits
  apply Lane.add_of_fits
  apply Lane.fits_of_abs _ _ hlt
  · omega
  · omega

def pair (left right : Nat → Int16) (i lane : Nat) : Int :=
  term left right (i + 2 * lane) + term left right (i + 2 * lane + 1)

theorem pair_bounds (i lane : Nat) :
    -(2 * maxProduct) ≤ pair left right i lane ∧ pair left right i lane ≤ 2 * maxProduct := by
  have hfirst := term_bounds hleft hright (i + 2 * lane)
  have hsecond := term_bounds hleft hright (i + 2 * lane + 1)
  unfold pair
  omega

theorem maddEpi16_eq (i lane : Nat) :
    maddEpi16 left right i lane = Lane.ofInt (pair left right i lane) :=
  pair_eq hleft hright (Nat.le_refl 32) _ _

theorem vpaddlqS32_eq (i lane : Nat) :
    vpaddlqS32 left right i lane = Lane.ofInt (pair left right i lane) :=
  pair_eq hleft hright (by decide) _ _

omit hleft hright in
theorem fits_sum {x : Int} {n : Nat} (hn : n ≤ 2 ^ 32) (hlo : -(n * maxProduct) ≤ x)
    (hhi : x ≤ n * maxProduct) : Lane.Fits 64 x := by
  have hmax : maxProduct = 1073676289 := rfl
  apply Lane.fits_of_abs hlo hhi
  rw [hmax]
  omega

omit hleft hright in
theorem blocks_exact {block : Nat → Sums → Sums} {lo hi : Nat → Nat → Int}
    (hblock : ∀ i s, block i s = ⟨fun lane => Lane.add 64 (s.sum64Lo lane) (Lane.ofInt (lo i lane)),
        fun lane => Lane.add 64 (s.sum64Hi lane) (Lane.ofInt (hi i lane))⟩)
    (hlo : ∀ i lane, -(2 * maxProduct) ≤ lo i lane ∧ lo i lane ≤ 2 * maxProduct)
    (hhi : ∀ i lane, -(2 * maxProduct) ≤ hi i lane ∧ hi i lane ≤ 2 * maxProduct)
    (width : Nat) {n : Nat} (hn : 2 * n ≤ 2 ^ 32) :
    (List.range n).foldl (fun s j => block (width * j) s) Sums.zero =
      ⟨fun lane => Lane.ofInt (∑ j ∈ range n, lo (width * j) lane),
        fun lane => Lane.ofInt (∑ j ∈ range n, hi (width * j) lane)⟩ := by
  have hadd : ∀ (f : Nat → Int) (m : Nat), 2 * m ≤ 2 ^ 32 →
      (∀ j, -(2 * maxProduct) ≤ f j ∧ f j ≤ 2 * maxProduct) →
      Lane.Fits 64 (∑ j ∈ range m, f j) := by
    intro f m hm hf
    have hsum := Lane.sum_bounds hf m
    have htwice : ((2 * m : Nat) : Int) * maxProduct = m * (2 * maxProduct) := by
      rw [show maxProduct = 1073676289 from rfl]
      omega
    apply fits_sum hm
    · omega
    · omega
  induction n with
  | zero => rfl
  | succ n ih =>
    have hlast := ih (by omega)
    rw [List.range_succ, List.foldl_append, hlast]
    show block (width * n) _ = _
    rw [hblock]
    congr 1
    · ext1 lane
      rw [sum_range_succ]
      apply Lane.add_of_fits
      rw [← sum_range_succ]
      exact hadd _ (n + 1) hn fun j => hlo (width * j) lane
    · ext1 lane
      rw [sum_range_succ]
      apply Lane.add_of_fits
      rw [← sum_range_succ]
      exact hadd _ (n + 1) hn fun j => hhi (width * j) lane

theorem dotProduct_fits {n : Nat} (hn : n ≤ 2 ^ 32) : Lane.Fits 64 (dotProduct left right n) := by
  obtain ⟨hlo, hhi⟩ := Lane.sum_bounds (term_bounds hleft hright) n
  exact fits_sum hn hlo hhi

theorem rest_exact {start n : Nat} (hle : start ≤ n) (hn : n ≤ 2 ^ 32) :
    (List.range' start (n - start)).foldl (fun dot i => addProduct left right i dot)
      (Lane.ofInt (dotProduct left right start)) = Lane.ofInt (dotProduct left right n) := by
  have hsplit : ∀ m, dotProduct left right (start + m) =
      dotProduct left right start + ∑ j ∈ range m, term left right (start + j) :=
    fun m => sum_range_add _ start m
  have hproduct : ∀ dot i, addProduct left right i dot =
      Lane.add 64 dot (Lane.ofInt (term left right i)) := by
    intro dot i
    unfold addProduct
    rw [product_eq hleft hright (by decide)]
  have hend : start + (n - start) = n := Nat.add_sub_cancel' hle
  rw [List.range'_eq_map_range, List.foldl_map]
  simp only [hproduct]
  rw [Lane.foldl_add_range, ← hsplit, hend]
  intro m hm
  rw [← hsplit]
  apply dotProduct_fits hleft hright
  omega

omit hleft hright in
theorem dotProduct_block (n width : Nat) :
    dotProduct left right (width * (n + 1)) = dotProduct left right (width * n) +
      ∑ k ∈ range width, term left right (width * n + k) := by
  exact sum_range_add _ _ _

omit hleft hright in
theorem sum_avx2_lanes (n : Nat) : ∑ lane ∈ range 4, ∑ j ∈ range n, pair left right (16 * j) lane +
      ∑ lane ∈ range 4, ∑ j ∈ range n, pair left right (16 * j) (4 + lane) =
      dotProduct left right (16 * n) := by
  induction n with
  | zero => rfl
  | succ n ih =>
    rw [dotProduct_block, ← ih]
    simp only [sum_range_succ, sum_range_zero, pair, Nat.add_assoc, Nat.reduceMul, Nat.reduceAdd]
    ring

omit hleft hright in
theorem sum_neon_lanes (n : Nat) :
    ∑ j ∈ range n, pair left right (8 * j) 0 + ∑ j ∈ range n, pair left right (8 * j) 1 +
      ∑ j ∈ range n, pair left right (8 * j + 4) 0 +
      ∑ j ∈ range n, pair left right (8 * j + 4) 1 = dotProduct left right (8 * n) := by
  induction n with
  | zero => rfl
  | succ n ih =>
    rw [dotProduct_block, ← ih]
    simp only [sum_range_succ, sum_range_zero, pair, Nat.add_assoc, Nat.reduceMul, Nat.reduceAdd]
    ring

theorem lane_bounds (start : Nat → Nat) (lane : Nat) (n : Nat) :
    -((2 * n : Nat) * maxProduct) ≤ ∑ j ∈ range n, pair left right (start j) lane ∧
      ∑ j ∈ range n, pair left right (start j) lane ≤ (2 * n : Nat) * maxProduct := by
  have hsum := Lane.sum_bounds (fun j => pair_bounds hleft hright (start j) lane) n
  have htwice : ((2 * n : Nat) : Int) * maxProduct = n * (2 * maxProduct) := by
    rw [show maxProduct = 1073676289 from rfl]
    omega
  omega

theorem partialSums_exact {n : Nat} (hn : 16 * n ≤ 2 ^ 32) :
    ((List.range 4).map (fun lane ↦ Lane.ofInt (∑ j ∈ range n, pair left right (16 * j) lane)) ++
      (List.range 4).map
        fun lane => Lane.ofInt (∑ j ∈ range n, pair left right (16 * j) (4 + lane))).foldl
      (Lane.add 64) (Lane.ofInt 0) = Lane.ofInt (dotProduct left right (16 * n)) := by
  have hmax : maxProduct = 1073676289 := rfl
  have hlo := lane_bounds hleft hright (16 * ·)
  rw [hmax] at hlo
  -- at most four sums of a register are added
  have hcount : ∀ m : Nat, m ≤ 4 →
      (m : Int) * ((2 * n : Nat) * 1073676289) ≤ 4 * ((2 * n : Nat) * 1073676289) := by
    intro m hm
    apply Int.mul_le_mul_of_nonneg_right
    · omega
    · omega
  rw [List.foldl_append, List.foldl_map, List.foldl_map, Lane.foldl_add_range, Int.zero_add,
    Lane.foldl_add_range, sum_avx2_lanes]
  · intro m hm
    have hfirst := Lane.sum_bounds (fun lane => hlo lane n) 4
    have hsecond := Lane.sum_bounds (fun lane => hlo (4 + lane) n) m
    have hle := hcount m hm
    apply fits_sum hn
    all_goals
      rw [hmax]
      omega
  · intro m hm
    have hfirst := Lane.sum_bounds (fun lane => hlo lane n) m
    have hle := hcount m hm
    apply fits_sum hn
    all_goals
      rw [hmax]
      omega

theorem neonLanes_exact {n : Nat} (hn : 8 * n ≤ 2 ^ 32) : Lane.add 64 (Lane.add 64 (Lane.add 64
      (Lane.ofInt (∑ j ∈ range n, pair left right (8 * j) 0))
      (Lane.ofInt (∑ j ∈ range n, pair left right (8 * j) 1)))
      (Lane.ofInt (∑ j ∈ range n, pair left right (8 * j + 4) 0)))
      (Lane.ofInt (∑ j ∈ range n, pair left right (8 * j + 4) 1)) =
      Lane.ofInt (dotProduct left right (8 * n)) := by
  have hmax : maxProduct = 1073676289 := rfl
  have hlo0 := lane_bounds hleft hright (8 * ·) 0 n
  have hlo1 := lane_bounds hleft hright (8 * ·) 1 n
  have hhi0 := lane_bounds hleft hright (8 * · + 4) 0 n
  have hhi1 := lane_bounds hleft hright (8 * · + 4) 1 n
  rw [hmax] at hlo0 hlo1 hhi0 hhi1
  rw [Lane.add_of_fits, Lane.add_of_fits, Lane.add_of_fits, sum_neon_lanes]
  all_goals apply fits_sum hn <;> rw [hmax] <;> omega

end

section

variable {left right : Nat → Int16} (hleft : Clamped left) (hright : Clamped right)
  {dimension : UInt32}

include hleft hright

theorem computeDotI16AVX2_halts (hroom : dimension.toNat + 16 < 2 ^ 32) :
    Halts (computeDotI16AVX2 left right dimension)
      (Lane.ofInt (dotProduct left right dimension.toNat)) := by
  obtain ⟨i, hi, hblocks⟩ := blockLoop_halts (by decide) hroom (avx2Block left right) Sums.zero
  have hle : 16 * (dimension.toNat / 16) ≤ dimension.toNat := Nat.mul_div_le _ _
  have hcount : 2 * (dimension.toNat / 16) ≤ 2 ^ 32 := by omega
  have hblock : ∀ i s, avx2Block left right i s =
      ⟨fun lane => Lane.add 64 (s.sum64Lo lane) (Lane.ofInt (pair left right i lane)),
        fun lane => Lane.add 64 (s.sum64Hi lane) (Lane.ofInt (pair left right i (4 + lane)))⟩ := by
    intro i s
    unfold avx2Block
    simp only [maddEpi16_eq hleft hright]
  have hlanes := blocks_exact hblock (fun i lane => pair_bounds hleft hright i lane)
    (fun i lane => pair_bounds hleft hright i (4 + lane)) 16 hcount
  rw [hlanes] at hblocks
  apply hblocks.bind
  simp only []
  rw [partialSums_exact hleft hright (by omega), ← hi,
    ← rest_exact hleft hright (hi ▸ hle) (Nat.le_of_lt dimension.toNat_lt)]
  exact restLoop_halts _ (hi ▸ hle) _

theorem computeDotI16NEON_halts (hroom : dimension.toNat + 8 < 2 ^ 32) :
    Halts (computeDotI16NEON left right dimension)
      (Lane.ofInt (dotProduct left right dimension.toNat)) := by
  obtain ⟨i, hi, hblocks⟩ := blockLoop_halts (by decide) hroom (neonBlock left right) Sums.zero
  have hle : 8 * (dimension.toNat / 8) ≤ dimension.toNat := Nat.mul_div_le _ _
  have hcount : 2 * (dimension.toNat / 8) ≤ 2 ^ 32 := by omega
  have hblock : ∀ i s, neonBlock left right i s =
      ⟨fun lane => Lane.add 64 (s.sum64Lo lane) (Lane.ofInt (pair left right i lane)),
        fun lane => Lane.add 64 (s.sum64Hi lane) (Lane.ofInt (pair left right (i + 4) lane))⟩ := by
    intro i s
    unfold neonBlock
    simp only [vpaddlqS32_eq hleft hright]
  have hlanes := blocks_exact hblock (fun i lane => pair_bounds hleft hright i lane)
    (fun i lane => pair_bounds hleft hright (i + 4) lane) 8 hcount
  rw [hlanes] at hblocks
  apply hblocks.bind
  simp only []
  rw [neonLanes_exact hleft hright (by omega), ← hi,
    ← rest_exact hleft hright (hi ▸ hle) (Nat.le_of_lt dimension.toNat_lt)]
  exact restLoop_halts _ (hi ▸ hle) _

theorem computeDotI16Scalar_halts : Halts (computeDotI16Scalar left right dimension)
      (Lane.ofInt (dotProduct left right dimension.toNat)) := by
  rw [← rest_exact hleft hright (Nat.zero_le dimension.toNat) (Nat.le_of_lt dimension.toNat_lt)]
  exact restLoop_halts _ (Nat.zero_le _) _

end

theorem computeDotI16AVX2_diverges (left right : Nat → Int16) {dimension : UInt32}
    (hdim : 2 ^ 32 ≤ dimension.toNat + 16) :
    Diverges (computeDotI16AVX2 left right dimension) := by
  intro fuel
  unfold computeDotI16AVX2
  have hnone : blockLoop 16 dimension (avx2Block left right) fuel Sums.zero = none :=
    blockLoop_diverges (by decide) (by decide) hdim _ _ fuel
  rw [hnone, Option.bind_none]

theorem payloadValues_clamped (src : QuantizedInput) : Clamped src.payloadValues :=
  payloadValues_bounds src

/-- All bodies return the exact product, without a number that has no place in its lane, as long as
the counter of the AVX2 body has room for one more block. -/
theorem computeDotI16_exact (left right : QuantizedInput) (dimension : UInt32) :
    (Halts (computeDotI16AVX2 left.payloadValues right.payloadValues dimension)
        (Lane.ofInt (dotProduct left.payloadValues right.payloadValues dimension.toNat)) ∧
      Halts (computeDotI16NEON left.payloadValues right.payloadValues dimension)
        (Lane.ofInt (dotProduct left.payloadValues right.payloadValues dimension.toNat)) ∧
      Halts (computeDotI16Scalar left.payloadValues right.payloadValues dimension)
        (Lane.ofInt (dotProduct left.payloadValues right.payloadValues dimension.toNat))) ↔
      dimension.toNat + 16 < 2 ^ 32 := by
  have hleft := payloadValues_clamped left
  have hright := payloadValues_clamped right
  constructor
  · intro h
    by_contra hroom
    apply h.1.not_diverges
    exact computeDotI16AVX2_diverges _ _ (by omega)
  · intro hroom
    exact ⟨computeDotI16AVX2_halts hleft hright hroom,
      computeDotI16NEON_halts hleft hright (by omega), computeDotI16Scalar_halts hleft hright⟩

/-- Two vectors of the greatest entry, with the least dimension that leaves no room. -/
theorem computeDotI16_counter_wraps : let ones : QuantizedInput := ⟨false, fun _ => 32767⟩
    Diverges (computeDotI16AVX2 ones.payloadValues ones.payloadValues 4294967280) ∧
      Halts (computeDotI16NEON ones.payloadValues ones.payloadValues 4294967280)
        (Lane.ofInt (dotProduct ones.payloadValues ones.payloadValues 4294967280)) ∧
      Halts (computeDotI16Scalar ones.payloadValues ones.payloadValues 4294967280)
        (Lane.ofInt (dotProduct ones.payloadValues ones.payloadValues 4294967280)) := by
  intro ones
  have hones := payloadValues_clamped ones
  refine ⟨?_, ?_, ?_⟩
  · apply computeDotI16AVX2_diverges
    decide
  · exact computeDotI16NEON_halts hones hones (by decide)
  · exact computeDotI16Scalar_halts hones hones

end Ladybug.Vector
