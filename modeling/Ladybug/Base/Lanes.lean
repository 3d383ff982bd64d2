import Mathlib.Algebra.GroupWithZero.Nat
import Mathlib.Algebra.BigOperators.Group.Finset.Basic

/-!
# Lanes of a register

Numbers of a fixed width with a sign.  The sums and products are cut to the width, and it is recorded
whether that has changed one of them.
-/

namespace Ladybug

open Finset

/-- `exact` says that nothing has been cut off so far. -/
structure Lane where
  val : Int
  exact : Bool

namespace Lane

def ofInt (x : Int) : Lane := ⟨x, true⟩

def cut (bits : Nat) (x : Int) (exact : Bool) : Lane :=
  ⟨x.bmod (2 ^ bits), exact && decide (x.bmod (2 ^ bits) = x)⟩

def add (bits : Nat) (a b : Lane) : Lane := cut bits (a.val + b.val) (a.exact && b.exact)

def mul (bits : Nat) (a b : Lane) : Lane := cut bits (a.val * b.val) (a.exact && b.exact)

def Fits (bits : Nat) (x : Int) : Prop := -2 ^ bits ≤ x * 2 ∧ x * 2 < 2 ^ bits

section

variable {bits : Nat} {x y : Int}

theorem cut_of_fits (h : Fits bits x) : cut bits x true = ofInt x := by
  have hbmod : x.bmod (2 ^ bits) = x := by
    apply Int.bmod_eq_of_le_mul_two
    · rw [Int.natCast_pow]
      exact h.1
    · rw [Int.natCast_pow]
      exact h.2
  unfold cut
  rw [hbmod, decide_eq_true rfl]
  rfl

theorem add_of_fits (h : Fits bits (x + y)) : add bits (ofInt x) (ofInt y) = ofInt (x + y) :=
  cut_of_fits h

theorem mul_of_fits (h : Fits bits (x * y)) : mul bits (ofInt x) (ofInt y) = ofInt (x * y) :=
  cut_of_fits h

theorem fits_of_abs {bound : Int} (hlo : -bound ≤ x) (hhi : x ≤ bound)
    (hbound : bound * 2 < 2 ^ bits) : Fits bits x := by
  unfold Fits
  omega

theorem foldl_add_range (f : Nat → Int) (start : Int) (n : Nat)
    (h : ∀ m, m ≤ n → Fits bits (start + ∑ j ∈ range m, f j)) :
    (List.range n).foldl (fun dot j => add bits dot (ofInt (f j))) (ofInt start) =
      ofInt (start + ∑ j ∈ range n, f j) := by
  induction n with
  | zero => rw [sum_range_zero, Int.add_zero]; rfl
  | succ n ih =>
    have hprefix := ih fun m hm => h m (Nat.le_succ_of_le hm)
    have hlast := h (n + 1) (Nat.le_refl _)
    rw [sum_range_succ, ← Int.add_assoc] at hlast
    rw [List.range_succ, List.foldl_append, hprefix, sum_range_succ, ← Int.add_assoc]
    exact add_of_fits hlast

end

theorem sum_bounds {f : Nat → Int} {bound : Int} (h : ∀ i, -bound ≤ f i ∧ f i ≤ bound) (n : Nat) :
    -(n * bound) ≤ ∑ i ∈ range n, f i ∧ ∑ i ∈ range n, f i ≤ n * bound := by
  induction n with
  | zero => simp
  | succ n ih =>
    have hlast := h n
    have hmul : ((n + 1 : Nat) : Int) * bound = n * bound + bound := by
      rw [Int.natCast_add, Int.natCast_one, Int.add_mul, Int.one_mul]
    rw [sum_range_succ, hmul]
    omega

end Lane

end Ladybug
