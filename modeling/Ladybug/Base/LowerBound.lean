import Mathlib.Data.List.Range

/-!
# Searching a sorted list

`std::lower_bound` and the positions of a strictly increasing list of numbers.
-/

namespace Ladybug

open List

/-- The position of the first element that is not less than a value. -/
def lowerBound (l : List Nat) (v : Nat) : Nat := (l.takeWhile (· < v)).length

section

variable {l : List Nat} {i v : Nat}

theorem lowerBound_le (l : List Nat) (v : Nat) : lowerBound l v ≤ l.length :=
  (takeWhile_sublist _).length_le

theorem lt_lowerBound_iff (h : l.Pairwise (· < ·)) (hi : i < l.length) :
    i < lowerBound l v ↔ l[i] < v := by
  unfold lowerBound
  induction l generalizing i with
  | nil => exact absurd hi (Nat.not_lt_zero i)
  | cons a l ih =>
    obtain ⟨ha, hl⟩ := pairwise_cons.mp h
    rw [takeWhile_cons]
    by_cases hav : a < v
    · rw [if_pos (decide_eq_true hav), length_cons]
      cases i with
      | zero => exact iff_of_true (Nat.succ_pos _) hav
      | succ i =>
        have hi' : i < l.length := Nat.lt_of_succ_lt_succ hi
        rw [Nat.succ_lt_succ_iff, ih hl hi', getElem_cons_succ]
    · -- no later element is smaller either
      rw [if_neg (by rw [decide_eq_true_iff]; exact hav), length_nil]
      apply iff_of_false (Nat.not_lt_zero i)
      cases i with
      | zero => exact hav
      | succ i =>
        have hi' : i < l.length := Nat.lt_of_succ_lt_succ hi
        have hlt := ha _ (getElem_mem hi')
        rw [getElem_cons_succ]
        omega

theorem lowerBound_getElem (h : l.Pairwise (· < ·)) (hi : i < l.length) : lowerBound l l[i] = i := by
  apply Nat.le_antisymm
  · by_contra hlt
    have hself := (lt_lowerBound_iff (v := l[i]) h hi).mp (Nat.lt_of_not_le hlt)
    exact absurd hself (Nat.lt_irrefl _)
  · by_contra hlt
    have hlt' : lowerBound l l[i] < i := Nat.lt_of_not_le hlt
    have hle : lowerBound l l[i] < l.length := Nat.lt_trans hlt' hi
    have hsmall := pairwise_iff_getElem.mp h _ _ hle hi hlt'
    exact absurd ((lt_lowerBound_iff h hle).mpr hsmall) (Nat.lt_irrefl _)

theorem getElem_lowerBound (h : l.Pairwise (· < ·)) (hv : v ∈ l) :
    ∃ hlt : lowerBound l v < l.length, l[lowerBound l v] = v := by
  obtain ⟨i, hi, rfl⟩ := mem_iff_getElem.mp hv
  have hpos := lowerBound_getElem h hi
  have hlt : lowerBound l l[i] < l.length := by
    rw [hpos]
    exact hi
  exact ⟨hlt, by simp only [hpos]⟩

end

end Ladybug
