import Mathlib.Algebra.GroupWithZero.Nat
import Mathlib.Data.List.Induction

/-!
# Rows of fixed width in one array

Row `r` has the slots from `r * width` on.  Its first slots are in use, and a row grows by a write to
the slot after them; what is in the other slots is left over from before.
-/

namespace Ladybug.FixedRows

open List Function

variable {α : Type} {slots : Nat → α} {width r r' i i' n : Nat}

def row (slots : Nat → α) (width r n : Nat) : List α :=
  (List.range n).map fun i => slots (r * width + i)

theorem length_row : (row slots width r n).length = n := by
  unfold row
  rw [length_map, length_range]

theorem mem_row {x : α} : x ∈ row slots width r n ↔ ∃ i < n, slots (r * width + i) = x := by
  unfold row
  simp

theorem row_succ : row slots width r (n + 1) = row slots width r n ++ [slots (r * width + n)] := by
  unfold row
  rw [range_succ, map_append]
  rfl

theorem slot_inj (hi : i < width) (hi' : i' < width) :
    r * width + i = r' * width + i' ↔ r = r' ∧ i = i' := by
  constructor
  · intro h
    have hpos : 0 < width := by omega
    have hdiv := congrArg (· / width) h
    have hmod := congrArg (· % width) h
    simp only [Nat.mul_comm _ width, Nat.mul_add_div hpos, Nat.mul_add_mod,
      Nat.div_eq_of_lt hi, Nat.div_eq_of_lt hi', Nat.mod_eq_of_lt hi, Nat.mod_eq_of_lt hi',
      Nat.add_zero] at hdiv hmod
    exact ⟨hdiv, hmod⟩
  · intro h
    rw [h.1, h.2]

section

variable {x : α}

theorem row_congr {slots' : Nat → α} (h : ∀ i < n, slots (r * width + i) = slots' (r * width + i)) :
    row slots width r n = row slots' width r n := by
  apply map_congr_left
  intro i hi
  exact h i (mem_range.mp hi)

theorem row_update_of_ne (hi : i < width) (hn : n ≤ width) (hne : r' ≠ r) :
    row (update slots (r * width + i) x) width r' n = row slots width r' n := by
  apply row_congr
  intro j hj
  apply update_of_ne
  intro heq
  exact hne ((slot_inj (by omega) hi).mp heq).1

theorem row_update_of_le (hle : n ≤ i) :
    row (update slots (r * width + i) x) width r n = row slots width r n := by
  apply row_congr
  intro j hj
  apply update_of_ne
  omega

theorem row_push : row (update slots (r * width + n) x) width r (n + 1) =
    row slots width r n ++ [x] := by
  rw [row_succ, row_update_of_le (Nat.le_refl n), update_self]

def writeRow (slots : Nat → α) (start : Nat) (xs : List α) : Nat → α :=
  (xs.mapIdx fun i x => (start + i, x)).foldl (fun slots w => update slots w.1 w.2) slots

theorem writeRow_snoc (start : Nat) (xs : List α) (x : α) : writeRow slots start (xs ++ [x]) =
      update (writeRow slots start xs) (start + xs.length) x := by
  unfold writeRow
  simp

theorem row_writeRow (xs : List α) :
    row (writeRow slots (r * width) xs) width r xs.length = xs := by
  induction xs using reverseRecOn with
  | nil => rfl
  | append_singleton xs x ih =>
    rw [writeRow_snoc, length_append, length_singleton, row_push, ih]

theorem row_writeRow_of_ne {xs : List α} (hlen : xs.length ≤ width) (hn : n ≤ width)
    (hne : r' ≠ r) : row (writeRow slots (r * width) xs) width r' n = row slots width r' n := by
  induction xs using reverseRecOn with
  | nil => rfl
  | append_singleton xs x ih =>
    rw [length_append, length_singleton] at hlen
    rw [writeRow_snoc, row_update_of_ne (by omega) hn hne, ih (by omega)]

end

end Ladybug.FixedRows
