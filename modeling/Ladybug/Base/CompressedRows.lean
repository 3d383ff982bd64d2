import Mathlib.Algebra.GroupWithZero.Nat
import Mathlib.Data.List.Flatten
import Mathlib.Data.List.Range

/-!
# Compressed rows

The rows of a sparse matrix, one after the other, and the places where they begin.
-/

namespace Ladybug

open List

variable {α : Type}

/-- Where the rows begin, and where the last one ends. -/
def rowStarts (rows : List (List α)) : List Nat :=
  (range (rows.length + 1)).map fun i => (rows.take i).flatten.length

structure CompressedRows (α : Type) where
  indptr : List Nat
  indices : List α
deriving DecidableEq

def compress (rows : List (List α)) : CompressedRows α := ⟨rowStarts rows, rows.flatten⟩

/-- The slice between two neighbouring entries of `indptr`. -/
def CompressedRows.row (c : CompressedRows α) (i : Nat) : List α :=
  (c.indices.drop (c.indptr.getD i 0)).take (c.indptr.getD (i + 1) 0 - c.indptr.getD i 0)

/-- `indptr` goes from 0 to the number of entries without going back. -/
structure CompressedRows.Wf (c : CompressedRows α) (count : Nat) : Prop where
  length : c.indptr.length = count + 1
  first : c.indptr[0]? = some 0
  last : c.indptr[count]? = some c.indices.length
  monotone : c.indptr.Pairwise (· ≤ ·)

section

variable {rows : List (List α)} {i : Nat}

theorem rowStarts_length : (rowStarts rows).length = rows.length + 1 := by
  unfold rowStarts
  rw [length_map, length_range]

theorem rowStarts_getElem? (h : i ≤ rows.length) :
    (rowStarts rows)[i]? = some (rows.take i).flatten.length := by
  unfold rowStarts
  rw [getElem?_map, getElem?_range (by omega)]
  rfl

theorem rowStarts_append (row : List α) :
    rowStarts (rows ++ [row]) = rowStarts rows ++ [(rows ++ [row]).flatten.length] := by
  unfold rowStarts
  rw [length_append, length_singleton, range_succ, map_append,
    map_singleton, take_of_length_le (by simp)]
  congr 1
  apply map_congr_left
  intro i hi
  rw [mem_range] at hi
  rw [take_append_of_le_length (by omega)]

theorem rowStarts_map {β : Type} (f : α → β) : rowStarts (rows.map (map f)) = rowStarts rows := by
  unfold rowStarts
  rw [length_map]
  apply map_congr_left
  intro i _
  rw [← map_take, ← map_flatten, length_map]

theorem compress_wf (rows : List (List α)) : (compress rows).Wf rows.length where
  length := rowStarts_length
  first := rowStarts_getElem? (Nat.zero_le _)
  last := by
    show (rowStarts rows)[rows.length]? = some rows.flatten.length
    rw [rowStarts_getElem? le_rfl, take_length]
  monotone := by
    show (rowStarts rows).Pairwise (· ≤ ·)
    unfold rowStarts
    rw [pairwise_map]
    refine List.Pairwise.imp ?_ pairwise_lt_range
    intro i j hij
    exact ((take_prefix_take_left hij.le).sublist.flatten).length_le

theorem compress_row (h : i < rows.length) : (compress rows).row i = rows[i] := by
  have hstart : (compress rows).indptr.getD i 0 = (rows.take i).flatten.length := by
    exact congrArg (Option.getD · 0) (rowStarts_getElem? h.le)
  have hend : (compress rows).indptr.getD (i + 1) 0 = (rows.take (i + 1)).flatten.length := by
    exact congrArg (Option.getD · 0) (rowStarts_getElem? h)
  have hsplit : rows.flatten = (rows.take i).flatten ++ (rows[i] ++ (rows.drop (i + 1)).flatten) := by
    rw [← flatten_cons, ← flatten_append, getElem_cons_drop, take_append_drop]
  have hlength : (rows.take (i + 1)).flatten.length - (rows.take i).flatten.length =
      rows[i].length := by
    rw [take_add_one, getElem?_eq_getElem h, flatten_append, length_append]
    simp
  unfold CompressedRows.row
  rw [hend, hstart, hlength]
  show (rows.flatten.drop _).take _ = _
  rw [hsplit, drop_left, take_left]

theorem compress_map_row {n : Nat} (row : Nat → List α) (h : i < n) :
    (compress ((range n).map row)).row i = row i := by
  rw [compress_row (by simpa using h), getElem_map, getElem_range]

theorem eq_filter_range {row : List Nat} {n : Nat} {p : Nat → Bool} (hrow : row.Pairwise (· < ·))
    (hmem : ∀ v, v ∈ row ↔ v < n ∧ p v) : row = (range n).filter p := by
  have hrange : ((range n).filter p).Pairwise (· < ·) :=
    pairwise_lt_range.sublist filter_sublist
  refine Perm.eq_of_pairwise ?_ hrow hrange ?_
  · intro a b _ _ hab hba
    omega
  · rw [perm_ext_iff_of_nodup (hrow.imp ne_of_lt) (hrange.imp ne_of_lt)]
    intro v
    rw [hmem, mem_filter, mem_range]

end

def transposed (n : Nat) (row : Nat → List Nat) : List (List Nat) :=
  (range n).map fun v => (range n).filter fun u => v ∈ row u

/-- The rows of a pattern together with its transpose, each in order and without repetition. -/
def plusTransposed (n : Nat) (row : Nat → List Nat) : List (List Nat) :=
  (range n).map fun u => (range n).filter fun v => v ∈ row u ∨ u ∈ row v

end Ladybug
