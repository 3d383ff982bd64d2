import Mathlib.Algebra.GroupWithZero.Nat
import Mathlib.Data.List.Basic

/-!
# Reading a Lance dataset (`lance_reader.cpp`, `rust/src/ffi.rs`)

A scan of a range of rows returns slices of at most 2048 rows and none without rows.  A row is given by
the values of its columns, and columns are looked up by their names.
-/

namespace Ladybug.Lance

open List

structure LanceDataset (V : Type) where
  schema : List String
  rows : List (String → V)
  -- rows are counted in 64 bits with a sign
  rows_lt : rows.length < 2 ^ 63

/-- The slices of a scan; the number stands for the scan, since two scans of the same rows may be cut in
different ways. -/
structure Slicing where
  slices : (α : Type) → Nat → List α → List (List α)
  flatten : ∀ (α : Type) (scan : Nat) (rows : List α), (slices α scan rows).flatten = rows
  slice : ∀ (α : Type) (scan : Nat) (rows : List α), ∀ s ∈ slices α scan rows, s ≠ [] ∧ s.length ≤ 2048

def singleRows : Slicing where
  slices := fun _ _ rows => rows.map fun row => [row]
  flatten := fun _ _ rows => by
    induction rows with
    | nil => rfl
    | cons row rows ih => rw [map_cons, flatten_cons, ih]; rfl
  slice := fun _ _ rows s hs => by
    obtain ⟨row, -, rfl⟩ := mem_map.mp hs
    exact ⟨cons_ne_nil _ _, show 1 ≤ 2048 by decide⟩

structure Property where
  name : String
  columnID : Nat

section

variable {V : Type} (dataset : LanceDataset V) (slicing : Slicing)

/-- The rows that `lance_scan_open` scans; a limit of `UINT64_MAX` is none. -/
def rangeRows (offset limit : Nat) : List (String → V) :=
  if limit = 2 ^ 64 - 1 then dataset.rows.drop offset
  else (dataset.rows.drop offset).take (min limit (2 ^ 63 - 1))

/-- `LanceReader::openRange`: what `next` is going to return. -/
def openRange (scan offset limit : Nat) : List (List (String → V)) :=
  slicing.slices _ scan (rangeRows dataset offset limit)

theorem openRange_flatten (scan offset limit : Nat) :
    (openRange dataset slicing scan offset limit).flatten = rangeRows dataset offset limit :=
  slicing.flatten _ scan _

theorem rangeRows_eq (offset : Nat) {limit : Nat} (hlimit : limit < 2 ^ 64) :
    rangeRows dataset offset limit = (dataset.rows.drop offset).take limit := by
  have hlength : (dataset.rows.drop offset).length < 2 ^ 63 := by
    rw [length_drop]
    exact Nat.lt_of_le_of_lt (Nat.sub_le _ _) dataset.rows_lt
  unfold rangeRows
  split
  next hmax =>
    rw [take_of_length_le (by omega)]
  next =>
    by_cases hle : limit ≤ 2 ^ 63 - 1
    · rw [Nat.min_eq_left hle]
    · rw [Nat.min_eq_right (by omega), take_of_length_le (by omega), take_of_length_le (by omega)]

end

end Ladybug.Lance
