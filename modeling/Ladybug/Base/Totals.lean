import Mathlib.Algebra.Order.BigOperators.Group.List
import Mathlib.Algebra.Order.Group.Nat

/-!
# What several parties have together

A sum over the parties of a machine, when one of them changes.
-/

namespace Ladybug

section

variable {α M : Type}

def total [AddCommMonoid M] (f : α → M) (parties : List α) : M := (parties.map f).sum

variable {parties : List α} {i : Nat} {a : α}

theorem total_set [AddCommMonoid M] (f : α → M) (ha : parties[i]? = some a) (b : α) :
    total f (parties.set i b) + f a = total f parties + f b := by
  induction parties generalizing i with
  | nil => cases ha
  | cons x parties ih =>
    cases i with
    | zero =>
      rw [List.getElem?_cons_zero, Option.some.injEq] at ha
      rw [ha]
      show f b + total f parties + f a = f a + total f parties + f b
      rw [add_comm (f b), add_right_comm, add_comm (f a)]
    | succ i =>
      show f x + total f (parties.set i b) + f a = f x + total f parties + f b
      rw [add_assoc, ih ha, add_assoc]

theorem le_total (f : α → Nat) (ha : parties[i]? = some a) : f a ≤ total f parties :=
  List.le_sum_of_mem (List.mem_map_of_mem (List.mem_of_getElem? ha))

theorem pair_le_total (f : α → Nat) {j : Nat} {b : α} (ha : parties[i]? = some a)
    (hb : parties[j]? = some b) (hne : i ≠ j) : f a + f b ≤ total f parties := by
  induction parties generalizing i j with
  | nil => cases ha
  | cons x parties ih =>
    show f a + f b ≤ f x + total f parties
    cases i with
    | zero =>
      cases j with
      | zero => exact absurd rfl hne
      | succ j =>
        rw [List.getElem?_cons_zero, Option.some.injEq] at ha
        have hle : f b ≤ total f parties := le_total f (i := j) hb
        rw [ha]
        omega
    | succ i =>
      cases j with
      | zero =>
        rw [List.getElem?_cons_zero, Option.some.injEq] at hb
        have hle : f a ≤ total f parties := le_total f (i := i) ha
        rw [hb]
        omega
      | succ j =>
        have hle := ih (i := i) (j := j) ha hb fun heq => hne (by rw [heq])
        omega

theorem total_eq_zero [AddCommMonoid M] {f : α → M} (h : ∀ a ∈ parties, f a = 0) :
    total f parties = 0 :=
  List.sum_eq_zero (List.forall_mem_map.mpr h)

end

end Ladybug
