import Mathlib.Data.List.Perm.Subperm
import Mathlib.Order.Lattice

/-!
# Sorting by a key and priority queues

The order in which a sort leaves elements of equal keys, and a priority queue returns them, is not
specified: a sort is any function that returns a sorted permutation.  A priority queue is the list of
its elements.
-/

namespace Ladybug

open List

theorem nodup_map_of_subperm {α β : Type} {f : α → β} {l l' : List α} (h : l.Subperm l')
    (hnodup : (l'.map f).Nodup) : (l.map f).Nodup := by
  obtain ⟨l₁, hperm, hsub⟩ := h
  exact (hperm.map f).nodup_iff.mp ((hsub.map f).nodup hnodup)

structure KeySort {α κ : Type} [LE κ] (key : α → κ) where
  sort : List α → List α
  perm : ∀ l, (sort l).Perm l
  sorted : ∀ l, (sort l).Pairwise fun a b => key a ≤ key b

namespace KeySort

section

variable {α κ : Type} [LE κ] {key : α → κ} (S : KeySort key)

def topMin? (queue : List α) : Option α := (S.sort queue).head?

def popMin (queue : List α) : List α := (S.sort queue).tail

def topMax? (queue : List α) : Option α := (S.sort queue).getLast?

def popMax (queue : List α) : List α := (S.sort queue).dropLast

/-- The elements in the order in which a queue with the least key first returns them. -/
def drainMin : Nat → List α → List α
  | 0, _ => []
  | n + 1, queue =>
    match S.topMin? queue with
    | none => []
    | some x => x :: drainMin n (S.popMin queue)

def drainMax : Nat → List α → List α
  | 0, _ => []
  | n + 1, queue =>
    match S.topMax? queue with
    | none => []
    | some x => x :: drainMax n (S.popMax queue)

/-- `while (queue.size() > k) queue.pop()` -/
def shrinkMax (k : Nat) : Nat → List α → List α
  | 0, queue => queue
  | n + 1, queue => if k < queue.length then shrinkMax k n (S.popMax queue) else queue

end

section

variable {α κ : Type} [LinearOrder κ] {key : α → κ} (S : KeySort key)

@[simp] theorem length_sort (l : List α) : (S.sort l).length = l.length := (S.perm l).length_eq

variable {x : α} {queue : List α} {n : Nat}

@[simp] theorem mem_sort {l : List α} : x ∈ S.sort l ↔ x ∈ l := (S.perm l).mem_iff

theorem perm_popMin (h : S.topMin? queue = some x) : (x :: S.popMin queue).Perm queue := by
  have heq : S.sort queue = x :: S.popMin queue := by
    unfold topMin? at h
    unfold popMin
    cases hsort : S.sort queue with
    | nil => rw [hsort] at h; cases h
    | cons y rest =>
      rw [hsort] at h
      cases h
      rfl
  rw [← heq]
  exact S.perm queue

theorem sort_eq_of_topMax (h : S.topMax? queue = some x) :
    S.sort queue = S.popMax queue ++ [x] := by
  unfold topMax? at h
  have hne : S.sort queue ≠ [] := by
    intro hnil
    rw [hnil] at h
    cases h
  rw [getLast?_eq_some_getLast hne] at h
  cases h
  exact (dropLast_append_getLast hne).symm

theorem popMax_subperm (queue : List α) : (S.popMax queue).Subperm queue :=
  (dropLast_sublist _).subperm.trans (S.perm queue).subperm

theorem length_popMax (queue : List α) : (S.popMax queue).length = queue.length - 1 := by
  unfold popMax
  rw [length_dropLast, length_sort]

theorem topMax_none (h : S.topMax? queue = none) : queue = [] := by
  unfold topMax? at h
  rw [getLast?_eq_none_iff] at h
  have hlen := S.length_sort queue
  rw [h] at hlen
  exact eq_nil_of_length_eq_zero hlen.symm

theorem mem_of_mem_drainMax (h : x ∈ S.drainMax n queue) : x ∈ queue := by
  induction n generalizing queue with
  | zero => cases h
  | succ n ih =>
    unfold drainMax at h
    split at h
    · cases h
    next y hy =>
      have hsort := S.sort_eq_of_topMax hy
      rw [← S.mem_sort, hsort]
      rcases mem_cons.mp h with rfl | hin
      · exact mem_append_right _ mem_cons_self
      · exact mem_append_left _ (ih hin)

theorem drainMax_perm (h : queue.length ≤ n) : (S.drainMax n queue).Perm queue := by
  induction n generalizing queue with
  | zero =>
    have hnil : queue = [] := eq_nil_of_length_eq_zero (by omega)
    rw [hnil]
    exact List.Perm.refl _
  | succ n ih =>
    unfold drainMax
    split
    next hnone =>
      rw [S.topMax_none hnone]
    next x hx =>
      have hlen := S.length_popMax queue
      have hrest : (S.drainMax n (S.popMax queue)).Perm (S.popMax queue) := ih (by omega)
      have hsort := S.sort_eq_of_topMax hx
      have hback : (x :: S.popMax queue).Perm queue := by
        apply (perm_append_singleton x _).symm.trans
        rw [← hsort]
        exact S.perm queue
      exact (hrest.cons x).trans hback

theorem drainMax_sorted (n : Nat) (queue : List α) :
    (S.drainMax n queue).Pairwise fun a b => key b ≤ key a := by
  induction n generalizing queue with
  | zero => exact List.Pairwise.nil
  | succ n ih =>
    unfold drainMax
    split
    · exact List.Pairwise.nil
    next x hx =>
      apply List.Pairwise.cons
      · intro y hy
        have hsorted := S.sorted queue
        rw [S.sort_eq_of_topMax hx, pairwise_append] at hsorted
        exact hsorted.2.2 y (S.mem_of_mem_drainMax hy) x mem_cons_self
      · exact ih _

theorem shrinkMax_subperm (k n : Nat) (queue : List α) : (S.shrinkMax k n queue).Subperm queue := by
  induction n generalizing queue with
  | zero => exact List.Subperm.refl _
  | succ n ih =>
    unfold shrinkMax
    split
    · exact (ih _).trans (S.popMax_subperm queue)
    · exact List.Subperm.refl _

theorem length_shrinkMax_le {k : Nat} (h : queue.length ≤ n) :
    (S.shrinkMax k n queue).length ≤ k := by
  induction n generalizing queue with
  | zero =>
    show queue.length ≤ k
    omega
  | succ n ih =>
    unfold shrinkMax
    split
    · apply ih
      rw [length_popMax]
      omega
    next hle => exact Nat.le_of_not_lt hle

theorem mem_popMax (hx : x ∈ queue) (hmin : ∀ y ∈ queue, y ≠ x → key x < key y)
    (hlen : 1 < queue.length) : x ∈ S.popMax queue := by
  cases htop : S.topMax? queue with
  | none =>
    rw [S.topMax_none htop] at hx
    cases hx
  | some z =>
    have hsort := S.sort_eq_of_topMax htop
    have hx' : x ∈ S.popMax queue ++ [z] := by
      rw [← hsort, mem_sort]
      exact hx
    rcases mem_append.mp hx' with hin | hlast
    · exact hin
    · -- otherwise some other element precedes `x` in the sorted list
      have heq : x = z := mem_singleton.mp hlast
      by_contra hnot
      have hpos : 0 < (S.popMax queue).length := by
        rw [length_popMax]
        omega
      obtain ⟨y, hy⟩ := exists_mem_of_length_pos hpos
      have hyx : y ≠ x := fun h => hnot (h ▸ hy)
      have hlt := hmin y ((S.popMax_subperm queue).subset hy) hyx
      have hsorted := S.sorted queue
      rw [hsort, pairwise_append] at hsorted
      have hle := hsorted.2.2 y hy z mem_cons_self
      rw [← heq] at hle
      exact absurd hlt (not_lt_of_ge hle)

theorem mem_shrinkMax {k : Nat} (hk : 0 < k) (hx : x ∈ queue)
    (hmin : ∀ y ∈ queue, y ≠ x → key x < key y) : x ∈ S.shrinkMax k n queue := by
  induction n generalizing queue with
  | zero => exact hx
  | succ n ih =>
    unfold shrinkMax
    split
    next hlt =>
      apply ih (S.mem_popMax hx hmin (by omega))
      intro y hy
      exact hmin y ((S.popMax_subperm queue).subset hy)
    · exact hx

end

def ofMergeSort {α κ : Type} [LinearOrder κ] (key : α → κ) : KeySort key where
  sort := fun l => l.mergeSort fun a b => decide (key a ≤ key b)
  perm := fun l => mergeSort_perm l _
  sorted := by
    intro l
    have hsorted : (l.mergeSort fun a b => decide (key a ≤ key b)).Pairwise fun a b =>
        decide (key a ≤ key b) = true := by
      apply pairwise_mergeSort
      · intro a b c hab hbc
        exact decide_eq_true (le_trans (of_decide_eq_true hab) (of_decide_eq_true hbc))
      · intro a b
        rw [Bool.or_eq_true, decide_eq_true_iff, decide_eq_true_iff]
        exact le_total (key a) (key b)
    exact hsorted.imp of_decide_eq_true

end KeySort

end Ladybug
