import Mathlib.Data.List.TakeWhile

/-!
# Slots that are freed in any order

Slots are allocated upwards and kept on a stack.  A slot that is freed stays on the stack until all
slots above it have been freed; only then the space from it on can be used again.
-/

namespace Ladybug

open List Function

/-- The stack has its top first.  The slots on it that are not allocated have been freed. -/
structure SlotStack where
  used : List Nat
  allocated : Nat → Bool

namespace SlotStack

def empty : SlotStack := ⟨[], fun _ => false⟩

def bound (S : SlotStack) : Nat :=
  match S.used with
  | [] => 0
  | top :: _ => top + 1

def push (S : SlotStack) (slot : Nat) : SlotStack where
  used := slot :: S.used
  allocated := update S.allocated slot true

def release (S : SlotStack) (slot : Nat) : SlotStack where
  used := S.used.dropWhile fun o => !update S.allocated slot false o
  allocated := update S.allocated slot false

@[simp] theorem push_allocated (S : SlotStack) (slot : Nat) :
    (S.push slot).allocated = update S.allocated slot true := rfl

@[simp] theorem release_allocated (S : SlotStack) (slot : Nat) :
    (S.release slot).allocated = update S.allocated slot false := rfl

structure Wf (S : SlotStack) : Prop where
  sorted : S.used.Pairwise (· > ·)
  covered : ∀ o, S.allocated o = true → o ∈ S.used

section

variable {S : SlotStack} {slot o : Nat}

theorem wf_empty : empty.Wf where
  sorted := List.Pairwise.nil
  covered := fun _ ho => by cases ho

theorem lt_bound (h : S.used.Pairwise (· > ·)) (ho : o ∈ S.used) : o < S.bound := by
  unfold bound
  cases hused : S.used with
  | nil =>
    rw [hused] at ho
    cases ho
  | cons top rest =>
    rw [hused] at h ho
    rcases mem_cons.mp ho with heq | hin
    · rw [heq]
      exact Nat.lt_succ_self top
    · exact Nat.lt_succ_of_lt (rel_of_pairwise_cons h hin)

theorem Wf.lt_bound (h : S.Wf) (ho : S.allocated o = true) : o < S.bound :=
  SlotStack.lt_bound h.sorted (h.covered o ho)

theorem bound_push (S : SlotStack) (slot : Nat) : (S.push slot).bound = slot + 1 := rfl

theorem allocated_push (S : SlotStack) (slot : Nat) : (S.push slot).allocated slot = true := by
  rw [push_allocated, update_self]

theorem allocated_push_of (ho : S.allocated o = true) : (S.push slot).allocated o = true := by
  rw [push_allocated]
  by_cases heq : o = slot
  · rw [heq, update_self]
  · rw [update_of_ne heq]
    exact ho

theorem Wf.push (h : S.Wf) (hslot : S.bound ≤ slot) : (S.push slot).Wf where
  sorted := by
    apply List.Pairwise.cons
    · intro o ho
      exact Nat.lt_of_lt_of_le (SlotStack.lt_bound h.sorted ho) hslot
    · exact h.sorted
  covered := by
    intro o ho
    by_cases heq : o = slot
    · rw [heq]
      exact mem_cons_self
    · rw [push_allocated, update_of_ne heq] at ho
      exact mem_cons_of_mem slot (h.covered o ho)

theorem allocated_release_of (ho : S.allocated o = true) (hne : o ≠ slot) :
    (S.release slot).allocated o = true := by
  rw [release_allocated, update_of_ne hne]
  exact ho

theorem mem_dropWhile {p : Nat → Bool} {l : List Nat} (ho : o ∈ l) (hp : p o = false) :
    o ∈ l.dropWhile p := by
  have hsplit := takeWhile_append_dropWhile (p := p) (l := l)
  rw [← hsplit] at ho
  rcases mem_append.mp ho with hin | hin
  · have htrue := mem_takeWhile_imp hin
    rw [hp] at htrue
    cases htrue
  · exact hin

theorem Wf.release (h : S.Wf) (slot : Nat) : (S.release slot).Wf where
  sorted := h.sorted.sublist (dropWhile_sublist _)
  covered := by
    intro o ho
    have hne : o ≠ slot := by
      intro heq
      rw [heq, release_allocated, update_self] at ho
      cases ho
    have hbefore : S.allocated o = true := by
      rw [release_allocated, update_of_ne hne] at ho
      exact ho
    apply mem_dropWhile (h.covered o hbefore)
    rw [update_of_ne hne, hbefore]
    rfl

theorem Wf.bound_release_le (h : S.Wf) (slot : Nat) : (S.release slot).bound ≤ S.bound := by
  cases hused : (S.release slot).used with
  | nil =>
    unfold bound
    rw [hused]
    exact Nat.zero_le _
  | cons top rest =>
    have hin : top ∈ S.used := by
      apply (dropWhile_sublist _).subset
      show top ∈ (S.release slot).used
      rw [hused]
      exact mem_cons_self
    have hlt := SlotStack.lt_bound h.sorted hin
    show (match (S.release slot).used with | [] => 0 | top :: _ => top + 1) ≤ S.bound
    rw [hused]
    exact hlt

end

end SlotStack

end Ladybug
