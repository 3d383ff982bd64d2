import Mathlib.Data.Finset.Card

/-!
# Disjoint sets

A set is a tree of parent pointers, and its root names it.  Pointers may skip their parent, and a
root may be hung below another one.
-/

namespace Ladybug

open Function Finset

section

variable {α : Type} {p c : α → α} {rank : α → Nat} {x y a b : α}

structure Roots (p c : α → α) : Prop where
  parent : ∀ x, c (p x) = c x
  root : ∀ x, p x = x → c x = x
  fixed : ∀ x, p (c x) = c x

/-- Ranks grow towards the roots, so that the pointers never run in a circle. -/
def Ranked (p : α → α) (rank : α → Nat) : Prop := ∀ x, p x ≠ x → rank x < rank (p x)

theorem roots_id : Roots (id : α → α) id := ⟨fun _ => rfl, fun _ _ => rfl, fun _ => rfl⟩

theorem ranked_id (rank : α → Nat) : Ranked id rank := fun _ hx => absurd rfl hx

theorem Roots.eq_of_fixed (h : Roots p c) (hx : p (p x) = p x) : p x = c x := by
  rw [← h.parent x]
  exact (h.root (p x) hx).symm

theorem Ranked.not_fixed (hx : p x ≠ p (p x)) : p x ≠ x := by
  intro heq
  exact hx (congrArg p heq).symm

variable [DecidableEq α]

theorem Ranked.halve (h : Ranked p rank) (hx : p x ≠ p (p x)) :
    Ranked (update p x (p (p x))) rank := by
  intro y hy
  by_cases hxy : y = x
  · subst hxy
    rw [update_self]
    exact (h y (Ranked.not_fixed hx)).trans (h (p y) hx.symm)
  · rw [update_of_ne hxy] at hy ⊢
    exact h y hy

theorem Roots.halve (h : Roots p c) (hrank : Ranked p rank) (hx : p x ≠ p (p x)) :
    Roots (update p x (p (p x))) c where
  parent := by
    intro y
    by_cases hxy : y = x
    · subst hxy
      rw [update_self, h.parent, h.parent]
    · rw [update_of_ne hxy, h.parent]
  root := by
    intro y hy
    by_cases hxy : y = x
    · -- the ranks on the way differ
      subst hxy
      rw [update_self] at hy
      have hlow := hrank y (Ranked.not_fixed hx)
      have hhigh := hrank (p y) hx.symm
      rw [hy] at hhigh
      omega
    · rw [update_of_ne hxy] at hy
      exact h.root y hy
  fixed := by
    intro y
    have hne : c y ≠ x := by
      intro heq
      apply Ranked.not_fixed hx
      rw [← heq]
      exact h.fixed y
    rw [update_of_ne hne, h.fixed]

/-- The roots after `a` was hung below `b`. -/
def joinRoots (c : α → α) (a b : α) (x : α) : α := if c x = a then b else c x

theorem Roots.join (h : Roots p c) (hab : a ≠ b) (ha : p a = a) (hb : p b = b) :
    Roots (update p a b) (joinRoots c a b) where
  parent := by
    intro y
    unfold joinRoots
    by_cases hy : y = a
    · subst hy
      rw [update_self, h.root b hb, h.root y ha, if_neg hab.symm, if_pos rfl]
    · rw [update_of_ne hy, h.parent]
  root := by
    intro y hy
    unfold joinRoots
    by_cases hya : y = a
    · subst hya
      rw [update_self] at hy
      exact absurd hy hab.symm
    · rw [update_of_ne hya] at hy
      rw [h.root y hy, if_neg hya]
  fixed := by
    intro y
    unfold joinRoots
    by_cases hy : c y = a
    · rw [if_pos hy, update_of_ne hab.symm, hb]
    · rw [if_neg hy, update_of_ne hy, h.fixed]

theorem joinRoots_eq_iff (hab : a ≠ b) : joinRoots c a b x = joinRoots c a b y ↔
      c x = c y ∨ (c x = a ∧ c y = b) ∨ (c x = b ∧ c y = a) := by
  unfold joinRoots
  by_cases hx : c x = a
  · by_cases hy : c y = a
    · simp [hx, hy]
    · rw [if_pos hx, if_neg hy, hx]
      simp [eq_comm, hab, Ne.symm hy]
  · by_cases hy : c y = a
    · rw [if_neg hx, if_pos hy, hy]
      simp [hx]
    · simp [hx, hy]

theorem Ranked.join {rank' : α → Nat} (h : Ranked p rank) (ha : p a = a) (hb : p b = b)
    (hrank : ∀ x, x ≠ b → rank' x = rank x) (hab : rank' a < rank' b) (hle : rank b ≤ rank' b) :
    Ranked (update p a b) rank' := by
  intro y hy
  by_cases hya : y = a
  · subst hya
    rw [update_self]
    exact hab
  · rw [update_of_ne hya] at hy ⊢
    have hyb : y ≠ b := by
      rintro rfl
      exact hy hb
    have hlt := h y hy
    rw [hrank y hyb]
    by_cases hpb : p y = b
    · rw [hpb] at hlt ⊢
      exact hlt.trans_le hle
    · rw [hrank (p y) hpb]
      exact hlt

end

section

variable {p c : Nat → Nat} {n a b x : Nat}

/-- The number of roots below `n`. -/
def rootCount (n : Nat) (p : Nat → Nat) : Nat := ((range n).filter fun x => p x = x).card

theorem rootCount_id (n : Nat) : rootCount n id = n := by
  have hall : ((range n).filter fun x => id x = x) = range n :=
    filter_true_of_mem fun x _ => rfl
  unfold rootCount
  rw [hall, card_range]

theorem Roots.count_congr {q : Nat → Nat} (h : Roots p c) (h' : Roots q c) :
    rootCount n q = rootCount n p := by
  unfold rootCount
  congr 1
  apply filter_congr
  intro x _
  constructor
  · intro hx
    rw [← h'.root x hx]
    exact h.fixed x
  · intro hx
    rw [← h.root x hx]
    exact h'.fixed x

theorem rootCount_join (hab : a ≠ b) (ha : p a = a) (han : a < n) :
    rootCount n (update p a b) + 1 = rootCount n p := by
  unfold rootCount
  have herase : ((range n).filter fun x => update p a b x = x) =
      ((range n).filter fun x => p x = x).erase a := by
    ext x
    rw [mem_erase, mem_filter, mem_filter]
    by_cases hx : x = a
    · subst hx
      simp [hab.symm]
    · rw [update_of_ne hx]
      simp [hx]
  rw [herase]
  apply card_erase_add_one
  rw [mem_filter, mem_range]
  exact ⟨han, ha⟩

theorem Roots.single (h : Roots p c) (hcount : rootCount n p = 1) (hlt : ∀ x < n, c x < n) :
    ∀ x < n, ∀ y < n, c x = c y := by
  intro x hx y hy
  obtain ⟨r, hr⟩ := card_eq_one.mp hcount
  have hroot : ∀ z < n, c z = r := by
    intro z hz
    rw [← mem_singleton, ← hr, mem_filter, mem_range]
    exact ⟨hlt z hz, h.fixed z⟩
  rw [hroot x hx, hroot y hy]

theorem Roots.count_one (h : Roots p c) (hn : 0 < n) (hlt : ∀ x < n, c x < n)
    (hall : ∀ x < n, ∀ y < n, c x = c y) : rootCount n p = 1 := by
  apply card_eq_one.mpr
  refine ⟨c 0, ?_⟩
  ext x
  rw [mem_filter, mem_range, mem_singleton]
  constructor
  · rintro ⟨hx, hroot⟩
    rw [← h.root x hroot]
    exact hall x hx 0 hn
  · rintro rfl
    exact ⟨hlt 0 hn, h.fixed 0⟩

end

end Ladybug
