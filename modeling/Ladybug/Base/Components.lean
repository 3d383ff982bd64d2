import Mathlib.Order.Antisymmetrization
import Mathlib.Data.List.Nodup

/-!
# Strong components and finishing orders

A finishing order lists the nodes of a directed graph such that whatever a node reaches is finished
no later than some node of its own strong component.  Depth-first search produces such an order, and
a sweep over it from the last finished node on finds the strong components one by one.
-/

namespace Ladybug

open Relation List

/-- Each reaches the other. -/
abbrev Strong {α : Type} (r : α → α → Prop) : α → α → Prop := AntisymmRel (ReflTransGen r)

/-! ## 1. Finishing orders

The head of an order is the node finished last. -/

section

variable {α : Type} {r : α → α → Prop} {order : List α} {x y z : α}

def NotAfter (order : List α) (y z : α) : Prop :=
  ∃ later earlier, order = later ++ z :: earlier ∧ y ∈ z :: earlier

theorem NotAfter.cons (h : NotAfter order y z) (x : α) : NotAfter (x :: order) y z := by
  obtain ⟨later, earlier, rfl, hy⟩ := h
  exact ⟨x :: later, earlier, rfl, hy⟩

theorem NotAfter.head (h : y ∈ x :: order) : NotAfter (x :: order) y x := ⟨[], order, rfl, h⟩

theorem NotAfter.split {later earlier : List α} (h : NotAfter order y z) (hnodup : order.Nodup)
    (hsplit : order = later ++ y :: earlier) : z = y ∨ z ∈ later := by
  obtain ⟨later', earlier', horder, hy⟩ := h
  rw [horder] at hsplit
  rcases append_eq_append_iff.mp hsplit with ⟨mid, hmid, hrest⟩ | ⟨mid, hmid, hrest⟩
  · cases mid with
    | nil =>
      exact .inl (List.cons.inj hrest).1
    | cons m mid =>
      refine .inr ?_
      rw [hmid, (List.cons.inj hrest).1]
      exact mem_append_right later' mem_cons_self
  · cases mid with
    | nil =>
      exact .inl (List.cons.inj hrest).1.symm
    | cons m mid =>
      -- then `y` stands before `z` too
      rw [horder, hmid] at hnodup
      rw [← (List.cons.inj hrest).1] at hnodup
      have hin : y ∈ later ++ y :: mid := mem_append_right later mem_cons_self
      exact absurd rfl ((nodup_append.mp hnodup).2.2 y hin y hy)

structure FinishOrder (r : α → α → Prop) (order : List α) : Prop where
  nodup : order.Nodup
  dominated : ∀ x ∈ order, ∀ y, ReflTransGen r x y → ∃ z, Strong r x z ∧ NotAfter order y z

theorem exists_first {p : α → Prop} (h : ∃ x ∈ order, p x) :
    ∃ later z earlier, order = later ++ z :: earlier ∧ p z ∧ ∀ x ∈ later, ¬ p x := by
  induction order with
  | nil =>
    obtain ⟨x, hx, -⟩ := h
    cases hx
  | cons a order ih =>
    by_cases ha : p a
    · exact ⟨[], a, order, rfl, ha, fun x hx => by cases hx⟩
    · obtain ⟨x, hx, hpx⟩ := h
      have hrest : ∃ x ∈ order, p x := by
        rcases mem_cons.mp hx with rfl | hmem
        · exact absurd hpx ha
        · exact ⟨x, hmem, hpx⟩
      obtain ⟨later, z, earlier, rfl, hz, hlater⟩ := ih hrest
      refine ⟨a :: later, z, earlier, rfl, hz, ?_⟩
      intro y hy
      rcases mem_cons.mp hy with rfl | hmem
      · exact ha
      · exact hlater y hmem

/-- Across components: the last finished node of the component of `x` is finished after every node
of a component that `x` reaches but that does not reach `x`. -/
theorem FinishOrder.last_after (h : FinishOrder r order) (hx : x ∈ order)
    (hxy : ReflTransGen r x y) (hyx : ¬ ReflTransGen r y x) :
    ∃ later z earlier, order = later ++ z :: earlier ∧ Strong r x z ∧
      (∀ w ∈ later, ¬ Strong r x w) ∧ ∀ w, Strong r y w → w ∈ earlier := by
  obtain ⟨later, z, earlier, horder, hz, hlast⟩ :=
    exists_first ⟨x, hx, AntisymmRel.refl (ReflTransGen r) x⟩
  refine ⟨later, z, earlier, horder, hz, hlast, ?_⟩
  intro w hw
  obtain ⟨z', hz', later', earlier', horder', hw'⟩ := h.dominated x hx w (hxy.trans hw.1)
  have hmem : w ∈ order := by
    rw [horder']
    exact mem_append_right later' hw'
  have hother : ¬ Strong r x w := fun hxw => hyx (hw.1.trans hxw.2)
  rw [horder] at hmem
  rcases mem_append.mp hmem with hin | hin
  · -- before `z` there is no node of the component, but `z'` stands before `w`
    obtain ⟨l₁, l₂, hlater⟩ := append_of_mem hin
    have hsplit : order = l₁ ++ w :: (l₂ ++ z :: earlier) := by
      rw [horder, hlater, append_assoc, cons_append]
    rcases NotAfter.split ⟨later', earlier', horder', hw'⟩ h.nodup hsplit with rfl | hbefore
    · exact absurd hz' hother
    · have hin' : z' ∈ later := by
        rw [hlater]
        exact mem_append_left _ hbefore
      exact absurd hz' (hlast z' hin')
  · rcases mem_cons.mp hin with rfl | hin
    · exact absurd hz hother
    · exact hin

/-- Where the sweep comes to `c`: everything finished later is in `seen`, a union of components.
Then what still reaches `c` is in its component. -/
theorem FinishOrder.reaches_root {later earlier : List α} {c : α} (h : FinishOrder r order)
    (seen : α → Prop) (hsplit : order = later ++ c :: earlier)
    (hseen : ∀ x ∈ later, seen x) (hclosed : ∀ x y, seen x → Strong r x y → seen y)
    (hx : x ∈ order) (hnew : ¬ seen x) (hreach : ReflTransGen r x c) : Strong r x c := by
  obtain ⟨z, hz, hafter⟩ := h.dominated x hx c hreach
  rcases hafter.split h.nodup hsplit with rfl | hin
  · exact hz
  · exact absurd (hclosed z x (hseen z hin) hz.symm) hnew

end

end Ladybug
