import Ladybug.Base.Components

/-!
# Depth-first search with an explicit stack

The machine looks at the top of its stack.  A node met for the first time is marked and stays where
it is, below those of its successors that are not marked yet; met again, it is finished and popped;
every further copy of it is popped without effect.  A node may be on the stack many times.
-/

namespace Ladybug

open Relation List

variable {α : Type} {r : α → α → Prop} {stack rest order : List α} {visited : α → Prop} {x : α}

/-- A node that is marked but not finished. -/
def Open (visited : α → Prop) (order : List α) (g : α) : Prop := visited g ∧ g ∉ order

/-- The state between two rounds.  The node an open node was marked at is its topmost copy. -/
structure DepthFirst (r : α → α → Prop) (stack : List α) (visited : α → Prop) (order : List α) :
    Prop where
  nodup : order.Nodup
  finished : ∀ x ∈ order, visited x ∧ ∀ w, r x w → visited w
  onStack : ∀ g, Open visited order g → g ∈ stack
  above : ∀ above g below, stack = above ++ g :: below → g ∉ above → Open visited order g →
    (∀ w, r g w → visited w ∨ w ∈ above) ∧ ∀ a ∈ above, ReflTransGen r g a
  settled : ∀ x ∈ order, (∃ g, Open visited order g ∧ Strong r x g) ∨
    ∀ y, ReflTransGen r x y → ∃ z, Strong r x z ∧ NotAfter order y z

namespace DepthFirst

theorem start (r : α → α → Prop) : DepthFirst r [] (fun _ => False) [] where
  nodup := nodup_nil
  finished := fun _ hx => absurd hx not_mem_nil
  onStack := fun _ hg => absurd hg.1 id
  above := fun _ _ _ _ _ hg => absurd hg.1 id
  settled := fun _ hx => absurd hx not_mem_nil

theorem congr {visited' : α → Prop} (h : DepthFirst r stack visited order)
    (heq : ∀ y, visited' y ↔ visited y) : DepthFirst r stack visited' order := by
  have hsame : visited' = visited := funext fun y => propext (heq y)
  rwa [hsame]

theorem root (h : DepthFirst r [] visited order) (x : α) : DepthFirst r [x] visited order where
  nodup := h.nodup
  finished := h.finished
  onStack := fun g hg => absurd (h.onStack g hg) not_mem_nil
  above := fun _ g _ _ _ hg => absurd (h.onStack g hg) not_mem_nil
  settled := h.settled

theorem exists_topmost {g : α} (h : g ∈ stack) :
    ∃ above below, stack = above ++ g :: below ∧ g ∉ above := by
  obtain ⟨above, z, below, hsplit, rfl, hfirst⟩ := exists_first (p := fun y => g = y) ⟨g, h, rfl⟩
  exact ⟨above, below, hsplit, fun hin => hfirst g hin rfl⟩

section

variable (h : DepthFirst r (x :: rest) visited order)

include h

theorem pop (hx : x ∈ order) : DepthFirst r rest visited order where
  nodup := h.nodup
  finished := h.finished
  onStack := by
    intro g hg
    rcases mem_cons.mp (h.onStack g hg) with rfl | hin
    · exact absurd hx hg.2
    · exact hin
  above := by
    intro above g below hsplit hnot hg
    have hne : g ≠ x := fun heq => hg.2 (heq ▸ hx)
    obtain ⟨hedges, hreach⟩ := h.above (x :: above) g below (by rw [hsplit, cons_append])
      (by simp [hne, hnot]) hg
    refine ⟨?_, fun a ha => hreach a (mem_cons_of_mem x ha)⟩
    intro w hw
    rcases hedges w hw with hvis | hin
    · exact .inl hvis
    · rcases mem_cons.mp hin with rfl | hin
      · exact .inl (h.finished w hx).1
      · exact .inr hin
  settled := h.settled

/-- When an open node is on top and no other open node is in its component, then all it reaches is
finished. -/
theorem reached_finished (hx : Open visited order x)
    (honly : ∀ g, Open visited order g → Strong r x g → g = x) {y : α} (hy : ReflTransGen r x y) :
    y ∈ x :: order := by
  induction hy with
  | refl => exact mem_cons_self
  | tail hreach hedge ih =>
    rename_i p w
    -- the step leaves a finished node, or the top, which has no successor above it
    have hvis : visited w := by
      rcases mem_cons.mp ih with rfl | hin
      · obtain ⟨hedges, -⟩ := h.above [] p rest rfl not_mem_nil hx
        exact (hedges w hedge).elim id fun hin => absurd hin not_mem_nil
      · exact (h.finished p hin).2 w hedge
    by_cases hw : w ∈ order
    · exact mem_cons_of_mem x hw
    by_cases hwx : w = x
    · rw [hwx]
      exact mem_cons_self
    -- an open node below the top reaches the top
    have hbelow : w ∈ rest := by
      rcases mem_cons.mp (h.onStack w ⟨hvis, hw⟩) with heq | hin
      · exact absurd heq hwx
      · exact hin
    obtain ⟨above, below, hsplit, hnot⟩ := exists_topmost hbelow
    obtain ⟨-, hup⟩ := h.above (x :: above) w below (by rw [hsplit, cons_append])
      (by simp [hwx, hnot]) ⟨hvis, hw⟩
    have hsame : Strong r x w := ⟨hreach.tail hedge, hup x mem_cons_self⟩
    rw [honly w ⟨hvis, hw⟩ hsame]
    exact mem_cons_self

theorem finish (hx : Open visited order x) : DepthFirst r rest visited (x :: order) where
  nodup := nodup_cons.mpr ⟨hx.2, h.nodup⟩
  finished := by
    intro y hy
    rcases mem_cons.mp hy with rfl | hin
    · obtain ⟨hedges, -⟩ := h.above [] y rest rfl not_mem_nil hx
      refine ⟨hx.1, fun w hw => ?_⟩
      exact (hedges w hw).elim id fun hin => absurd hin not_mem_nil
    · exact h.finished y hin
  onStack := by
    intro g hg
    have hout : g ∉ order := fun hin => hg.2 (mem_cons_of_mem x hin)
    rcases mem_cons.mp (h.onStack g ⟨hg.1, hout⟩) with rfl | hin
    · exact absurd mem_cons_self hg.2
    · exact hin
  above := by
    intro above g below hsplit hnot hg
    have hne : g ≠ x := fun heq => hg.2 (heq ▸ mem_cons_self)
    have hout : g ∉ order := fun hin => hg.2 (mem_cons_of_mem x hin)
    obtain ⟨hedges, hreach⟩ := h.above (x :: above) g below (by rw [hsplit, cons_append])
      (by simp [hne, hnot]) ⟨hg.1, hout⟩
    refine ⟨?_, fun a ha => hreach a (mem_cons_of_mem x ha)⟩
    intro w hw
    rcases hedges w hw with hvis | hin
    · exact .inl hvis
    · rcases mem_cons.mp hin with rfl | hin
      · exact .inl hx.1
      · exact .inr hin
  settled := by
    intro y hy
    by_cases hopen : ∃ g, Open visited (x :: order) g ∧ Strong r y g
    · exact .inl hopen
    refine .inr ?_
    -- no open node is left in the component of `y`
    have hlast : Strong r y x → ∀ z, ReflTransGen r y z →
        ∃ z', Strong r y z' ∧ NotAfter (x :: order) z z' := by
      intro hyx z hz
      refine ⟨x, hyx, NotAfter.head ?_⟩
      refine h.reached_finished hx ?_ (hyx.2.trans hz)
      intro g hg hxg
      by_contra hne
      refine hopen ⟨g, ⟨hg.1, ?_⟩, hyx.trans hxg⟩
      intro hin
      exact (mem_cons.mp hin).elim hne hg.2
    rcases mem_cons.mp hy with rfl | hin
    · exact hlast (AntisymmRel.refl _ y)
    rcases h.settled y hin with ⟨g, hg, hyg⟩ | hdone
    · by_cases hgx : g = x
      · exact hlast (hgx ▸ hyg)
      · refine absurd ⟨g, ⟨hg.1, ?_⟩, hyg⟩ hopen
        intro hin'
        exact (mem_cons.mp hin').elim hgx hg.2
    · intro z hz
      obtain ⟨z', hz', hafter⟩ := hdone z hz
      exact ⟨z', hz', hafter.cons x⟩

theorem discover (hx : ¬ visited x) (pushes : List α)
    (hpush : ∀ w ∈ pushes, r x w ∧ ¬ (visited w ∨ w = x))
    (hall : ∀ w, r x w → (visited w ∨ w = x) ∨ w ∈ pushes) :
    DepthFirst r (pushes ++ x :: rest) (fun y => visited y ∨ y = x) order where
  nodup := h.nodup
  finished := by
    intro y hy
    obtain ⟨hvis, hedges⟩ := h.finished y hy
    exact ⟨.inl hvis, fun w hw => .inl (hedges w hw)⟩
  onStack := by
    intro g hg
    refine mem_append_right pushes ?_
    rcases hg.1 with hvis | rfl
    · exact h.onStack g ⟨hvis, hg.2⟩
    · exact mem_cons_self
  above := by
    intro above g below hsplit hnot hg
    have hout : g ∉ pushes := fun hin => (hpush g hin).2 hg.1
    -- the topmost copy of an open node is not among the new entries
    obtain ⟨above', rfl, hrest⟩ : ∃ above', above = pushes ++ above' ∧
        x :: rest = above' ++ g :: below := by
      rcases append_eq_append_iff.mp hsplit with ⟨mid, hmid, hrest⟩ | ⟨mid, hmid, hrest⟩
      · exact ⟨mid, hmid, hrest⟩
      · cases mid with
        | nil =>
          refine ⟨[], ?_, ?_⟩
          · rw [hmid, append_nil, append_nil]
          · rw [nil_append] at hrest ⊢
            exact hrest.symm
        | cons m mid =>
          refine absurd ?_ hout
          rw [hmid, (List.cons.inj hrest).1]
          exact mem_append_right above mem_cons_self
    cases above' with
    | nil =>
      -- `g` is the new node itself
      obtain rfl := (List.cons.inj hrest).1
      rw [append_nil]
      exact ⟨hall, fun a ha => .single (hpush a ha).1⟩
    | cons a above' =>
      obtain ⟨rfl, hrest⟩ := List.cons.inj hrest
      have hne : g ≠ x := by
        rintro rfl
        exact hnot (mem_append_right pushes mem_cons_self)
      have hold : Open visited order g := ⟨hg.1.resolve_right hne, hg.2⟩
      obtain ⟨hedges, hreach⟩ := h.above (x :: above') g below (by rw [hrest, cons_append])
        (fun hin => hnot (mem_append_right pushes hin)) hold
      constructor
      · intro w hw
        rcases hedges w hw with hvis | hin
        · exact .inl (.inl hvis)
        · exact .inr (mem_append_right pushes hin)
      · intro b hb
        rcases mem_append.mp hb with hin | hin
        · exact (hreach x mem_cons_self).tail (hpush b hin).1
        · exact hreach b hin
  settled := by
    intro y hy
    rcases h.settled y hy with ⟨g, hg, hyg⟩ | hdone
    · exact .inl ⟨g, ⟨.inl hg.1, hg.2⟩, hyg⟩
    · exact .inr hdone

end

theorem finishOrder (h : DepthFirst r [] visited order) : FinishOrder r order where
  nodup := h.nodup
  dominated := by
    intro x hx
    rcases h.settled x hx with ⟨g, hg, -⟩ | hdone
    · exact absurd (h.onStack g hg) not_mem_nil
    · exact hdone

theorem mem_order_iff (h : DepthFirst r [] visited order) : x ∈ order ↔ visited x := by
  constructor
  · exact fun hin => (h.finished x hin).1
  · intro hvis
    by_contra hout
    exact not_mem_nil (h.onStack x ⟨hvis, hout⟩)

end DepthFirst

end Ladybug
