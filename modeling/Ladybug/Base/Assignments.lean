import Mathlib.Data.List.Basic

/-!
# Assignments in turn and at once

A list of assignments to the cells of a state, in which each reads the state that the ones before it
left, against the list in which all of them read the state at the start.
-/

namespace Ladybug

open List

variable {C W : Type}

/-- The cells that are written, and what they get in a state that is read. -/
structure Assignment (C W : Type) where
  writes : C → Bool
  value : (C → W) → C → W

namespace Assignment

def apply (a : Assignment C W) (source g : C → W) : C → W :=
  fun c => if a.writes c then a.value source c else g c

/-- Each assignment reads what the ones before it left. -/
def inTurn : List (Assignment C W) → (C → W) → C → W
  | [], g => g
  | a :: rest, g => inTurn rest (a.apply g g)

def atOnce (source : C → W) : List (Assignment C W) → (C → W) → C → W
  | [], g => g
  | a :: rest, g => atOnce source rest (a.apply source g)

theorem inTurn_append (pre post : List (Assignment C W)) (g : C → W) :
    inTurn (pre ++ post) g = inTurn post (inTurn pre g) := by
  induction pre generalizing g with
  | nil => rfl
  | cons a pre ih => exact ih _

theorem atOnce_append (source : C → W) (pre post : List (Assignment C W)) (g : C → W) :
    atOnce source (pre ++ post) g = atOnce source post (atOnce source pre g) := by
  induction pre generalizing g with
  | nil => rfl
  | cons a pre ih => exact ih _

variable {as pre : List (Assignment C W)} {c : C} {a : Assignment C W}

theorem inTurn_of_unwritten (h : ∀ a ∈ as, a.writes c = false) (g : C → W) :
    inTurn as g c = g c := by
  induction as generalizing g with
  | nil => rfl
  | cons a as ih =>
    show inTurn as (a.apply g g) c = g c
    rw [ih fun b hb => h b (mem_cons_of_mem _ hb)]
    unfold apply
    rw [h a mem_cons_self]
    rfl

theorem atOnce_of_unwritten (h : ∀ a ∈ as, a.writes c = false) (source g : C → W) :
    atOnce source as g c = g c := by
  induction as generalizing g with
  | nil => rfl
  | cons a as ih =>
    show atOnce source as (a.apply source g) c = g c
    rw [ih fun b hb => h b (mem_cons_of_mem _ hb)]
    unfold apply
    rw [h a mem_cons_self]
    rfl

variable {post : List (Assignment C W)}

section

variable (ha : a.writes c = true) (hpost : ∀ b ∈ post, b.writes c = false)

include ha hpost

theorem inTurn_of_last (g : C → W) : inTurn (pre ++ a :: post) g c = a.value (inTurn pre g) c := by
  rw [inTurn_append]
  show inTurn post (a.apply (inTurn pre g) (inTurn pre g)) c = _
  rw [inTurn_of_unwritten hpost]
  unfold apply
  rw [ha]
  rfl

theorem atOnce_of_last (source g : C → W) :
    atOnce source (pre ++ a :: post) g c = a.value source c := by
  rw [atOnce_append]
  show atOnce source post (a.apply source (atOnce source pre g)) c = _
  rw [atOnce_of_unwritten hpost]
  unfold apply
  rw [ha]
  rfl

end

theorem exists_last (h : ∃ a ∈ as, a.writes c = true) :
    ∃ pre a post, as = pre ++ a :: post ∧ a.writes c = true ∧ ∀ b ∈ post, b.writes c = false := by
  induction as with
  | nil =>
    obtain ⟨a, ha, _⟩ := h
    exact absurd ha not_mem_nil
  | cons a as ih =>
    by_cases hrest : ∃ b ∈ as, b.writes c = true
    · obtain ⟨pre, b, post, rfl, hb, hpost⟩ := ih hrest
      exact ⟨a :: pre, b, post, rfl, hb, hpost⟩
    · have hnone : ∀ b ∈ as, b.writes c = false :=
        fun b hb => Bool.eq_false_iff.mpr fun hw => hrest ⟨b, hb, hw⟩
      obtain ⟨b, hb, hw⟩ := h
      rcases mem_cons.mp hb with rfl | hb
      · exact ⟨[], b, as, rfl, hw, hnone⟩
      · exact absurd ⟨b, hb, hw⟩ hrest

/-- No assignment that gives a cell its last value gets another value through the ones before it. -/
def Undisturbed (as : List (Assignment C W)) (g : C → W) : Prop :=
  ∀ pre a post, as = pre ++ a :: post → ∀ c, a.writes c = true → (∀ b ∈ post, b.writes c = false) →
    a.value (inTurn pre g) c = a.value g c

theorem inTurn_eq_atOnce_iff (as : List (Assignment C W)) (g : C → W) :
    inTurn as g = atOnce g as g ↔ Undisturbed as g := by
  constructor
  · rintro h pre a post rfl c ha hpost
    have hcell := congrFun h c
    rw [inTurn_of_last ha hpost, atOnce_of_last ha hpost] at hcell
    exact hcell
  · intro h
    funext c
    by_cases hwritten : ∃ a ∈ as, a.writes c = true
    · obtain ⟨pre, a, post, rfl, ha, hpost⟩ := exists_last hwritten
      rw [inTurn_of_last ha hpost, atOnce_of_last ha hpost]
      exact h pre a post rfl c ha hpost
    · have hnone : ∀ a ∈ as, a.writes c = false :=
        fun a ha => Bool.eq_false_iff.mpr fun hw => hwritten ⟨a, ha, hw⟩
      rw [inTurn_of_unwritten hnone, atOnce_of_unwritten hnone]

/-- What an assignment gives does not depend on the cells that another one writes. -/
def Ignores (b a : Assignment C W) : Prop :=
  ∀ s s', (∀ c, b.writes c = false → s c = s' c) → a.value s = a.value s'

theorem value_inTurn (h : ∀ b ∈ pre, b.Ignores a) (g : C → W) :
    a.value (inTurn pre g) = a.value g := by
  induction pre generalizing g with
  | nil => rfl
  | cons b pre ih =>
    show a.value (inTurn pre (b.apply g g)) = a.value g
    rw [ih fun b' hb' => h b' (mem_cons_of_mem _ hb')]
    apply h b mem_cons_self
    intro c hc
    unfold apply
    rw [hc]
    rfl

theorem undisturbed_of_ignores (h : as.Pairwise Ignores) (g : C → W) : Undisturbed as g := by
  rintro pre a post rfl c _ _
  rw [value_inTurn fun b hb => (pairwise_append.mp h).2.2 b hb a mem_cons_self]

theorem inTurn_of_constant (h : ∀ a ∈ as, ∀ s s', a.value s = a.value s') (source g : C → W) :
    inTurn as g = atOnce source as g := by
  induction as generalizing g with
  | nil => rfl
  | cons a as ih =>
    show inTurn as (a.apply g g) = atOnce source as (a.apply source g)
    have happly : a.apply g g = a.apply source g := by
      unfold apply
      rw [h a mem_cons_self g source]
    rw [happly]
    exact ih (fun b hb => h b (mem_cons_of_mem _ hb)) _

theorem atOnce_congr {ι : Type} {is : List ι} {f h : ι → Assignment C W} {source : C → W}
    (hsame : ∀ i ∈ is, (f i).writes = (h i).writes ∧ (f i).value source = (h i).value source) (g : C → W) :
    atOnce source (is.map f) g = atOnce source (is.map h) g := by
  induction is generalizing g with
  | nil => rfl
  | cons i is ih =>
    obtain ⟨hwrites, hvalue⟩ := hsame i mem_cons_self
    have happly : (f i).apply source g = (h i).apply source g := by
      unfold apply
      rw [hwrites, hvalue]
    show atOnce source (is.map f) ((f i).apply source g) = atOnce source (is.map h) _
    rw [happly]
    exact ih (fun j hj => hsame j (mem_cons_of_mem _ hj)) _

end Assignment

end Ladybug
