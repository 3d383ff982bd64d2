import Mathlib.Data.List.Forall2
import Mathlib.Data.List.Infix
import Mathlib.Data.List.ReduceOption

/-!
# Patterns with a star

A part of a pattern takes one item that it accepts; a star takes any number of items.  The items
are the characters of a name, or the names on a path.
-/

namespace Ladybug.Globs

open List

variable {α : Type}

inductive Part (α : Type) where
  | one (accepts : α → Prop)
  | star

inductive Matches : List (Part α) → List α → Prop
  | nil : Matches [] []
  | one {accepts : α → Prop} {parts : List (Part α)} {x : α} {xs : List α} :
      accepts x → Matches parts xs → Matches (.one accepts :: parts) (x :: xs)
  | skip {parts : List (Part α)} {xs : List α} : Matches parts xs → Matches (.star :: parts) xs
  | take {parts : List (Part α)} {x : α} {xs : List α} :
      Matches (.star :: parts) xs → Matches (.star :: parts) (x :: xs)

variable {xs : List α} {accepts : α → Prop}

@[simp] theorem matches_nil_iff : Matches [] xs ↔ xs = [] := by
  constructor
  · intro h
    cases h
    rfl
  · rintro rfl
    exact .nil

variable {parts : List (Part α)}

@[simp] theorem matches_one_iff {x : α} :
    Matches (.one accepts :: parts) (x :: xs) ↔ accepts x ∧ Matches parts xs := by
  constructor
  · intro h
    cases h with
    | one hx hxs => exact ⟨hx, hxs⟩
  · intro h
    exact .one h.1 h.2

@[simp] theorem not_matches_one_nil : ¬ Matches (.one accepts :: parts) [] := by
  intro h
  cases h

theorem matches_star_iff : Matches (.star :: parts) xs ↔ ∃ ys, ys <:+ xs ∧ Matches parts ys := by
  constructor
  · intro h
    induction xs with
    | nil =>
      cases h with
      | skip h => exact ⟨[], suffix_rfl, h⟩
    | cons x xs ih =>
      cases h with
      | skip h => exact ⟨x :: xs, suffix_rfl, h⟩
      | take h =>
        obtain ⟨ys, hys, hm⟩ := ih h
        exact ⟨ys, hys.trans (suffix_cons x xs), hm⟩
  · rintro ⟨ys, ⟨front, rfl⟩, hm⟩
    induction front with
    | nil => exact .skip hm
    | cons x front ih => exact .take ih

theorem matches_last_star (xs : List α) : Matches [.star] xs :=
  matches_star_iff.mpr ⟨[], nil_suffix, .nil⟩

theorem matches_star_star : Matches (.star :: .star :: parts) xs ↔ Matches (.star :: parts) xs := by
  constructor
  · intro h
    obtain ⟨ys, hys, hm⟩ := matches_star_iff.mp h
    obtain ⟨zs, hzs, hm'⟩ := matches_star_iff.mp hm
    exact matches_star_iff.mpr ⟨zs, hzs.trans hys, hm'⟩
  · exact .skip

/-- The non-empty suffixes, the longest first. -/
def suffixes : List α → List (List α)
  | [] => []
  | x :: xs => (x :: xs) :: suffixes xs

theorem mem_suffixes_iff {ys : List α} : ys ∈ suffixes xs ↔ ys ≠ [] ∧ ys <:+ xs := by
  induction xs with
  | nil =>
    show ys ∈ [] ↔ _
    simp
  | cons x xs ih =>
    show ys ∈ (x :: xs) :: suffixes xs ↔ _
    rw [mem_cons, ih, suffix_cons_iff]
    constructor
    · rintro (rfl | ⟨hne, hs⟩)
      · exact ⟨cons_ne_nil x xs, .inl rfl⟩
      · exact ⟨hne, .inr hs⟩
    · rintro ⟨hne, rfl | hs⟩
      · exact .inl rfl
      · exact .inr ⟨hne, hs⟩

theorem matches_star_suffixes (hneeds : ¬ Matches parts []) :
    Matches (.star :: parts) xs ↔ ∃ ys ∈ suffixes xs, Matches parts ys := by
  rw [matches_star_iff]
  constructor
  · rintro ⟨ys, hys, hm⟩
    have hne : ys ≠ [] := by
      rintro rfl
      exact hneeds hm
    exact ⟨ys, mem_suffixes_iff.mpr ⟨hne, hys⟩, hm⟩
  · rintro ⟨ys, hys, hm⟩
    exact ⟨ys, (mem_suffixes_iff.mp hys).2, hm⟩

/-! ## Parts by their classes

A part is given by a class of items, a star by none.  The same classes may be read in two ways. -/

section

variable {κ : Type} (Has Has' : κ → α → Prop)

def partOf : Option κ → Part α
  | none => .star
  | some k => .one (Has k)

def MatchesBy (ps : List (Option κ)) (xs : List α) : Prop := Matches (ps.map (partOf Has)) xs

variable {Has Has'} {ps : List (Option κ)}

@[simp] theorem matchesBy_nil : MatchesBy Has [] xs ↔ xs = [] := matches_nil_iff

theorem matchesBy_cons {k : κ} : MatchesBy Has (some k :: ps) xs ↔
    ∃ x rest, xs = x :: rest ∧ Has k x ∧ MatchesBy Has ps rest := by
  constructor
  · intro h
    cases h with
    | one hx hrest => exact ⟨_, _, rfl, hx, hrest⟩
  · rintro ⟨x, rest, rfl, hx, hrest⟩
    exact .one hx hrest

theorem matchesBy_star : MatchesBy Has (none :: ps) xs ↔ ∃ ys, ys <:+ xs ∧ MatchesBy Has ps ys :=
  matches_star_iff

theorem matchesBy_length (h : MatchesBy Has ps xs) : ps.reduceOption.length ≤ xs.length := by
  induction ps generalizing xs with
  | nil => exact Nat.zero_le _
  | cons p ps ih =>
    cases p with
    | none =>
      obtain ⟨ys, hys, hm⟩ := matchesBy_star.mp h
      exact (ih hm).trans hys.length_le
    | some k =>
      obtain ⟨x, rest, rfl, -, hm⟩ := matchesBy_cons.mp h
      exact Nat.succ_le_succ (ih hm)

/-- In a shortest match the stars take nothing. -/
theorem matchesBy_shortest (hlen : xs.length = ps.reduceOption.length) :
    MatchesBy Has ps xs ↔ List.Forall₂ Has ps.reduceOption xs := by
  induction ps generalizing xs with
  | nil =>
    rw [length_eq_zero_iff.mp hlen]
    exact iff_of_true .nil .nil
  | cons p ps ih =>
    cases p with
    | none =>
      rw [matchesBy_star, reduceOption_cons_of_none, ← ih hlen]
      constructor
      · rintro ⟨ys, hys, hm⟩
        rwa [← hys.eq_of_length_le (hlen.le.trans (matchesBy_length hm :))]
      · exact fun h => ⟨xs, suffix_rfl, h⟩
    | some k =>
      rw [reduceOption_cons_of_some] at hlen ⊢
      rw [matchesBy_cons]
      constructor
      · rintro ⟨x, rest, rfl, hx, hm⟩
        exact .cons hx ((ih (Nat.succ.inj hlen)).mp hm)
      · intro h
        cases h with
        | cons hx hrest => exact ⟨_, _, rfl, hx, (ih (Nat.succ.inj hlen)).mpr hrest⟩

theorem matchesBy_mono (h : ∀ k, some k ∈ ps → ∀ x ∈ xs, Has k x → Has' k x)
    (hm : MatchesBy Has ps xs) : MatchesBy Has' ps xs := by
  induction ps generalizing xs with
  | nil => exact hm
  | cons p ps ih =>
    cases p with
    | none =>
      obtain ⟨ys, hys, hm⟩ := matchesBy_star.mp hm
      exact matchesBy_star.mpr ⟨ys, hys, ih (fun k hk x hx =>
        h k (mem_cons_of_mem _ hk) x (hys.subset hx)) hm⟩
    | some k =>
      obtain ⟨x, rest, rfl, hx, hm⟩ := matchesBy_cons.mp hm
      exact matchesBy_cons.mpr ⟨x, rest, rfl, h k mem_cons_self x mem_cons_self hx,
        ih (fun k hk x hx => h k (mem_cons_of_mem _ hk) x (mem_cons_of_mem _ hx)) hm⟩

theorem matchesBy_congr (h : ∀ k, some k ∈ ps → ∀ x ∈ xs, (Has k x ↔ Has' k x)) :
    MatchesBy Has ps xs ↔ MatchesBy Has' ps xs :=
  ⟨matchesBy_mono fun k hk x hx => (h k hk x hx).mp, matchesBy_mono fun k hk x hx => (h k hk x hx).mpr⟩

theorem exists_choice {ks : List κ} (h : ∀ k ∈ ks, ∃ x, Has k x) : ∃ xs, List.Forall₂ Has ks xs := by
  induction ks with
  | nil => exact ⟨[], .nil⟩
  | cons k ks ih =>
    obtain ⟨x, hx⟩ := h k mem_cons_self
    obtain ⟨xs, hxs⟩ := ih fun k hk => h k (mem_cons_of_mem _ hk)
    exact ⟨x :: xs, .cons hx hxs⟩

theorem not_matchesBy {k : κ} (hk : some k ∈ ps) (hnone : ∀ x, ¬ Has k x) : ¬ MatchesBy Has ps xs := by
  intro hm
  induction ps generalizing xs with
  | nil => cases hk
  | cons p ps ih =>
    cases p with
    | none =>
      obtain ⟨ys, -, hm⟩ := matchesBy_star.mp hm
      exact ih ((mem_cons.mp hk).resolve_left nofun) hm
    | some k' =>
      obtain ⟨x, rest, rfl, hx, hm⟩ := matchesBy_cons.mp hm
      rcases mem_cons.mp hk with heq | hk
      · cases heq
        exact hnone x hx
      · exact ih hk hm

def EmptyClass (Has : κ → α → Prop) (ps : List (Option κ)) : Prop := ∃ k, some k ∈ ps ∧ ∀ x, ¬ Has k x

theorem exists_of_not_emptyClass (h : ¬ EmptyClass Has ps) : ∀ k ∈ ps.reduceOption, ∃ x, Has k x := by
  intro k hk
  by_contra hnone
  exact h ⟨k, reduceOption_mem_iff.mp hk, fun x hx => hnone ⟨x, hx⟩⟩

theorem exists_matchesBy (h : ¬ EmptyClass Has ps) : ∃ xs, MatchesBy Has ps xs := by
  obtain ⟨xs, hxs⟩ := exists_choice (exists_of_not_emptyClass h)
  exact ⟨xs, (matchesBy_shortest hxs.length_eq.symm).mpr hxs⟩

-- with an item for each of the other classes, a class can be told from the shortest matches
theorem class_of_shortest {ks : List κ} (hne : ∀ k ∈ ks, ∃ x, Has k x)
    (h : ∀ xs, List.Forall₂ Has ks xs → List.Forall₂ Has' ks xs) {k : κ} (hk : k ∈ ks) {x : α}
    (hx : Has k x) : Has' k x := by
  induction ks with
  | nil => cases hk
  | cons k' ks ih =>
    have hrest := fun k hk => hne k (mem_cons_of_mem _ hk)
    obtain ⟨xs, hxs⟩ := exists_choice hrest
    obtain ⟨x', hx'⟩ := hne k' mem_cons_self
    rcases mem_cons.mp hk with rfl | hk
    · exact (List.forall₂_cons.mp (h _ (.cons hx hxs))).1
    · exact ih hrest (fun ys hys => (List.forall₂_cons.mp (h _ (.cons hx' hys))).2) hk

/-- Two readings match the same lists exactly when each class is the same in both, or both have a
class without items. -/
theorem matchesBy_same_iff : (∀ xs, MatchesBy Has ps xs ↔ MatchesBy Has' ps xs) ↔
    (∀ k, some k ∈ ps → ∀ x, Has k x ↔ Has' k x) ∨ EmptyClass Has ps ∧ EmptyClass Has' ps := by
  constructor
  · intro h
    have hshort : ∀ xs, List.Forall₂ Has ps.reduceOption xs ↔ List.Forall₂ Has' ps.reduceOption xs := by
      intro xs
      by_cases hlen : xs.length = ps.reduceOption.length
      · rw [← matchesBy_shortest hlen, ← matchesBy_shortest hlen, h]
      · exact iff_of_false (fun hall => hlen hall.length_eq.symm) fun hall =>
          hlen hall.length_eq.symm
    by_cases hempty : EmptyClass Has ps
    · right
      refine ⟨hempty, ?_⟩
      obtain ⟨k, hk, hnone⟩ := hempty
      by_contra hfull
      obtain ⟨xs, hm⟩ := exists_matchesBy hfull
      exact not_matchesBy hk hnone ((h xs).mpr hm)
    by_cases hempty' : EmptyClass Has' ps
    · obtain ⟨k, hk, hnone⟩ := hempty'
      obtain ⟨xs, hm⟩ := exists_matchesBy hempty
      exact absurd ((h xs).mp hm) (not_matchesBy hk hnone)
    left
    intro k hk x
    have hmem := reduceOption_mem_iff.mpr hk
    exact ⟨class_of_shortest (exists_of_not_emptyClass hempty) (fun xs => (hshort xs).mp) hmem,
      class_of_shortest (exists_of_not_emptyClass hempty') (fun xs => (hshort xs).mpr) hmem⟩
  · rintro (h | ⟨⟨k, hk, hnone⟩, k', hk', hnone'⟩) xs
    · exact matchesBy_congr fun k hk x _ => h k hk x
    · exact iff_of_false (not_matchesBy hk hnone) (not_matchesBy hk' hnone')

end

end Ladybug.Globs
