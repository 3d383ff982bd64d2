import Mathlib.Data.List.Nodup
import Mathlib.Data.List.Pairwise

/-!
# Lists in groups

A list of keyed items has no key twice exactly when no group of it has; a list gathered from groups
has no item twice exactly when the groups have none and share none.
-/

namespace Ladybug

variable {ι α β γ : Type}

theorem nodup_pairs_iff [DecidableEq β] (t : α → β) (k : α → γ) (l : List α) :
    (l.map fun a => (t a, k a)).Nodup ↔ ∀ b, ((l.filter fun a => t a = b).map k).Nodup := by
  have hgroup (b : β) : ((l.filter fun a => t a = b).map k).Nodup ↔
      l.Pairwise fun x y => t x = b → t y = b → k x ≠ k y := by
    rw [List.Nodup, List.pairwise_map, List.pairwise_filter]
    simp only [decide_eq_true_eq]
  simp only [hgroup]
  rw [List.Nodup, List.pairwise_map]
  constructor
  · intro h b
    apply h.imp
    intro x y hne hx hy heq
    exact hne (Prod.ext (hx.trans hy.symm) heq)
  · intro h
    rw [List.pairwise_iff_getElem]
    intro i j hi hj hij heq
    have hpair := List.pairwise_iff_getElem.mp (h (t l[i])) i j hi hj hij
    exact hpair rfl (congrArg Prod.fst heq).symm (congrArg Prod.snd heq)

theorem nodup_gathered_iff {P : List ι} (hP : P.Nodup) {g : ι → List α}
    (hg : ∀ i ∈ P, (g i).Nodup) :
    (P.flatMap g).Nodup ↔ ∀ i ∈ P, ∀ j ∈ P, i ≠ j → ∀ x ∈ g i, x ∉ g j := by
  rw [List.nodup_flatMap, and_iff_right hg]
  constructor
  · intro h i hi j hj hne x hx hx'
    have hsymm : Std.Symm (Function.onFun List.Disjoint g) := ⟨fun _ _ hd _ ha hb => hd hb ha⟩
    exact h.forall hi hj hne hx hx'
  · intro h
    apply hP.pairwise_of_forall_ne
    intro i hi j hj hne x hx hx'
    exact h i hi j hj hne x hx hx'

end Ladybug
