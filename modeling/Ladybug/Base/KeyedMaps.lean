import Mathlib.Data.List.AList
import Mathlib.Data.List.Induction

/-!
# Maps filled by loops

What a map holds after a loop of assignments: over a list of keyed items the last item of a key
stays, and over the entries of another map, whose keys are distinct, the order does not matter.
-/

namespace Ladybug

open List

variable {κ α β : Type}

theorem filterMap_keys_sublist {g : α → Option β} {k : α → κ} {k' : β → κ}
    (hkey : ∀ a b, g a = some b → k' b = k a) (xs : List α) :
    Sublist ((xs.filterMap g).map k') (xs.map k) := by
  induction xs with
  | nil => exact List.Sublist.refl _
  | cons x xs ih =>
    cases hx : g x with
    | none =>
      rw [filterMap_cons_none hx, map_cons]
      exact ih.cons _
    | some b =>
      rw [filterMap_cons_some hx, map_cons, map_cons, hkey x b hx]
      exact ih.cons_cons _

variable [DecidableEq κ]

def indexed (key : α → κ) (xs : List α) : AList fun _ : κ => α :=
  xs.foldl (fun map x => map.insert (key x) x) ∅

theorem lookup_indexed (key : α → κ) (xs : List α) (k : κ) :
    (indexed key xs).lookup k = (xs.filter fun x => key x = k).getLast? := by
  induction xs using reverseRecOn with
  | nil => rfl
  | append_singleton xs x ih =>
    unfold indexed at ih ⊢
    rw [foldl_append, foldl_cons, foldl_nil, filter_append]
    by_cases hk : key x = k
    · subst hk
      rw [AList.lookup_insert, filter_cons_of_pos (by simp), filter_nil, getLast?_append]
      rfl
    · rw [AList.lookup_insert_ne (fun h => hk h.symm), ih,
        filter_cons_of_neg (by simpa using hk), filter_nil, append_nil]

/-- An entry that yields a value is assigned under its own key. -/
def assign (g : κ → α → Option β) (map : AList fun _ : κ => β) (e : Sigma fun _ : κ => α) :
    AList fun _ : κ => β :=
  match g e.1 e.2 with
  | none => map
  | some b => map.insert e.1 b

variable (g : κ → α → Option β)

theorem lookup_assign_self (map : AList fun _ : κ => β) (e : Sigma fun _ : κ => α) :
    (assign g map e).lookup e.1 = (g e.1 e.2).or (map.lookup e.1) := by
  unfold assign
  cases g e.1 e.2 with
  | none => rfl
  | some b => exact AList.lookup_insert map

theorem lookup_assign_ne (map : AList fun _ : κ => β) (e : Sigma fun _ : κ => α) {k : κ}
    (hk : k ≠ e.1) : (assign g map e).lookup k = map.lookup k := by
  unfold assign
  cases g e.1 e.2 with
  | none => rfl
  | some b => exact AList.lookup_insert_ne hk

theorem lookup_foldl_assign_entries (k : κ) (entries : List (Sigma fun _ : κ => α))
    (hnodup : entries.NodupKeys) (map : AList fun _ : κ => β) :
    (entries.foldl (assign g) map).lookup k =
      ((entries.dlookup k).bind (g k)).or (map.lookup k) := by
  induction entries generalizing map with
  | nil => rfl
  | cons e entries ih =>
    rw [nodupKeys_cons] at hnodup
    rw [foldl_cons, ih hnodup.2]
    by_cases hk : k = e.1
    · -- the key does not occur again, so what this entry assigns stays
      subst hk
      rw [dlookup_eq_none.mpr hnodup.1, dlookup_cons_eq entries e.1 e.2, lookup_assign_self]
      rfl
    · rw [dlookup_cons_ne _ _ hk, lookup_assign_ne g map e hk]

theorem lookup_foldl_assign (k : κ) (source : AList fun _ : κ => α) (map : AList fun _ : κ => β) :
    (source.entries.foldl (assign g) map).lookup k =
      ((source.lookup k).bind (g k)).or (map.lookup k) :=
  lookup_foldl_assign_entries g k source.entries source.nodupKeys map

section

variable (f : Option β → α → β) (key : α → κ)

/-- `map[key(x)]` is changed by every `x`; an entry that is not there yet is `none`. -/
def gather (xs : List α) : AList fun _ : κ => β :=
  xs.foldl (fun map x => map.insert (key x) (f (map.lookup (key x)) x)) ∅

theorem lookup_gather (xs : List α) (k : κ) : (gather f key xs).lookup k =
      (xs.filter fun x => key x = k).foldl (fun b x => some (f b x)) none := by
  induction xs using reverseRecOn with
  | nil => rfl
  | append_singleton xs x ih =>
    unfold gather at ih ⊢
    rw [foldl_append, foldl_cons, foldl_nil, filter_append, foldl_append]
    by_cases hk : key x = k
    · subst hk
      rw [AList.lookup_insert, ih, filter_cons_of_pos (by simp), filter_nil]
      rfl
    · rw [AList.lookup_insert_ne (fun h => hk h.symm), ih,
        filter_cons_of_neg (by simpa using hk), filter_nil]
      rfl

theorem map_lookup_gather {γ : Type} {proj : β → List γ} {g : α → γ}
    (hf : ∀ b x, proj (f b x) = (b.map proj).getD [] ++ [g x]) (xs : List α) (k : κ) :
    ((gather f key xs).lookup k).map proj = if xs.filter (fun x => key x = k) = [] then none
      else some ((xs.filter fun x => key x = k).map g) := by
  rw [lookup_gather]
  induction xs.filter (fun x => key x = k) using reverseRecOn with
  | nil => rfl
  | append_singleton items x ih =>
    rw [if_neg (concat_ne_nil x items), foldl_append, foldl_cons, foldl_nil,
      Option.map_some, hf, ih, map_append]
    by_cases hitems : items = []
    · rw [if_pos hitems, hitems]
      rfl
    · rw [if_neg hitems]
      rfl

end

end Ladybug
