import Mathlib.Data.List.Basic

/-!
# Records in text

Text cut at a separator, lines that newlines end, and maps and sets that are read back by inserting
their entries one after the other.
-/

namespace Ladybug.Records

open List

variable {α : Type} [DecidableEq α]

theorem not_mem_of_mem_splitOn {sep : α} {xs part : List α} (h : part ∈ xs.splitOn sep) :
    sep ∉ part := by
  induction xs generalizing part with
  | nil =>
    rw [splitOn_nil, mem_singleton] at h
    rw [h]
    exact not_mem_nil
  | cons x xs ih =>
    rw [splitOn_cons_eq_if_modifyHead] at h
    by_cases hx : x = sep
    · rw [if_pos (beq_iff_eq.mpr hx), mem_cons] at h
      rcases h with h | h
      · rw [h]
        exact not_mem_nil
      · exact ih h
    · rw [if_neg (fun he => hx (beq_iff_eq.mp he))] at h
      cases hs : xs.splitOn sep with
      | nil => exact absurd hs (List.splitOn_ne_nil _ _)
      | cons first rest =>
        rw [hs, modifyHead_cons, mem_cons] at h
        rcases h with h | h
        · rw [h, mem_cons]
          intro hmem
          rcases hmem with hmem | hmem
          · exact hx hmem.symm
          · exact ih (hs ▸ mem_cons_self) hmem
        · exact ih (hs ▸ mem_cons_of_mem _ h)

theorem mem_of_mem_splitOn {sep x : α} {xs part : List α} (h : part ∈ xs.splitOn sep)
    (hx : x ∈ part) : x ∈ xs := by
  induction xs generalizing part with
  | nil =>
    rw [splitOn_nil, mem_singleton] at h
    rw [h] at hx
    exact hx
  | cons y ys ih =>
    rw [splitOn_cons_eq_if_modifyHead] at h
    rw [mem_cons]
    by_cases hy : y = sep
    · rw [if_pos (beq_iff_eq.mpr hy), mem_cons] at h
      rcases h with h | h
      · rw [h] at hx
        exact absurd hx not_mem_nil
      · exact .inr (ih h hx)
    · rw [if_neg (fun he => hy (beq_iff_eq.mp he))] at h
      cases hs : ys.splitOn sep with
      | nil => exact absurd hs (List.splitOn_ne_nil _ _)
      | cons first rest =>
        rw [hs, modifyHead_cons, mem_cons] at h
        rcases h with h | h
        · rw [h, mem_cons] at hx
          exact hx.imp id (ih (hs ▸ mem_cons_self))
        · exact .inr (ih (hs ▸ mem_cons_of_mem _ h) hx)

theorem length_splitOn (sep : α) (xs : List α) : (xs.splitOn sep).length = xs.count sep + 1 := by
  induction xs with
  | nil => rfl
  | cons x xs ih =>
    rw [splitOn_cons_eq_if_modifyHead, count_cons]
    by_cases hx : x = sep
    · rw [if_pos (beq_iff_eq.mpr hx), if_pos (beq_iff_eq.mpr hx), length_cons, ih]
    · rw [if_neg (fun he => hx (beq_iff_eq.mp he)), if_neg (fun he => hx (beq_iff_eq.mp he)),
        length_modifyHead, ih]

/-- The lines of a text, as `std::getline` returns them: a last line need not be ended. -/
def lines (newline : α) : List α → List (List α)
  | [] => []
  | c :: cs =>
    if c = newline then [] :: lines newline cs
    else match lines newline cs with
      | [] => [[c]]
      | first :: rest => (c :: first) :: rest

theorem lines_line {newline : α} {line : List α} (hline : newline ∉ line) (rest : List α) :
    lines newline (line ++ newline :: rest) = line :: lines newline rest := by
  induction line with
  | nil =>
    show lines newline (newline :: rest) = _
    rw [lines, if_pos rfl]
  | cons c cs ih =>
    rw [mem_cons, not_or] at hline
    show lines newline (c :: (cs ++ newline :: rest)) = _
    rw [lines, if_neg (Ne.symm hline.1), ih hline.2]

theorem lines_flatMap {newline : α} {ls : List (List α)} (hls : ∀ l ∈ ls, newline ∉ l) :
    lines newline (ls.flatMap (· ++ [newline])) = ls := by
  induction ls with
  | nil => rfl
  | cons l ls ih =>
    rw [forall_mem_cons] at hls
    rw [flatMap_cons, append_assoc, singleton_append, lines_line hls.1, ih hls.2]

theorem not_mem_of_mem_lines {newline : α} {text line : List α} (h : line ∈ lines newline text) :
    newline ∉ line := by
  induction text generalizing line with
  | nil => exact absurd h not_mem_nil
  | cons c cs ih =>
    rw [lines] at h
    by_cases hc : c = newline
    · rw [if_pos hc, mem_cons] at h
      rcases h with h | h
      · rw [h]
        exact not_mem_nil
      · exact ih h
    · rw [if_neg hc] at h
      cases hs : lines newline cs with
      | nil =>
        rw [hs, mem_singleton] at h
        rw [h, mem_singleton]
        exact Ne.symm hc
      | cons first rest =>
        rw [hs, mem_cons] at h
        rcases h with h | h
        · rw [h, mem_cons, not_or]
          exact ⟨Ne.symm hc, ih (hs ▸ mem_cons_self)⟩
        · exact ih (hs ▸ mem_cons_of_mem _ h)

variable {κ β : Type} [Ord κ] [Std.TransOrd κ] [Std.LawfulEqOrd κ]

theorem getElem?_insert_key [DecidableEq κ] (m : Std.ExtTreeMap κ β) (k a : κ) (v : β) :
    (m.insert k v)[a]? = if k = a then some v else m[a]? := by
  rw [Std.ExtTreeMap.getElem?_insert]
  by_cases h : k = a
  · rw [if_pos h, if_pos (Std.LawfulEqCmp.compare_eq_iff_eq.mpr h)]
  · rw [if_neg h, if_neg (fun he => h (Std.LawfulEqCmp.compare_eq_iff_eq.mp he))]

theorem getElem?_erase_key [DecidableEq κ] (m : Std.ExtTreeMap κ β) (k a : κ) :
    (m.erase k)[a]? = if k = a then none else m[a]? := by
  rw [Std.ExtTreeMap.getElem?_erase]
  by_cases h : k = a
  · rw [if_pos h, if_pos (Std.LawfulEqCmp.compare_eq_iff_eq.mpr h)]
  · rw [if_neg h, if_neg (fun he => h (Std.LawfulEqCmp.compare_eq_iff_eq.mp he))]

omit [Std.LawfulEqOrd κ] in
theorem pairwise_ne_toList (m : Std.ExtTreeMap κ β) :
    m.toList.Pairwise fun a b => ¬compare a.1 b.1 = .eq := by
  apply (Std.ExtTreeMap.ordered_keys_toList (t := m)).imp
  intro a b hab heq
  rw [hab] at heq
  exact absurd heq (by decide)

theorem insertMany_toList [DecidableEq κ] (m : Std.ExtTreeMap κ β) :
    (∅ : Std.ExtTreeMap κ β).insertMany m.toList = m := by
  apply Std.ExtTreeMap.ext_getElem?
  intro k
  by_cases hk : k ∈ m
  · have hget : m[k]? = some m[k] := Std.ExtTreeMap.getElem?_eq_some_getElem hk
    rw [hget]
    apply Std.ExtTreeMap.getElem?_insertMany_list_of_mem Std.ReflCmp.compare_self
      (pairwise_ne_toList m)
    exact Std.ExtTreeMap.mem_toList_iff_getElem?_eq_some.mpr hget
  · rw [Std.ExtTreeMap.getElem?_insertMany_list_of_contains_eq_false, Std.ExtTreeMap.getElem?_empty,
      Std.ExtTreeMap.getElem?_eq_none hk]
    rw [Std.ExtTreeMap.map_fst_toList_eq_keys, contains_eq_mem, decide_eq_false_iff_not,
      Std.ExtTreeMap.mem_keys]
    exact hk

omit [Std.LawfulEqOrd κ] in
theorem foldl_insert_entries (m : Std.ExtTreeMap κ β) (entries : List (κ × β)) :
    entries.foldl (fun m entry => m.insert entry.1 entry.2) m = m.insertMany entries := by
  induction entries generalizing m with
  | nil => exact Std.ExtTreeMap.insertMany_nil.symm
  | cons entry entries ih =>
    rw [foldl_cons, ih]
    exact Std.ExtTreeMap.insertMany_cons.symm

theorem foldl_insert_toList [DecidableEq κ] (m : Std.ExtTreeMap κ β) :
    m.toList.foldl (fun m entry => m.insert entry.1 entry.2) ∅ = m := by
  rw [foldl_insert_entries, insertMany_toList]

theorem getElem?_foldl_insert [DecidableEq κ] {entries : List (κ × β)}
    (h : entries.Pairwise fun a b => a.1 ≠ b.1) (k : κ) (v : β) :
    (entries.foldl (fun m entry => m.insert entry.1 entry.2)
      (∅ : Std.ExtTreeMap κ β))[k]? = some v ↔ (k, v) ∈ entries := by
  have hdistinct : entries.Pairwise fun a b => ¬compare a.1 b.1 = .eq :=
    h.imp fun hne heq => hne (Std.LawfulEqCmp.compare_eq_iff_eq.mp heq)
  rw [foldl_insert_entries]
  constructor
  · intro hget
    by_cases hk : k ∈ entries.map Prod.fst
    · rcases mem_map.mp hk with ⟨⟨k', w⟩, hentry, rfl⟩
      have hw := Std.ExtTreeMap.getElem?_insertMany_list_of_mem (t := (∅ : Std.ExtTreeMap κ β))
        Std.ReflCmp.compare_self hdistinct hentry
      rw [hw, Option.some.injEq] at hget
      exact hget ▸ hentry
    · rw [Std.ExtTreeMap.getElem?_insertMany_list_of_contains_eq_false,
        Std.ExtTreeMap.getElem?_empty] at hget
      · cases hget
      · rw [contains_eq_mem, decide_eq_false_iff_not]
        exact hk
  · intro hentry
    exact Std.ExtTreeMap.getElem?_insertMany_list_of_mem Std.ReflCmp.compare_self hdistinct hentry

theorem mem_foldl_insert {k : κ} (s : Std.ExtTreeSet κ) (keys : List κ) :
    k ∈ keys.foldl (fun s k => s.insert k) s ↔ k ∈ keys ∨ k ∈ s := by
  induction keys generalizing s with
  | nil => simp
  | cons first keys ih =>
    grind

theorem foldl_insert_set (s : Std.ExtTreeSet κ) : s.toList.foldl (fun s k => s.insert k) ∅ = s := by
  apply Std.ExtTreeSet.ext_mem
  intro k
  rw [mem_foldl_insert, Std.ExtTreeSet.mem_toList]
  simp

end Ladybug.Records
