import Ladybug.Base.FixedRows
import Ladybug.Vector.InMemHNSWLayer
import Ladybug.Vector.RelBatchCorrect

/-!
# What shrinking a list keeps
-/

namespace Ladybug.Vector.InMemHNSWLayerInfo

open FixedRows List

variable {D : Type} [Distance D] {info : InMemHNSWLayerInfo D}

theorem degreeThreshold_lt (info : InMemHNSWLayerInfo D) : info.degreeThresholdToShrink < 2 ^ 16 := by
  have hle := info.maxDegree_le
  unfold degreeThresholdToShrink getDegreeThresholdToShrink
  unfold MAX_DEGREE at hle
  omega

theorem maxDegree_lt (info : InMemHNSWLayerInfo D) : info.maxDegree < info.degreeThresholdToShrink := by
  have hpos := info.maxDegree_pos
  unfold degreeThresholdToShrink getDegreeThresholdToShrink
  omega

/-- The neighbours kept of a list: the first one, and of the others those that no kept one excludes, as
long as there is room. -/
structure Pruned (info : InMemHNSWLayerInfo D) (nbrs kept : List (NodeWithDistance D)) : Prop where
  sublist : kept.Sublist nbrs
  length_le : kept.length ≤ info.maxDegree
  nearest : nbrs ≠ [] → ∃ w ∈ kept, ∀ o ∈ nbrs, w.distance ≤ o.distance
  dropped : ∀ o ∈ nbrs, o ∉ kept → (∃ w ∈ kept, w.distance ≤ o.distance ∧
      info.alphaTimes (info.distance o.nodeOffset w.nodeOffset) < o.distance) ∨
    (kept.length = info.maxDegree ∧ ∀ w ∈ kept, w.distance ≤ o.distance)

section

variable {nbrs kept rest : List (NodeWithDistance D)} {nbr : NodeWithDistance D}

theorem Pruned.nil : info.Pruned [] [] where
  sublist := List.Sublist.refl []
  length_le := Nat.zero_le _
  nearest := fun h => absurd rfl h
  dropped := fun _ ho => absurd ho not_mem_nil

section

variable (h : info.Pruned nbrs kept)

include h

theorem Pruned.le (hsorted : (nbrs ++ rest).Pairwise fun a b => a.distance ≤ b.distance)
    {w o : NodeWithDistance D} (hw : w ∈ kept) (ho : o ∈ rest) : w.distance ≤ o.distance :=
  (pairwise_append.mp hsorted).2.2 w (h.sublist.subset hw) o ho

theorem Pruned.full (hfull : kept.length = info.maxDegree)
    (hsorted : (nbrs ++ rest).Pairwise fun a b => a.distance ≤ b.distance) :
    info.Pruned (nbrs ++ rest) kept where
  sublist := h.sublist.trans (sublist_append_left nbrs rest)
  length_le := h.length_le
  nearest := by
    intro _
    have hne : nbrs ≠ [] := by
      intro hnil
      have hlen := h.sublist.length_le
      have hpos := info.maxDegree_pos
      rw [hnil, length_nil] at hlen
      omega
    obtain ⟨w, hw, hleast⟩ := h.nearest hne
    refine ⟨w, hw, fun o ho => ?_⟩
    rcases mem_append.mp ho with ho | ho
    · exact hleast o ho
    · exact h.le hsorted hw ho
  dropped := by
    intro o ho hnot
    rcases mem_append.mp ho with ho | ho
    · exact h.dropped o ho hnot
    · exact .inr ⟨hfull, fun w hw => h.le hsorted hw ho⟩

theorem Pruned.keep (hroom : kept.length < info.maxDegree)
    (hsorted : (nbrs ++ [nbr]).Pairwise fun a b => a.distance ≤ b.distance) :
    info.Pruned (nbrs ++ [nbr]) (kept ++ [nbr]) where
  sublist := h.sublist.append (List.Sublist.refl [nbr])
  length_le := by
    rw [length_append, length_singleton]
    omega
  nearest := by
    intro _
    cases nbrs with
    | nil =>
      refine ⟨nbr, by simp, fun o ho => ?_⟩
      rw [mem_singleton.mp ho]
    | cons first nbrs =>
      obtain ⟨w, hw, hleast⟩ := h.nearest (cons_ne_nil first nbrs)
      refine ⟨w, mem_append_left _ hw, fun o ho => ?_⟩
      rcases mem_append.mp ho with ho | ho
      · exact hleast o ho
      · exact h.le hsorted hw ho
  dropped := by
    intro o ho hnot
    rw [mem_append, not_or] at hnot
    rcases mem_append.mp ho with ho | ho
    · rcases h.dropped o ho hnot.1 with ⟨w, hw, hnear⟩ | ⟨hfull, -⟩
      · exact .inl ⟨w, mem_append_left _ hw, hnear⟩
      · omega
    · exact absurd ho hnot.2

theorem Pruned.drop (hdrop : info.keepNbr kept nbr = false)
    (hsorted : (nbrs ++ [nbr]).Pairwise fun a b => a.distance ≤ b.distance) :
    info.Pruned (nbrs ++ [nbr]) kept := by
  -- the kept neighbour that excludes this one
  obtain ⟨w, hw, hnear⟩ : ∃ w ∈ kept,
      info.alphaTimes (info.distance nbr.nodeOffset w.nodeOffset) < nbr.distance := by
    unfold keepNbr at hdrop
    simpa using hdrop
  have hne : nbrs ≠ [] := ne_nil_of_mem (h.sublist.subset hw)
  exact
    { sublist := h.sublist.trans (sublist_append_left nbrs [nbr])
      length_le := h.length_le
      nearest := by
        intro _
        obtain ⟨v, hv, hleast⟩ := h.nearest hne
        refine ⟨v, hv, fun o ho => ?_⟩
        rcases mem_append.mp ho with ho | ho
        · exact hleast o ho
        · exact h.le hsorted hv ho
      dropped := by
        intro o ho hnot
        rcases mem_append.mp ho with ho | ho
        · exact h.dropped o ho hnot
        · have hle := h.le hsorted hw ho
          rw [mem_singleton.mp ho] at hle ⊢
          exact .inl ⟨w, hw, hle, hnear⟩ }

theorem shrinkLoop_pruned (hroom : kept.length < info.maxDegree)
    (hsorted : (nbrs ++ rest).Pairwise fun a b => a.distance ≤ b.distance) :
    info.Pruned (nbrs ++ rest) (info.shrinkLoop kept rest) := by
  induction rest generalizing nbrs kept with
  | nil =>
    rw [append_nil]
    exact h
  | cons nbr rest ih =>
    rw [append_cons] at hsorted ⊢
    have hfirst := (pairwise_append.mp hsorted).1
    unfold shrinkLoop
    cases hkeep : info.keepNbr kept nbr with
    | true =>
      have hnext := h.keep hroom hfirst
      simp only [if_true]
      split
      next hfull => exact hnext.full hfull hsorted
      next hroom' =>
        have hle := hnext.length_le
        exact ih hnext (by omega) hsorted
    | false =>
      have hnext := h.drop hkeep hfirst
      simp only [Bool.false_eq_true, if_false]
      rw [if_neg (by omega)]
      exact ih hnext hroom hsorted

end

end

section

variable {graph : GraphBuffers} {v : Nat}

theorem keptNbrs_pruned (info : InMemHNSWLayerInfo D) (graph : GraphBuffers) (v : Nat) :
    info.Pruned (info.ordering.sort (info.populateNeighbours graph v))
      (info.shrinkLoop [] (info.ordering.sort (info.populateNeighbours graph v))) :=
  shrinkLoop_pruned Pruned.nil info.maxDegree_pos (info.ordering.sorted _)

theorem mem_sort_populate {n : NodeWithDistance D} :
    n ∈ info.ordering.sort (info.populateNeighbours graph v) ↔
      ∃ w ∈ info.getNodeOffsets graph v, info.node v w = n := by
  rw [(info.ordering.perm _).mem_iff]
  exact mem_map

theorem sort_populate_perm (info : InMemHNSWLayerInfo D) (graph : GraphBuffers) (v : Nat) :
    ((info.ordering.sort (info.populateNeighbours graph v)).map NodeWithDistance.nodeOffset).Perm
      (info.getNodeOffsets graph v) := by
  have hperm := (info.ordering.perm (info.populateNeighbours graph v)).map NodeWithDistance.nodeOffset
  have hmap : (info.populateNeighbours graph v).map NodeWithDistance.nodeOffset =
      info.getNodeOffsets graph v := by
    unfold populateNeighbours
    rw [map_map]
    exact map_id _
  rw [hmap] at hperm
  exact hperm

theorem keptNbrs_shrunk (hnodup : (info.getNodeOffsets graph v).Nodup) :
    info.Shrunk v (info.getNodeOffsets graph v) (info.keptNbrs graph v) := by
  have hpruned := keptNbrs_pruned info graph v
  have hsub := hpruned.sublist.map NodeWithDistance.nodeOffset
  have hperm := sort_populate_perm info graph v
  -- what is kept carries its distance
  have hkept : ∀ n ∈ info.shrinkLoop [] (info.ordering.sort (info.populateNeighbours graph v)),
      n.nodeOffset ∈ info.keptNbrs graph v ∧ n.distance = info.distance v n.nodeOffset := by
    intro n hn
    refine ⟨mem_map_of_mem hn, ?_⟩
    obtain ⟨w, -, rfl⟩ := mem_sort_populate.mp (hpruned.sublist.subset hn)
    rfl
  exact
    { subset := fun w hw => hperm.mem_iff.mp (hsub.subset hw)
      nodup := hsub.nodup (hperm.nodup_iff.mpr hnodup)
      length_le := by
        unfold keptNbrs
        rw [length_map]
        exact hpruned.length_le
      nearest := by
        intro hne
        obtain ⟨o, ho⟩ := exists_mem_of_ne_nil _ hne
        obtain ⟨w, hw, hleast⟩ := hpruned.nearest
          (ne_nil_of_mem (mem_sort_populate.mpr ⟨o, ho, rfl⟩))
        refine ⟨w.nodeOffset, (hkept w hw).1, fun o ho => ?_⟩
        rw [← (hkept w hw).2]
        exact hleast _ (mem_sort_populate.mpr ⟨o, ho, rfl⟩)
      dropped := by
        intro o ho hnot
        have hnot' : info.node v o ∉
            info.shrinkLoop [] (info.ordering.sort (info.populateNeighbours graph v)) :=
          fun hin => hnot (hkept _ hin).1
        rcases hpruned.dropped _ (mem_sort_populate.mpr ⟨o, ho, rfl⟩) hnot' with
          ⟨w, hw, hle, hnear⟩ | ⟨hfull, hle⟩
        · refine .inl ⟨w.nodeOffset, (hkept w hw).1, ?_, hnear⟩
          rw [← (hkept w hw).2]
          exact hle
        · refine .inr ⟨?_, fun w hw => ?_⟩
          · unfold keptNbrs
            rw [length_map]
            exact hfull
          · obtain ⟨n, hn, rfl⟩ := mem_map.mp hw
            rw [← (hkept n hn).2]
            exact hle n hn }

end

end Ladybug.Vector.InMemHNSWLayerInfo
