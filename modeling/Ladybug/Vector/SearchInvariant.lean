import Mathlib.Data.Finset.Card
import Ladybug.Vector.HnswSearch

/-!
# Searching a layer

All expansions of a candidate push a node at most once, when it is marked as visited, and only nodes
that satisfy the mask become results.  The loop over the candidates ends because every push uses up a
node that was not visited.
-/

namespace Ladybug.Vector

open List

def SearchedTable.Seeded (T : SearchedTable) (o : Nat) : Prop :=
  ∃ mask ∈ T.semiMask, ∃ e < T.numCheckpointedNodes,
    o ∈ mask.collectMaskedNodes (HNSWSearch.FILTERED_SEARCH_INITIAL_CANDIDATES -
      if T.rows.recorded e && T.isMasked e then 1 else 0)

namespace HNSWSearch

variable {D : Type} [Distance D] (S : HNSWSearch D)

def unvisited (visited : List Nat) : Nat :=
  ((Finset.range S.numCheckpointedNodes).filter (· ∉ visited)).card

theorem unvisited_cons_le (visited : List Nat) (x : Nat) :
    S.unvisited (x :: visited) ≤ S.unvisited visited := by
  apply Finset.card_le_card
  intro o ho
  rw [Finset.mem_filter, mem_cons, not_or] at ho
  exact Finset.mem_filter.mpr ⟨ho.1, ho.2.2⟩

theorem unvisited_cons_lt {visited : List Nat} {x : Nat} (hlt : x < S.numCheckpointedNodes)
    (hx : x ∉ visited) : S.unvisited (x :: visited) < S.unvisited visited := by
  apply Finset.card_lt_card
  rw [Finset.ssubset_iff_of_subset]
  · refine ⟨x, Finset.mem_filter.mpr ⟨Finset.mem_range.mpr hlt, hx⟩, ?_⟩
    intro hin
    exact (Finset.mem_filter.mp hin).2 mem_cons_self
  · intro o ho
    rw [Finset.mem_filter, mem_cons, not_or] at ho
    exact Finset.mem_filter.mpr ⟨ho.1, ho.2.2⟩

/-- A result carries its distance, satisfies the mask and is in the graph or was a starting node. -/
structure Found (n : NodeWithDistance D) : Prop where
  eq : n = S.node n.nodeOffset
  recorded : S.rows.recorded n.nodeOffset = true
  masked : S.isMasked n.nodeOffset = true
  source : n.nodeOffset < S.numCheckpointedNodes ∨ S.Seeded n.nodeOffset

/-- The invariant of the queues; `m` bounds what the loop has still to do. -/
structure Inv (m : Nat) (s : SearchQueues D) : Prop where
  nodup : (s.results.map NodeWithDistance.nodeOffset).Nodup
  visited : ∀ n ∈ s.results, n.nodeOffset ∈ s.visited
  found : ∀ n ∈ s.results, S.Found n
  work : S.unvisited s.visited + s.candidates.length ≤ m

variable {S} {m : Nat} {s : SearchQueues D} {x : Nat}

theorem Inv.visit (h : S.Inv m s) (x : Nat) : S.Inv m { s with visited := x :: s.visited } where
  nodup := h.nodup
  visited := fun n hn => mem_cons_of_mem x (h.visited n hn)
  found := h.found
  work := by
    have hwork := h.work
    have hle := S.unvisited_cons_le s.visited x
    show S.unvisited (x :: s.visited) + s.candidates.length ≤ m
    omega

theorem Inv.push (h : S.Inv m s) {results : List (NodeWithDistance D)}
    (hresults : results.Subperm s.results) (hlt : x < S.numCheckpointedNodes) (hx : x ∉ s.visited)
    (hrecorded : S.rows.recorded x = true) (hmasked : S.isMasked x = true) :
    S.Inv m { candidates := s.candidates ++ [S.node x]
              results := results ++ [S.node x]
              visited := x :: s.visited } where
  nodup := by
    rw [map_append, nodup_append]
    refine ⟨nodup_map_of_subperm hresults h.nodup, nodup_singleton _, ?_⟩
    intro a ha b hb heq
    obtain ⟨n, hn, rfl⟩ := mem_map.mp ha
    have hb' : b = x := mem_singleton.mp hb
    apply hx
    rw [← hb', ← heq]
    exact h.visited n (hresults.subset hn)
  visited := by
    intro n hn
    rcases mem_append.mp hn with hold | hnew
    · exact mem_cons_of_mem x (h.visited n (hresults.subset hold))
    · rw [mem_singleton.mp hnew]
      exact mem_cons_self
  found := by
    intro n hn
    rcases mem_append.mp hn with hold | hnew
    · exact h.found n (hresults.subset hold)
    · rw [mem_singleton.mp hnew]
      exact ⟨rfl, hrecorded, hmasked, .inl hlt⟩
  work := by
    have hwork := h.work
    have hless := S.unvisited_cons_lt hlt hx
    show S.unvisited (x :: s.visited) + (s.candidates ++ [S.node x]).length ≤ m
    rw [length_append, length_singleton]
    omega

theorem Inv.process (h : S.Inv m s) (hlt : x < S.numCheckpointedNodes) (hx : x ∉ s.visited)
    (hmasked : S.isMasked x = true) : S.Inv m (S.processNbrNodeInKNNSearch s x) := by
  unfold processNbrNodeInKNNSearch
  split
  · exact h.visit x
  next hrecorded =>
    have hrecorded' : S.rows.recorded x = true := by simpa using hrecorded
    split
    · apply h.push _ hlt hx hrecorded' hmasked
      split
      · exact S.ordering.popMax_subperm s.results
      · exact Subperm.refl _
    · exact h.visit x

theorem Inv.processUnvisited (h : S.Inv m s) (hlt : x < S.numCheckpointedNodes) :
    S.Inv m (S.processUnvisitedMasked s x) := by
  unfold processUnvisitedMasked
  split
  next hnew =>
    rw [Bool.and_eq_true, decide_eq_true_iff] at hnew
    exact h.process hlt hnew.1 hnew.2
  · exact h

variable {nbrs : List Nat} (hnbrs : ∀ w ∈ nbrs, w < S.numCheckpointedNodes)

include hnbrs

theorem Inv.oneHop (h : S.Inv m s) : S.Inv m (S.oneHopSearch nbrs s) := by
  apply foldlRecOn (motive := fun s => S.Inv m s)
  · exact h
  · intro s hs w hw
    exact hs.processUnvisited (hnbrs w hw)

theorem Inv.directed (h : S.Inv m s) : S.Inv m (S.collectFirstHopNbrsDirected nbrs s).1 := by
  apply foldlRecOn
    (motive := fun t : SearchQueues D × List (NodeWithDistance D) × Int => S.Inv m t.1)
  · exact h
  · intro t ht w hw
    unfold collectDirected
    dsimp only
    split
    next hnew =>
      rw [Bool.and_eq_true, decide_eq_true_iff] at hnew
      split
      next hpush =>
        rw [Bool.and_eq_true] at hpush
        apply ht.push _ (hnbrs w hw) hnew.1 hnew.2 hpush.1
        split
        · exact S.ordering.popMax_subperm _
        · exact Subperm.refl _
      · exact ht
    · exact ht

theorem Inv.blind (h : S.Inv m s) : S.Inv m (S.collectFirstHopNbrsBlind nbrs s).1 := by
  apply foldlRecOn (motive := fun t : SearchQueues D × List Nat × Int => S.Inv m t.1)
  · exact h
  · intro t ht w hw
    unfold collectBlind
    dsimp only
    split
    · exact ht
    next hnew =>
      split
      next hmasked => exact ht.process (hnbrs w hw) hnew hmasked
      · exact ht

variable {t : SearchQueues D × Int} {entryNode : Nat}

theorem Inv.secondHopChunk (h : S.Inv m t.1) : S.Inv m (S.secondHopChunk nbrs t).1 := by
  induction nbrs generalizing t with
  | nil => exact h
  | cons w nbrs ih =>
    have hw := hnbrs w mem_cons_self
    have hrest : ∀ v ∈ nbrs, v < S.numCheckpointedNodes := fun v hv =>
      hnbrs v (mem_cons_of_mem w hv)
    unfold HNSWSearch.secondHopChunk
    split
    next hnew =>
      rw [Bool.and_eq_true, decide_eq_true_iff] at hnew
      have hprocess := Inv.process h hw hnew.1 hnew.2
      split
      · exact hprocess
      · exact ih hrest hprocess
    · exact ih hrest h

omit hnbrs in
theorem Inv.secondHopChunks {chunks : List (List Nat)}
    (hchunks : ∀ w ∈ chunks.flatten, w < S.numCheckpointedNodes) (h : S.Inv m t.1) :
    S.Inv m (S.secondHopChunks chunks t).2.1 := by
  induction chunks generalizing t with
  | nil => exact h
  | cons chunk chunks ih =>
    unfold HNSWSearch.secondHopChunks
    split
    · exact h
    · apply ih
      · intro w hw
        exact hchunks w (mem_append_right _ hw)
      · apply Inv.secondHopChunk _ h
        intro w hw
        exact hchunks w (mem_append_left _ hw)

omit hnbrs in
theorem Inv.secondHop {cands : List Nat} (h : S.Inv m t.1) :
    S.Inv m (S.processSecondHopCandidates cands t) := by
  induction cands generalizing t with
  | nil => exact h
  | cons cand cands ih =>
    have hover : S.Inv m (S.searchOverSecondHopNbrs t cand).2.1 := by
      unfold searchOverSecondHopNbrs
      split
      · exact h
      · split
        · exact h
        · exact Inv.secondHopChunks (S.layers.lower_lt cand) (h.visit cand)
    unfold processSecondHopCandidates
    split
    next t' heq =>
      rw [heq] at hover
      exact hover
    next t' heq =>
      rw [heq] at hover
      exact ih hover

theorem Inv.directedTwoHop (h : S.Inv m s) : S.Inv m (S.directedTwoHopFilteredSearch nbrs s) :=
  Inv.secondHop (h.directed hnbrs)

theorem Inv.blindTwoHop (h : S.Inv m s) : S.Inv m (S.blindTwoHopFilteredSearch nbrs s) :=
  Inv.secondHop (h.blind hnbrs)

theorem collectFirstHopNbrs_lt : ∀ w ∈ collectFirstHopNbrs nbrs s, w < S.numCheckpointedNodes :=
  fun w hw => hnbrs w (mem_filter.mp hw).1

theorem Inv.navix (h : S.Inv m s) : S.Inv m (S.navixFilteredSearch nbrs s) := by
  have hfirst := collectFirstHopNbrs_lt (s := s) hnbrs
  unfold navixFilteredSearch
  dsimp only
  split
  · exact h
  · split
    · exact h.oneHop hfirst
    · split
      · exact h.directedTwoHop hfirst
      · exact h.blindTwoHop hfirst

theorem Inv.randomNbrs {t : SearchQueues D × List Nat} (h : S.Inv m t.1) :
    S.Inv m (nbrs.foldl S.randomNbr t).1 := by
  apply foldlRecOn (motive := fun t : SearchQueues D × List Nat => S.Inv m t.1)
  · exact h
  · intro t ht w hw
    exact ht.processUnvisited (hnbrs w hw)

omit hnbrs in
theorem Inv.randomExplore {numFirstHopNbrs : Nat} {nbrs : List Nat}
    {t : SearchQueues D × List Nat} (h : S.Inv m t.1) :
    S.Inv m (S.randomExplore numFirstHopNbrs nbrs t) := by
  induction nbrs generalizing t with
  | nil => exact h
  | cons w nbrs ih =>
    unfold HNSWSearch.randomExplore
    split
    · exact h
    · split
      · exact ih h
      · apply ih
        exact Inv.randomNbrs (S.layers.lower_lt w) (h.visit w)

theorem Inv.random (h : S.Inv m s) : S.Inv m (S.randomFilteredSearch nbrs s) :=
  Inv.randomExplore (Inv.randomNbrs (collectFirstHopNbrs_lt (s := s) hnbrs) h)

theorem Inv.expand (h : S.Inv m s) : S.Inv m (S.expand nbrs s) := by
  unfold HNSWSearch.expand
  cases S.getFilteredSearchType with
  | unfiltered | oneHopFiltered => exact h.oneHop hnbrs
  | directedTwoHop => exact h.directedTwoHop hnbrs
  | blindTwoHop => exact h.blindTwoHop hnbrs
  | navixFiltered => exact h.navix hnbrs
  | randomFiltered => exact h.random hnbrs

omit hnbrs

theorem searchRound_spec {S : HNSWSearch D} {m : Nat} {s : SearchQueues D} (h : S.Inv m s)
    (hcond : S.hasCandidate s = true) :
    ∃ s', S.searchRound s = some s' ∧ S.Inv (m - 1) s' ∧ 0 < m := by
  unfold hasCandidate at hcond
  unfold searchRound
  cases htop : S.ordering.topMin? s.candidates with
  | none =>
    rw [htop] at hcond
    cases hcond
  | some c =>
    refine ⟨_, rfl, ?_⟩
    have hlen := (S.ordering.perm_popMin htop).length_eq
    rw [length_cons] at hlen
    have hwork := h.work
    refine ⟨Inv.expand (S.layers.lower_lt c.nodeOffset) ?_, by omega⟩
    exact
      { h with
        work := by
          show S.unvisited s.visited + (S.ordering.popMin s.candidates).length ≤ m - 1
          omega }

theorem searchLoop_halts {S : HNSWSearch D} {m : Nat} {s : SearchQueues D} (h : S.Inv m s) :
    ∃ s', Halts (fun f => whileLoop S.hasCandidate S.searchRound f s) s' ∧ ∃ m', S.Inv m' s' := by
  obtain ⟨s', hhalts, hinv, _⟩ := while_halts S.hasCandidate (fun _ => S.searchRound)
    (measure fun s : SearchQueues D => S.unvisited s.visited + s.candidates.length).wf
    (fun s => ∃ m, S.Inv m s)
    (fun s hinv hcond => by
      obtain ⟨m, hm⟩ := hinv
      -- what the round leaves to do is less than what there was
      have htight : S.Inv (S.unvisited s.visited + s.candidates.length) s :=
        ⟨hm.nodup, hm.visited, hm.found, le_rfl⟩
      obtain ⟨s', hs', hinv', hpos⟩ := searchRound_spec htight hcond
      have hwork := hinv'.work
      refine ⟨s', ⟨0, fun _ _ => hs'⟩, ⟨_, hinv'⟩, ?_⟩
      show S.unvisited s'.visited + s'.candidates.length <
        S.unvisited s.visited + s.candidates.length
      omega)
    ⟨m, h⟩
  exact ⟨s', hhalts, hinv⟩

theorem Inv.weaken {S : HNSWSearch D} {m m' : Nat} {s : SearchQueues D} (h : S.Inv m s)
    (hle : m ≤ m') : S.Inv m' s := ⟨h.nodup, h.visited, h.found, h.work.trans hle⟩

theorem initQueues_inv (S : HNSWSearch D) (hentry : entryNode < S.numCheckpointedNodes) :
    S.Inv (S.numCheckpointedNodes + 1) (S.initQueues entryNode) := by
  have hcard : S.unvisited [entryNode] ≤ S.numCheckpointedNodes := by
    have hle := Finset.card_filter_le (Finset.range S.numCheckpointedNodes) (· ∉ [entryNode])
    rw [Finset.card_range] at hle
    exact hle
  unfold initQueues
  split
  next hrecorded =>
    split
    next hmasked =>
      exact
        { nodup := nodup_singleton _
          visited := fun n hn => by
            rw [mem_singleton.mp hn]
            exact mem_cons_self
          found := fun n hn => by
            rw [mem_singleton.mp hn]
            exact ⟨rfl, hrecorded, hmasked, .inl hentry⟩
          work := Nat.add_le_add_right hcard 1 }
    · exact ⟨nodup_nil, fun n hn => (not_mem_nil hn).elim,
        fun n hn => (not_mem_nil hn).elim, Nat.add_le_add_right hcard 1⟩
  · exact ⟨nodup_nil, fun n hn => (not_mem_nil hn).elim,
      fun n hn => (not_mem_nil hn).elim, Nat.add_le_add_right hcard 1⟩

theorem initQueues_results_length (S : HNSWSearch D) (entryNode : Nat) :
    (S.initQueues entryNode).results.length =
      if S.rows.recorded entryNode && S.isMasked entryNode then 1 else 0 := by
  unfold initQueues
  cases hrecorded : S.rows.recorded entryNode with
  | false => rfl
  | true => cases hmasked : S.isMasked entryNode <;> simp

theorem Inv.seed {S : HNSWSearch D} {m : Nat} {s : SearchQueues D} {x : Nat} (h : S.Inv m s)
    (hmasked : S.isMasked x = true) (hseeded : S.Seeded x) : S.Inv (m + 1) (S.seed s x) := by
  have hle := S.unvisited_cons_le s.visited x
  have hwork := h.work
  unfold HNSWSearch.seed
  split
  · exact h.weaken (Nat.le_succ m)
  next hnew =>
    split
    · exact (h.visit x).weaken (Nat.le_succ m)
    next hrecorded =>
      have hrecorded' : S.rows.recorded x = true := by simpa using hrecorded
      exact
        { nodup := by
            rw [map_append, nodup_append]
            refine ⟨h.nodup, nodup_singleton _, ?_⟩
            intro a ha b hb heq
            obtain ⟨n, hn, rfl⟩ := mem_map.mp ha
            have hb' : b = x := mem_singleton.mp hb
            apply hnew
            rw [← hb', ← heq]
            exact h.visited n hn
          visited := by
            intro n hn
            rcases mem_append.mp hn with hold | hlast
            · exact mem_cons_of_mem x (h.visited n hold)
            · rw [mem_singleton.mp hlast]
              exact mem_cons_self
          found := by
            intro n hn
            rcases mem_append.mp hn with hold | hlast
            · exact h.found n hold
            · rw [mem_singleton.mp hlast]
              exact ⟨rfl, hrecorded', hmasked, .inr hseeded⟩
          work := by
            show S.unvisited (x :: s.visited) + (s.candidates ++ [S.node x]).length ≤ m + 1
            rw [length_append, length_singleton]
            omega }

theorem initSearchCandidates_inv (S : HNSWSearch D) (hentry : entryNode < S.numCheckpointedNodes) :
    ∃ m, S.Inv m (S.initSearchCandidates (S.initQueues entryNode)) := by
  have hstart := initQueues_inv S hentry
  unfold initSearchCandidates
  split
  · exact ⟨_, hstart⟩
  next mask hmask =>
    rw [initQueues_results_length]
    apply foldlRecOn (motive := fun s => ∃ m, S.Inv m s)
    · exact ⟨_, hstart⟩
    · intro s hs x hx
      obtain ⟨m, hm⟩ := hs
      refine ⟨m + 1, hm.seed ?_ ⟨mask, hmask, entryNode, hentry, hx⟩⟩
      unfold SearchedTable.isMasked
      rw [hmask]
      exact mask.collect_masked _ x hx

theorem popTopK_subperm (S : HNSWSearch D) (result : List (NodeWithDistance D)) (k : Nat) :
    (S.popTopK result k).Subperm result := by
  have hshrink := S.ordering.shrinkMax_subperm k result.length result
  have hlen := S.ordering.length_shrinkMax_le (k := k) (le_refl result.length)
  have hdrain := S.ordering.drainMax_perm hlen
  exact ((reverse_perm _).trans hdrain).subperm.trans hshrink

theorem popTopK_sorted (S : HNSWSearch D) (result : List (NodeWithDistance D)) (k : Nat) :
    (S.popTopK result k).Pairwise fun a b => a.distance ≤ b.distance :=
  pairwise_reverse.mpr (S.ordering.drainMax_sorted k _)

structure LayerResult (S : HNSWSearch D) (result : List (NodeWithDistance D)) : Prop where
  nodup : (result.map NodeWithDistance.nodeOffset).Nodup
  found : ∀ n ∈ result, S.Found n
  sorted : result.Pairwise fun a b => a.distance ≤ b.distance

theorem searchKNNInLayer_halts (S : HNSWSearch D) (hentry : entryNode < S.numCheckpointedNodes) :
    ∃ result, Halts (S.searchKNNInLayer entryNode) result ∧ S.LayerResult result := by
  obtain ⟨m, hm⟩ := initSearchCandidates_inv S hentry
  obtain ⟨s, hhalts, m', hinv⟩ := searchLoop_halts hm
  have hsub := popTopK_subperm S s.results S.query.k
  refine ⟨_, hhalts.map fun s => S.popTopK s.results S.query.k, ?_⟩
  exact
    { nodup := nodup_map_of_subperm hsub hinv.nodup
      found := fun n hn => hinv.found n (hsub.subset hn)
      sorted := popTopK_sorted S _ _ }

def nearerNodes (S : HNSWSearch D) (dist : D) : Finset Nat :=
  (Finset.range S.numCheckpointedNodes).filter (S.query.metricFunc · < dist)

theorem nearestRound_spec (S : HNSWSearch D) {t : NearestState D}
    (h : t.currentNodeOffset < S.numCheckpointedNodes) :
    (S.nearestRound t).currentNodeOffset < S.numCheckpointedNodes ∧
      (S.nearestRound t).lastMinDist = t.minDist ∧
      ((S.nearestRound t).minDist = t.minDist ∨ (S.nearestRound t).minDist < t.minDist ∧
          ∃ v < S.numCheckpointedNodes, S.query.metricFunc v = (S.nearestRound t).minDist) := by
  apply foldlRecOn (motive := fun t' : NearestState D =>
    t'.currentNodeOffset < S.numCheckpointedNodes ∧ t'.lastMinDist = t.minDist ∧
      (t'.minDist = t.minDist ∨ t'.minDist < t.minDist ∧
        ∃ v < S.numCheckpointedNodes, S.query.metricFunc v = t'.minDist))
  · exact ⟨h, rfl, .inl rfl⟩
  · intro t' ht' w hw
    have hlt := S.layers.upper_lt t.currentNodeOffset w hw
    unfold nearerNbr
    split
    next hnear =>
      rw [Bool.and_eq_true, decide_eq_true_iff] at hnear
      refine ⟨hlt, ht'.2.1, .inr ⟨?_, w, hlt, rfl⟩⟩
      rcases ht'.2.2 with heq | hless
      · rw [← heq]
        exact hnear.2
      · exact lt_trans hnear.2 hless.1
    · exact ht'

theorem searchNNInUpperLayer_halts (S : HNSWSearch D) :
    ∃ entry : Option Nat, Halts S.searchNNInUpperLayer entry ∧
      ∀ o ∈ entry, o < S.numCheckpointedNodes := by
  unfold searchNNInUpperLayer
  cases hentry : S.layers.upperEntryPoint with
  | none => exact ⟨none, halts_const none, fun o ho => by cases ho⟩
  | some entry =>
    let bound (t : NearestState D) : Nat :=
      2 * (S.nearerNodes t.minDist).card + if t.minDist < t.lastMinDist then 1 else 0
    obtain ⟨t, hhalts, hlt, _⟩ := while_halts
      (fun t : NearestState D => decide (t.minDist < t.lastMinDist))
      (fun _ t => some (S.nearestRound t)) (measure bound).wf
      (fun t => t.currentNodeOffset < S.numCheckpointedNodes)
      (fun t ht hcond => by
        obtain ⟨hcur, hlast, hmin⟩ := nearestRound_spec S ht
        refine ⟨S.nearestRound t, halts_const _, hcur, ?_⟩
        have hcond' : t.minDist < t.lastMinDist := of_decide_eq_true hcond
        show 2 * (S.nearerNodes (S.nearestRound t).minDist).card +
            (if (S.nearestRound t).minDist < (S.nearestRound t).lastMinDist then 1 else 0) <
          2 * (S.nearerNodes t.minDist).card + if t.minDist < t.lastMinDist then 1 else 0
        rw [if_pos hcond', hlast]
        rcases hmin with heq | ⟨hless, v, hv, hdist⟩
        · rw [heq, if_neg (lt_irrefl _)]
          omega
        · have hcard : (S.nearerNodes (S.nearestRound t).minDist).card <
              (S.nearerNodes t.minDist).card := by
            apply Finset.card_lt_card
            rw [Finset.ssubset_iff_of_subset]
            · refine ⟨v, Finset.mem_filter.mpr ⟨Finset.mem_range.mpr hv, hdist ▸ hless⟩, ?_⟩
              intro hin
              exact absurd (Finset.mem_filter.mp hin).2 (hdist ▸ lt_irrefl _)
            · intro o ho
              have ho' := Finset.mem_filter.mp ho
              exact Finset.mem_filter.mpr ⟨ho'.1, lt_trans ho'.2 hless⟩
          rw [if_pos hless]
          omega)
      (s := ⟨entry, if S.rows.recorded entry then S.query.metricFunc entry else 0, ⊤⟩)
      (S.layers.upperEntry_lt entry hentry)
    refine ⟨some t.currentNodeOffset, hhalts.map _, ?_⟩
    intro o ho
    cases ho
    exact hlt

theorem searchFromCheckpointed_halts (S : HNSWSearch D) :
    ∃ result, Halts S.searchFromCheckpointed result ∧ S.LayerResult result := by
  obtain ⟨entry, hhalts, hentry⟩ := searchNNInUpperLayer_halts S
  have hlt : ∀ o ∈ entry.or S.layers.lowerEntryPoint, o < S.numCheckpointedNodes := by
    intro o ho
    cases entry with
    | none => exact S.layers.lowerEntry_lt o ho
    | some e => exact hentry o ho
  cases hpoint : entry.or S.layers.lowerEntryPoint with
  | none =>
    refine ⟨[], hhalts.bind ?_, nodup_nil, fun n hn => (not_mem_nil hn).elim, List.Pairwise.nil⟩
    rw [hpoint]
    exact halts_const []
  | some e =>
    obtain ⟨result, hsearch, hresult⟩ := searchKNNInLayer_halts S (hlt e hpoint)
    refine ⟨result, hhalts.bind ?_, hresult⟩
    rw [hpoint]
    exact hsearch

end HNSWSearch

end Ladybug.Vector
