import Ladybug.Algo.Louvain
import Mathlib.Algebra.BigOperators.Group.Finset.Basic

/-!
# The start and the end of a phase

How the two builders fill a phase, and what renumbering makes of its communities.
-/

namespace Ladybug.Louvain

open Algo Finset Function

def rowWeight (row : List Neighbor) : Weight := (row.map Neighbor.weight).sum

/-- A phase before its first iteration, over these lists of neighbours. -/
structure Starts (s : PhaseState) (n : Nat) (row : Nat → List Neighbor) : Prop where
  numNodes : s.graph.numNodes = n
  nbrs : ∀ u < n, s.graph.nbrs u = row u
  degrees : ∀ u < n, s.nodeWeightedDegrees u = rowWeight (row u)
  infos : ∀ u < n, s.currCommInfos u = ⟨1, rowWeight (row u)⟩
  accepted : ∀ u < n, s.acceptedComm u = u
  curr : ∀ u < n, s.currComm u = u
  total : s.totalWeight = ∑ u ∈ range n, rowWeight (row u)

variable (s : PhaseState) (u : Nat)

theorem foldl_insertNbr_eq (row : List Neighbor) :
    row.foldl (fun s nbr => s.insertNbr u nbr.neighbor nbr.weight) s = { s with
        graph := row.foldl (fun g nbr => g.insertNbr nbr.neighbor nbr.weight) s.graph
        nodeWeightedDegrees := Function.update s.nodeWeightedDegrees u
          (s.nodeWeightedDegrees u + rowWeight row)
        currCommInfos := Function.update s.currCommInfos u
          ⟨(s.currCommInfos u).size, (s.currCommInfos u).degree + rowWeight row⟩
        totalWeight := s.totalWeight + rowWeight row } := by
  induction row generalizing s with
  | nil =>
    unfold rowWeight
    simp
  | cons nbr row ih =>
    have hsum : rowWeight (nbr :: row) = nbr.weight + rowWeight row := by
      unfold rowWeight
      rw [List.map_cons, List.sum_cons]
    rw [List.foldl_cons, ih, hsum]
    unfold PhaseState.insertNbr
    simp only [update_idem, update_self, List.foldl_cons, add_assoc]

theorem insertNode_eq (row : List Neighbor) : s.insertNode u row = { s with
        graph := s.graph.insertNode row
        nodeWeightedDegrees := Function.update s.nodeWeightedDegrees u
          (s.nodeWeightedDegrees u + rowWeight row)
        currCommInfos := Function.update s.currCommInfos u ⟨1, rowWeight row⟩
        acceptedComm := Function.update s.acceptedComm u u
        currComm := Function.update s.currComm u u
        totalWeight := s.totalWeight + rowWeight row } := by
  unfold PhaseState.insertNode
  rw [foldl_insertNbr_eq]
  unfold PhaseState.initNextNode InMemGraph.insertNode
  simp only [update_idem, update_self, zero_add]

/-- The first `n` nodes are in. -/
structure Filled (s : PhaseState) (n : Nat) (row : Nat → List Neighbor) : Prop where
  holds : s.graph.Holds ((List.range n).map row)
  degrees : ∀ u, s.nodeWeightedDegrees u = if u < n then rowWeight (row u) else 0
  infos : ∀ u < n, s.currCommInfos u = ⟨1, rowWeight (row u)⟩
  accepted : ∀ u < n, s.acceptedComm u = u
  curr : ∀ u < n, s.currComm u = u
  total : s.totalWeight = ∑ u ∈ range n, rowWeight (row u)

theorem Filled.next {s : PhaseState} {n : Nat} {row : Nat → List Neighbor} (h : Filled s n row) :
    Filled (s.insertNode n (row n)) (n + 1) row := by
  rw [insertNode_eq]
  -- the entry of the new node is written, the others stay
  have hupdate : ∀ {β : Type} {f : Nat → β} {g : Nat → β}, (∀ u < n, f u = g u) →
      ∀ u < n + 1, Function.update f n (g n) u = g u := by
    intro β f g hfg u hu
    by_cases hun : u = n
    · rw [hun, update_self]
    · rw [update_of_ne hun]
      exact hfg u (by omega)
  constructor
  · rw [List.range_succ, List.map_append]
    exact h.holds.insertNode (row n)
  · intro u
    show Function.update s.nodeWeightedDegrees n _ u = _
    by_cases hun : u = n
    · rw [hun, update_self, h.degrees, if_neg (by omega), zero_add, if_pos (by omega)]
    · rw [update_of_ne hun, h.degrees]
      by_cases hlt : u < n
      · rw [if_pos hlt, if_pos (by omega)]
      · rw [if_neg hlt, if_neg (by omega)]
  · exact hupdate (g := fun u => (⟨1, rowWeight (row u)⟩ : CommInfo)) h.infos
  · exact hupdate (g := fun u => u) h.accepted
  · exact hupdate (g := fun u => u) h.curr
  · rw [sum_range_succ, ← h.total]

theorem insertNode_numNodes (row : List Neighbor) :
    (s.insertNode u row).graph.numNodes = s.graph.numNodes := by
  rw [insertNode_eq, InMemGraph.insertNode_eq]

theorem filled_range (numNodes n : Nat) (row : Nat → List Neighbor) :
    Filled ((List.range n).foldl (fun s u => s.insertNode u (row u)) (s.reinit numNodes)) n row ∧
      ((List.range n).foldl (fun s u => s.insertNode u (row u))
        (s.reinit numNodes)).graph.numNodes = numNodes := by
  induction n with
  | zero =>
    refine ⟨⟨InMemGraph.reinit_holds numNodes, ?_, ?_, ?_, ?_, rfl⟩, rfl⟩
    · intro u
      rfl
    all_goals exact fun u hu => absurd hu (Nat.not_lt_zero u)
  | succ n ih =>
    rw [List.range_succ, List.foldl_append]
    refine ⟨ih.1.next, ?_⟩
    show (PhaseState.insertNode _ n (row n)).graph.numNodes = numNodes
    rw [insertNode_numNodes]
    exact ih.2

theorem Filled.starts {s : PhaseState} {n : Nat} {row : Nat → List Neighbor} (h : Filled s n row)
    (hn : s.graph.numNodes = n) : Starts s.finalize n row := by
  have hrows := h.holds.finalize
  constructor
  · exact hn
  · intro u hu
    show (CompressedRows.mk s.graph.initNextNode.csrOffsets s.graph.initNextNode.csrEdges).row u = _
    rw [hrows.1, hrows.2]
    exact compress_map_row row hu
  · intro u hu
    show s.nodeWeightedDegrees u = _
    rw [h.degrees, if_pos hu]
  · exact h.infos
  · exact h.accepted
  · exact h.curr
  · exact h.total

theorem starts_of_range (n : Nat) (row : Nat → List Neighbor) :
    Starts ((List.range n).foldl (fun s u => s.insertNode u (row u)) (s.reinit n)).finalize n row :=
  (filled_range s n n row).1.starts (filled_range s n n row).2

theorem initInMemoryGraph_starts {g : StoredGraph} {fuel : Nat} {s : PhaseState}
    (h : initInMemoryGraph g fuel = some s) :
    g.numNodes < 2 ^ 32 ∧ Starts s g.numNodes (initialRow g) := by
  obtain ⟨s₀, hloop, hs⟩ := Option.map_eq_some_iff.mp h
  obtain ⟨hlt, hs₀⟩ :=
    forU32_eq_foldl (f := fun u (s : PhaseState) => s.insertNode u (initialRow g u)) hloop
  rw [← hs, hs₀]
  exact ⟨hlt, starts_of_range _ g.numNodes (initialRow g)⟩

/-- The classes of `a` under consecutive numbers. -/
structure Renumbered (a : Nat → Nat) (n k : Nat) (a' : Nat → Nat) : Prop where
  le : k ≤ n
  unassigned : ∀ v < n, a v = UNASSIGNED_COMM → a' v = UNASSIGNED_COMM
  lt : ∀ v < n, a v ≠ UNASSIGNED_COMM → a' v < k
  same : ∀ u < n, ∀ v < n, a u ≠ UNASSIGNED_COMM → a v ≠ UNASSIGNED_COMM → (a' u = a' v ↔ a u = a v)
  used : ∀ i < k, ∃ v < n, a v ≠ UNASSIGNED_COMM ∧ a' v = i

/-- The first `n` nodes have been visited. -/
structure RenumberInv (a : Nat → Nat) (n : Nat) (r : Renumbering) : Prop where
  le : r.nextCommId ≤ n
  rest : ∀ v, n ≤ v → r.acceptedComm v = a v
  unassigned : ∀ v < n, a v = UNASSIGNED_COMM → r.acceptedComm v = UNASSIGNED_COMM
  assigned : ∀ v < n, a v ≠ UNASSIGNED_COMM → r.map.lookup (a v) = some (r.acceptedComm v)
  lt : ∀ c i, r.map.lookup c = some i → i < r.nextCommId
  inj : ∀ c d i, r.map.lookup c = some i → r.map.lookup d = some i → c = d
  used : ∀ i < r.nextCommId, ∃ v < n, a v ≠ UNASSIGNED_COMM ∧ r.acceptedComm v = i

theorem RenumberInv.start (a : Nat → Nat) : RenumberInv a 0 ⟨a, ∅, 0⟩ where
  le := Nat.le_refl 0
  rest _ _ := rfl
  unassigned _ h := absurd h (Nat.not_lt_zero _)
  assigned _ h := absurd h (Nat.not_lt_zero _)
  lt _ _ h := by cases h
  inj _ _ _ h := by cases h
  used _ h := absurd h (Nat.not_lt_zero _)

theorem RenumberInv.next {a : Nat → Nat} {n : Nat} {r : Renumbering} (h : RenumberInv a n r) :
    RenumberInv a (n + 1) (renumberNode r n) := by
  have hn : r.acceptedComm n = a n := h.rest n le_rfl
  unfold renumberNode
  rw [hn]
  by_cases hua : a n = UNASSIGNED_COMM
  · rw [if_pos hua]
    refine ⟨Nat.le_succ_of_le h.le, fun v hv => h.rest v (by omega), ?_, ?_, h.lt, h.inj, ?_⟩
    · intro v hv hav
      rcases Nat.lt_succ_iff_lt_or_eq.mp hv with hlt | heq
      · exact h.unassigned v hlt hav
      · rw [heq, hn, hua]
    · intro v hv hav
      rcases Nat.lt_succ_iff_lt_or_eq.mp hv with hlt | heq
      · exact h.assigned v hlt hav
      · exact absurd (heq ▸ hua) hav
    · intro i hi
      obtain ⟨v, hv, hav, hi⟩ := h.used i hi
      exact ⟨v, by omega, hav, hi⟩
  · rw [if_neg hua]
    have hself : ∀ i, Function.update r.acceptedComm n i n = i := by
      intro i
      exact update_self _ _ _
    -- the nodes before `n` keep their entries
    have hne : ∀ v < n, ∀ i, Function.update r.acceptedComm n i v = r.acceptedComm v := by
      intro v hv i
      exact update_of_ne (by omega) _ _
    have hrest : ∀ i v, n + 1 ≤ v → Function.update r.acceptedComm n i v = a v := by
      intro i v hv
      rw [update_of_ne (by omega)]
      exact h.rest v (by omega)
    split
    · rename_i newId hlookup
      refine ⟨Nat.le_succ_of_le h.le, hrest newId, ?_, ?_, h.lt, h.inj, ?_⟩
      · intro v hv hav
        rcases Nat.lt_succ_iff_lt_or_eq.mp hv with hlt | heq
        · exact (hne v hlt newId).trans (h.unassigned v hlt hav)
        · exact absurd (heq ▸ hav) hua
      · intro v hv hav
        rcases Nat.lt_succ_iff_lt_or_eq.mp hv with hlt | heq
        · exact (h.assigned v hlt hav).trans (congrArg some (hne v hlt newId).symm)
        · rw [heq]
          exact hlookup.trans (congrArg some (hself newId).symm)
      · intro i hi
        obtain ⟨v, hv, hav, hi⟩ := h.used i hi
        exact ⟨v, by omega, hav, (hne v hv newId).trans hi⟩
    · rename_i hlookup
      have hold : ∀ c i, r.map.lookup c = some i → c ≠ a n := by
        intro c i hc heq
        rw [heq, hlookup] at hc
        cases hc
      have hcases : ∀ c i, (r.map.insert (a n) r.nextCommId).lookup c = some i →
          (c = a n ∧ i = r.nextCommId) ∨ r.map.lookup c = some i := by
        intro c i hc
        by_cases heq : c = a n
        · rw [heq, AList.lookup_insert] at hc
          exact .inl ⟨heq, (Option.some.inj hc).symm⟩
        · rw [AList.lookup_insert_ne heq] at hc
          exact .inr hc
      refine ⟨Nat.succ_le_succ h.le, hrest r.nextCommId, ?_, ?_, ?_, ?_, ?_⟩
      · intro v hv hav
        rcases Nat.lt_succ_iff_lt_or_eq.mp hv with hlt | heq
        · exact (hne v hlt r.nextCommId).trans (h.unassigned v hlt hav)
        · exact absurd (heq ▸ hav) hua
      · intro v hv hav
        rcases Nat.lt_succ_iff_lt_or_eq.mp hv with hlt | heq
        · have hlook := h.assigned v hlt hav
          rw [AList.lookup_insert_ne (hold _ _ hlook), hlook]
          exact congrArg some (hne v hlt r.nextCommId).symm
        · rw [heq]
          rw [AList.lookup_insert]
          exact congrArg some (hself r.nextCommId).symm
      · intro c i hc
        show i < r.nextCommId + 1
        rcases hcases c i hc with heq | hc
        · omega
        · exact Nat.lt_succ_of_lt (h.lt c i hc)
      · intro c d i hc hd
        rcases hcases c i hc with hcn | hc
        · rcases hcases d i hd with hdn | hd
          · rw [hcn.1, hdn.1]
          · have := h.lt d i hd
            omega
        · rcases hcases d i hd with hdn | hd
          · have := h.lt c i hc
            omega
          · exact h.inj c d i hc hd
      · intro i hi
        rcases Nat.lt_succ_iff_lt_or_eq.mp hi with hlt | heq
        · obtain ⟨v, hv, hav, hi⟩ := h.used i hlt
          exact ⟨v, by omega, hav, (hne v hv r.nextCommId).trans hi⟩
        · refine ⟨n, Nat.lt_succ_self n, hua, ?_⟩
          rw [heq]
          exact hself r.nextCommId

theorem RenumberInv.range (a : Nat → Nat) (n : Nat) :
    RenumberInv a n ((List.range n).foldl renumberNode ⟨a, ∅, 0⟩) := by
  induction n with
  | zero => exact RenumberInv.start a
  | succ n ih =>
    rw [List.range_succ, List.foldl_append]
    exact ih.next

theorem renumberCommunities_renumbered :
    Renumbered s.acceptedComm s.graph.numNodes (renumberCommunities s).1
      (renumberCommunities s).2.acceptedComm := by
  have h := RenumberInv.range s.acceptedComm s.graph.numNodes
  refine ⟨h.le, h.unassigned, ?_, ?_, h.used⟩
  · intro v hv hav
    exact h.lt _ _ (h.assigned v hv hav)
  · intro u hu v hv hau hav
    have hlu := h.assigned u hu hau
    have hlv := h.assigned v hv hav
    constructor
    · intro heq
      exact h.inj _ _ _ hlu (hlv.trans (congrArg some heq.symm))
    · intro heq
      rw [heq] at hlu
      exact Option.some.inj (hlu.symm.trans hlv)

end Ladybug.Louvain
