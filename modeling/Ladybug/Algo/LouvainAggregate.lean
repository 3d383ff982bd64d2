import Ladybug.Algo.LouvainPhase
import Ladybug.Base.WeightedGraphs

/-!
# From phase to phase

The communities of one phase become the nodes of the next: every edge between two communities is seen
from both ends and kept from one, every edge inside a community is kept from both, and the loops are
stored once.  All sums stay the same, and so does the modularity.
-/

namespace Ladybug.Louvain

open Algo Finset Function

/-! ## 1. Weights between nodes -/

def weightTo (row : List Neighbor) (v : Nat) : Weight :=
  Weighted.sumOf Neighbor.neighbor Neighbor.weight row v

def Joined (row : List Neighbor) (v : Nat) : Prop := ∃ e ∈ row, e.neighbor = v

/-- Both ends of an edge have it in their lists, with the same weight. -/
structure Symmetric (n : Nat) (row : Nat → List Neighbor) : Prop where
  lt : ∀ u < n, ∀ e ∈ row u, e.neighbor < n
  joined : ∀ u < n, ∀ v < n, Joined (row u) v → Joined (row v) u
  weight : ∀ u < n, ∀ v < n, weightTo (row u) v = weightTo (row v) u

variable {row : Nat → List Neighbor}

theorem rowWeight_eq_degree {n : Nat} (h : Symmetric n row) {u : Nat} (hu : u < n) :
    rowWeight (row u) = Weighted.degree n (fun u v => weightTo (row u) v) u :=
  Weighted.sum_all_keys (h.lt u hu)

theorem weightTo_nil (v : Nat) : weightTo [] v = 0 := rfl

theorem Symmetric.labels {n k : Nat} {f : Nat → Nat} (h : Symmetric n row)
    (hf : ∀ u < n, f u < k ∨ row u = []) :
    Weighted.Labels n (fun u v => weightTo (row u) v) f k := by
  intro u hu
  apply (hf u hu).imp_right
  intro hnil v hv
  constructor
  · show weightTo (row u) v = 0
    rw [hnil, weightTo_nil]
  · show weightTo (row v) u = 0
    rw [h.weight v hv u hu, hnil, weightTo_nil]

/-! ## 2. Aggregation -/

/-- The weight that the maps hold for a pair of communities. -/
def CommWeights.val (m : CommWeights) (c d : Nat) : Weight := ((m c).lookup d).getD 0

theorem CommWeights.val_add (m : CommWeights) (a b c d : Nat) (w : Weight) :
    (m.add a b w).val c d = m.val c d + if c = a ∧ d = b then w else 0 := by
  unfold CommWeights.val CommWeights.add
  by_cases hc : c = a
  · subst hc
    rw [update_self]
    by_cases hd : d = b
    · subst hd
      rw [AList.lookup_insert, if_pos ⟨rfl, rfl⟩]
      rfl
    · rw [AList.lookup_insert_ne hd, if_neg fun h => hd h.2, add_zero]
  · rw [update_of_ne hc, if_neg fun h => hc h.1, add_zero]

theorem CommWeights.mem_add (m : CommWeights) (a b c d : Nat) (w : Weight) :
    d ∈ (m.add a b w) c ↔ d ∈ m c ∨ (c = a ∧ d = b) := by
  unfold CommWeights.add
  by_cases hc : c = a
  · subst hc
    rw [update_self, AList.mem_insert, or_comm]
    simp
  · rw [update_of_ne hc]
    simp [hc]

/-- The entries for the pair (`c`, `d`) that an edge from `a` to `b` makes. -/
def Contributes (a b c d : Nat) : Prop := (b ≤ a ∧ c = a ∧ d = b) ∨ (b < a ∧ c = b ∧ d = a)

instance (a b c d : Nat) : Decidable (Contributes a b c d) :=
  inferInstanceAs (Decidable (_ ∨ _))

variable (s : PhaseState)

section

variable (u : Nat) (m : CommWeights)

include u m

theorem aggregateEdge_val (e : Neighbor) (c d : Nat) : (aggregateEdge s u m e).val c d = m.val c d +
      if Contributes (s.acceptedComm u) (s.acceptedComm e.neighbor) c d then e.weight else 0 := by
  unfold aggregateEdge
  by_cases hle : s.acceptedComm e.neighbor ≤ s.acceptedComm u
  · rw [if_pos hle]
    by_cases hne : s.acceptedComm u = s.acceptedComm e.neighbor
    · rw [if_neg (by simpa using hne), CommWeights.val_add]
      congr 1
      apply if_congr _ rfl rfl
      unfold Contributes
      omega
    · rw [if_pos hne, CommWeights.val_add, CommWeights.val_add, add_assoc]
      congr 1
      -- the two entries are for different pairs
      by_cases hfwd : c = s.acceptedComm u ∧ d = s.acceptedComm e.neighbor
      · rw [if_pos hfwd, if_neg (by omega), add_zero]
        exact (if_pos (.inl ⟨hle, hfwd⟩)).symm
      · rw [if_neg hfwd, zero_add]
        apply if_congr _ rfl rfl
        unfold Contributes
        omega
  · rw [if_neg hle, if_neg, add_zero]
    unfold Contributes
    omega

theorem aggregateEdge_mem (e : Neighbor) (c d : Nat) : d ∈ (aggregateEdge s u m e) c ↔ d ∈ m c ∨
      Contributes (s.acceptedComm u) (s.acceptedComm e.neighbor) c d := by
  unfold aggregateEdge Contributes
  by_cases hle : s.acceptedComm e.neighbor ≤ s.acceptedComm u
  · rw [if_pos hle]
    by_cases hne : s.acceptedComm u = s.acceptedComm e.neighbor
    · rw [if_neg (by simpa using hne), CommWeights.mem_add]
      apply or_congr_right
      omega
    · rw [if_pos hne, CommWeights.mem_add, CommWeights.mem_add, or_assoc]
      apply or_congr_right
      omega
  · rw [if_neg hle]
    constructor
    · exact .inl
    · intro h
      rcases h with h | h
      · exact h
      · omega

theorem aggregateNode_val (c d : Nat) :
    (aggregateNode s m u).val c d = m.val c d + ((s.graph.nbrs u).map fun e =>
      if Contributes (s.acceptedComm u) (s.acceptedComm e.neighbor) c d then e.weight else 0).sum := by
  unfold aggregateNode
  generalize s.graph.nbrs u = row
  induction row generalizing m with
  | nil => exact (add_zero _).symm
  | cons e row ih =>
    rw [List.foldl_cons, ih, aggregateEdge_val, List.map_cons, List.sum_cons, add_assoc]

theorem aggregateNode_mem (c d : Nat) :
    d ∈ (aggregateNode s m u) c ↔ d ∈ m c ∨ ∃ e ∈ s.graph.nbrs u,
      Contributes (s.acceptedComm u) (s.acceptedComm e.neighbor) c d := by
  unfold aggregateNode
  generalize s.graph.nbrs u = row
  induction row generalizing m with
  | nil => simp
  | cons e row ih =>
    rw [List.foldl_cons, ih, aggregateEdge_mem, or_assoc]
    simp

end

def allWeights (s : PhaseState) (n : Nat) : CommWeights :=
  (List.range n).foldl (aggregateNode s) fun _ => ∅

theorem allWeights_val (n c d : Nat) :
    (allWeights s n).val c d = ∑ u ∈ range n, ((s.graph.nbrs u).map fun e =>
      if Contributes (s.acceptedComm u) (s.acceptedComm e.neighbor) c d then e.weight else 0).sum := by
  unfold allWeights
  induction n with
  | zero => rfl
  | succ n ih =>
    rw [List.range_succ, List.foldl_append, sum_range_succ, ← ih]
    exact aggregateNode_val s n _ c d

theorem allWeights_mem (n c d : Nat) : d ∈ (allWeights s n) c ↔ ∃ u < n, ∃ e ∈ s.graph.nbrs u,
      Contributes (s.acceptedComm u) (s.acceptedComm e.neighbor) c d := by
  unfold allWeights
  induction n with
  | zero => simp
  | succ n ih =>
    rw [List.range_succ, List.foldl_append]
    show d ∈ (aggregateNode s _ n) c ↔ _
    rw [aggregateNode_mem, ih]
    constructor
    · rintro (⟨u, hu, h⟩ | h)
      · exact ⟨u, by omega, h⟩
      · exact ⟨n, Nat.lt_succ_self n, h⟩
    · rintro ⟨u, hu, h⟩
      rcases Nat.lt_succ_iff_lt_or_eq.mp hu with hlt | heq
      · exact .inl ⟨u, hlt, h⟩
      · exact .inr (heq ▸ h)

section

variable {s : PhaseState} {n : Nat}

theorem allWeights_quotient (h : Symmetric n s.graph.nbrs) (c d : Nat) : (allWeights s n).val c d =
      Weighted.quotient n (fun u v => weightTo (s.graph.nbrs u) v) s.acceptedComm c d := by
  rw [allWeights_val]
  have hrow : ∀ u ∈ range n, ((s.graph.nbrs u).map fun e =>
      if Contributes (s.acceptedComm u) (s.acceptedComm e.neighbor) c d then e.weight else 0).sum =
      ∑ v ∈ range n, if Contributes (s.acceptedComm u) (s.acceptedComm v) c d then
        weightTo (s.graph.nbrs u) v else 0 := by
    intro u hu
    rw [mem_range] at hu
    exact Weighted.sum_by_key Neighbor.weight
      (fun v => Contributes (s.acceptedComm u) (s.acceptedComm v) c d) (h.lt u hu)
  rw [sum_congr rfl hrow]
  by_cases hcd : d ≤ c
  · -- forward edges
    apply sum_congr rfl
    intro u _
    apply sum_congr rfl
    intro v _
    apply if_congr _ rfl rfl
    unfold Contributes
    omega
  · -- backward edges
    rw [Weighted.quotient_symm h.weight]
    apply sum_congr rfl
    intro u _
    apply sum_congr rfl
    intro v _
    apply if_congr _ rfl rfl
    unfold Contributes
    omega

theorem allWeights_joined (h : Symmetric n s.graph.nbrs) (c d : Nat) :
    d ∈ (allWeights s n) c ↔ ∃ u < n, ∃ v < n, s.acceptedComm u = c ∧ s.acceptedComm v = d ∧
      Joined (s.graph.nbrs u) v := by
  rw [allWeights_mem]
  constructor
  · rintro ⟨u, hu, e, he, hcontr⟩
    have hv := h.lt u hu e he
    have hjoined : Joined (s.graph.nbrs u) e.neighbor := ⟨e, he, rfl⟩
    rcases hcontr with ⟨-, hc, hd⟩ | ⟨-, hc, hd⟩
    · exact ⟨u, hu, e.neighbor, hv, hc.symm, hd.symm, hjoined⟩
    · exact ⟨e.neighbor, hv, u, hu, hc.symm, hd.symm, h.joined u hu _ hv hjoined⟩
  · rintro ⟨u, hu, v, hv, hc, hd, hjoined⟩
    by_cases hcd : d ≤ c
    · obtain ⟨e, he, hev⟩ := hjoined
      refine ⟨u, hu, e, he, .inl ?_⟩
      rw [hev]
      exact ⟨by omega, hc.symm, hd.symm⟩
    · obtain ⟨e, he, heu⟩ := h.joined u hu v hv hjoined
      refine ⟨v, hv, e, he, .inr ?_⟩
      rw [heu]
      exact ⟨by omega, hc.symm, hd.symm⟩

theorem sumOf_commRow {M : Type} [AddCommMonoid M] (o : Outcome) (m : CommWeights)
    (val : Weight → M) (c d : Nat) :
    Weighted.sumOf Neighbor.neighbor (fun e => val e.weight) (commRow o m c) d =
      (((m c).lookup d).map val).getD 0 := by
  rw [← Weighted.sumOf_entries]
  unfold Weighted.sumOf commRow
  rw [List.map_map]
  exact ((o.weightsOrder_perm (m c).entries).map _).sum_eq

variable (o : Outcome)

theorem weightTo_commRow (m : CommWeights) (c d : Nat) :
    weightTo (commRow o m c) d = m.val c d := by
  have h := sumOf_commRow o m id c d
  rw [Option.map_id_fun, id_eq] at h
  exact h

theorem joined_commRow (m : CommWeights) (c d : Nat) : Joined (commRow o m c) d ↔ d ∈ m c := by
  unfold Joined commRow
  show _ ↔ d ∈ (m c).entries.map Sigma.fst
  rw [← ((o.weightsOrder_perm (m c).entries).map Sigma.fst).mem_iff]
  simp

theorem aggregateCommunities_starts {o : Outcome} {k : Nat} {s' : PhaseState}
    (h : aggregateCommunities o k s = some s') :
    s.graph.numNodes < 2 ^ 32 ∧ k < 2 ^ 32 ∧
      Starts s' k (commRow o (allWeights s s.graph.numNodes)) := by
  obtain ⟨m, hm, hrest⟩ := Option.bind_eq_some_iff.mp h
  obtain ⟨s₀, hloop, hs⟩ := Option.map_eq_some_iff.mp hrest
  obtain ⟨hn, hm⟩ := forU32_eq_foldl (f := fun u m => aggregateNode s m u) hm
  obtain ⟨hk, hs₀⟩ := forU32_eq_foldl
    (f := fun u (s : PhaseState) => s.insertNode u (commRow o m u)) hloop
  refine ⟨hn, hk, ?_⟩
  rw [← hs, hs₀, hm]
  exact starts_of_range s k _

theorem aggregateCommunities_halts {k : Nat} (hn : s.graph.numNodes < 2 ^ 32) (hk : k < 2 ^ 32) :
    ∃ s', Halts (fun fuel => aggregateCommunities { o with fuel := fuel } k s) s' := by
  obtain ⟨m, hm, -⟩ := forU32_halts hn
    (fun _ nodeId m => some (aggregateNode s m nodeId.toNat)) (fun _ _ => True)
    (fun i m _ _ => ⟨_, halts_const (aggregateNode s m i.toNat), trivial⟩)
    (s := fun _ => (∅ : AList fun _ : Nat => Weight)) trivial
  obtain ⟨s', hs', -⟩ := forU32_halts hk (fun _ nodeId (s : PhaseState) =>
      some (s.insertNode nodeId.toNat (commRow o m nodeId.toNat))) (fun _ _ => True)
    (fun i s _ _ => ⟨_, halts_const (s.insertNode i.toNat (commRow o m i.toNat)), trivial⟩)
    (s := s.reinit k) trivial
  exact ⟨s'.finalize, hm.bind (hs'.map PhaseState.finalize)⟩

end

/-! ## 3. From phase to phase -/

structure PhaseGraph (s : PhaseState) : Prop where
  symmetric : Symmetric s.graph.numNodes s.graph.nbrs
  degrees : ∀ u < s.graph.numNodes, s.nodeWeightedDegrees u = rowWeight (s.graph.nbrs u)
  total : s.totalWeight = ∑ u ∈ range s.graph.numNodes, rowWeight (s.graph.nbrs u)

theorem Symmetric.congr {n : Nat} {row row' : Nat → List Neighbor} (h : Symmetric n row)
    (heq : ∀ u < n, row' u = row u) : Symmetric n row' := by
  constructor
  · intro u hu
    rw [heq u hu]
    exact h.lt u hu
  · intro u hu v hv
    rw [heq u hu, heq v hv]
    exact h.joined u hu v hv
  · intro u hu v hv
    rw [heq u hu, heq v hv]
    exact h.weight u hu v hv

theorem Starts.phaseGraph {s : PhaseState} {n : Nat} (h : Starts s n row) (hrow : Symmetric n row) :
    PhaseGraph s := by
  obtain rfl := h.numNodes
  constructor
  · exact hrow.congr h.nbrs
  · intro u hu
    rw [h.degrees u hu, h.nbrs u hu]
  · rw [h.total]
    apply sum_congr rfl
    intro u hu
    rw [h.nbrs u (mem_range.mp hu)]

variable (g : StoredGraph)

theorem count_gatherNbrs (u v : Nat) : (gatherNbrs g u).count v =
      g.rels.count (u, v) + if v = u then 0 else g.rels.count (v, u) := by
  have hfwd : (g.scanFwd u).count v = g.rels.count (u, v) := by
    rw [(g.fwd_perm u).count_eq]
    induction g.rels with
    | nil => rfl
    | cons r rels ih =>
      obtain ⟨a, b⟩ := r
      by_cases ha : a = u
      · simp [List.count_cons, ha, ih]
      · simp [ha, ih]
  have hbwd : (g.scanBwd u).count v = g.rels.count (v, u) := by
    rw [(g.bwd_perm u).count_eq]
    induction g.rels with
    | nil => rfl
    | cons r rels ih =>
      obtain ⟨a, b⟩ := r
      by_cases hb : b = u
      · simp [List.count_cons, hb, ih]
      · simp [hb, ih]
  unfold gatherNbrs
  rw [List.count_append, hfwd]
  congr 1
  by_cases hvu : v = u
  · rw [if_pos hvu, hvu]
    exact List.count_eq_zero.mpr (by simp)
  · rw [if_neg hvu, List.count_filter (by simpa using hvu), hbwd]

theorem weightTo_initialRow (u v : Nat) :
    weightTo (initialRow g u) v = (gatherNbrs g u).count v • defaultWeight := by
  unfold initialRow weightTo Weighted.sumOf
  rw [List.map_map]
  induction gatherNbrs g u with
  | nil => exact (zero_nsmul defaultWeight).symm
  | cons x l ih =>
    rw [List.map_cons, List.sum_cons, ih, List.count_cons, add_nsmul, add_comm]
    congr 1
    show (if x = v then defaultWeight else 0) = _
    by_cases hxv : x = v
    · rw [if_pos hxv, if_pos (by simpa using hxv), one_nsmul]
    · rw [if_neg hxv, if_neg (by simpa using hxv), zero_nsmul]

theorem initialRow_symmetric : Symmetric g.numNodes (initialRow g) := by
  have hjoined : ∀ u v, Joined (initialRow g u) v ↔ (u, v) ∈ g.rels ∨ (v, u) ∈ g.rels := by
    intro u v
    rw [← mem_gatherNbrs]
    unfold Joined initialRow
    simp
  constructor
  · intro u _ e he
    have hin := (hjoined u e.neighbor).mp ⟨e, he, rfl⟩
    rcases hin with hr | hr
    · exact (g.rels_lt _ hr).2
    · exact (g.rels_lt _ hr).1
  · intro u _ v _ huv
    exact (hjoined v u).mpr ((hjoined u v).mp huv).symm
  · intro u _ v _
    rw [weightTo_initialRow, weightTo_initialRow, count_gatherNbrs, count_gatherNbrs]
    by_cases huv : u = v
    · rw [huv]
    · rw [if_neg huv, if_neg (Ne.symm huv), add_comm]

section

variable {s s' : PhaseState} {k : Nat} {o : Outcome}

/-- Every node with an edge is in one of the first `k` communities. -/
def Numbered (s : PhaseState) (k : Nat) : Prop :=
  ∀ u < s.graph.numNodes, s.acceptedComm u < k ∨ s.graph.nbrs u = []

theorem commRow_symmetric (o : Outcome) (h : Symmetric s.graph.numNodes s.graph.nbrs)
    (hnum : Numbered s k) : Symmetric k (commRow o (allWeights s s.graph.numNodes)) := by
  constructor
  · intro c _ e he
    have hmem := (joined_commRow o (allWeights s s.graph.numNodes) c e.neighbor).mp ⟨e, he, rfl⟩
    obtain ⟨u, hu, v, hv, -, hd, huv⟩ := (allWeights_joined h c e.neighbor).mp hmem
    rcases hnum v hv with hlt | hnil
    · omega
    · obtain ⟨e', he', -⟩ := h.joined u hu v hv huv
      rw [hnil] at he'
      cases he'
  · intro c _ d _ hcd
    rw [joined_commRow, allWeights_joined h] at hcd ⊢
    obtain ⟨u, hu, v, hv, hc, hd, huv⟩ := hcd
    exact ⟨v, hv, u, hu, hd, hc, h.joined u hu v hv huv⟩
  · intro c _ d _
    rw [weightTo_commRow, weightTo_commRow, allWeights_quotient h, allWeights_quotient h]
    exact Weighted.quotient_symm h.weight c d

section

variable (hs : PhaseGraph s)

include hs

theorem aggregate_phaseGraph (hnum : Numbered s k) (h : aggregateCommunities o k s = some s') :
    PhaseGraph s' :=
  (aggregateCommunities_starts h).2.2.phaseGraph (commRow_symmetric o hs.symmetric hnum)

theorem weightTo_aggregate (h : aggregateCommunities o k s = some s') {c : Nat} (hc : c < k)
    (d : Nat) : weightTo (s'.graph.nbrs c) d =
      Weighted.quotient s.graph.numNodes (fun u v => weightTo (s.graph.nbrs u) v) s.acceptedComm
        c d := by
  rw [(aggregateCommunities_starts h).2.2.nbrs c hc, weightTo_commRow,
    allWeights_quotient hs.symmetric]

theorem degree_aggregate (hnum : Numbered s k) (h : aggregateCommunities o k s = some s') {c : Nat}
    (hc : c < k) :
    s'.nodeWeightedDegrees c = ∑ u ∈ range s.graph.numNodes,
      if s.acceptedComm u = c then s.nodeWeightedDegrees u else 0 := by
  have hs' := aggregate_phaseGraph hs hnum h
  have hk : s'.graph.numNodes = k := (aggregateCommunities_starts h).2.2.numNodes
  rw [hs'.degrees c (hk.symm ▸ hc), rowWeight_eq_degree hs'.symmetric (hk.symm ▸ hc), hk]
  have hrow : Weighted.degree k (fun u v => weightTo (s'.graph.nbrs u) v) c =
      Weighted.degree k (Weighted.quotient s.graph.numNodes
        (fun u v => weightTo (s.graph.nbrs u) v) s.acceptedComm) c :=
    sum_congr rfl fun d _ => weightTo_aggregate hs h hc d
  rw [hrow, Weighted.degree_quotient (hs.symmetric.labels hnum)]
  apply sum_congr rfl
  intro u hu
  rw [mem_range] at hu
  rw [hs.degrees u hu, rowWeight_eq_degree hs.symmetric hu]

theorem total_aggregate (hnum : Numbered s k) (h : aggregateCommunities o k s = some s') :
    s'.totalWeight = s.totalWeight := by
  have hs' := aggregate_phaseGraph hs hnum h
  have hk : s'.graph.numNodes = k := (aggregateCommunities_starts h).2.2.numNodes
  calc s'.totalWeight = ∑ c ∈ range k, s'.nodeWeightedDegrees c := by
        rw [hs'.total, hk]
        apply sum_congr rfl
        intro c hc
        exact (hs'.degrees c (hk.symm ▸ mem_range.mp hc)).symm
    _ = ∑ c ∈ range k, ∑ u ∈ range s.graph.numNodes,
          if s.acceptedComm u = c then s.nodeWeightedDegrees u else 0 := by
        apply sum_congr rfl
        intro c hc
        exact degree_aggregate hs hnum h (mem_range.mp hc)
    _ = ∑ u ∈ range s.graph.numNodes, s.nodeWeightedDegrees u := by
        apply Weighted.sum_classes
        intro u hu
        apply (hnum u hu).imp_right
        intro hnil
        rw [hs.degrees u hu, hnil]
        rfl
    _ = s.totalWeight := by
        rw [hs.total]
        apply sum_congr rfl
        intro u hu
        exact hs.degrees u (mem_range.mp hu)

end

end

/-! ## 4. Modularity -/

def natWeight (s : PhaseState) (u v : Nat) : Nat :=
  Weighted.sumOf Neighbor.neighbor (fun e => e.weight.toNat) (s.graph.nbrs u) v

def Fits (s : PhaseState) : Prop :=
  ∑ u ∈ range s.graph.numNodes, ((s.graph.nbrs u).map fun e => e.weight.toNat).sum < 2 ^ 64

theorem sum_filter_le (l : List (Nat × Nat)) (f : Nat × Nat → Nat) (n : Nat) :
    ∑ u ∈ range n, (l.filter fun r => f r = u).length ≤ l.length := by
  induction l with
  | nil => simp
  | cons r l ih =>
    have hcons : ∀ u, ((r :: l).filter fun r => f r = u).length =
        (l.filter fun r => f r = u).length + if f r = u then 1 else 0 := by
      intro u
      by_cases hu : f r = u <;> simp [hu]
    simp only [hcons, sum_add_distrib, sum_ite_eq, List.length_cons]
    split <;> omega

/-- The graph of the first phase; its weights fit wherever the rels can be counted twice. -/
theorem initInMemoryGraph_phaseGraph {g : StoredGraph} {fuel : Nat} {s : PhaseState}
    (h : initInMemoryGraph g fuel = some s) :
    s.graph.numNodes < 2 ^ 32 ∧ PhaseGraph s ∧ (2 * g.rels.length < 2 ^ 64 → Fits s) := by
  obtain ⟨hlt, hstarts⟩ := initInMemoryGraph_starts h
  refine ⟨hstarts.numNodes ▸ hlt, hstarts.phaseGraph (initialRow_symmetric g), fun hsmall => ?_⟩
  have hrow : ∀ u, ((initialRow g u).map fun e => e.weight.toNat).sum ≤
      (g.rels.filter fun r => r.1 = u).length + (g.rels.filter fun r => r.2 = u).length := by
    intro u
    have hlen : ((initialRow g u).map fun e => e.weight.toNat).sum = (gatherNbrs g u).length := by
      simp [initialRow, Function.comp_def, show defaultWeight.toNat = 1 from rfl]
    have hbwd := List.length_filter_le (fun v => decide (v ≠ u)) (g.scanBwd u)
    have hfwd := (g.fwd_perm u).length_eq
    have hback := (g.bwd_perm u).length_eq
    rw [List.length_map] at hfwd hback
    rw [hlen]
    unfold gatherNbrs
    rw [List.length_append]
    omega
  unfold Fits
  have hsum := sum_le_sum fun u (_ : u ∈ range g.numNodes) => hrow u
  rw [sum_add_distrib] at hsum
  have hfwd := sum_filter_le g.rels Prod.fst g.numNodes
  have hbwd := sum_filter_le g.rels Prod.snd g.numNodes
  rw [hstarts.numNodes, sum_congr rfl fun u hu => by rw [hstarts.nbrs u (mem_range.mp hu)]]
  omega

/-- The modularity of an assignment, over the rationals. -/
def modularityOf (s : PhaseState) (comm : Nat → Nat) : ℚ :=
  Weighted.modularity s.graph.numNodes (fun u v => (natWeight s u v : ℚ)) s.totalWeight.toNat comm

section

variable {s s' : PhaseState} {k : Nat} {o : Outcome}

theorem Fits.degrees (hs : PhaseGraph s) (h : Fits s) :
    ∑ u ∈ range s.graph.numNodes, Weighted.degree s.graph.numNodes (natWeight s) u < 2 ^ 64 := by
  have hsum : ∑ u ∈ range s.graph.numNodes, Weighted.degree s.graph.numNodes (natWeight s) u =
      ∑ u ∈ range s.graph.numNodes, ((s.graph.nbrs u).map fun e => e.weight.toNat).sum := by
    apply sum_congr rfl
    intro u hu
    exact (Weighted.sum_all_keys (hs.symmetric.lt u (mem_range.mp hu))).symm
  rw [hsum]
  exact h

theorem sumOf_toNat (row : List Neighbor) (v : Nat)
    (h : Weighted.sumOf Neighbor.neighbor (fun e => e.weight.toNat) row v < 2 ^ 64) :
    (weightTo row v).toNat = Weighted.sumOf Neighbor.neighbor (fun e => e.weight.toNat) row v := by
  have hmap : ((row.map fun e => if e.neighbor = v then e.weight else 0).map UInt64.toNat) =
      row.map fun e => if e.neighbor = v then e.weight.toNat else 0 := by
    rw [List.map_map]
    apply List.map_congr_left
    intro e _
    show (if e.neighbor = v then e.weight else 0).toNat = _
    by_cases hv : e.neighbor = v
    · rw [if_pos hv, if_pos hv]
    · rw [if_neg hv, if_neg hv]
      rfl
  unfold weightTo Weighted.sumOf
  rw [Weighted.toNat_listSum, hmap]
  rw [hmap]
  exact h

section

variable (hs : PhaseGraph s)

include hs

theorem Fits.toNat (h : Fits s) {u v : Nat} (hu : u < s.graph.numNodes)
    (hv : v < s.graph.numNodes) :
    (weightTo (s.graph.nbrs u) v).toNat = natWeight s u v := by
  apply sumOf_toNat
  have hdegree : natWeight s u v ≤ Weighted.degree s.graph.numNodes (natWeight s) u :=
    single_le_sum (f := natWeight s u) (fun _ _ => Nat.zero_le _) (mem_range.mpr hv)
  have htotal := single_le_sum (f := Weighted.degree s.graph.numNodes (natWeight s))
    (fun _ _ => Nat.zero_le _) (mem_range.mpr hu)
  exact lt_of_le_of_lt (hdegree.trans htotal) (h.degrees hs)

theorem natWeight_aggregate (hfits : Fits s) (h : aggregateCommunities o k s = some s') {c : Nat}
    (hc : c < k) (d : Nat) :
    natWeight s' c d = Weighted.quotient s.graph.numNodes (natWeight s) s.acceptedComm c d := by
  have hval := weightTo_aggregate hs h hc d
  rw [← Weighted.toNat_quotient (fun u hu v hv => hfits.toNat hs hu hv) (hfits.degrees hs), ← hval]
  unfold natWeight
  rw [(aggregateCommunities_starts h).2.2.nbrs c hc, sumOf_commRow, weightTo_commRow]
  unfold CommWeights.val
  cases ((allWeights s s.graph.numNodes) c).lookup d with
  | none | some => rfl

theorem natWeight_labels (hnum : Numbered s k) :
    Weighted.Labels s.graph.numNodes (natWeight s) s.acceptedComm k := by
  intro u hu
  apply (hnum u hu).imp_right
  intro hnil v hv
  constructor
  · unfold natWeight
    rw [hnil]
    rfl
  · apply Weighted.sumOf_eq_zero
    intro e he heu
    obtain ⟨e', he', -⟩ := hs.symmetric.joined v hv u hu ⟨e, he, heu⟩
    rw [hnil] at he'
    cases he'

theorem fits_aggregate (hnum : Numbered s k) (hfits : Fits s)
    (h : aggregateCommunities o k s = some s') : Fits s' := by
  have hs' := aggregate_phaseGraph hs hnum h
  have hk : s'.graph.numNodes = k := (aggregateCommunities_starts h).2.2.numNodes
  have hsame : ∑ c ∈ range k, ((s'.graph.nbrs c).map fun e => e.weight.toNat).sum =
      ∑ u ∈ range s.graph.numNodes, Weighted.degree s.graph.numNodes (natWeight s) u := by
    rw [← Weighted.total_quotient (natWeight_labels hs hnum)]
    apply sum_congr rfl
    intro c hc
    rw [mem_range] at hc
    rw [Weighted.sum_all_keys (hs'.symmetric.lt c (hk.symm ▸ hc)), hk]
    exact sum_congr rfl fun d _ => natWeight_aggregate hs hfits h hc d
  unfold Fits
  rw [hk, hsame]
  exact hfits.degrees hs

theorem modularity_aggregate (hnum : Numbered s k) (hfits : Fits s)
    (hused : ∀ c < k, ∃ u < s.graph.numNodes, s.acceptedComm u = c)
    (h : aggregateCommunities o k s = some s') :
    modularityOf s' id = modularityOf s s.acceptedComm := by
  have hk : s'.graph.numNodes = k := (aggregateCommunities_starts h).2.2.numNodes
  have hlabels : Weighted.Labels s.graph.numNodes (fun u v => (natWeight s u v : ℚ))
      s.acceptedComm k := by
    intro u hu
    apply (natWeight_labels hs hnum u hu).imp_right
    intro hzero v hv
    dsimp only
    rw [(hzero v hv).1, (hzero v hv).2]
    exact ⟨Nat.cast_zero, Nat.cast_zero⟩
  have hcast : ∀ c < k, ∀ d, (natWeight s' c d : ℚ) = Weighted.quotient s.graph.numNodes
      (fun u v => (natWeight s u v : ℚ)) s.acceptedComm c d := by
    intro c hc d
    rw [natWeight_aggregate hs hfits h hc]
    unfold Weighted.quotient
    push_cast
    rfl
  unfold modularityOf
  rw [total_aggregate hs hnum h, hk, ← Weighted.modularity_quotient hlabels hused]
  exact Weighted.modularity_weights fun c hc d _ => hcast c hc d

end

end

/-! ## 5. The end of a phase -/

section

variable {s : PhaseState}

def EdgesAssigned (s : PhaseState) (comm : Nat → Nat) : Prop :=
  ∀ u < s.graph.numNodes, comm u = UNASSIGNED_COMM → s.graph.nbrs u = []

theorem PhaseGraph.renumber (hs : PhaseGraph s) : PhaseGraph (renumberCommunities s).2 :=
  ⟨hs.symmetric, hs.degrees, hs.total⟩

theorem numbered_renumber (hassigned : EdgesAssigned s s.acceptedComm) :
    Numbered (renumberCommunities s).2 (renumberCommunities s).1 := by
  intro u hu
  by_cases hua : s.acceptedComm u = UNASSIGNED_COMM
  · exact .inr (hassigned u hu hua)
  · exact .inl ((renumberCommunities_renumbered s).lt u hu hua)

theorem modularity_renumber (hn : s.graph.numNodes < 2 ^ 64) :
    modularityOf (renumberCommunities s).2 (renumberCommunities s).2.acceptedComm =
      modularityOf s s.acceptedComm := by
  have hren := renumberCommunities_renumbered s
  have hnew : ∀ v < s.graph.numNodes, s.acceptedComm v ≠ UNASSIGNED_COMM →
      (renumberCommunities s).2.acceptedComm v ≠ UNASSIGNED_COMM := by
    intro v hv hva
    have hlt := hren.lt v hv hva
    have hle := hren.le
    unfold UNASSIGNED_COMM
    omega
  apply Weighted.modularity_congr
  intro u hu v hv
  by_cases hua : s.acceptedComm u = UNASSIGNED_COMM
  · rw [hren.unassigned u hu hua, hua]
    by_cases hva : s.acceptedComm v = UNASSIGNED_COMM
    · rw [hren.unassigned v hv hva, hva]
    · exact iff_of_false (Ne.symm (hnew v hv hva)) (Ne.symm hva)
  · by_cases hva : s.acceptedComm v = UNASSIGNED_COMM
    · rw [hren.unassigned v hv hva, hva]
      exact iff_of_false (hnew u hu hua) hua
    · exact hren.same u hu v hv hua hva

/-- Renumbering is a bijection, and the graph of the communities has the sums and the modularity of
the phase that ends. -/
theorem aggregation_exact (o : Outcome) (s : PhaseState) (hs : PhaseGraph s)
    (hassigned : EdgesAssigned s s.acceptedComm) :
    let k := (renumberCommunities s).1
    let s₁ := (renumberCommunities s).2
    Renumbered s.acceptedComm s.graph.numNodes k s₁.acceptedComm ∧
    (s.graph.numNodes < 2 ^ 32 →
      ∃ s', Halts (fun fuel => aggregateCommunities { o with fuel := fuel } k s₁) s') ∧
    ∀ s', aggregateCommunities o k s₁ = some s' →
      s'.graph.numNodes = k ∧ PhaseGraph s' ∧ s'.totalWeight = s.totalWeight ∧
      (∀ c < k, s'.nodeWeightedDegrees c = ∑ u ∈ range s.graph.numNodes,
        if s₁.acceptedComm u = c then s.nodeWeightedDegrees u else 0) ∧
      (∀ c < k, weightTo (s'.graph.nbrs c) c =
        ∑ u ∈ range s.graph.numNodes, ∑ v ∈ range s.graph.numNodes,
          if s₁.acceptedComm u = c ∧ s₁.acceptedComm v = c then weightTo (s.graph.nbrs u) v
          else 0) ∧
      (Fits s → Fits s' ∧ modularityOf s' id = modularityOf s s.acceptedComm) := by
  intro k s₁
  have hren := renumberCommunities_renumbered s
  have hs₁ : PhaseGraph s₁ := hs.renumber
  have hnum : Numbered s₁ k := numbered_renumber hassigned
  refine ⟨hren, ?_, ?_⟩
  · intro hn
    have hle : k ≤ s.graph.numNodes := hren.le
    exact aggregateCommunities_halts o hn (by omega)
  · intro s' h
    have hn : s.graph.numNodes < 2 ^ 32 := (aggregateCommunities_starts h).1
    refine ⟨(aggregateCommunities_starts h).2.2.numNodes, aggregate_phaseGraph hs₁ hnum h,
      ?_, ?_, ?_, ?_⟩
    · exact (total_aggregate hs₁ hnum h : s'.totalWeight = s₁.totalWeight)
    · intro c hc
      exact degree_aggregate hs₁ hnum h hc
    · intro c hc
      exact weightTo_aggregate hs₁ h hc c
    · intro hfits
      refine ⟨fits_aggregate hs₁ hnum hfits h, ?_⟩
      rw [← modularity_renumber (by omega)]
      apply modularity_aggregate hs₁ hnum hfits _ h
      intro c hc
      obtain ⟨v, hv, -, hvc⟩ := hren.used c hc
      exact ⟨v, hv, hvc⟩

/-- Two pairs of nodes, with a rel between them, a reciprocal pair and a loop. -/
def fourNodes : StoredGraph where
  numNodes := 4
  rels := [(0, 1), (1, 0), (1, 2), (2, 3), (3, 3)]
  rels_lt := by decide
  scanFwd u := ([(0, 1), (1, 0), (1, 2), (2, 3), (3, 3)].filter fun r : Nat × Nat => r.1 = u).map
    Prod.snd
  scanBwd u := ([(0, 1), (1, 0), (1, 2), (2, 3), (3, 3)].filter fun r : Nat × Nat => r.2 = u).map
    Prod.fst
  fwd_perm _ := List.Perm.refl _
  bwd_perm _ := List.Perm.refl _

def fourPhase : PhaseState :=
  { ((List.range 4).foldl (fun s u => s.insertNode u (initialRow fourNodes u))
      (PhaseState.new 4)).finalize with
    acceptedComm := fun u => u / 2 * 2 }

def Outcome.plain : Outcome where
  mapOrder l := l
  mapOrder_perm l := List.Perm.refl l
  gains _ _ _ := true
  writes l := l
  writes_perm l := List.Perm.refl l
  improves := true
  weightsOrder l := l
  weightsOrder_perm l := List.Perm.refl l
  fuel := 10

theorem fourPhase_phaseGraph : PhaseGraph fourPhase := by
  have h := (starts_of_range ⟨InMemGraph.reinit 4, fun _ => 0, fun _ => 0, fun _ => 0,
    fun _ => CommInfo.zero, fun _ => CommInfo.zero, fun _ => 0, fun _ => 0, 0⟩ 4
    (initialRow fourNodes)).phaseGraph (initialRow_symmetric fourNodes)
  exact ⟨h.symmetric, h.degrees, h.total⟩

theorem aggregation_exact_four : (renumberCommunities fourPhase).1 = 2 ∧
    (∃ s', Halts (fun fuel => aggregateCommunities { Outcome.plain with fuel := fuel }
      (renumberCommunities fourPhase).1 (renumberCommunities fourPhase).2) s') ∧
    ∀ s', aggregateCommunities Outcome.plain (renumberCommunities fourPhase).1
      (renumberCommunities fourPhase).2 = some s' →
      s'.totalWeight = fourPhase.totalWeight ∧
        modularityOf s' id = modularityOf fourPhase fourPhase.acceptedComm := by
  have hassigned : EdgesAssigned fourPhase fourPhase.acceptedComm := by
    intro u hu hua
    have hfar : u / 2 * 2 = 2 ^ 64 - 1 := hua
    omega
  have hfits : Fits fourPhase := by
    unfold Fits
    decide
  have h := aggregation_exact Outcome.plain fourPhase fourPhase_phaseGraph hassigned
  refine ⟨by decide, h.2.1 (by decide), ?_⟩
  intro s' hs'
  have hnext := h.2.2 s' hs'
  exact ⟨hnext.2.2.1, (hnext.2.2.2.2.2 hfits).2⟩

end

end Ladybug.Louvain
