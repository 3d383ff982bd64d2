import Ladybug.Algo.LouvainAggregate

/-!
# Communities during a phase

What an iteration makes of the assignments and of the sizes and degrees of the communities.
-/

namespace Ladybug.Louvain

open Algo Finset Relation Option List

section

variable {s : PhaseState} {o : Outcome} {u : Nat}

theorem addIntraWeight_keys (s : PhaseState) (u : Nat) (a : IntraWeights) (e : Neighbor)
    {entry : Nat × Nat} (h : entry ∈ (addIntraWeight s u a e).commToWeightsIndex) :
    entry ∈ a.commToWeightsIndex ∨ entry.1 = s.currComm e.neighbor := by
  have hsame : (if e.neighbor = u then
      { a with selfLoopWeight := a.selfLoopWeight + e.weight } else a).commToWeightsIndex =
        a.commToWeightsIndex := by
    split
    · rfl
    · rfl
  unfold addIntraWeight at h
  dsimp only at h
  split at h
  · rw [hsame] at h
    rcases mem_append.mp h with h | h
    · exact .inl h
    · rw [List.mem_singleton.mp h]
      exact .inr rfl
  · rw [hsame] at h
    exact .inl h

theorem computeIntraCommWeights_keys {entry : Nat × Nat}
    (h : entry ∈ (computeIntraCommWeights s u).commToWeightsIndex) :
    entry.1 = s.currComm u ∨ ∃ e ∈ s.graph.nbrs u, entry.1 = s.currComm e.neighbor := by
  have hfold : ∀ (row : List Neighbor) (a : IntraWeights),
      entry ∈ (row.foldl (addIntraWeight s u) a).commToWeightsIndex →
      entry ∈ a.commToWeightsIndex ∨ ∃ e ∈ row, entry.1 = s.currComm e.neighbor := by
    intro row
    induction row with
    | nil => exact fun a ha => .inl ha
    | cons e row ih =>
      intro a ha
      rcases ih _ ha with ha | ⟨e', he', heq⟩
      · rcases addIntraWeight_keys s u a e ha with ha | heq
        · exact .inl ha
        · exact .inr ⟨e, List.mem_cons_self, heq⟩
      · exact .inr ⟨e', List.mem_cons_of_mem e he', heq⟩
  rcases hfold _ _ h with h | h
  · rw [List.mem_singleton.mp h]
    exact .inl rfl
  · exact .inr h

theorem findPotentialNewComm_mem (o : Outcome) (s : PhaseState) (u : Nat)
    (entries : List (Nat × Nat)) :
    findPotentialNewComm o s u entries = s.currComm u ∨
      ∃ entry ∈ entries, findPotentialNewComm o s u entries = entry.1 := by
  have hfold : ∀ (l : List (Nat × Nat)) (c : Nat), l.foldl (fun newComm entry =>
      if s.currComm u ≠ entry.1 ∧ o.gains u entry.1 newComm then entry.1 else newComm) c = c ∨
      ∃ entry ∈ l, l.foldl (fun newComm entry =>
        if s.currComm u ≠ entry.1 ∧ o.gains u entry.1 newComm then entry.1 else newComm) c =
          entry.1 := by
    intro l
    induction l with
    | nil => exact fun c => .inl rfl
    | cons entry l ih =>
      intro c
      rw [foldl_cons]
      rcases ih (if s.currComm u ≠ entry.1 ∧ o.gains u entry.1 c then entry.1 else c) with h | h
      · rw [h]
        split
        · exact .inr ⟨entry, List.mem_cons_self, rfl⟩
        · exact .inl rfl
      · obtain ⟨entry', hin, heq⟩ := h
        exact .inr ⟨entry', List.mem_cons_of_mem entry hin, heq⟩
  unfold findPotentialNewComm
  dsimp only
  split
  · exact .inl rfl
  · rcases hfold (o.mapOrder entries) (s.currComm u) with h | ⟨entry, hin, heq⟩
    · exact .inl h
    · exact .inr ⟨entry, (o.mapOrder_perm entries).mem_iff.mp hin, heq⟩

theorem targetComm_mem (o : Outcome) (h : s.graph.nbrs u ≠ []) : targetComm o s u = s.currComm u ∨
      ∃ e ∈ s.graph.nbrs u, targetComm o s u = s.currComm e.neighbor := by
  unfold targetComm
  rw [if_neg h]
  rcases findPotentialNewComm_mem o s u (computeIntraCommWeights s u).commToWeightsIndex with
    h | ⟨entry, hin, heq⟩
  · exact .inl h
  · rw [heq]
    exact computeIntraCommWeights_keys hin

theorem targetComm_isolated (o : Outcome) (h : s.graph.nbrs u = []) :
    targetComm o s u = UNASSIGNED_COMM := by
  unfold targetComm
  rw [if_pos h]

end

def Linked (s : PhaseState) : Nat → Nat → Prop :=
  EqvGen fun u v => u < s.graph.numNodes ∧ v < s.graph.numNodes ∧ Joined (s.graph.nbrs u) v

/-- A node with edges is in the community of a node with edges that it is connected to; the nodes
without edges are all in their own communities (with all others), or in none. -/
structure CommsOk (s : PhaseState) (comm : Nat → Nat) : Prop where
  edges : ∀ u < s.graph.numNodes, s.graph.nbrs u ≠ [] →
    comm u < s.graph.numNodes ∧ s.graph.nbrs (comm u) ≠ [] ∧ Linked s u (comm u)
  isolated : (∀ u < s.graph.numNodes, comm u = u) ∨
    ∀ u < s.graph.numNodes, s.graph.nbrs u = [] → comm u = UNASSIGNED_COMM

section

variable {s : PhaseState} {o : Outcome}

theorem CommsOk.identity {comm : Nat → Nat} (h : ∀ u < s.graph.numNodes, comm u = u) :
    CommsOk s comm where
  edges u hu hedge := by
    rw [h u hu]
    exact ⟨hu, hedge, EqvGen.refl u⟩
  isolated := .inl h

theorem Symmetric.nbr_edges (h : Symmetric s.graph.numNodes s.graph.nbrs) {u : Nat}
    (hu : u < s.graph.numNodes) {e : Neighbor} (he : e ∈ s.graph.nbrs u) :
    e.neighbor < s.graph.numNodes ∧ s.graph.nbrs e.neighbor ≠ [] := by
  have hv := h.lt u hu e he
  obtain ⟨e', he', -⟩ := h.joined u hu e.neighbor hv ⟨e, he, rfl⟩
  exact ⟨hv, ne_nil_of_mem he'⟩

theorem CommsOk.target (hsymm : Symmetric s.graph.numNodes s.graph.nbrs)
    (h : CommsOk s s.currComm) (o : Outcome) : CommsOk s (targetComm o s) where
  edges u hu hedge := by
    rcases targetComm_mem o hedge with heq | ⟨e, he, heq⟩
    · rw [heq]
      exact h.edges u hu hedge
    · obtain ⟨hv, hvedge⟩ := hsymm.nbr_edges hu he
      obtain ⟨hlt, hcedge, hlinked⟩ := h.edges e.neighbor hv hvedge
      rw [heq]
      exact ⟨hlt, hcedge, (EqvGen.rel _ _ ⟨hu, hv, e, he, rfl⟩).trans _ _ _ hlinked⟩
  isolated := .inr fun _ _ hnil => targetComm_isolated o hnil

end

def CommOp.sizeDelta (c : Nat) : CommOp → UInt64
  | .addSize c' => if c = c' then 1 else 0
  | .subSize c' => if c = c' then -1 else 0
  | _ => 0

def CommOp.degreeDelta (c : Nat) : CommOp → Weight
  | .addDegree c' d => if c = c' then d else 0
  | .subDegree c' d => if c = c' then -d else 0
  | _ => 0

theorem update_add (proj : CommInfo → UInt64) (infos : Nat → CommInfo) (c c' : Nat)
    {x : CommInfo} {d : UInt64} (hx : proj x = proj (infos c') + d) :
    proj (Function.update infos c' x c) = proj (infos c) + if c = c' then d else 0 := by
  by_cases h : c = c'
  · subst h
    rw [Function.update_self, if_pos rfl, hx]
  · rw [Function.update_of_ne h, if_neg h, add_zero]

variable (infos : Nat → CommInfo)

theorem CommOp.apply_size (op : CommOp) (c : Nat) :
    (op.apply infos c).size = (infos c).size + op.sizeDelta c := by
  cases op with
  | addDegree c' d =>
    have h := update_add CommInfo.size infos c c'
      (x := ⟨(infos c').size, (infos c').degree + d⟩) (add_zero _).symm
    rw [ite_self] at h
    exact h
  | addSize c' => exact update_add CommInfo.size infos c c' rfl
  | subDegree c' d =>
    have h := update_add CommInfo.size infos c c'
      (x := ⟨(infos c').size, (infos c').degree - d⟩) (add_zero _).symm
    rw [ite_self] at h
    exact h
  | subSize c' => exact update_add CommInfo.size infos c c' (sub_eq_add_neg _ _)

theorem CommOp.apply_degree (op : CommOp) (c : Nat) :
    (op.apply infos c).degree = (infos c).degree + op.degreeDelta c := by
  cases op with
  | addDegree c' d => exact update_add CommInfo.degree infos c c' rfl
  | addSize c' =>
    have h := update_add CommInfo.degree infos c c'
      (x := ⟨(infos c').size + 1, (infos c').degree⟩) (add_zero _).symm
    rw [ite_self] at h
    exact h
  | subDegree c' d => exact update_add CommInfo.degree infos c c' (sub_eq_add_neg _ _)
  | subSize c' =>
    have h := update_add CommInfo.degree infos c c'
      (x := ⟨(infos c').size - 1, (infos c').degree⟩) (add_zero _).symm
    rw [ite_self] at h
    exact h

theorem foldl_apply (ops : List CommOp) (c : Nat) :
    (ops.foldl CommOp.apply infos c).size = (infos c).size + (ops.map (CommOp.sizeDelta c)).sum ∧
    (ops.foldl CommOp.apply infos c).degree =
      (infos c).degree + (ops.map (CommOp.degreeDelta c)).sum := by
  induction ops generalizing infos with
  | nil => exact ⟨(add_zero _).symm, (add_zero _).symm⟩
  | cons op ops ih =>
    rw [foldl_cons, (ih (op.apply infos)).1, (ih (op.apply infos)).2, op.apply_size,
      op.apply_degree, List.map_cons, List.map_cons, List.sum_cons, List.sum_cons, add_assoc,
      add_assoc]
    exact ⟨rfl, rfl⟩

theorem sum_map_range {M : Type} [AddCommMonoid M] (f : Nat → M) (n : Nat) :
    ((List.range n).map f).sum = ∑ u ∈ range n, f u := by
  induction n with
  | zero => rfl
  | succ n ih =>
    rw [range_succ, map_append, sum_append, ih, Finset.sum_range_succ, List.map_singleton,
      List.sum_singleton]

theorem sum_map_flatMap {M : Type} [AddCommMonoid M] (f : Nat → List CommOp) (val : CommOp → M)
    (n : Nat) : (((List.range n).flatMap f).map val).sum = ∑ u ∈ range n, ((f u).map val).sum := by
  induction n with
  | zero => rfl
  | succ n ih =>
    rw [range_succ, flatMap_append, map_append, sum_append, ih, Finset.sum_range_succ]
    simp

/-- The sum over the nodes with edges in the community `c`. -/
def members (s : PhaseState) (comm : Nat → Nat) (val : Nat → UInt64) (c : Nat) : UInt64 :=
  ∑ u ∈ range s.graph.numNodes, if s.graph.nbrs u ≠ [] ∧ comm u = c then val u else 0

def InfosOk (s : PhaseState) : Prop :=
  ∀ c < s.graph.numNodes, (s.currCommInfos c).size =
      members s s.currComm (fun _ => 1) c + (if s.graph.nbrs c = [] then 1 else 0) ∧
    (s.currCommInfos c).degree = members s s.currComm s.nodeWeightedDegrees c

section

variable {s : PhaseState} {o : Outcome}

theorem moved_sum (x : UInt64) (t c₀ c : Nat) :
    ((if c = t then x else 0) + if c = c₀ then -x else 0) + (if c₀ = c then x else 0) =
      if t = c then x else 0 := by
  have hcancel : ((if c = c₀ then -x else 0) + if c₀ = c then x else 0) = 0 := by
    by_cases h : c = c₀
    · rw [if_pos h, if_pos h.symm, neg_add_cancel]
    · rw [if_neg h, if_neg (Ne.symm h), add_zero]
  rw [add_assoc, hcancel, add_zero]
  exact if_congr eq_comm rfl rfl

theorem nodeOps_sum (hcomms : CommsOk s (targetComm o s)) (hn : s.graph.numNodes < 2 ^ 32) {u : Nat}
    (hu : u < s.graph.numNodes) (c : Nat) :
    ((nodeOps o s u).map (CommOp.sizeDelta c)).sum +
        (if s.graph.nbrs u ≠ [] ∧ s.currComm u = c then 1 else 0) =
      (if s.graph.nbrs u ≠ [] ∧ targetComm o s u = c then 1 else 0) ∧
    ((nodeOps o s u).map (CommOp.degreeDelta c)).sum +
        (if s.graph.nbrs u ≠ [] ∧ s.currComm u = c then s.nodeWeightedDegrees u else 0) =
      if s.graph.nbrs u ≠ [] ∧ targetComm o s u = c then s.nodeWeightedDegrees u else 0 := by
  unfold nodeOps
  by_cases hnil : s.graph.nbrs u = []
  · -- no community for the node, no update
    rw [if_neg fun h => h.2 (targetComm_isolated o hnil)]
    simp [hnil]
  · simp only [ne_eq, hnil, not_false_eq_true, true_and]
    have htarget : targetComm o s u ≠ UNASSIGNED_COMM := by
      have hlt := (hcomms.edges u hu hnil).1
      unfold UNASSIGNED_COMM
      omega
    by_cases hstay : targetComm o s u = s.currComm u
    · rw [if_neg fun h => h.1 hstay]
      simp [hstay]
    · rw [if_pos ⟨hstay, htarget⟩]
      have hsize := moved_sum 1 (targetComm o s u) (s.currComm u) c
      have hdegree := moved_sum (s.nodeWeightedDegrees u) (targetComm o s u) (s.currComm u) c
      constructor
      · simpa [CommOp.sizeDelta] using hsize
      · simpa [CommOp.degreeDelta] using hdegree

theorem InfosOk.next (h : InfosOk s) (hcomms : CommsOk s (targetComm o s))
    (hn : s.graph.numNodes < 2 ^ 32) :
    InfosOk (rotateComms (updateCommInfos (runIteration o s.startNewIter))) := by
  intro c hc
  have hops := foldl_apply (fun _ => CommInfo.zero)
    (o.writes ((List.range s.graph.numNodes).flatMap (nodeOps o s))) c
  have hperm := o.writes_perm ((List.range s.graph.numNodes).flatMap (nodeOps o s))
  rw [(hperm.map (CommOp.sizeDelta c)).sum_eq, (hperm.map (CommOp.degreeDelta c)).sum_eq,
    sum_map_flatMap, sum_map_flatMap] at hops
  have hsum : ∀ {val : Nat → UInt64} {delta : Nat → UInt64}, (∀ u < s.graph.numNodes,
      delta u + (if s.graph.nbrs u ≠ [] ∧ s.currComm u = c then val u else 0) =
        if s.graph.nbrs u ≠ [] ∧ targetComm o s u = c then val u else 0) →
      members s s.currComm val c + ∑ u ∈ range s.graph.numNodes, delta u =
        members s (targetComm o s) val c := by
    intro val delta hdelta
    unfold members
    rw [← sum_add_distrib]
    apply sum_congr rfl
    intro u hu
    rw [← hdelta u (Finset.mem_range.mp hu), add_comm]
  have hsize := hsum fun u hu => (nodeOps_sum hcomms hn hu c).1
  have hdegree := hsum fun u hu => (nodeOps_sum hcomms hn hu c).2
  constructor
  · show (s.currCommInfos c).size + _ = _
    rw [(h c hc).1, add_right_comm]
    congr 1
    refine Eq.trans ?_ hsize
    congr 1
    exact hops.1.trans (zero_add _)
  · show (s.currCommInfos c).degree + _ = _
    rw [(h c hc).2]
    refine Eq.trans ?_ hdegree
    congr 1
    exact hops.2.trans (zero_add _)

end

section

variable {s : PhaseState} {u : Nat}

structure OwnIndex (s : PhaseState) (u : Nat) (done : List Neighbor) (a : IntraWeights) : Prop where
  index : ∀ c i, a.commToWeightsIndex.lookup c = some i → (i = 0 ↔ c = s.currComm u)
  own : a.commToWeightsIndex.lookup (s.currComm u) = some 0
  next : 0 < a.nextIndex
  head : a.intraCommWeights.head? = some ((done.map fun e =>
    if s.currComm e.neighbor = s.currComm u then e.weight else 0).sum)

theorem head?_modify_succ (l : List Weight) (i : Nat) (w : Weight) :
    (l.modify (i + 1) (· + w)).head? = l.head? := by
  cases l with
  | nil | cons => rfl

theorem OwnIndex.step {done : List Neighbor} {a : IntraWeights} (h : OwnIndex s u done a)
    (e : Neighbor) : OwnIndex s u (done ++ [e]) (addIntraWeight s u a e) := by
  -- the loop weight is kept apart
  have hloop : OwnIndex s u done (if e.neighbor = u then
      { a with selfLoopWeight := a.selfLoopWeight + e.weight } else a) := by
    split
    · exact ⟨h.index, h.own, h.next, h.head⟩
    · exact h
  unfold addIntraWeight
  dsimp only
  generalize (if e.neighbor = u then
    { a with selfLoopWeight := a.selfLoopWeight + e.weight } else a) = a at hloop
  have hsum : ((done ++ [e]).map fun e =>
      if s.currComm e.neighbor = s.currComm u then e.weight else 0).sum =
      (done.map fun e => if s.currComm e.neighbor = s.currComm u then e.weight else 0).sum +
        if s.currComm e.neighbor = s.currComm u then e.weight else 0 := by
    rw [map_append, sum_append, List.map_singleton, List.sum_singleton]
  split
  · rename_i hnone
    have hother : s.currComm e.neighbor ≠ s.currComm u := by
      intro heq
      rw [heq, hloop.own] at hnone
      cases hnone
    have hlookup : ∀ c, (a.commToWeightsIndex ++ [(s.currComm e.neighbor, a.nextIndex)]).lookup c =
        (a.commToWeightsIndex.lookup c).or
          (if c = s.currComm e.neighbor then some a.nextIndex else none) := by
      intro c
      rw [lookup_append]
      congr 1
      by_cases hc : c = s.currComm e.neighbor
      · simp [hc]
      · rw [if_neg hc, lookup_cons, beq_false_of_ne hc]
        rfl
    constructor
    · intro c i hc
      rw [hlookup] at hc
      cases hold : a.commToWeightsIndex.lookup c with
      | some j =>
        rw [hold] at hc
        obtain rfl : j = i := some.inj hc
        exact hloop.index c j hold
      | none =>
        rw [hold, none_or] at hc
        by_cases hce : c = s.currComm e.neighbor
        · rw [if_pos hce] at hc
          obtain rfl := some.inj hc
          have hnext := hloop.next
          rw [hce]
          exact iff_of_false (by omega) hother
        · rw [if_neg hce] at hc
          cases hc
    · rw [hlookup, hloop.own]
      rfl
    · exact Nat.succ_pos _
    · rw [hsum, if_neg hother, add_zero, head?_append, hloop.head]
      rfl
  · rename_i i hsome
    refine ⟨hloop.index, hloop.own, hloop.next, ?_⟩
    rw [hsum]
    by_cases hown : s.currComm e.neighbor = s.currComm u
    · rw [hown, hloop.own] at hsome
      obtain rfl := some.inj hsome
      rw [if_pos hown]
      have hhead := hloop.head
      cases hlist : a.intraCommWeights with
      | nil =>
        rw [hlist] at hhead
        cases hhead
      | cons x l =>
        rw [hlist] at hhead
        rw [← some.inj hhead]
        rfl
    · rw [if_neg hown, add_zero]
      have hne : i ≠ 0 := fun hi => hown ((hloop.index _ i hsome).mp hi)
      obtain ⟨j, rfl⟩ := Nat.exists_eq_succ_of_ne_zero hne
      rw [head?_modify_succ]
      exact hloop.head

theorem computeIntraCommWeights_head (s : PhaseState) (u : Nat) :
    (computeIntraCommWeights s u).intraCommWeights.head? = some (((s.graph.nbrs u).map fun e =>
      if s.currComm e.neighbor = s.currComm u then e.weight else 0).sum) := by
  have hfold : ∀ (row done : List Neighbor) (a : IntraWeights), OwnIndex s u done a →
      OwnIndex s u (done ++ row) (row.foldl (addIntraWeight s u) a) := by
    intro row
    induction row with
    | nil =>
      intro done a ha
      rw [append_nil]
      exact ha
    | cons e row ih =>
      intro done a ha
      rw [foldl_cons, append_cons]
      exact ih _ _ (ha.step e)
  have hstart : OwnIndex s u [] ⟨0, [0], [(s.currComm u, 0)], 1⟩ := by
    refine ⟨?_, by simp, Nat.one_pos, rfl⟩
    intro c i hc
    by_cases heq : c = s.currComm u
    · rw [heq] at hc
      simp at hc
      exact iff_of_true hc.symm heq
    · rw [lookup_cons, beq_false_of_ne heq] at hc
      cases hc
  exact (hfold (s.graph.nbrs u) [] _ hstart).head

end

/-- The weights between members of one community. -/
def intraSum (s : PhaseState) : Weight :=
  ∑ u ∈ range s.graph.numNodes, ((s.graph.nbrs u).map fun e =>
    if s.currComm e.neighbor = s.currComm u then e.weight else 0).sum

theorem computeModularity_exact {s : PhaseState} (h : InfosOk s) (o : Outcome) :
    computeModularity (runIteration o s.startNewIter) = (intraSum s, ∑ c ∈ range s.graph.numNodes,
        members s s.currComm s.nodeWeightedDegrees c *
          members s s.currComm s.nodeWeightedDegrees c) := by
  unfold computeModularity
  rw [Prod.mk.injEq]
  constructor
  · rw [sum_map_range]
    apply sum_congr rfl
    intro u _
    show (if s.graph.nbrs u = [] then 0 else
      ((computeIntraCommWeights s u).intraCommWeights.head?).getD 0) = _
    by_cases hnil : s.graph.nbrs u = []
    · rw [if_pos hnil, hnil]
      rfl
    · rw [if_neg hnil, computeIntraCommWeights_head]
      rfl
  · rw [sum_map_range]
    apply sum_congr rfl
    intro c hc
    show (s.currCommInfos c).degree * (s.currCommInfos c).degree = _
    rw [(h c (Finset.mem_range.mp hc)).2]

end Ladybug.Louvain
