import Ladybug.Vector.LayerInvariant
import Mathlib.Data.List.Sort

/-!
# The lists of a layer in every run
-/

namespace Ladybug.Vector.InMemHNSWLayerInfo

open FixedRows List Option

variable {D : Type} [Distance D] {info : InMemHNSWLayerInfo D}

def searchOf (info : InMemHNSWLayerInfo D) (graph : GraphBuffers) (inserted : List Nat)
    (hlt : ∀ v ∈ inserted, v < info.numNodes) (query : Nat) : HNSWSearch D where
  rows :=
    { numTotalRows := info.numNodes
      live := fun o => decide (o ∈ inserted)
      recorded := fun o => decide (o ∈ inserted)
      exact := false
      live_lt := fun o ho => hlt o (of_decide_eq_true ho)
      recorded_live := fun _ ho => ho }
  numCheckpointedNodes := info.numNodes
  numCheckpointed_le := Nat.le_refl _
  semiMask := none
  layers :=
    { upperEntryPoint := none
      lowerEntryPoint := none
      upperGraph := fun _ => []
      lowerGraph := fun v => [(info.getNodeOffsets graph v).filter (· ∈ inserted)]
      ml := 0
      upperEntry_lt := fun _ ho => by cases ho
      lowerEntry_lt := fun _ ho => by cases ho
      upper_lt := fun _ _ hw => absurd hw not_mem_nil
      lower_lt := by
        intro v w hw
        simp only [flatten_cons, flatten_nil, append_nil, mem_filter, decide_eq_true_eq] at hw
        exact hlt w hw.2 }
  query :=
    { k := info.maxDegree
      efs := info.efc
      useKnn := false
      searchType := .auto
      blindSearchUpSelThreshold := 0
      directedSearchUpSelThreshold := 0
      metricFunc := info.distance query
      exactMetricFunc := info.distance query }
  ordering := info.ordering

section

variable {graph : GraphBuffers} {inserted : List Nat} {hlt : ∀ v ∈ inserted, v < info.numNodes}
  {query : Nat}

theorem process_eq (hembedding : ∀ v ∈ inserted, info.hasEmbedding v = true)
    (s : SearchQueues D) {nbr : Nat} (hnbr : nbr ∈ inserted) :
    (if nbr ∉ s.visited then info.processNbrNodeInKNNSearch query s nbr else s) =
      (info.searchOf graph inserted hlt query).processUnvisitedMasked s nbr := by
  have hrecorded : (info.searchOf graph inserted hlt query).rows.recorded nbr = true :=
    decide_eq_true hnbr
  have hmasked : (info.searchOf graph inserted hlt query).isMasked nbr = true := rfl
  unfold HNSWSearch.processUnvisitedMasked
  rw [hmasked, Bool.and_true]
  by_cases hvisited : nbr ∉ s.visited
  · rw [if_pos hvisited, if_pos (decide_eq_true hvisited)]
    unfold HNSWSearch.processNbrNodeInKNNSearch processNbrNodeInKNNSearch
    rw [hrecorded, hembedding nbr hnbr]
    rfl
  · rw [if_neg hvisited, if_neg (by simpa using hvisited)]

theorem searchRound_eq (hembedding : ∀ v ∈ inserted, info.hasEmbedding v = true)
    (hlists : ∀ v, ∀ w ∈ info.getNodeOffsets graph v, w ∈ inserted) :
    info.searchRound graph query = (info.searchOf graph inserted hlt query).searchRound := by
  funext s
  unfold searchRound HNSWSearch.searchRound
  congr 1
  funext c
  have hflat : ((info.searchOf graph inserted hlt query).layers.lowerGraph c.nodeOffset).flatten =
      info.getNodeOffsets graph c.nodeOffset := by
    show ((info.getNodeOffsets graph c.nodeOffset).filter (· ∈ inserted)) ++ [] = _
    rw [append_nil]
    exact filter_eq_self.mpr fun w hw => decide_eq_true (hlists c.nodeOffset w hw)
  rw [hflat]
  exact foldl_ext _ _ _ fun s w hw => process_eq hembedding s (hlists c.nodeOffset w hw)

variable {entryNode : Nat}

theorem searchKNN_eq (hembedding : ∀ v ∈ inserted, info.hasEmbedding v = true)
    (hlists : ∀ v, ∀ w ∈ info.getNodeOffsets graph v, w ∈ inserted) (hentry : entryNode ∈ inserted) :
    info.searchKNN graph query entryNode =
      (info.searchOf graph inserted hlt query).searchKNNInLayer entryNode := by
  funext fuel
  have hrecorded : (info.searchOf graph inserted hlt query).rows.recorded entryNode = true :=
    decide_eq_true hentry
  unfold searchKNN HNSWSearch.searchKNNInLayer HNSWSearch.initQueues
  rw [hrecorded, searchRound_eq hembedding hlists]
  rfl

theorem searchKNN_halts (hlt : ∀ v ∈ inserted, v < info.numNodes)
    (hembedding : ∀ v ∈ inserted, info.hasEmbedding v = true)
    (hlists : ∀ v, ∀ w ∈ info.getNodeOffsets graph v, w ∈ inserted) (query : Nat)
    (hentry : entryNode ∈ inserted) :
    ∃ closest, Halts (info.searchKNN graph query entryNode) closest ∧
      (closest.map NodeWithDistance.nodeOffset).Nodup ∧ ∀ n ∈ closest, n.nodeOffset ∈ inserted := by
  obtain ⟨closest, hhalts, hresult⟩ := HNSWSearch.searchKNNInLayer_halts
    (info.searchOf graph inserted hlt query) (hlt entryNode hentry)
  refine ⟨closest, searchKNN_eq hembedding hlists hentry ▸ hhalts, hresult.nodup, ?_⟩
  intro n hn
  exact of_decide_eq_true (hresult.found n hn).recorded

end

section

variable {s : InMemHNSWLayer} {graph : GraphBuffers} {offset : Nat} {entryPoint : Option Nat}
  {closest : List (NodeWithDistance D)}

omit [Distance D] in
theorem mem_relsOf {rel : Nat × Nat} : rel ∈ relsOf offset closest ↔
      ∃ n ∈ closest, rel = (offset, n.nodeOffset) ∨ rel = (n.nodeOffset, offset) := by
  unfold relsOf
  simp

omit [Distance D] in
theorem relsOf_nodup (hnodup : (closest.map NodeWithDistance.nodeOffset).Nodup)
    (hne : ∀ n ∈ closest, n.nodeOffset ≠ offset) : (relsOf offset closest).Nodup := by
  induction closest with
  | nil => exact nodup_nil
  | cons n closest ih =>
    rw [map_cons, nodup_cons] at hnodup
    rw [forall_mem_cons] at hne
    have hfresh : ∀ m ∈ closest, m.nodeOffset ≠ n.nodeOffset := by
      intro m hm heq
      exact hnodup.1 (heq ▸ mem_map_of_mem hm)
    have hcons : relsOf offset (n :: closest) =
        (offset, n.nodeOffset) :: (n.nodeOffset, offset) :: relsOf offset closest := rfl
    rw [hcons, nodup_cons, nodup_cons, mem_cons, not_or, mem_relsOf, mem_relsOf]
    refine ⟨⟨?_, ?_⟩, ?_, ih hnodup.2 hne.2⟩
    · intro heq
      exact hne.1 (congrArg Prod.snd heq)
    · rintro ⟨m, hm, heq | heq⟩
      · exact hfresh m hm (congrArg Prod.snd heq).symm
      · exact hne.1 (congrArg Prod.snd heq)
    · rintro ⟨m, hm, heq | heq⟩
      · exact hne.1 (congrArg Prod.fst heq)
      · exact hfresh m hm (congrArg Prod.fst heq).symm

theorem Inv.graph_of_idle (h : info.Inv s graph) (hidle : s.Idle) : s.graph = graph :=
  h.graph_eq hidle.1

section

variable (h : info.Inv s graph) (hins : info.Insertable s offset entryPoint)

include h hins

theorem Inv.begin {newEntry : Option Nat} (hentry : ∀ e ∈ newEntry, e ∈ offset :: s.inserted)
    (closest : List (NodeWithDistance D)) (hnodup : (closest.map NodeWithDistance.nodeOffset).Nodup)
    (hmem : ∀ n ∈ closest, n.nodeOffset ∈ s.inserted) :
    info.Inv
      { s with
        entryPoint := newEntry
        rels := relsOf offset closest
        inserted := offset :: s.inserted } graph := by
  have hne : ∀ n ∈ closest, n.nodeOffset ≠ offset := fun n hn heq => hins.fresh (heq ▸ hmem n hn)
  -- the node is in no list, and its own is empty
  have hunlisted : ∀ v, offset ∉ info.list graph v :=
    fun v hin => hins.fresh (h.exact.mem v offset hin).1
  have hempty : info.list graph offset = [] := by
    apply eq_nil_of_length_eq_zero
    rw [length_list]
    exact h.validSettled.empty offset hins.fresh
  exact
    { h with
      known := by
        intro v hv
        rcases mem_cons.mp hv with heq | hv
        · rw [heq]
          exact ⟨hins.lt, hins.embedding⟩
        · exact h.known v hv
      entry := hentry
      valid := h.valid.insert offset
      writes := by
        intro write hwrite
        rw [show s.writes = [] from hins.idle.1] at hwrite
        exact absurd hwrite not_mem_nil
      validSettled := h.validSettled.insert offset
      exact := h.exact.insert offset
      shrinking := fun v hv => mem_cons_of_mem _ (h.shrinking v hv)
      rels := by
        intro rel hrel
        obtain ⟨n, hn, heq | heq⟩ := mem_relsOf.mp hrel
        · rw [heq]
          refine ⟨mem_cons_self, mem_cons_of_mem _ (hmem n hn), hne n hn, ?_⟩
          rw [hempty]
          exact not_mem_nil
        · rw [heq]
          exact ⟨mem_cons_of_mem _ (hmem n hn), mem_cons_self, (hne n hn).symm,
            hunlisted n.nodeOffset⟩
      nodup := relsOf_nodup hnodup hne
      finalizing := by
        intro hfin
        exact absurd (hins.building.symm.trans hfin) (by decide) }

theorem Inv.insertFrom {entry : Nat} (hentry : entry ∈ s.inserted) :
    ∃ s', Halts (info.insertFrom s offset entry) s' ∧ info.Inv s' graph := by
  obtain ⟨closest, hhalts, hnodup, hmem⟩ := searchKNN_halts (fun v hv => (h.known v hv).1)
    (fun v hv => (h.known v hv).2) (fun v w hw => (h.valid.mem_getNodeOffsets hw).1) offset hentry
  refine ⟨_, hhalts.map _, ?_⟩
  exact h.begin hins (fun e he => mem_cons_of_mem _ (h.entry e he)) closest hnodup hmem

theorem Inv.insert : ∃ s', Halts (info.insert s offset entryPoint) s' ∧ info.Inv s' graph := by
  unfold InMemHNSWLayerInfo.insert
  cases hpoint : entryPoint with
  | some entry => exact h.insertFrom hins (hins.entry entry hpoint)
  | none =>
    cases hlayer : s.entryPoint with
    | some entry => exact h.insertFrom hins (h.entry entry hlayer)
    | none =>
      refine ⟨_, halts_const _, ?_⟩
      have hbegin := h.begin hins
        (fun e he => mem_cons.mpr (.inl (some.inj he).symm)) [] nodup_nil
        (fun _ hn => absurd hn not_mem_nil)
      have hrels : s.rels = relsOf offset ([] : List (NodeWithDistance D)) := hins.idle.2.2.1
      rw [← hrels] at hbegin
      exact hbegin

end

end

section

variable {s : InMemHNSWLayer} {graph : GraphBuffers}

/-- What is left to do: a call of `insertRel` may lead to a shrink, and a shrink to as many writes as
it keeps neighbours and one more. -/
def work (info : InMemHNSWLayerInfo D) (s : InMemHNSWLayer) : Nat :=
  (s.rels.length + s.nodes.length) * (info.degreeThresholdToShrink + 4) +
    (if s.shrinking.isSome then info.degreeThresholdToShrink + 2 else 0) + s.writes.length

theorem Inv.next (h : info.Inv s graph) : s.Idle ∨
    ∃ s' graph', info.next s = some s' ∧ info.Inv s' graph' ∧ info.work s' < info.work s := by
  have hT := info.maxDegree_lt
  unfold InMemHNSWLayerInfo.next
  cases hwrites : s.writes with
  | cons write writes =>
    refine .inr ⟨_, graph, rfl, h.write hwrites, ?_⟩
    unfold work
    rw [hwrites, length_cons]
    simp only
    omega
  | nil =>
    cases hshrinking : s.shrinking with
    | some v =>
      refine .inr ⟨_, _, rfl, h.shrink hwrites hshrinking, ?_⟩
      have hgraph := h.graph_eq hwrites
      have hle := (h.shrunk v).length_le
      have hlen : (info.shrinkForNode s.graph v).length = (info.keptNbrs graph v).length + 1 := by
        unfold shrinkForNode
        simp [hgraph]
      unfold work
      rw [hwrites, hshrinking]
      simp only [isSome_some, isSome_none, if_true, Bool.false_eq_true, if_false,
        length_nil]
      omega
    | none =>
      cases hrels : s.rels with
      | cons rel rels =>
        obtain ⟨s', hs', hinv, hrels', hnodes'⟩ := h.rel hwrites hshrinking hrels
        refine .inr ⟨s', _, hs', hinv, ?_⟩
        have hmul : (rels.length + 1 + s.nodes.length) * (info.degreeThresholdToShrink + 4) =
            (rels.length + s.nodes.length) * (info.degreeThresholdToShrink + 4) +
              (info.degreeThresholdToShrink + 4) := by
          rw [Nat.add_right_comm, Nat.add_mul, Nat.one_mul]
        have hshort : (if s'.shrinking.isSome then info.degreeThresholdToShrink + 2 else 0) ≤
            info.degreeThresholdToShrink + 2 := by
          split <;> omega
        have hone : s'.writes.length = 1 := by
          obtain ⟨t, -, ht⟩ := map_eq_some_iff.mp hs'
          rw [← ht]
          rfl
        unfold work
        rw [hrels', hnodes', hrels, length_cons, hmul]
        omega
      | nil =>
        cases hnodes : s.nodes with
        | nil => exact .inl ⟨hwrites, hshrinking, hrels, hnodes⟩
        | cons v nodes =>
          have hinv := h.finalizeNode hwrites hshrinking hnodes
          have hmul : (nodes.length + 1) * (info.degreeThresholdToShrink + 4) =
              nodes.length * (info.degreeThresholdToShrink + 4) +
                (info.degreeThresholdToShrink + 4) := by
            rw [Nat.add_mul, Nat.one_mul]
          simp only [hwrites, hshrinking, hrels] at hinv ⊢
          split at hinv
          next hle =>
            rw [if_pos hle]
            refine .inr ⟨_, graph, rfl, hinv, ?_⟩
            unfold work
            simp only [hwrites, hshrinking, hrels, hnodes, length_cons, length_nil,
              Nat.zero_add, hmul]
            omega
          next hlong =>
            rw [if_neg hlong]
            refine .inr ⟨_, graph, rfl, hinv, ?_⟩
            unfold work
            simp only [hwrites, hshrinking, hrels, hnodes, length_cons, length_nil,
              Nat.zero_add, hmul, isSome_some, isSome_none, if_true,
              Bool.false_eq_true, if_false]
            omega

theorem advance_succ {s' : InMemHNSWLayer} (h : info.next s = some s') (n : Nat) :
    info.advance (n + 1) s = info.advance n s' := by
  rw [InMemHNSWLayerInfo.advance, h]

theorem Inv.returns (h : info.Inv s graph) : ∃ n, (info.advance n s).Idle := by
  induction hwork : info.work s using Nat.strong_induction_on generalizing s graph with
  | _ m ih =>
    rcases h.next with hidle | ⟨s', graph', hnext, hinv, hless⟩
    · exact ⟨0, hidle⟩
    · obtain ⟨n, hn⟩ := ih (info.work s') (hwork ▸ hless) hinv rfl
      refine ⟨n + 1, ?_⟩
      rw [advance_succ hnext]
      exact hn

theorem advance_writes (s : InMemHNSWLayer) : info.advance s.writes.length s =
    { s with graph := info.settled s, writes := [] } := by
  obtain ⟨entryPoint, graph, inserted, writes, shrinking, rels, nodes, finalized⟩ := s
  induction writes generalizing graph with
  | nil => rfl
  | cons write writes ih =>
    exact ih (info.apply graph write)

theorem Inv.advance_shrink (h : info.Inv s graph) (hwrites : s.writes = []) {v : Nat}
    (hv : s.shrinking = some v) :
    ∃ n graph', info.advance n s = { s with graph := graph', shrinking := none } ∧
      info.Shrunk v (info.getNodeOffsets s.graph v) (info.getNodeOffsets graph' v) := by
  have hgraph := h.graph_eq hwrites
  have hinv := h.shrink hwrites hv
  have hnext : info.next s =
      some { s with writes := info.shrinkForNode s.graph v, shrinking := none } := by
    unfold InMemHNSWLayerInfo.next
    rw [hwrites, hv]
  refine ⟨_, info.rewrite graph v (info.keptNbrs graph v), (advance_succ hnext _).trans
    ((advance_writes _).trans ?_), ?_⟩
  · rw [hinv.settled, hwrites]
  · have hlt : ∀ o ∈ s.inserted, o < info.numNodes := fun o ho => (h.known o ho).1
    have hshrunk := h.shrunk v
    have hafter := h.list_shrink v v
    rw [if_pos rfl] at hafter
    rw [hgraph, getNodeOffsets_eq h.exact hlt, getNodeOffsets_eq hinv.exact hlt, hafter]
    exact hshrunk

end

section

variable {s : InMemHNSWLayer} {graph : GraphBuffers}

def noGraph : InMemHNSWGraph where
  numNodes := 0
  maxDegree := 0
  csrLengths := fun _ => 0
  dstNodes := fun _ => viewInvalidOffset 0
  numNodes_lt := by decide
  numEntries_lt := by decide
  csrLengths_le := fun _ hv => absurd hv (Nat.not_lt_zero _)
  dstNodes_valid := fun _ => Or.inr rfl

theorem exists_group {v : Nat} (hv : v < info.numNodes) :
    ∃ k < info.numNodeGroups, v ∈ info.nodesOfGroup k := by
  have hsize := info.nodeGroupSize_pos
  have htable : info.offsetMap.graphToNodeOffset v < info.offsetMap.numNodesInTable :=
    (info.selection.selected_graphToNode hv).lt
  refine ⟨info.offsetMap.graphToNodeOffset v / info.nodeGroupSize, ?_, ?_⟩
  · unfold numNodeGroups
    rw [if_neg (by omega)]
    exact Nat.lt_succ_of_le (Nat.div_le_div_right (Nat.le_of_lt htable))
  · exact (mem_nodesInGraph_iff info.nodeGroupSize info.selection noGraph _ hsize v).mpr ⟨hv, rfl⟩

theorem Inv.finalize (h : info.Inv s graph) (hidle : s.Idle) {groups : List Nat}
    (hgroups : groups.Perm (List.range info.numNodeGroups)) :
    info.Inv (info.finalize s groups) graph :=
  { h with
    building := fun hfin => by cases hfin
    finalizing := by
      intro _
      refine ⟨hidle.2.2.1, fun v => ?_⟩
      by_cases hempty : getCSRLength graph v = 0
      · exact .inl (by omega)
      · have hin : v ∈ s.inserted := by
          by_contra hnot
          exact hempty (h.validSettled.empty v hnot)
        obtain ⟨k, hk, hmem⟩ := exists_group (h.known v hin).1
        refine .inr (.inr (mem_flatMap.mpr ⟨k, ?_, hmem⟩))
        exact hgroups.mem_iff.mpr (mem_range.mpr hk) }

theorem Reachable.inv (h : info.Reachable s) : ∃ graph, info.Inv s graph := by
  induction h with
  | init => exact ⟨_, Inv.init info⟩
  | next _ hnext ih =>
    obtain ⟨graph, hinv⟩ := ih
    rcases hinv.next with hidle | ⟨s', graph', hs', hinv', -⟩
    · obtain ⟨hwrites, hshrinking, hrels, hnodes⟩ := hidle
      unfold InMemHNSWLayerInfo.next at hnext
      rw [hwrites, hshrinking, hrels, hnodes] at hnext
      cases hnext
    · rw [hnext] at hs'
      exact ⟨graph', some.inj hs' ▸ hinv'⟩
  | insert _ hins hhalts ih =>
    obtain ⟨graph, hinv⟩ := ih
    obtain ⟨s', hs', hinv'⟩ := hinv.insert hins
    exact ⟨graph, hhalts.unique hs' ▸ hinv'⟩
  | finalize _ hidle _ hgroups ih =>
    obtain ⟨graph, hinv⟩ := ih
    exact ⟨graph, hinv.finalize hidle hgroups⟩

theorem Inv.listAt (h : info.Inv s graph) (v : Nat) : info.ListAt s v where
  length_le := h.valid.length_getNodeOffsets v
  not_self := fun hin => (h.valid.mem_getNodeOffsets hin).2 rfl
  inserted := fun _ hw => (h.valid.mem_getNodeOffsets hw).1
  nodup := by
    intro hwrites
    rw [h.graph_eq hwrites, getNodeOffsets_eq h.exact fun o ho => (h.known o ho).1]
    exact h.exact.nodup v

theorem Inv.finalized_length (h : info.Inv s graph) (hidle : s.Idle) (hfin : s.finalized = true)
    (v : Nat) : (info.getNodeOffsets s.graph v).length ≤ info.maxDegree := by
  rw [h.graph_of_idle hidle, getNodeOffsets_eq h.exact fun o ho => (h.known o ho).1, length_list]
  rcases (h.finalizing hfin).2 v with hle | hv | hv
  · exact hle
  · rw [hidle.2.1] at hv
    cases hv
  · rw [hidle.2.2.2] at hv
    exact absurd hv not_mem_nil

/-- The lists in every run of insertions and of the node groups that are finalized. -/
theorem layer_lists (info : InMemHNSWLayerInfo D) : (∀ s, info.Reachable s → ∀ v, info.ListAt s v) ∧
    (∀ s, info.Reachable s → ∀ v, s.writes = [] → s.shrinking = some v →
      ∃ n graph, info.advance n s = { s with graph, shrinking := none } ∧
        info.Shrunk v (info.getNodeOffsets s.graph v) (info.getNodeOffsets graph v)) ∧
    (∀ s offset entryPoint, info.Reachable s → info.Insertable s offset entryPoint →
      ∃ s', Halts (info.insert s offset entryPoint) s') ∧
    (∀ s, info.Reachable s → ∃ n, (info.advance n s).Idle) ∧
    ∀ s, info.Reachable s → s.Idle → s.finalized = true →
      ∀ v, (info.getNodeOffsets s.graph v).length ≤ info.maxDegree := by
  refine ⟨?_, ?_, ?_, ?_, ?_⟩
  · intro s hs v
    obtain ⟨graph, hinv⟩ := hs.inv
    exact hinv.listAt v
  · intro s hs v hwrites hv
    obtain ⟨graph, hinv⟩ := hs.inv
    exact hinv.advance_shrink hwrites hv
  · intro s offset entryPoint hs hins
    obtain ⟨graph, hinv⟩ := hs.inv
    obtain ⟨s', hhalts, -⟩ := hinv.insert hins
    exact ⟨s', hhalts⟩
  · intro s hs
    obtain ⟨graph, hinv⟩ := hs.inv
    exact hinv.returns
  · intro s hs hidle hfin v
    obtain ⟨graph, hinv⟩ := hs.inv
    exact hinv.finalized_length hidle hfin v

end

section

theorem Reachable.advance {s : InMemHNSWLayer} (h : info.Reachable s) (n : Nat) :
    info.Reachable (info.advance n s) := by
  induction n generalizing s with
  | zero => exact h
  | succ n ih =>
    unfold InMemHNSWLayerInfo.advance
    split
    next s' hnext => exact ih (h.next hnext)
    · exact h

theorem zero_lt_eight : 0 < 8 := by
  decide

instance : Distance (Fin 8) where
  __ := (inferInstance : LinearOrder (Fin 8))
  toZero := ⟨⟨0, zero_lt_eight⟩⟩
  toTop := ⟨⟨7, by decide⟩⟩
  zero_lt_top := by decide

def lastFirst : KeySort (fun n : NodeWithDistance (Fin 8) => n.distance) where
  sort l := l.reverse.insertionSort fun a b => a.distance ≤ b.distance
  perm l := (perm_insertionSort _ _).trans (reverse_perm l)
  sorted l := pairwise_insertionSort (fun a b : NodeWithDistance (Fin 8) =>
    a.distance ≤ b.distance) l.reverse

def threeNodes : InMemHNSWLayerInfo (Fin 8) where
  nodeGroupSize := 4
  nodeGroupSize_pos := by decide
  selection := .all 3
  isNull := fun _ => false
  metricFunc := fun a b => if a = b then 0 else 3
  maxDegree := 1
  alphaTimes := id
  efc := 1
  ordering := lastFirst
  maxDegree_pos := by decide
  maxDegree_le := by decide
  numNodes_lt := by decide
  numEntries_lt := by decide

def oneInserted : InMemHNSWLayer :=
  { threeNodes.init with entryPoint := some 0, inserted := [0] }

def twoInserted : InMemHNSWLayer :=
  threeNodes.advance 4 { oneInserted with inserted := [1, 0], rels := [(1, 0), (0, 1)] }

def beforeShrink : InMemHNSWLayer :=
  threeNodes.advance 4 { twoInserted with inserted := [2, 1, 0], rels := [(2, 0), (0, 2)] }

theorem beforeShrink_reachable : threeNodes.Reachable beforeShrink := by
  have hone : threeNodes.Reachable oneInserted := by
    have hins : threeNodes.Insertable threeNodes.init 0 none :=
      ⟨⟨rfl, rfl, rfl, rfl⟩, rfl, by decide, rfl, not_mem_nil, fun _ he => by cases he⟩
    exact Reachable.init.insert hins (halts_const _)
  have htwo : threeNodes.Reachable
      { oneInserted with inserted := [1, 0], rels := [(1, 0), (0, 1)] } := by
    have hins : threeNodes.Insertable oneInserted 1 none :=
      ⟨⟨rfl, rfl, rfl, rfl⟩, rfl, by decide, rfl, by decide, fun _ he => by cases he⟩
    apply hone.insert hins
    refine ⟨2, fun fuel hfuel => ?_⟩
    obtain ⟨k, rfl⟩ := Nat.exists_eq_add_of_le' hfuel
    rfl
  have hthree : threeNodes.Reachable
      { twoInserted with inserted := [2, 1, 0], rels := [(2, 0), (0, 2)] } := by
    have hins : threeNodes.Insertable twoInserted 2 none :=
      ⟨⟨rfl, rfl, rfl, rfl⟩, rfl, by decide, rfl, by decide, fun _ he => by cases he⟩
    apply (htwo.advance 4).insert hins
    refine ⟨2, fun fuel hfuel => ?_⟩
    obtain ⟨k, rfl⟩ := Nat.exists_eq_add_of_le' hfuel
    rfl
  exact hthree.advance 4

theorem layer_lists_threeNodes : threeNodes.ListAt beforeShrink 0 ∧
    ∃ n graph, threeNodes.advance n beforeShrink = { beforeShrink with graph, shrinking := none } ∧
      threeNodes.Shrunk 0 (threeNodes.getNodeOffsets beforeShrink.graph 0)
        (threeNodes.getNodeOffsets graph 0) :=
  ⟨(layer_lists threeNodes).1 _ beforeShrink_reachable 0,
    (layer_lists threeNodes).2.1 _ beforeShrink_reachable 0 rfl rfl⟩

/-- Between two writes of a shrink node 0 has node 2 twice; and of its two neighbours, which are at the
same distance, one is dropped though no kept one is closer. -/
theorem equidistant_neighbour_dropped :
    (¬ ∀ (D : Type) (_ : Distance D) (info : InMemHNSWLayerInfo D) (s : InMemHNSWLayer),
      info.Reachable s → ∀ v, (info.getNodeOffsets s.graph v).Nodup) ∧
    ¬ ∀ (D : Type) (_ : Distance D) (info : InMemHNSWLayerInfo D) (s : InMemHNSWLayer),
      info.Reachable s → ∀ v, s.writes = [] → s.shrinking = some v → ∀ n graph,
        info.advance n s = { s with graph, shrinking := none } →
          ∀ o ∈ info.getNodeOffsets s.graph v, o ∉ info.getNodeOffsets graph v →
            (∃ w ∈ info.getNodeOffsets graph v, info.distance v w < info.distance v o ∧
              info.alphaTimes (info.distance o w) < info.distance v o) ∨
            ((info.getNodeOffsets graph v).length = info.maxDegree ∧
              ∀ w ∈ info.getNodeOffsets graph v, info.distance v w < info.distance v o) := by
  constructor
  · intro hall
    have hnodup := hall (Fin 8) inferInstance threeNodes _ (beforeShrink_reachable.advance 2) 0
    exact absurd hnodup (by decide)
  · intro hall
    have hrule := hall (Fin 8) inferInstance threeNodes _ beforeShrink_reachable 0 rfl rfl 3
      (threeNodes.advance 3 beforeShrink).graph rfl 1
    rcases hrule (by decide) (by decide) with ⟨w, hw, hlt, -⟩ | ⟨-, hlt⟩
    · rw [mem_singleton.mp hw] at hlt
      exact absurd hlt (by decide)
    · exact absurd (hlt 2 (by decide)) (by decide)

end

end Ladybug.Vector.InMemHNSWLayerInfo
