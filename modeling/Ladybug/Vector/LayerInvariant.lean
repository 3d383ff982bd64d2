import Ladybug.Vector.LayerShrinking
import Ladybug.Vector.SearchInvariant
import Mathlib.Data.List.TakeWhile

/-!
# The invariant of a layer that is built

What holds of the buffers between any two writes, and of the lists when the writes of a call have been
made: an insertion adds only pairs that are not in a list yet.
-/

namespace Ladybug.Vector.InMemHNSWLayerInfo

open FixedRows List Option Function

variable {D : Type} [Distance D] {info : InMemHNSWLayerInfo D}

def list (info : InMemHNSWLayerInfo D) (graph : GraphBuffers) (v : Nat) : List Nat :=
  row graph.dstNodes info.degreeThresholdToShrink v (getCSRLength graph v)

/-- Every slot of a node, in use or not, is invalid or holds another inserted node. -/
structure Valid (info : InMemHNSWLayerInfo D) (inserted : List Nat) (graph : GraphBuffers) : Prop where
  lengths : ∀ v, getCSRLength graph v ≤ info.degreeThresholdToShrink
  empty : ∀ v, v ∉ inserted → getCSRLength graph v = 0
  entries : ∀ v, ∀ i < info.degreeThresholdToShrink,
    graph.dstNodes (v * info.degreeThresholdToShrink + i) = viewInvalidOffset info.numNodes ∨
      (graph.dstNodes (v * info.degreeThresholdToShrink + i) ∈ inserted ∧
        graph.dstNodes (v * info.degreeThresholdToShrink + i) ≠ v)

def ValidWrite (info : InMemHNSWLayerInfo D) (inserted : List Nat) : Write → Prop
  | .setDstNode csrOffset dstNode => ∃ v, ∃ i < info.degreeThresholdToShrink,
      csrOffset = v * info.degreeThresholdToShrink + i ∧ dstNode ∈ inserted ∧ dstNode ≠ v
  | .setCSRLength v length => v ∈ inserted ∧ length ≤ info.degreeThresholdToShrink

section

variable {inserted : List Nat} {graph : GraphBuffers} {v : Nat}

theorem toNat_update (csrLengths : Nat → UInt16) (v w : Nat) {n : Nat}
    (hn : n ≤ info.degreeThresholdToShrink) :
    (update csrLengths v (UInt16.ofNat n) w).toNat = if w = v then n else (csrLengths w).toNat := by
  have hT := info.degreeThreshold_lt
  split
  next heq =>
    rw [heq, update_self, UInt16.toNat_ofNat']
    exact Nat.mod_eq_of_lt (by omega)
  next hne => rw [update_of_ne hne]

theorem apply_setDstNode (hlt : v < info.numNodes) (csrOffset : Nat) :
    info.apply graph (.setDstNode csrOffset v) =
      { graph with dstNodes := update graph.dstNodes csrOffset v } := by
  have hview := lt_viewInvalidOffset info.numNodes
  unfold apply
  simp only
  rw [Nat.mod_eq_of_lt (by omega)]

theorem Valid.emptyGraph (info : InMemHNSWLayerInfo D) : info.Valid [] info.emptyGraph where
  lengths := fun _ => Nat.zero_le _
  empty := fun _ _ => rfl
  entries := fun _ _ _ => .inl rfl

section

variable (h : info.Valid inserted graph)

include h

theorem Valid.insert (offset : Nat) : info.Valid (offset :: inserted) graph where
  lengths := h.lengths
  empty := fun v hv => h.empty v fun hin => hv (mem_cons_of_mem _ hin)
  entries := fun v i hi =>
    (h.entries v i hi).imp_right fun hin => ⟨mem_cons_of_mem _ hin.1, hin.2⟩

theorem Valid.apply (hlt : ∀ o ∈ inserted, o < info.numNodes) {write : Write}
    (hwrite : info.ValidWrite inserted write) : info.Valid inserted (info.apply graph write) := by
  cases write with
  | setDstNode csrOffset dstNode =>
    obtain ⟨v, i, hi, rfl, hin, hne⟩ := hwrite
    rw [apply_setDstNode (hlt dstNode hin)]
    refine ⟨h.lengths, h.empty, fun w j hj => ?_⟩
    simp only
    by_cases heq : w * info.degreeThresholdToShrink + j = v * info.degreeThresholdToShrink + i
    · have hw := ((slot_inj hj hi).mp heq).1
      rw [heq, update_self, hw]
      exact .inr ⟨hin, hne⟩
    · rw [update_of_ne heq]
      exact h.entries w j hj
  | setCSRLength v n =>
    obtain ⟨hin, hn⟩ := hwrite
    refine ⟨fun w => ?_, fun w hw => ?_, h.entries⟩
    · show (update graph.csrLengths v (UInt16.ofNat n) w).toNat ≤ _
      rw [toNat_update _ _ _ hn]
      split
      · exact hn
      · exact h.lengths w
    · show (update graph.csrLengths v (UInt16.ofNat n) w).toNat = 0
      have hne : w ≠ v := fun heq => hw (heq ▸ hin)
      rw [toNat_update _ _ _ hn, if_neg hne]
      exact h.empty w hw

theorem Valid.foldl (hlt : ∀ o ∈ inserted, o < info.numNodes) {writes : List Write}
    (hwrites : ∀ write ∈ writes, info.ValidWrite inserted write) :
    info.Valid inserted (writes.foldl info.apply graph) := by
  induction writes generalizing graph with
  | nil => exact h
  | cons write writes ih =>
    rw [forall_mem_cons] at hwrites
    exact ih (h.apply hlt hwrites.1) hwrites.2

theorem Valid.mem_getNodeOffsets {w : Nat} (hw : w ∈ info.getNodeOffsets graph v) :
    w ∈ inserted ∧ w ≠ v := by
  have hvalid : w ≠ INVALID_OFFSET := by simpa using mem_takeWhile_imp hw
  obtain ⟨i, hi, rfl⟩ := mem_map.mp ((takeWhile_sublist _).subset hw)
  have hlen := h.lengths v
  have hlt := mem_range.mp hi
  unfold entry at hvalid ⊢
  split at hvalid
  · exact absurd rfl hvalid
  next hne =>
    rw [if_neg hne]
    rcases h.entries v i (by omega) with hinvalid | hnode
    · exact absurd hinvalid hne
    · exact hnode

theorem Valid.length_getNodeOffsets (v : Nat) :
    (info.getNodeOffsets graph v).length ≤ info.degreeThresholdToShrink := by
  have hle := (takeWhile_sublist (fun w => decide (w ≠ INVALID_OFFSET))
    (l := info.getNeighbors graph v)).length_le
  have hlen : (info.getNeighbors graph v).length = getCSRLength graph v := by
    unfold getNeighbors
    rw [length_map, length_range]
  have hbound := h.lengths v
  unfold getNodeOffsets
  omega

end

end

structure Exact (info : InMemHNSWLayerInfo D) (inserted : List Nat) (graph : GraphBuffers) : Prop where
  mem : ∀ v, ∀ w ∈ info.list graph v, w ∈ inserted ∧ w ≠ v
  nodup : ∀ v, (info.list graph v).Nodup

section

variable {inserted : List Nat} {graph : GraphBuffers} {v : Nat}

theorem getNodeOffsets_eq (h : info.Exact inserted graph)
    (hlt : ∀ o ∈ inserted, o < info.numNodes) (v : Nat) :
    info.getNodeOffsets graph v = info.list graph v := by
  have hmap : info.getNeighbors graph v = info.list graph v := by
    apply map_congr_left
    intro i hi
    have hin := (h.mem v _ (mem_row.mpr ⟨i, mem_range.mp hi, rfl⟩)).1
    have hview := lt_viewInvalidOffset info.numNodes
    have hnode := hlt _ hin
    unfold entry
    rw [if_neg (by omega)]
  unfold getNodeOffsets
  rw [hmap]
  apply takeWhile_eq_self_iff.mpr
  intro w hw
  have hnode := hlt w (h.mem v w hw).1
  have hnum : info.numNodes + 1 < 2 ^ 64 := info.numNodes_lt
  apply decide_eq_true
  unfold INVALID_OFFSET
  omega

theorem Exact.insert (h : info.Exact inserted graph) (offset : Nat) :
    info.Exact (offset :: inserted) graph where
  mem := fun v w hw => ⟨mem_cons_of_mem _ (h.mem v w hw).1, (h.mem v w hw).2⟩
  nodup := h.nodup

/-- A node at the end of a list. -/
def push (info : InMemHNSWLayerInfo D) (graph : GraphBuffers) (src dst : Nat) : GraphBuffers where
  csrLengths := update graph.csrLengths src (UInt16.ofNat (getCSRLength graph src + 1))
  dstNodes := update graph.dstNodes
    (src * info.degreeThresholdToShrink + getCSRLength graph src) dst

theorem list_push {src : Nat} (hlt : getCSRLength graph src < info.degreeThresholdToShrink)
    (hlengths : ∀ v, getCSRLength graph v ≤ info.degreeThresholdToShrink) (dst : Nat) :
    info.list (info.push graph src dst) v =
      if v = src then info.list graph src ++ [dst] else info.list graph v := by
  have hle : getCSRLength graph src + 1 ≤ info.degreeThresholdToShrink := hlt
  show row (update _ _ _) _ _ (update graph.csrLengths src _ v).toNat = _
  rw [toNat_update _ _ _ hle]
  by_cases hv : v = src
  · rw [if_pos hv, if_pos hv, hv]
    exact row_push
  · rw [if_neg hv, if_neg hv]
    exact row_update_of_ne hlt (hlengths v) hv

def rewrite (info : InMemHNSWLayerInfo D) (graph : GraphBuffers) (v : Nat) (kept : List Nat) :
    GraphBuffers where
  csrLengths := update graph.csrLengths v (UInt16.ofNat kept.length)
  dstNodes := writeRow graph.dstNodes (v * info.degreeThresholdToShrink) kept

theorem list_rewrite {kept : List Nat} (hkept : kept.length ≤ info.degreeThresholdToShrink)
    (hlengths : ∀ v, getCSRLength graph v ≤ info.degreeThresholdToShrink) (w : Nat) :
    info.list (info.rewrite graph v kept) w = if w = v then kept else info.list graph w := by
  show row (writeRow _ _ _) _ _ (update graph.csrLengths v _ w).toNat = _
  rw [toNat_update _ _ _ hkept]
  by_cases hw : w = v
  · rw [if_pos hw, if_pos hw, hw]
    exact row_writeRow kept
  · rw [if_neg hw, if_neg hw]
    exact row_writeRow_of_ne hkept (hlengths w) hw

theorem foldl_shrinkForNode (hlt : ∀ w ∈ info.keptNbrs graph v, w < info.numNodes) :
    (info.shrinkForNode graph v).foldl info.apply graph =
      info.rewrite graph v (info.keptNbrs graph v) := by
  have hwrites : ∀ kept : List Nat, (∀ w ∈ kept, w < info.numNodes) → (kept.mapIdx fun i nbr =>
        Write.setDstNode (v * info.degreeThresholdToShrink + i) nbr).foldl info.apply graph =
        { graph with dstNodes := writeRow graph.dstNodes (v * info.degreeThresholdToShrink) kept } := by
    intro kept
    induction kept using reverseRecOn with
    | nil => exact fun _ => rfl
    | append_singleton kept w ih =>
      intro hkept
      rw [mapIdx_append, foldl_append, ih fun u hu => hkept u (mem_append_left _ hu), writeRow_snoc]
      simp only [mapIdx_cons, mapIdx_nil, Nat.zero_add, foldl_cons, foldl_nil]
      exact apply_setDstNode (hkept w (by simp)) _
  unfold shrinkForNode
  rw [foldl_append, hwrites _ hlt]
  rfl

theorem shrinkForNode_valid (hin : v ∈ inserted)
    (hkept : ∀ w ∈ info.keptNbrs graph v, w ∈ inserted ∧ w ≠ v)
    (hlen : (info.keptNbrs graph v).length ≤ info.degreeThresholdToShrink) :
    ∀ write ∈ info.shrinkForNode graph v, info.ValidWrite inserted write := by
  intro write hwrite
  rcases mem_append.mp hwrite with hwrite | hwrite
  · obtain ⟨i, hi, rfl⟩ := mem_mapIdx.mp hwrite
    have hnode := hkept _ (getElem_mem hi)
    exact ⟨v, i, by omega, rfl, hnode.1, hnode.2⟩
  · rw [mem_singleton.mp hwrite]
    exact ⟨hin, hlen⟩

end

structure NewRel (info : InMemHNSWLayerInfo D) (inserted : List Nat) (graph : GraphBuffers)
    (rel : Nat × Nat) : Prop where
  src : rel.1 ∈ inserted
  dst : rel.2 ∈ inserted
  ne : rel.2 ≠ rel.1
  fresh : rel.2 ∉ info.list graph rel.1

/-- `graph` is what the writes under way will have made of the buffers. -/
structure Inv (info : InMemHNSWLayerInfo D) (s : InMemHNSWLayer) (graph : GraphBuffers) : Prop where
  settled : info.settled s = graph
  known : ∀ v ∈ s.inserted, v < info.numNodes ∧ info.hasEmbedding v = true
  entry : ∀ e ∈ s.entryPoint, e ∈ s.inserted
  valid : info.Valid s.inserted s.graph
  writes : ∀ write ∈ s.writes, info.ValidWrite s.inserted write
  validSettled : info.Valid s.inserted graph
  exact : info.Exact s.inserted graph
  short : ∀ v, getCSRLength graph v < info.degreeThresholdToShrink ∨ s.shrinking = some v
  shrinking : ∀ v ∈ s.shrinking, v ∈ s.inserted
  rels : ∀ rel ∈ s.rels, info.NewRel s.inserted graph rel
  nodup : s.rels.Nodup
  building : s.finalized = false → s.nodes = []
  finalizing : s.finalized = true → s.rels = [] ∧
    ∀ v, getCSRLength graph v ≤ info.maxDegree ∨ s.shrinking = some v ∨ v ∈ s.nodes

section

variable {s : InMemHNSWLayer} {graph : GraphBuffers} {v : Nat}

theorem Inv.init (info : InMemHNSWLayerInfo D) : info.Inv info.init info.emptyGraph where
  settled := rfl
  known := fun _ hv => absurd hv not_mem_nil
  entry := fun _ he => by cases he
  valid := Valid.emptyGraph info
  writes := fun _ hw => absurd hw not_mem_nil
  validSettled := Valid.emptyGraph info
  exact := ⟨fun _ _ hw => absurd hw not_mem_nil, fun _ => nodup_nil⟩
  short := fun _ => .inl (Nat.lt_of_le_of_lt (Nat.zero_le _) info.maxDegree_lt)
  shrinking := fun _ hv => by cases hv
  rels := fun _ hr => absurd hr not_mem_nil
  nodup := nodup_nil
  building := fun _ => rfl
  finalizing := fun h => by cases h

section

variable (h : info.Inv s graph)

include h

theorem Inv.graph_eq (hwrites : s.writes = []) : s.graph = graph := by
  have hsettled := h.settled
  unfold InMemHNSWLayerInfo.settled at hsettled
  rw [hwrites] at hsettled
  exact hsettled

theorem Inv.write {write : Write} {writes : List Write} (hwrites : s.writes = write :: writes) :
    info.Inv { s with graph := info.apply s.graph write, writes } graph :=
  { h with
    settled := by
      rw [← h.settled]
      unfold InMemHNSWLayerInfo.settled
      rw [hwrites]
      rfl
    valid := h.valid.apply (fun v hv => (h.known v hv).1) (h.writes write (hwrites ▸ mem_cons_self))
    writes := fun w hw => h.writes w (hwrites ▸ mem_cons_of_mem write hw) }

theorem Inv.shrunk (v : Nat) : info.Shrunk v (info.list graph v) (info.keptNbrs graph v) := by
  have heq := getNodeOffsets_eq h.exact (fun o ho => (h.known o ho).1) v
  have hnodup : (info.getNodeOffsets graph v).Nodup := heq ▸ h.exact.nodup v
  have hshrunk := keptNbrs_shrunk hnodup
  rw [heq] at hshrunk
  exact hshrunk

theorem Inv.list_shrink (v w : Nat) : info.list (info.rewrite graph v (info.keptNbrs graph v)) w =
      if w = v then info.keptNbrs graph v else info.list graph w := by
  have hlen := (h.shrunk v).length_le
  have hT := info.maxDegree_lt
  exact list_rewrite (by omega) h.validSettled.lengths w

end

theorem length_list (info : InMemHNSWLayerInfo D) (graph : GraphBuffers) (v : Nat) :
    (info.list graph v).length = getCSRLength graph v := length_row

theorem Inv.shrink (h : info.Inv s graph) (hwrites : s.writes = []) (hv : s.shrinking = some v) :
    info.Inv { s with writes := info.shrinkForNode s.graph v, shrinking := none }
      (info.rewrite graph v (info.keptNbrs graph v)) := by
  have hgraph := h.graph_eq hwrites
  have hshrunk := h.shrunk v
  have hlist := h.list_shrink v
  have hT := info.maxDegree_lt
  have hin : v ∈ s.inserted := h.shrinking v hv
  have hkept : ∀ w ∈ info.keptNbrs graph v, w ∈ s.inserted ∧ w ≠ v :=
    fun w hw => h.exact.mem v w (hshrunk.subset w hw)
  have hlt : ∀ w ∈ info.keptNbrs graph v, w < info.numNodes :=
    fun w hw => (h.known w (hkept w hw).1).1
  have hle := hshrunk.length_le
  have hvalid := shrinkForNode_valid hin hkept (by omega)
  have hfold := foldl_shrinkForNode hlt
  have hlengths : ∀ w, getCSRLength (info.rewrite graph v (info.keptNbrs graph v)) w =
      if w = v then (info.keptNbrs graph v).length else getCSRLength graph w := by
    intro w
    rw [← length_list info, hlist w]
    split
    · rfl
    · exact length_list info graph w
  exact
    { h with
      settled := by
        rw [hgraph]
        exact hfold
      writes := by
        rw [hgraph]
        exact hvalid
      validSettled := by
        rw [← hfold]
        exact h.validSettled.foldl (fun o ho => (h.known o ho).1) hvalid
      exact :=
        { mem := by
            intro w u hu
            rw [hlist w] at hu
            split at hu
            next heq =>
              rw [heq]
              exact hkept u hu
            · exact h.exact.mem w u hu
          nodup := by
            intro w
            rw [hlist w]
            split
            · exact hshrunk.nodup
            · exact h.exact.nodup w }
      short := by
        intro w
        rw [hlengths w]
        split
        · exact .inl (by omega)
        next hne =>
          rcases h.short w with hlt' | hw
          · exact .inl hlt'
          · rw [hv] at hw
            exact absurd (some.inj hw).symm hne
      shrinking := fun w hw => by cases hw
      rels := by
        intro rel hrel
        have hnew := h.rels rel hrel
        refine ⟨hnew.src, hnew.dst, hnew.ne, ?_⟩
        rw [hlist rel.1]
        split
        next heq => exact fun hin' => hnew.fresh (heq ▸ hshrunk.subset _ hin')
        · exact hnew.fresh
      finalizing := by
        intro hfin
        refine ⟨(h.finalizing hfin).1, fun w => ?_⟩
        rw [hlengths w]
        split
        · exact .inl hle
        next hne =>
          rcases (h.finalizing hfin).2 w with hdone | hw | hleft
          · exact .inl hdone
          · rw [hv] at hw
            exact absurd (some.inj hw).symm hne
          · exact .inr (.inr hleft) }

theorem Inv.lt_of_not_shrinking (h : info.Inv s graph) (hshrinking : s.shrinking = none) (v : Nat) :
    getCSRLength graph v < info.degreeThresholdToShrink := by
  rcases h.short v with hlt | hv
  · exact hlt
  · rw [hshrinking] at hv
    cases hv

theorem getCSRLength_push {src : Nat} (hlt : getCSRLength graph src < info.degreeThresholdToShrink)
    (dst w : Nat) : getCSRLength (info.push graph src dst) w =
      if w = src then getCSRLength graph src + 1 else getCSRLength graph w :=
  toNat_update graph.csrLengths src w hlt

theorem Valid.increment {inserted : List Nat} (h : info.Valid inserted graph) {src : Nat}
    (hsrc : src ∈ inserted) (hlt : getCSRLength graph src < info.degreeThresholdToShrink) :
    info.Valid inserted { graph with csrLengths := (info.push graph src 0).csrLengths } where
  lengths := by
    intro w
    show getCSRLength (info.push graph src 0) w ≤ _
    rw [getCSRLength_push hlt]
    split
    · exact hlt
    · exact h.lengths w
  empty := by
    intro w hw
    show getCSRLength (info.push graph src 0) w = 0
    have hne : w ≠ src := fun heq => hw (heq ▸ hsrc)
    rw [getCSRLength_push hlt, if_neg hne]
    exact h.empty w hw
  entries := h.entries

theorem insertRel_eq {src dst : Nat} (hlt : getCSRLength s.graph src < info.degreeThresholdToShrink) :
    info.insertRel s src dst = some
      { s with
        graph := { s.graph with csrLengths := (info.push s.graph src dst).csrLengths }
        writes := [.setDstNode (src * info.degreeThresholdToShrink + getCSRLength s.graph src) dst]
        shrinking := if getCSRLength s.graph src = info.degreeThresholdToShrink - 1 then some src
          else none } := by
  have hinc : s.graph.csrLengths src + 1 = UInt16.ofNat (getCSRLength s.graph src + 1) := by
    rfl
  unfold insertRel incrementCSRLength push
  rw [← hinc]
  unfold getCSRLength at hlt ⊢
  simp only [if_pos hlt, map_some]

section

variable (h : info.Inv s graph) (hwrites : s.writes = []) (hshrinking : s.shrinking = none)

include h hwrites hshrinking

theorem Inv.rel {src dst : Nat} {rels : List (Nat × Nat)} (hrels : s.rels = (src, dst) :: rels) :
    ∃ s', info.insertRel { s with rels } src dst = some s' ∧
      info.Inv s' (info.push graph src dst) ∧ s'.rels = rels ∧ s'.nodes = s.nodes := by
  have hgraph := h.graph_eq hwrites
  have hlt := h.lt_of_not_shrinking hshrinking
  have hnew : info.NewRel s.inserted graph (src, dst) := h.rels _ (hrels ▸ mem_cons_self)
  have hdst := (h.known dst hnew.dst).1
  have hlist := fun w => list_push (v := w) (hlt src) h.validSettled.lengths dst
  have hinc := h.validSettled.increment hnew.src (hlt src)
  have hwrite : info.ValidWrite s.inserted
      (.setDstNode (src * info.degreeThresholdToShrink + getCSRLength graph src) dst) :=
    ⟨src, _, hlt src, rfl, hnew.dst, hnew.ne⟩
  have hpush : info.apply { graph with csrLengths := (info.push graph src 0).csrLengths }
      (.setDstNode (src * info.degreeThresholdToShrink + getCSRLength graph src) dst) =
        info.push graph src dst := apply_setDstNode hdst _
  have hnodup : ((src, dst) :: rels).Nodup := hrels ▸ h.nodup
  refine ⟨_, insertRel_eq (hgraph ▸ hlt src), ?_, rfl, rfl⟩
  simp only [hgraph]
  exact
    { h with
      settled := hpush
      valid := hinc
      writes := fun w hw => mem_singleton.mp hw ▸ hwrite
      validSettled := hpush ▸ hinc.apply (fun o ho => (h.known o ho).1) hwrite
      exact :=
        { mem := by
            intro w u hu
            rw [hlist w] at hu
            split at hu
            next heq =>
              rcases mem_append.mp hu with hu | hu
              · rw [heq]
                exact h.exact.mem src u hu
              · rw [heq, mem_singleton.mp hu]
                exact ⟨hnew.dst, hnew.ne⟩
            · exact h.exact.mem w u hu
          nodup := by
            intro w
            rw [hlist w]
            split
            · rw [nodup_append]
              refine ⟨h.exact.nodup src, nodup_singleton dst, fun a ha b hb heq => ?_⟩
              rw [mem_singleton] at hb
              exact hnew.fresh (hb ▸ heq ▸ ha)
            · exact h.exact.nodup w }
      short := by
        intro w
        rw [getCSRLength_push (hlt src)]
        have hw := hlt w
        split
        next heq =>
          by_cases hfull : getCSRLength graph src = info.degreeThresholdToShrink - 1
          · rw [if_pos hfull, heq]
            exact .inr rfl
          · rw [heq] at hw
            exact .inl (by omega)
        · exact .inl hw
      shrinking := by
        intro v hv
        split at hv
        · rw [← some.inj hv]
          exact hnew.src
        · cases hv
      rels := by
        intro rel hrel
        have hold := h.rels rel (hrels ▸ mem_cons_of_mem _ hrel)
        refine ⟨hold.src, hold.dst, hold.ne, ?_⟩
        rw [hlist rel.1]
        split
        next heq =>
          rw [mem_append, not_or]
          refine ⟨heq ▸ hold.fresh, fun hin => ?_⟩
          -- the pair is inserted only once
          have hsame : rel = (src, dst) := Prod.ext heq (mem_singleton.mp hin)
          exact (nodup_cons.mp hnodup).1 (hsame ▸ hrel)
        · exact hold.fresh
      nodup := (nodup_cons.mp hnodup).2
      finalizing := by
        intro hfin
        have hnil := (h.finalizing hfin).1
        rw [hrels] at hnil
        cases hnil }

theorem Inv.finalizeNode {v : Nat} {nodes : List Nat} (hnodes : s.nodes = v :: nodes) :
    info.Inv (if getCSRLength s.graph v ≤ info.maxDegree then { s with nodes }
        else { s with shrinking := some v, nodes }) graph := by
  have hgraph := h.graph_eq hwrites
  have hfin : s.finalized = true := by
    by_contra hnot
    have hnil := h.building (Bool.not_eq_true _ ▸ hnot)
    rw [hnodes] at hnil
    cases hnil
  obtain ⟨hrels, hleft⟩ := h.finalizing hfin
  -- what is left to do for a node other than this one
  have hother : ∀ w, w ≠ v → getCSRLength graph w ≤ info.maxDegree ∨ w ∈ nodes := by
    intro w hne
    rcases hleft w with hdone | hw | hw
    · exact .inl hdone
    · rw [hshrinking] at hw
      cases hw
    · rw [hnodes] at hw
      exact .inr ((mem_cons.mp hw).resolve_left hne)
  have hlength : getCSRLength s.graph v = getCSRLength graph v := by rw [hgraph]
  rw [hlength]
  split
  next hle =>
    exact
      { h with
        building := fun hnot => absurd (hfin.symm.trans hnot) (by decide)
        finalizing := by
          intro _
          refine ⟨hrels, fun w => ?_⟩
          by_cases hw : w = v
          · rw [hw]
            exact .inl hle
          · exact (hother w hw).imp_right .inr }
  next hlong =>
    exact
      { h with
        short := fun w => .inl (h.lt_of_not_shrinking hshrinking w)
        shrinking := by
          intro w hw
          rw [← some.inj hw]
          by_contra hnot
          have hempty := h.validSettled.empty v hnot
          omega
        building := fun hnot => absurd (hfin.symm.trans hnot) (by decide)
        finalizing := by
          intro _
          refine ⟨hrels, fun w => ?_⟩
          by_cases hw : w = v
          · rw [hw]
            exact .inr (.inl rfl)
          · exact (hother w hw).imp_right .inr }

end

end

end Ladybug.Vector.InMemHNSWLayerInfo
