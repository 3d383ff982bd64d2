import Ladybug.Vector.SearchInvariant

/-!
# The greedy descent in the upper layer (`vector/src/index/hnsw_index.cpp`)

From the entry point to the nearest neighbour, as long as there is one that is nearer than the node
itself: `InMemHNSWLayer::searchNN` while an index is built, and
`OnDiskHNSWIndex::searchNNInUpperLayer` on disk, where rows may have been deleted.
-/

namespace Ladybug.Vector

open List

/-- Distances as doubles: nothing compares with NaN, and `⊤` is `numeric_limits<double>::max()`,
which is less than infinity. -/
class MetricValue (D : Type) extends LT D, Zero D, Top D where
  decidableLT : DecidableLT D
  lt_irrefl : ∀ a : D, ¬ a < a
  lt_trans : ∀ a b c : D, a < b → b < c → a < c
  zero_lt_top : (0 : D) < ⊤

instance MetricValue.instDecidableLT {D : Type} [MetricValue D] : DecidableLT D := MetricValue.decidableLT

/-- A layer for one query: the scans of the neighbours, the rows that are visible and not null, and
their distances to the query vector. -/
structure UpperLayer (D : Type) where
  numNodes : Nat
  scanFwd : Nat → List Nat
  scan_lt : ∀ v, ∀ w ∈ scanFwd v, w < numNodes
  visible : Nat → Bool
  metricFunc : Nat → D
  entryPoint : Option Nat
  entry_lt : ∀ o ∈ entryPoint, o < numNodes

open HNSWSearch (NearestState)

namespace UpperLayer

variable {D : Type} [MetricValue D] (L : UpperLayer D)

def nearerNbr (t : NearestState D) (nbr : Nat) : NearestState D :=
  if L.visible nbr then
    let dist := L.metricFunc nbr
    if dist < t.minDist then { t with currentNodeOffset := nbr, minDist := dist } else t
  else t

def round (t : NearestState D) : NearestState D :=
  (L.scanFwd t.currentNodeOffset).foldl L.nearerNbr { t with lastMinDist := t.minDist }

-- `while (minDist < lastMinDist)`
def descend (start : NearestState D) (fuel : Nat) : Option (NearestState D) :=
  whileLoop (fun t => decide (t.minDist < t.lastMinDist)) (fun t => some (L.round t)) fuel start

def searchNNInUpperLayer (fuel : Nat) : Option (Option Nat) :=
  match L.entryPoint with
  | none => some none
  | some entry =>
    let minDist := if L.visible entry then L.metricFunc entry else 0
    (L.descend ⟨entry, minDist, ⊤⟩ fuel).map fun t => some t.currentNodeOffset

end UpperLayer

/-- A layer while it is built.  Only vectors that are not null are inserted. -/
structure InMemLayer (D : Type) where
  numNodes : Nat
  neighbors : Nat → List Nat
  neighbors_lt : ∀ v, ∀ w ∈ neighbors v, w < numNodes
  metricFunc : Nat → D

namespace InMemLayer

variable {D : Type} [MetricValue D] (L : InMemLayer D)

def nearerNbr (t : NearestState D) (nbr : Nat) : NearestState D :=
  let dist := L.metricFunc nbr
  if dist < t.minDist then { t with currentNodeOffset := nbr, minDist := dist } else t

def round (t : NearestState D) : NearestState D :=
  (L.neighbors t.currentNodeOffset).foldl L.nearerNbr { t with lastMinDist := t.minDist }

def searchNN (entryNode : Option Nat) (fuel : Nat) : Option (Option Nat) :=
  match entryNode with
  | none => some none
  | some entry =>
    (whileLoop (fun t : NearestState D => decide (t.minDist < t.lastMinDist))
      (fun t => some (L.round t)) fuel ⟨entry, L.metricFunc entry, ⊤⟩).map
        fun t => some t.currentNodeOffset

end InMemLayer

namespace UpperLayer

section

variable {D : Type} [MetricValue D] {L : UpperLayer D} {t : NearestState D}

def NoneNearer (L : UpperLayer D) (nbrs : List Nat) (t : NearestState D) : Prop :=
  ∀ w ∈ nbrs, L.visible w = true → ¬ L.metricFunc w < t.minDist

def MovedTo (L : UpperLayer D) (nbrs : List Nat) (t t' : NearestState D) : Prop :=
  t'.minDist < t.minDist ∧ t'.currentNodeOffset ∈ nbrs ∧
    L.visible t'.currentNodeOffset = true ∧ t'.minDist = L.metricFunc t'.currentNodeOffset

theorem nearerNbr_spec (L : UpperLayer D) (t : NearestState D) (w : Nat) :
    (L.nearerNbr t w = t ∧ (L.visible w = true → ¬ L.metricFunc w < t.minDist)) ∨
      (L.visible w = true ∧ L.metricFunc w < t.minDist ∧
        L.nearerNbr t w = { t with currentNodeOffset := w, minDist := L.metricFunc w }) := by
  unfold nearerNbr
  by_cases hvis : L.visible w = true
  · rw [if_pos hvis]
    by_cases hlt : L.metricFunc w < t.minDist
    · exact .inr ⟨hvis, hlt, if_pos hlt⟩
    · exact .inl ⟨if_neg hlt, fun _ => hlt⟩
  · rw [if_neg hvis]
    exact .inl ⟨rfl, fun h => absurd h hvis⟩

theorem foldl_nearerNbr (L : UpperLayer D) (nbrs : List Nat) (t : NearestState D) :
    (nbrs.foldl L.nearerNbr t).lastMinDist = t.lastMinDist ∧
      L.NoneNearer nbrs (nbrs.foldl L.nearerNbr t) ∧
      (nbrs.foldl L.nearerNbr t = t ∨ L.MovedTo nbrs t (nbrs.foldl L.nearerNbr t)) := by
  induction nbrs generalizing t with
  | nil => exact ⟨rfl, fun w hw => absurd hw not_mem_nil, .inl rfl⟩
  | cons w nbrs ih =>
    rw [foldl_cons]
    obtain ⟨hlast, hnone, hmoved⟩ := ih (L.nearerNbr t w)
    -- the least distance only goes down
    have hdown : ∀ d, ¬ d < (L.nearerNbr t w).minDist →
        ¬ d < (nbrs.foldl L.nearerNbr (L.nearerNbr t w)).minDist := by
      intro d hd hlt
      rcases hmoved with heq | hmoved
      · rw [heq] at hlt
        exact hd hlt
      · exact hd (MetricValue.lt_trans _ _ _ hlt hmoved.1)
    rcases nearerNbr_spec L t w with ⟨hsame, hfar⟩ | ⟨hvis, hnear, hnext⟩
    · rw [hsame] at hlast hnone hmoved hdown ⊢
      refine ⟨hlast, ?_, ?_⟩
      · intro v hv hvis
        rcases mem_cons.mp hv with heq | hv
        · rw [heq] at hvis ⊢
          exact hdown _ (hfar hvis)
        · exact hnone v hv hvis
      · rcases hmoved with heq | ⟨hlt, hin, hrest⟩
        · exact .inl heq
        · exact .inr ⟨hlt, mem_cons_of_mem w hin, hrest⟩
    · rw [hnext] at hlast hnone hmoved hdown ⊢
      refine ⟨hlast, ?_, .inr ?_⟩
      · intro v hv hvisv
        rcases mem_cons.mp hv with heq | hv
        · rw [heq]
          exact hdown _ (MetricValue.lt_irrefl _)
        · exact hnone v hv hvisv
      · rcases hmoved with heq | ⟨hlt, hin, hrest⟩
        · rw [heq]
          exact ⟨hnear, mem_cons_self, hvis, rfl⟩
        · exact ⟨MetricValue.lt_trans _ _ _ hlt hnear, mem_cons_of_mem w hin, hrest⟩

theorem round_spec (L : UpperLayer D) (t : NearestState D) : (L.round t).lastMinDist = t.minDist ∧
      L.NoneNearer (L.scanFwd t.currentNodeOffset) (L.round t) ∧
      (L.round t = { t with lastMinDist := t.minDist } ∨
        L.MovedTo (L.scanFwd t.currentNodeOffset) t (L.round t)) :=
  foldl_nearerNbr L (L.scanFwd t.currentNodeOffset) { t with lastMinDist := t.minDist }

/-- The node is the entry point with its first distance, or a visible node with its own; then the
entry point has a neighbour below its distance. -/
structure DescentInv (L : UpperLayer D) (start t : NearestState D) : Prop where
  lt : t.currentNodeOffset < L.numNodes
  node : (t.currentNodeOffset = start.currentNodeOffset ∧ t.minDist = start.minDist) ∨
    (L.visible t.currentNodeOffset = true ∧ t.minDist = L.metricFunc t.currentNodeOffset ∧
      ∃ w ∈ L.scanFwd start.currentNodeOffset, L.visible w = true ∧ L.metricFunc w < start.minDist)
  -- where no round is due, one has been made without a move, or none at all
  done : ¬ t.minDist < t.lastMinDist → t = start ∨ L.NoneNearer (L.scanFwd t.currentNodeOffset) t

theorem DescentInv.start (start : NearestState D) (hlt : start.currentNodeOffset < L.numNodes) :
    L.DescentInv start start :=
  ⟨hlt, .inl ⟨rfl, rfl⟩, fun _ => .inl rfl⟩

theorem DescentInv.round {start : NearestState D} (h : L.DescentInv start t) :
    L.DescentInv start (L.round t) := by
  obtain ⟨hlast, hnone, hmoved⟩ := round_spec L t
  rcases hmoved with heq | ⟨hlt, hin, hvis, hdist⟩
  · rw [heq] at hnone ⊢
    exact ⟨h.lt, h.node, fun _ => .inr hnone⟩
  · refine ⟨L.scan_lt _ _ hin, .inr ⟨hvis, hdist, ?_⟩, ?_⟩
    · rcases h.node with ⟨hcur, hmin⟩ | ⟨-, -, hnear⟩
      · refine ⟨(L.round t).currentNodeOffset, hcur ▸ hin, hvis, ?_⟩
        rw [← hdist, ← hmin]
        exact hlt
      · exact hnear
    · intro hdone
      rw [hlast] at hdone
      exact absurd hlt hdone

def nearerNodes (L : UpperLayer D) (dist : D) : Finset Nat :=
  (Finset.range L.numNodes).filter (L.metricFunc · < dist)

theorem nearerNodes_lt (hmoved : L.MovedTo (L.scanFwd t.currentNodeOffset) t (L.round t)) :
    (L.nearerNodes (L.round t).minDist).card < (L.nearerNodes t.minDist).card := by
  obtain ⟨hlt, hin, -, hdist⟩ := hmoved
  apply Finset.card_lt_card
  rw [Finset.ssubset_iff_of_subset]
  · refine ⟨(L.round t).currentNodeOffset, Finset.mem_filter.mpr ⟨Finset.mem_range.mpr
      (L.scan_lt _ _ hin), hdist ▸ hlt⟩, ?_⟩
    intro hmem
    exact MetricValue.lt_irrefl _ (hdist ▸ (Finset.mem_filter.mp hmem).2)
  · intro o ho
    obtain ⟨ho, hless⟩ := Finset.mem_filter.mp ho
    exact Finset.mem_filter.mpr ⟨ho, MetricValue.lt_trans _ _ _ hless hlt⟩

theorem descend_halts (L : UpperLayer D) (start : NearestState D)
    (hlt : start.currentNodeOffset < L.numNodes) :
    ∃ t, Halts (L.descend start) t ∧ L.DescentInv start t ∧ ¬ t.minDist < t.lastMinDist := by
  let bound (t : NearestState D) : Nat :=
    2 * (L.nearerNodes t.minDist).card + if t.minDist < t.lastMinDist then 1 else 0
  obtain ⟨t, hhalts, hinv, hdone⟩ := while_halts
    (fun t : NearestState D => decide (t.minDist < t.lastMinDist))
    (fun _ t => some (L.round t)) (measure bound).wf (L.DescentInv start)
    (fun t hinv hcond => by
      refine ⟨L.round t, halts_const _, hinv.round, ?_⟩
      show bound (L.round t) < bound t
      have hcond' : t.minDist < t.lastMinDist := of_decide_eq_true hcond
      obtain ⟨hlast, -, hmoved⟩ := round_spec L t
      have hbound : bound t = 2 * (L.nearerNodes t.minDist).card + 1 := by
        show _ + (if t.minDist < t.lastMinDist then 1 else 0) = _
        rw [if_pos hcond']
      rcases hmoved with heq | hmoved
      · -- the last round
        have hsame : bound (L.round t) = 2 * (L.nearerNodes t.minDist).card + 0 := by
          rw [heq]
          show _ + (if t.minDist < t.minDist then 1 else 0) = _
          rw [if_neg (MetricValue.lt_irrefl _)]
        omega
      · have hcard := nearerNodes_lt hmoved
        have hle : bound (L.round t) ≤ 2 * (L.nearerNodes (L.round t).minDist).card + 1 := by
          show _ + (if _ then 1 else 0) ≤ _
          split
          · exact Nat.le_refl _
          · exact Nat.le_succ _
        omega)
    (s := start) (DescentInv.start start hlt)
  exact ⟨t, hhalts, hinv, of_decide_eq_false hdone⟩

end

section

variable {D : Type} [MetricValue D]

/-- No visible neighbour is strictly nearer than the returned node; a deleted node is farther than
everything. -/
def LocallyNearest (L : UpperLayer D) (result : Option Nat) : Prop :=
  ∀ o ∈ result, ∀ w ∈ L.scanFwd o, L.visible w = true →
    L.visible o = true ∧ ¬ L.metricFunc w < L.metricFunc o

/-- The entry point lets the descent begin, or there is nowhere to go. -/
def EntryFit (L : UpperLayer D) : Prop :=
  ∀ entry ∈ L.entryPoint, (L.visible entry = true ∧ (L.metricFunc entry < ⊤ ∨
      ∀ w ∈ L.scanFwd entry, L.visible w = true → ¬ L.metricFunc w < L.metricFunc entry)) ∨
    (L.visible entry = false ∧ ((∀ w ∈ L.scanFwd entry, L.visible w = false) ∨
      ∃ w ∈ L.scanFwd entry, L.visible w = true ∧ L.metricFunc w < 0))

theorem locallyNearest_some (L : UpperLayer D) (o : Nat) : L.LocallyNearest (some o) ↔
    ∀ w ∈ L.scanFwd o, L.visible w = true →
      L.visible o = true ∧ ¬ L.metricFunc w < L.metricFunc o := by
  unfold LocallyNearest
  simp

theorem entryFit_some (L : UpperLayer D) {entry : Nat} (h : L.entryPoint = some entry) :
    L.EntryFit ↔ (L.visible entry = true ∧ (L.metricFunc entry < ⊤ ∨
        ∀ w ∈ L.scanFwd entry, L.visible w = true → ¬ L.metricFunc w < L.metricFunc entry)) ∨
      (L.visible entry = false ∧ ((∀ w ∈ L.scanFwd entry, L.visible w = false) ∨
        ∃ w ∈ L.scanFwd entry, L.visible w = true ∧ L.metricFunc w < 0)) := by
  unfold EntryFit
  rw [h]
  simp

theorem searchNNInUpperLayer_spec (L : UpperLayer D) :
    ∃ result, Halts L.searchNNInUpperLayer result ∧ (L.LocallyNearest result ↔ L.EntryFit) := by
  unfold searchNNInUpperLayer
  cases hentry : L.entryPoint with
  | none =>
    refine ⟨none, halts_const none, iff_of_true ?_ ?_⟩
    · intro o ho
      cases ho
    · intro o ho
      rw [hentry] at ho
      cases ho
  | some entry =>
    have hlt := L.entry_lt entry hentry
    obtain ⟨t, hhalts, hinv, hexit⟩ := L.descend_halts
      ⟨entry, if L.visible entry then L.metricFunc entry else 0, ⊤⟩ hlt
    refine ⟨some t.currentNodeOffset, hhalts.map _, ?_⟩
    rw [locallyNearest_some, entryFit_some L hentry]
    cases hvis : L.visible entry with
    | true =>
      rw [hvis] at hinv
      simp only [true_and, Bool.true_eq_false, false_and, or_false]
      -- at the end the least distance is that of the node
      have hnode : L.visible t.currentNodeOffset = true ∧
          t.minDist = L.metricFunc t.currentNodeOffset := by
        rcases hinv.node with ⟨hcur, hmin⟩ | ⟨hvist, hmin, -⟩
        · rw [hcur]
          exact ⟨hvis, hmin⟩
        · exact ⟨hvist, hmin⟩
      by_cases hmax : L.metricFunc entry < ⊤
      · refine iff_of_true ?_ (.inl hmax)
        rcases hinv.done hexit with heq | hnone
        · rw [heq] at hexit
          exact absurd hmax hexit
        · intro w hw hvisw
          rw [← hnode.2]
          exact ⟨hnode.1, hnone w hw hvisw⟩
      · -- no round is made
        have hstart : t = ⟨entry, L.metricFunc entry, ⊤⟩ := by
          obtain ⟨k, hk⟩ := hhalts
          have hlater := hk (k + 1) (Nat.le_succ k)
          rw [hvis] at hlater
          have hsame : L.descend ⟨entry, L.metricFunc entry, ⊤⟩ (k + 1) =
              some ⟨entry, L.metricFunc entry, ⊤⟩ := if_neg (by simpa using hmax)
          exact Option.some.inj (hlater.symm.trans hsame)
        rw [hstart]
        constructor
        · intro h
          exact .inr fun w hw hvisw => (h w hw hvisw).2
        · rintro (h | h)
          · exact absurd h hmax
          · exact fun w hw hvisw => ⟨hvis, h w hw hvisw⟩
    | false =>
      rw [hvis] at hinv
      simp only [Bool.false_eq_true, false_and, true_and, false_or]
      have hnone : L.NoneNearer (L.scanFwd t.currentNodeOffset) t := by
        rcases hinv.done hexit with heq | hnone
        · rw [heq] at hexit
          exact absurd MetricValue.zero_lt_top hexit
        · exact hnone
      rcases hinv.node with ⟨hcur, hmin⟩ | ⟨hvist, hmin, hnear⟩
      · -- the deleted entry point is returned
        rw [hcur, hvis]
        simp only [Bool.false_eq_true, false_and]
        constructor
        · intro h
          exact .inl fun w hw => Bool.eq_false_iff.mpr (h w hw)
        · rintro (h | ⟨w, hw, hvisw, hless⟩)
          · intro w hw hvisw
            rw [h w hw] at hvisw
            cases hvisw
          · rw [hcur] at hnone
            exact absurd (hmin ▸ hless) (hnone w hw hvisw)
      · refine iff_of_true ?_ (.inr hnear)
        intro w hw hvisw
        rw [← hmin]
        exact ⟨hvist, hnone w hw hvisw⟩

end

end UpperLayer

section

variable {D : Type} [MetricValue D]

/-- While an index is built every node is visible. -/
def InMemLayer.toUpperLayer (M : InMemLayer D) (entryNode : Option Nat)
    (hentry : ∀ o ∈ entryNode, o < M.numNodes) : UpperLayer D where
  numNodes := M.numNodes
  scanFwd := M.neighbors
  scan_lt := M.neighbors_lt
  visible _ := true
  metricFunc := M.metricFunc
  entryPoint := entryNode
  entry_lt := hentry

theorem InMemLayer.searchNN_eq (M : InMemLayer D) (entryNode : Option Nat)
    (hentry : ∀ o ∈ entryNode, o < M.numNodes) :
    M.searchNN entryNode = (M.toUpperLayer entryNode hentry).searchNNInUpperLayer := by
  funext fuel
  cases entryNode with
  | none | some => rfl

/-- Both descents end, and the node they return has no visible neighbour that is nearer exactly when
the entry point is fit. -/
theorem descents_locallyNearest_iff (L : UpperLayer D) (M : InMemLayer D) (entryNode : Option Nat)
    (hentry : ∀ o ∈ entryNode, o < M.numNodes) :
    (∃ result, Halts L.searchNNInUpperLayer result ∧ (L.LocallyNearest result ↔ L.EntryFit)) ∧
    ∃ result, Halts (M.searchNN entryNode) result ∧
      ((∀ o ∈ result, ∀ w ∈ M.neighbors o, ¬ M.metricFunc w < M.metricFunc o) ↔
        ∀ entry ∈ entryNode, M.metricFunc entry < ⊤ ∨
          ∀ w ∈ M.neighbors entry, ¬ M.metricFunc w < M.metricFunc entry) := by
  refine ⟨L.searchNNInUpperLayer_spec, ?_⟩
  obtain ⟨result, hhalts, hiff⟩ := (M.toUpperLayer entryNode hentry).searchNNInUpperLayer_spec
  refine ⟨result, M.searchNN_eq entryNode hentry ▸ hhalts, ?_⟩
  have hlocal : (M.toUpperLayer entryNode hentry).LocallyNearest result ↔
      ∀ o ∈ result, ∀ w ∈ M.neighbors o, ¬ M.metricFunc w < M.metricFunc o := by
    constructor
    · exact fun h o ho w hw => (h o ho w hw rfl).2
    · exact fun h o ho w hw _ => ⟨rfl, h o ho w hw⟩
  rw [← hlocal, hiff]
  constructor
  · intro h entry he
    rcases h entry he with ⟨-, hmax | hnone⟩ | ⟨hfalse, -⟩
    · exact .inl hmax
    · exact .inr fun w hw => hnone w hw rfl
    · cases hfalse
  · intro h entry he
    refine .inl ⟨rfl, (h entry he).imp_right ?_⟩
    exact fun hnone w hw _ => hnone w hw

end

/-- Distances that are natural numbers, with a greatest one. -/
abbrev natMetric : MetricValue Nat where
  lt := (· < ·)
  zero := 0
  top := 1000
  decidableLT := inferInstance
  lt_irrefl := Nat.lt_irrefl
  lt_trans _ _ _ := Nat.lt_trans
  zero_lt_top := by decide

def triangle (visible : Nat → Bool) : UpperLayer Nat where
  numNodes := 3
  scanFwd v := [0, 1, 2].filter (· ≠ v)
  scan_lt v w hw := by
    have hin := (mem_filter.mp hw).1
    simp at hin
    omega
  visible := visible
  metricFunc v := v + 5
  entryPoint := some 2
  entry_lt o ho := by
    cases ho
    decide

theorem descents_locallyNearest_triangle :
    (∃ result, Halts (@UpperLayer.searchNNInUpperLayer Nat natMetric (triangle fun _ ↦ true)) result ∧
      @UpperLayer.LocallyNearest Nat natMetric (triangle fun _ => true) result) := by
  have h := (@descents_locallyNearest_iff Nat natMetric (triangle fun _ => true)
    ⟨1, fun _ => [], fun _ _ hw => absurd hw not_mem_nil, fun _ => 0⟩ (some 0)
    (fun o ho => by cases ho; decide)).1
  obtain ⟨result, hhalts, hiff⟩ := h
  refine ⟨result, hhalts, hiff.mpr ?_⟩
  intro entry he
  cases he
  exact .inl ⟨rfl, .inl (by decide)⟩

/-- A deleted entry point with two visible neighbours is returned. -/
theorem deleted_entry_returned : ¬ ∀ (D : Type) (_ : MetricValue D) (L : UpperLayer D)
    (result : Option Nat), Halts L.searchNNInUpperLayer result → L.LocallyNearest result := by
  intro hall
  let L := triangle (· ≠ 2)
  have hrun : Halts (@UpperLayer.searchNNInUpperLayer Nat natMetric L) (some 2) := by
    refine ⟨2, fun fuel hfuel => ?_⟩
    obtain ⟨k, rfl⟩ := Nat.exists_eq_add_of_le' hfuel
    rfl
  have hvisible := (hall Nat natMetric L (some 2) hrun 2 rfl 0 (by decide) rfl).1
  cases hvisible

end Ladybug.Vector
