import Ladybug.Algo.ColouringScc
import Ladybug.Algo.KosarajuCorrect
import Mathlib.Data.Nat.Find

/-!
# Colouring finds the strong components

Whatever the bound and the order of the relaxations, a component id is the offset of a node of the
component.  With as many iterations as nodes every propagation is complete, and then each round
decides whole components, among them that of the smallest undecided node.  All this rests on the
offsets of different tables being different numbers.
-/

namespace Ladybug.Algo

open Relation List Finset

/-! ## 1. Offsets -/

/-- No table overflows the 32-bit counters, and no nonempty one the 32-bit start offsets. -/
def LayoutOk (sizes : List Nat) : Prop :=
  ∀ t n, sizes[t]? = some n → n < 2 ^ 32 ∧ (0 < n → (sizes.take t).sum < 2 ^ 32)

theorem startOffset_eq (sizes : List Nat) (t : Nat) :
    startOffset sizes t = (sizes.take t).sum % 2 ^ 32 := by
  have hfold : ∀ (l : List Nat) (o : UInt32),
      (l.foldl (fun offset n => offset + UInt32.ofNat n) o).toNat = (o.toNat + l.sum) % 2 ^ 32 := by
    intro l
    induction l with
    | nil =>
      intro o
      exact (Nat.mod_eq_of_lt o.toNat_lt).symm
    | cons n l ih =>
      intro o
      rw [foldl_cons, ih, UInt32.toNat_add, UInt32.toNat_ofNat', List.sum_cons]
      omega
  unfold startOffset
  rw [hfold]
  show (0 + _) % 2 ^ 32 = _
  rw [Nat.zero_add]

variable {sizes : List Nat} {t n : Nat} {v : NodeID} {g : TableGraph}

theorem sum_take_succ (h : sizes[t]? = some n) :
    (sizes.take (t + 1)).sum = (sizes.take t).sum + n := by
  rw [take_add_one, h, sum_append]
  simp

theorem sum_take_mono (sizes : List Nat) {s : Nat} (h : s ≤ t) :
    (sizes.take s).sum ≤ (sizes.take t).sum := by
  obtain ⟨k, rfl⟩ := Nat.exists_eq_add_of_le h
  rw [take_add, sum_append]
  exact Nat.le_add_right _ _

theorem sequenceID_eq (hok : LayoutOk sizes) (hn : sizes[v.table]? = some n) (hlt : v.offset < n) :
    sequenceID sizes v = (sizes.take v.table).sum + v.offset := by
  unfold sequenceID
  rw [startOffset_eq, Nat.mod_eq_of_lt ((hok v.table n hn).2 (by omega))]

theorem sequenceID_inj (hok : LayoutOk g.sizes) {u : NodeID} (hu : g.Node u) (hv : g.Node v)
    (heq : sequenceID g.sizes u = sequenceID g.sizes v) : u = v := by
  obtain ⟨⟨m, hm, hlt⟩, -⟩ := hu
  obtain ⟨⟨n, hn, hlt'⟩, -⟩ := hv
  rw [sequenceID_eq hok hm hlt, sequenceID_eq hok hn hlt'] at heq
  obtain ⟨s, i⟩ := u
  obtain ⟨t, j⟩ := v
  simp only at *
  -- a smaller table ends before a larger one starts
  have hends := sum_take_succ hm
  have hends' := sum_take_succ hn
  rcases Nat.lt_trichotomy s t with hst | rfl | hts
  · have hmono := sum_take_mono g.sizes (show s + 1 ≤ t from hst)
    omega
  · congr
    omega
  · have hmono := sum_take_mono g.sizes (show t + 1 ≤ s from hts)
    omega

theorem sequenceID_valid (hok : LayoutOk g.sizes) (hv : g.Node v) :
    sequenceID g.sizes v ≠ INVALID_COMPONENT_ID := by
  obtain ⟨⟨n, hn, hlt⟩, -⟩ := hv
  have hsize := (hok v.table n hn).1
  have hstart := (hok v.table n hn).2 (by omega)
  rw [sequenceID_eq hok hn hlt]
  unfold INVALID_COMPONENT_ID
  omega

/-! ## 2. Paths -/

section

variable {g : TableGraph} {ids : ComponentIDs} {u v : NodeID}

def Undecided (ids : ComponentIDs) (v : NodeID) : Prop := ¬ ids.hasValidComponentID v = true

theorem node_of_edges (hu : g.Node u) (h : ReflTransGen g.Edge u v) : g.Node v := by
  induction h with
  | refl => exact hu
  | tail _ hedge _ => exact g.fwd_node _ _ hedge.1 hedge.2

abbrev FwdPass (g : TableGraph) (ids : ComponentIDs) : NodeID → NodeID → Prop :=
  Passes (fun v => !ids.hasValidComponentID v) g.scanFwd

abbrev BwdPass (g : TableGraph) (ids : ComponentIDs) : NodeID → NodeID → Prop :=
  Passes (fun v => !ids.hasValidComponentID v) g.scanBwd

theorem reach_of_fwd (hu : g.Node u) (h : ReflTransGen (FwdPass g ids) u v) :
    ReflTransGen g.Edge u v := by
  induction h with
  | refl => exact .refl
  | tail _ hpass ih => exact ih.tail ⟨node_of_edges hu ih, hpass.1⟩

theorem edge_of_bwd (hu : g.Node u) (h : v ∈ g.scanBwd u) : g.Edge v u := by
  have hv : g.Node v := g.bwd_node u v hu h
  exact ⟨hv, (g.transpose v u hv hu).mpr h⟩

theorem reach_of_bwd (hu : g.Node u) (h : ReflTransGen (BwdPass g ids) u v) :
    g.Node v ∧ ReflTransGen g.Edge v u := by
  induction h with
  | refl => exact ⟨hu, .refl⟩
  | tail _ hpass ih =>
    have hedge := edge_of_bwd ih.1 hpass.1
    exact ⟨hedge.1, .head hedge ih.2⟩

def WholeComponents (g : TableGraph) (ids : ComponentIDs) : Prop :=
  ∀ u v, g.Node u → ids.hasValidComponentID u = true → Strong g.Edge u v → ids v = ids u

theorem WholeComponents.undecided (h : WholeComponents g ids) (hu : g.Node u)
    (hopen : Undecided ids u) (huv : Strong g.Edge u v) : Undecided ids v := by
  intro hvalid
  apply hopen
  have hsame := h v u (node_of_edges hu huv.1) hvalid huv.symm
  unfold ComponentIDs.hasValidComponentID at hvalid ⊢
  rw [hsame]
  exact hvalid

theorem passes_of_strong (hwhole : WholeComponents g ids) (hu : g.Node u)
    (hopen : Undecided ids u) (huv : Strong g.Edge u v) :
    ReflTransGen (FwdPass g ids) u v ∧ ReflTransGen (BwdPass g ids) u v := by
  have hfwd : ∀ w, ReflTransGen g.Edge u w → ReflTransGen g.Edge w u →
      ReflTransGen (FwdPass g ids) u w := by
    intro w hw
    induction hw with
    | refl => exact fun _ => .refl
    | tail hpath hedge ih =>
      intro hback
      have hopen' := hwhole.undecided hu hopen ⟨hpath.tail hedge, hback⟩
      exact (ih (.head hedge hback)).tail ⟨hedge.2, by simpa [Undecided] using hopen'⟩
  have hbwd : ∀ w, ReflTransGen g.Edge w u → ReflTransGen g.Edge u w →
      ReflTransGen (BwdPass g ids) u w := by
    intro w hw
    induction hw using ReflTransGen.head_induction_on with
    | refl => exact fun _ => .refl
    | head hedge hpath ih =>
      rename_i a b
      intro hfrom
      have hopen' := hwhole.undecided hu hopen ⟨hfrom, .head hedge hpath⟩
      have hb : g.Node b := node_of_edges hu (hfrom.tail hedge)
      have hstep : a ∈ g.scanBwd b := (g.transpose a b hedge.1 hb).mp hedge.2
      exact (ih (hfrom.tail hedge)).tail ⟨hstep, by simpa [Undecided] using hopen'⟩
  exact ⟨hfwd v huv.1 huv.2, hbwd v huv.2 huv.1⟩

end

/-! ## 3. One round -/

section

variable {g : TableGraph} {sched : Schedule} {maxIterations i : Nat} {ids : ComponentIDs}
  {u v w : NodeID}

theorem mem_frontier : v ∈ g.nodes.filter (fun v => !ids.hasValidComponentID v) ↔
    g.Node v ∧ Undecided ids v := by
  rw [mem_filter, TableGraph.mem_nodes]
  simp [Undecided]

def Root (g : TableGraph) (sched : Schedule) (maxIterations i : Nat) (ids : ComponentIDs)
    (v : NodeID) : Prop :=
  (g.Node v ∧ Undecided ids v) ∧ fwdColors g sched maxIterations i ids v = sequenceID g.sizes v

theorem mem_roots : v ∈ g.nodes.filter (fun v => !ids.hasValidComponentID v &&
    fwdColors g sched maxIterations i ids v = sequenceID g.sizes v) ↔
    Root g sched maxIterations i ids v := by
  unfold Root
  rw [mem_filter, TableGraph.mem_nodes]
  simp [Undecided, and_assoc]

theorem fwd_spread (g : TableGraph) (ids : ComponentIDs) :
    Spread g.nodes (fun v => !ids.hasValidComponentID v) g.scanFwd (sequenceID g.sizes)
      (fun v => g.Node v ∧ Undecided ids v) (sequenceID g.sizes)
      (g.nodes.filter fun v => !ids.hasValidComponentID v) :=
  Spread.start _ _ _ (fun _ hv => mem_frontier.mp hv) (fun _ _ hv => mem_frontier.mpr hv)

theorem bwd_spread (g : TableGraph) (sched : Schedule) (maxIterations i : Nat)
    (ids : ComponentIDs) :
    Spread g.nodes (fun v => !ids.hasValidComponentID v) g.scanBwd (sequenceID g.sizes)
      (Root g sched maxIterations i ids) (sequenceID g.sizes)
      (g.nodes.filter fun v => !ids.hasValidComponentID v &&
        fwdColors g sched maxIterations i ids v = sequenceID g.sizes v) :=
  Spread.start _ _ _ (fun _ hv => mem_roots.mp hv) (fun _ _ hv => mem_roots.mpr hv)

theorem fwdColors_eq : fwdColors g sched maxIterations i ids =
    propagate (sched.order i .fwd) g.nodes (relax fun v => !ids.hasValidComponentID v) g.scanFwd
      maxIterations 0 (sequenceID g.sizes) (g.nodes.filter fun v ↦ !ids.hasValidComponentID v) := by
  unfold fwdColors runAlgorithmEdgeCompute
  rw [edgeCompute_eq_relax]

theorem bwdColors_eq : bwdColors g sched maxIterations i ids =
    propagate (sched.order i .bwd) g.nodes (relax fun v => !ids.hasValidComponentID v) g.scanBwd
      maxIterations 0 (sequenceID g.sizes) (g.nodes.filter fun v => !ids.hasValidComponentID v &&
        fwdColors g sched maxIterations i ids v = sequenceID g.sizes v) := by
  unfold bwdColors runAlgorithmEdgeCompute
  rw [edgeCompute_eq_relax]

theorem fwdColors_le (v : NodeID) :
    fwdColors g sched maxIterations i ids v ≤ sequenceID g.sizes v := by
  rw [fwdColors_eq]
  exact (fwd_spread g ids).propagate_le (sched.perm i .fwd) _ _ v

theorem bwdColors_le (v : NodeID) :
    bwdColors g sched maxIterations i ids v ≤ sequenceID g.sizes v := by
  rw [bwdColors_eq]
  exact (bwd_spread g sched maxIterations i ids).propagate_le (sched.perm i .bwd) _ _ v

theorem fwdColors_from (sched : Schedule) (maxIterations i : Nat) (hv : g.Node v)
    (hopen : Undecided ids v) :
    ∃ u, (g.Node u ∧ Undecided ids u) ∧ ReflTransGen (FwdPass g ids) u v ∧
      fwdColors g sched maxIterations i ids v = sequenceID g.sizes u := by
  have hcolour := (fwd_spread g ids).propagate_colour (sched.perm i .fwd) maxIterations 0 v
  rw [← fwdColors_eq] at hcolour
  rcases hcolour with hown | hsource
  · exact ⟨v, ⟨hv, hopen⟩, .refl, hown⟩
  · exact hsource

theorem bwdColors_from (g : TableGraph) (sched : Schedule) (maxIterations i : Nat)
    (ids : ComponentIDs) (v : NodeID) :
    bwdColors g sched maxIterations i ids v = sequenceID g.sizes v ∨
      ∃ s, Root g sched maxIterations i ids s ∧ ReflTransGen (BwdPass g ids) s v ∧
        bwdColors g sched maxIterations i ids v = sequenceID g.sizes s := by
  have hcolour := (bwd_spread g sched maxIterations i ids).propagate_colour (sched.perm i .bwd)
    maxIterations 0 v
  rw [← bwdColors_eq] at hcolour
  exact hcolour

theorem colors_agree (hok : LayoutOk g.sizes) (hv : g.Node v) (hopen : Undecided ids v)
    (heq : fwdColors g sched maxIterations i ids v = bwdColors g sched maxIterations i ids v) :
    ∃ r, g.Node r ∧ Strong g.Edge v r ∧
      fwdColors g sched maxIterations i ids v = sequenceID g.sizes r := by
  obtain ⟨u, ⟨hu, -⟩, hreach, hfwd⟩ := fwdColors_from sched maxIterations i hv hopen
  obtain ⟨w, hw, hback, hbwd⟩ : ∃ w, g.Node w ∧ ReflTransGen g.Edge v w ∧
      bwdColors g sched maxIterations i ids v = sequenceID g.sizes w := by
    rcases bwdColors_from g sched maxIterations i ids v with hown | ⟨s, hs, hreach', hval⟩
    · exact ⟨v, hv, .refl, hown⟩
    · exact ⟨s, hs.1.1, (reach_of_bwd hs.1.1 hreach').2, hval⟩
  have hsame : u = w := sequenceID_inj hok hu hw (hfwd.symm.trans (heq.trans hbwd))
  exact ⟨u, hu, ⟨hsame ▸ hback, reach_of_fwd hu hreach⟩, hfwd⟩

end

/-! ## 4. A complete round -/

section

variable {g : TableGraph} {sched : Schedule} {maxIterations i : Nat} {ids : ComponentIDs}
  {u v w : NodeID}

theorem fwdColors_complete (hmax : g.nodes.length ≤ maxIterations) (hu : g.Node u)
    (hopen : Undecided ids u) (h : ReflTransGen (FwdPass g ids) u v) :
    fwdColors g sched maxIterations i ids v ≤ sequenceID g.sizes u := by
  have hstay : ∀ s a, g.Node s ∧ Undecided ids s → ReflTransGen (FwdPass g ids) s a →
      g.Node a ∧ Undecided ids a := by
    intro s a hs ha
    induction ha with
    | refl => exact hs
    | tail _ hpass ih => exact ⟨g.fwd_node _ _ ih.1 hpass.1, by simpa [Undecided] using hpass.2⟩
  have hsettled := (fwd_spread g ids).propagate_settles (sched.perm i .fwd) (fun a b ha hab => by
      rw [TableGraph.mem_nodes] at ha ⊢
      exact g.fwd_node a b ha hab.1)
    (fun s hs => TableGraph.mem_nodes.mpr hs.1)
    (fun s a hs ha hnot => absurd (hstay s a hs ha) hnot) hmax 0 v
  rw [← fwdColors_eq] at hsettled
  exact not_lt.mp fun hlt => hsettled ⟨u, ⟨hu, hopen⟩, h, hlt⟩

theorem fwd_of_bwd (hu : g.Node u) (hopen : Undecided ids u)
    (h : ReflTransGen (BwdPass g ids) u v) :
    (g.Node v ∧ Undecided ids v) ∧ ReflTransGen (FwdPass g ids) v u := by
  induction h with
  | refl => exact ⟨⟨hu, hopen⟩, .refl⟩
  | tail _ hpass ih =>
    have hedge := edge_of_bwd ih.1.1 hpass.1
    refine ⟨⟨hedge.1, by simpa [Undecided] using hpass.2⟩, .head ⟨hedge.2, ?_⟩ ih.2⟩
    simpa [Undecided] using ih.1.2

theorem bwdColors_complete (hok : LayoutOk g.sizes) (hmax : g.nodes.length ≤ maxIterations)
    (hroot : Root g sched maxIterations i ids u) (h : ReflTransGen (BwdPass g ids) u v) :
    bwdColors g sched maxIterations i ids v ≤ sequenceID g.sizes u := by
  have hsettled := (bwd_spread g sched maxIterations i ids).propagate_settles (sched.perm i .bwd)
    (fun a b ha hab => by
      rw [TableGraph.mem_nodes] at ha ⊢
      exact g.bwd_node a b ha hab.1)
    (fun s hs => TableGraph.mem_nodes.mpr hs.1.1)
    (fun s a hs ha hnot => by
      -- a root has the smallest offset of all that reach it
      obtain ⟨⟨hnode, hopen⟩, hto⟩ := fwd_of_bwd hs.1.1 hs.1.2 ha
      have hle : fwdColors g sched maxIterations i ids s ≤ sequenceID g.sizes a :=
        fwdColors_complete hmax hnode hopen hto
      rw [hs.2] at hle
      refine lt_of_le_of_ne hle fun heq => hnot ?_
      rw [← sequenceID_inj hok hs.1.1 hnode heq]
      exact hs)
    hmax 0 v
  rw [← bwdColors_eq] at hsettled
  exact not_lt.mp fun hlt => hsettled ⟨u, hroot, h, hlt⟩

theorem fwdColors_strong (hmax : g.nodes.length ≤ maxIterations) (hwhole : WholeComponents g ids)
    (hv : g.Node v) (hopen : Undecided ids v) (hvw : Strong g.Edge v w) :
    fwdColors g sched maxIterations i ids w = fwdColors g sched maxIterations i ids v := by
  have hle : ∀ a b, g.Node a → Undecided ids a → Strong g.Edge a b →
      fwdColors g sched maxIterations i ids b ≤ fwdColors g sched maxIterations i ids a := by
    intro a b ha hopen' hab
    obtain ⟨s, ⟨hs, hsopen⟩, hreach, hval⟩ := fwdColors_from sched maxIterations i ha hopen'
    rw [hval]
    exact fwdColors_complete hmax hs hsopen (hreach.trans (passes_of_strong hwhole ha hopen' hab).1)
  exact le_antisymm (hle v w hv hopen hvw)
    (hle w v (node_of_edges hv hvw.1) (hwhole.undecided hv hopen hvw) hvw.symm)

theorem colors_strong (hok : LayoutOk g.sizes) (hmax : g.nodes.length ≤ maxIterations)
    (hwhole : WholeComponents g ids) (hv : g.Node v) (hopen : Undecided ids v)
    (heq : fwdColors g sched maxIterations i ids v = bwdColors g sched maxIterations i ids v)
    (hvw : Strong g.Edge v w) :
    fwdColors g sched maxIterations i ids w = fwdColors g sched maxIterations i ids v ∧
      bwdColors g sched maxIterations i ids w = fwdColors g sched maxIterations i ids v := by
  have hw : g.Node w := node_of_edges hv hvw.1
  have hwopen := hwhole.undecided hv hopen hvw
  have hfwd : fwdColors g sched maxIterations i ids w = fwdColors g sched maxIterations i ids v :=
    fwdColors_strong hmax hwhole hv hopen hvw
  refine ⟨hfwd, ?_⟩
  obtain ⟨r, hr, hvr, hval⟩ := colors_agree hok hv hopen heq
  have hropen := hwhole.undecided hv hopen hvr
  -- the node that gives the component its colour is a root
  have hroot : Root g sched maxIterations i ids r :=
    ⟨⟨hr, hropen⟩, (fwdColors_strong hmax hwhole hv hopen hvr).trans hval⟩
  have hupper := bwdColors_complete hok hmax hroot
    (passes_of_strong hwhole hr hropen (hvr.symm.trans hvw)).2
  have hlower : sequenceID g.sizes r ≤ bwdColors g sched maxIterations i ids w := by
    rcases bwdColors_from g sched maxIterations i ids w with hown | ⟨s, hs, hreach, hval'⟩
    · rw [hown, ← hval, ← hfwd]
      exact fwdColors_le w
    · rw [hval', ← hval, heq]
      exact bwdColors_complete hok hmax hs
        (hreach.trans (passes_of_strong hwhole hw hwopen hvw.symm).2)
  rw [hval]
  exact le_antisymm hupper hlower

theorem exists_agree (sched : Schedule) (maxIterations i : Nat) (hv : g.Node v)
    (hopen : Undecided ids v) :
    ∃ r, (g.Node r ∧ Undecided ids r) ∧
      fwdColors g sched maxIterations i ids r = bwdColors g sched maxIterations i ids r := by
  obtain ⟨r, hr, hmin⟩ := (measure (sequenceID g.sizes)).wf.has_min
    {v | g.Node v ∧ Undecided ids v} ⟨v, hv, hopen⟩
  have hleast : ∀ s, g.Node s ∧ Undecided ids s → sequenceID g.sizes r ≤ sequenceID g.sizes s :=
    fun s hs => not_lt.mp (hmin s hs)
  refine ⟨r, hr, ?_⟩
  have hfwd : fwdColors g sched maxIterations i ids r = sequenceID g.sizes r := by
    obtain ⟨s, hs, -, hval⟩ := fwdColors_from sched maxIterations i hr.1 hr.2
    apply le_antisymm (fwdColors_le r)
    rw [hval]
    exact hleast s hs
  have hbwd : bwdColors g sched maxIterations i ids r = sequenceID g.sizes r := by
    rcases bwdColors_from g sched maxIterations i ids r with hown | ⟨s, hs, -, hval⟩
    · exact hown
    · apply le_antisymm (bwdColors_le r)
      rw [hval]
      exact hleast s hs.1
  rw [hfwd, hbwd]

end

/-! ## 5. The main loop -/

section

variable {g : TableGraph} {sched : Schedule} {maxIterations i : Nat} {ids : ComponentIDs}
  {u v : NodeID}

def NamesComponents (g : TableGraph) (ids : ComponentIDs) : Prop :=
  ∀ v, g.Node v → ids.hasValidComponentID v = true →
    ∃ r, g.Node r ∧ Strong g.Edge v r ∧ ids v = sequenceID g.sizes r

theorem updateComponentIDs_of_valid (h : ids.hasValidComponentID v = true) :
    updateComponentIDs g sched maxIterations i ids v = ids v := by
  unfold updateComponentIDs
  rw [if_neg]
  rintro ⟨-, hnot, -⟩
  rw [h] at hnot
  exact absurd hnot (by decide)

theorem updateComponentIDs_of_agree (hv : g.Node v) (hopen : Undecided ids v)
    (heq : fwdColors g sched maxIterations i ids v = bwdColors g sched maxIterations i ids v) :
    updateComponentIDs g sched maxIterations i ids v = fwdColors g sched maxIterations i ids v := by
  unfold updateComponentIDs
  rw [if_pos]
  exact ⟨TableGraph.mem_nodes.mpr hv, by simpa [Undecided] using hopen, heq⟩

theorem updateComponentIDs_of_differ
    (hne : fwdColors g sched maxIterations i ids v ≠ bwdColors g sched maxIterations i ids v) :
    updateComponentIDs g sched maxIterations i ids v = ids v := by
  unfold updateComponentIDs
  rw [if_neg]
  exact fun h => hne h.2.2

theorem updateComponentIDs_cases
    (h : (updateComponentIDs g sched maxIterations i ids).hasValidComponentID v = true) :
    ids.hasValidComponentID v = true ∨ Undecided ids v ∧
      fwdColors g sched maxIterations i ids v = bwdColors g sched maxIterations i ids v := by
  by_cases hvalid : ids.hasValidComponentID v = true
  · exact .inl hvalid
  · refine .inr ⟨hvalid, ?_⟩
    by_contra hne
    unfold ComponentIDs.hasValidComponentID at h hvalid
    rw [updateComponentIDs_of_differ hne] at h
    exact hvalid h

theorem NamesComponents.update (hok : LayoutOk g.sizes) (h : NamesComponents g ids) :
    NamesComponents g (updateComponentIDs g sched maxIterations i ids) := by
  intro v hv hvalid
  rcases updateComponentIDs_cases hvalid with hold | ⟨hopen, heq⟩
  · rw [updateComponentIDs_of_valid hold]
    exact h v hv hold
  · rw [updateComponentIDs_of_agree hv hopen heq]
    exact colors_agree hok hv hopen heq

theorem WholeComponents.update (hok : LayoutOk g.sizes) (hmax : g.nodes.length ≤ maxIterations)
    (h : WholeComponents g ids) :
    WholeComponents g (updateComponentIDs g sched maxIterations i ids) := by
  intro u v hu hvalid huv
  have hv : g.Node v := node_of_edges hu huv.1
  rcases updateComponentIDs_cases hvalid with hold | ⟨hopen, heq⟩
  · have hsame := h u v hu hold huv
    have hvold : ids.hasValidComponentID v = true := by
      unfold ComponentIDs.hasValidComponentID at hold ⊢
      rw [hsame]
      exact hold
    rw [updateComponentIDs_of_valid hold, updateComponentIDs_of_valid hvold, hsame]
  · obtain ⟨hfwd, hbwd⟩ := colors_strong hok hmax h hu hopen heq huv
    rw [updateComponentIDs_of_agree hu hopen heq, updateComponentIDs_of_agree hv
      (h.undecided hu hopen huv) (hfwd.trans hbwd.symm), hfwd]

theorem valid_of_agree (hok : LayoutOk g.sizes) (hv : g.Node v) (hopen : Undecided ids v)
    (heq : fwdColors g sched maxIterations i ids v = bwdColors g sched maxIterations i ids v) :
    (updateComponentIDs g sched maxIterations i ids).hasValidComponentID v = true := by
  obtain ⟨r, hr, -, hval⟩ := colors_agree hok hv hopen heq
  unfold ComponentIDs.hasValidComponentID
  rw [updateComponentIDs_of_agree hv hopen heq, hval]
  exact decide_eq_true (sequenceID_valid hok hr)

def undecided (g : TableGraph) (ids : ComponentIDs) : Finset NodeID :=
  g.nodes.toFinset.filter fun v => ¬ ids.hasValidComponentID v = true

theorem mem_undecided : v ∈ undecided g ids ↔ g.Node v ∧ Undecided ids v := by
  unfold undecided
  rw [Finset.mem_filter, mem_toFinset, TableGraph.mem_nodes]
  rfl

theorem undecided_update_subset :
    undecided g (updateComponentIDs g sched maxIterations i ids) ⊆ undecided g ids := by
  intro v hv
  obtain ⟨hnode, hopen⟩ := mem_undecided.mp hv
  refine mem_undecided.mpr ⟨hnode, fun hvalid => hopen ?_⟩
  unfold ComponentIDs.hasValidComponentID at hvalid ⊢
  rw [updateComponentIDs_of_valid hvalid]
  exact hvalid

theorem undecided_update_lt (sched : Schedule) (maxIterations i : Nat) (hok : LayoutOk g.sizes)
    (hv : g.Node v) (hopen : Undecided ids v) :
    (undecided g (updateComponentIDs g sched maxIterations i ids)).card < (undecided g ids).card := by
  obtain ⟨r, ⟨hr, hropen⟩, heq⟩ := exists_agree sched maxIterations i hv hopen
  apply card_lt_card
  rw [ssubset_iff_of_subset undecided_update_subset]
  refine ⟨r, mem_undecided.mpr ⟨hr, hropen⟩, ?_⟩
  intro hin
  exact (mem_undecided.mp hin).2 (valid_of_agree hok hr hropen heq)

theorem undecided_update_done (hok : LayoutOk g.sizes)
    (hsame : hasDifferentColor g sched maxIterations i ids = false) :
    undecided g (updateComponentIDs g sched maxIterations i ids) = ∅ := by
  rw [eq_empty_iff_forall_notMem]
  intro v hv
  obtain ⟨hnode, hopen'⟩ := mem_undecided.mp hv
  have hopen : Undecided ids v := (mem_undecided.mp (undecided_update_subset hv)).2
  unfold hasDifferentColor at hsame
  rw [any_eq_false] at hsame
  have hcolors := hsame v (TableGraph.mem_nodes.mpr hnode)
  have heq : fwdColors g sched maxIterations i ids v = bwdColors g sched maxIterations i ids v := by
    by_contra hne
    apply hcolors
    simpa [Undecided, hne] using hopen
  exact hopen' (valid_of_agree hok hnode hopen heq)

theorem exists_undecided (h : hasDifferentColor g sched maxIterations i ids = true) :
    ∃ v, g.Node v ∧ Undecided ids v := by
  obtain ⟨v, hv, hcolors⟩ := any_eq_true.mp h
  rw [Bool.and_eq_true] at hcolors
  exact ⟨v, TableGraph.mem_nodes.mp hv, by simpa [Undecided] using hcolors.1⟩

/-- The loop between two rounds, when there are at least as many iterations as nodes. -/
structure Decides (g : TableGraph) (s : SccState) : Prop where
  names : NamesComponents g s.ids
  whole : WholeComponents g s.ids
  count : s.done = false → s.i.toNat + (undecided g s.ids).card ≤ g.nodes.length
  done : s.done = true → undecided g s.ids = ∅

def roundsLeft (g : TableGraph) (s : SccState) : Nat :=
  if s.done then 0 else (undecided g s.ids).card + 1

theorem Decides.step (sched : Schedule) (hok : LayoutOk g.sizes)
    (hmax : g.nodes.length ≤ maxIterations) {s : SccState} (h : Decides g s) (hgo : s.done = false) :
    Decides g (sccStep g sched maxIterations s) ∧
      roundsLeft g (sccStep g sched maxIterations s) < roundsLeft g s := by
  have hcount := h.count hgo
  -- while colours differ, a round decides at least one more node
  have hless : (sccStep g sched maxIterations s).done = false →
      (undecided g (sccStep g sched maxIterations s).ids).card < (undecided g s.ids).card := by
    intro hdone
    obtain ⟨v, hv, hopen⟩ := exists_undecided
      (show hasDifferentColor g sched maxIterations s.round s.ids = true by
        simpa [sccStep] using hdone)
    exact undecided_update_lt sched maxIterations s.round hok hv hopen
  refine ⟨⟨h.names.update hok, h.whole.update hok hmax, ?_, ?_⟩, ?_⟩
  · intro hdone
    have hlt := hless hdone
    have hnext : (sccStep g sched maxIterations s).i.toNat ≤ s.i.toNat + 1 := by
      exact Nat.mod_le _ _
    omega
  · intro hdone
    exact undecided_update_done hok (by simpa [sccStep] using hdone)
  · unfold roundsLeft
    rw [hgo]
    cases hdone : (sccStep g sched maxIterations s).done with
    | true => simp
    | false =>
      have hlt := hless hdone
      simp only [Bool.false_eq_true, if_false]
      omega

variable {α : Type} {sizes : List Nat}

theorem allocate_halts (hsmall : ∀ n ∈ sizes, n < 2 ^ 32) (value raw : NodeID → α) :
    ∃ values, Halts (fun f => allocate sizes value f raw) values ∧
      ∀ v n, sizes[v.table]? = some n → v.offset < n → values v = value v := by
  obtain ⟨values, hhalts, hfilled⟩ := foldlM_halts (s := raw)
    (fun f values (t : Nat × Nat) => forU32 t.1 (fun i values =>
      some (Function.update values ⟨t.2, i.toNat⟩ (value ⟨t.2, i.toNat⟩))) f values)
    (fun (done : List (Nat × Nat)) values =>
      ∀ t ∈ done, ∀ k, k < t.1 → values ⟨t.2, k⟩ = value ⟨t.2, k⟩)
    (fun done t values ht hfilled => by
      obtain ⟨n, table⟩ := t
      have hn : n < 2 ^ 32 := by
        rw [mem_zipIdx_iff_getElem?] at ht
        exact hsmall n (List.mem_of_getElem? ht)
      obtain ⟨values', hhalts, hkept, hnew⟩ := forU32_halts hn (fun _ i values =>
          some (Function.update values ⟨table, i.toNat⟩ (value ⟨table, i.toNat⟩)))
        (fun j (values' : NodeID → α) => (∀ v, values v = value v → values' v = value v) ∧
          ∀ k, k < j → values' ⟨table, k⟩ = value ⟨table, k⟩)
        (fun j values' hj hinv => by
          refine ⟨_, halts_const _, ?_, ?_⟩
          · intro v hv
            rw [Function.update_apply]
            split
            next heq => rw [heq]
            · exact hinv.1 v hv
          · intro k hk
            rw [Function.update_apply]
            split
            next heq => rw [heq]
            next hne =>
              apply hinv.2
              have hkj : k ≠ j.toNat := fun heq => hne (by rw [heq])
              omega)
        (s := values) ⟨fun v hv => hv, fun k hk => absurd hk (Nat.not_lt_zero k)⟩
      refine ⟨values', hhalts, ?_⟩
      intro t' ht' k hk
      rcases mem_append.mp ht' with hin | hin
      · exact hkept _ (hfilled t' hin k hk)
      · rw [List.mem_singleton.mp hin] at hk ⊢
        exact hnew k hk)
    (fun t ht => absurd ht not_mem_nil)
  refine ⟨values, hhalts, ?_⟩
  intro v n hn hlt
  exact hfilled (n, v.table) (mem_zipIdx_iff_getElem?.mpr hn) v.offset hlt

theorem allocate_diverges {t n : Nat} (hn : sizes[t]? = some n) (hbig : 2 ^ 32 ≤ n)
    (value raw : NodeID → α) (fuel : Nat) : allocate sizes value fuel raw = none := by
  have hmem : (n, t) ∈ sizes.zipIdx := mem_zipIdx_iff_getElem?.mpr hn
  apply foldlM_none hmem
  exact fun values => forU32_diverges hbig _ fuel values

theorem fillTables_halts (hsmall : ∀ n ∈ sizes, n < 2 ^ 32) (value raw : ComponentIDs) :
    ∃ ids, Halts (fun f => fillTables sizes value f raw) ids ∧
      ∀ v n, sizes[v.table]? = some n → v.offset < n → ids v = value v := by
  exact allocate_halts hsmall value raw

theorem LayoutOk.small (h : LayoutOk sizes) : ∀ n ∈ sizes, n < 2 ^ 32 := by
  intro n hn
  obtain ⟨t, ht⟩ := mem_iff_getElem?.mp hn
  exact (h t n ht).1

theorem allocated (g : TableGraph) (sched : Schedule) (maxIterations : Nat)
    (hsmall : ∀ n ∈ g.sizes, n < 2 ^ 32) (raw : ComponentIDs) :
    ∃ ids, (∀ v, g.Node v → Undecided ids v) ∧ ∃ k, ∀ f, k ≤ f → scc g sched maxIterations raw f =
      (whileLoop (fun s : SccState => decide (s.i.toNat < maxIterations) && !s.done)
        (fun s ↦ some (sccStep g sched maxIterations s)) f ⟨0, 0, ids, false⟩).map SccState.ids := by
  obtain ⟨ids, ⟨k, hk⟩, hfilled⟩ := fillTables_halts hsmall (fun _ => INVALID_COMPONENT_ID) raw
  obtain ⟨colors, ⟨k', hk'⟩, -⟩ := fillTables_halts hsmall (sequenceID g.sizes) raw
  refine ⟨ids, ?_, max k k', ?_⟩
  · rintro v ⟨⟨n, hn, hlt⟩, -⟩ hvalid
    unfold ComponentIDs.hasValidComponentID at hvalid
    rw [hfilled v n hn hlt] at hvalid
    exact absurd rfl (of_decide_eq_true hvalid)
  · intro f hf
    have hids : getUnvisitedComponentIDs g.sizes f raw = some ids := hk f (by omega)
    have hcolors : getSequenceComponentIDs g.sizes f raw = some colors := hk' f (by omega)
    unfold scc
    rw [hids, hcolors]
    rfl

def NeverMixes (g : TableGraph) (ids : ComponentIDs) : Prop :=
  ∀ u v, g.Node u → g.Node v → ids.hasValidComponentID u = true → ids u = ids v → Strong g.Edge u v

theorem NamesComponents.neverMixes (hok : LayoutOk g.sizes) (h : NamesComponents g ids) :
    NeverMixes g ids := by
  intro u v hu hv hvalid heq
  have hvalid' : ids.hasValidComponentID v = true := by
    unfold ComponentIDs.hasValidComponentID at hvalid ⊢
    rw [← heq]
    exact hvalid
  obtain ⟨r, hr, hur, hval⟩ := h u hu hvalid
  obtain ⟨r', hr', hvr', hval'⟩ := h v hv hvalid'
  have hsame : r = r' := sequenceID_inj hok hr hr' (hval.symm.trans (heq.trans hval'))
  exact hur.trans (hsame ▸ hvr'.symm)

theorem scc_neverMixes (hok : LayoutOk g.sizes) {raw : ComponentIDs}
    (h : Halts (scc g sched maxIterations raw) ids) : NeverMixes g ids := by
  obtain ⟨ids₀, hstart, k, hk⟩ := allocated g sched maxIterations hok.small raw
  obtain ⟨k', hk'⟩ := h
  have hrun := hk (max k k') (by omega)
  rw [hk' (max k k') (by omega)] at hrun
  obtain ⟨s, hloop, rfl⟩ := Option.map_eq_some_iff.mp hrun.symm
  apply NamesComponents.neverMixes hok
  refine while_inv (fun s : SccState => NamesComponents g s.ids) ?_ ?_ hloop
  · intro s s' hnames _ hstep
    cases hstep
    exact hnames.update hok
  · exact fun v hv hvalid => absurd hvalid (hstart v hv)

def Partitions (g : TableGraph) (ids : ComponentIDs) : Prop :=
  (∀ v, g.Node v → ids.hasValidComponentID v = true) ∧
    ∀ u v, g.Node u → g.Node v → (ids u = ids v ↔ Strong g.Edge u v)

theorem scc_partitions (hok : LayoutOk g.sizes) (sched : Schedule)
    (hmax : g.nodes.length ≤ maxIterations) (raw : ComponentIDs) :
    ∃ ids, Halts (scc g sched maxIterations raw) ids ∧ Partitions g ids := by
  obtain ⟨ids₀, hstart, k, hk⟩ := allocated g sched maxIterations hok.small raw
  obtain ⟨s, ⟨k', hk'⟩, hdecides, hexit⟩ := while_halts
    (fun s : SccState => decide (s.i.toNat < maxIterations) && !s.done)
    (fun _ s => some (sccStep g sched maxIterations s)) (measure (roundsLeft g)).wf (Decides g)
    (fun s hinv hcond => by
      rw [Bool.and_eq_true, Bool.not_eq_true'] at hcond
      obtain ⟨hnext, hless⟩ := hinv.step sched hok hmax hcond.2
      exact ⟨_, halts_const _, hnext, hless⟩)
    (s := (⟨0, 0, ids₀, false⟩ : SccState))
    { names := fun v hv hvalid => absurd hvalid (hstart v hv)
      whole := fun u v hu hvalid _ => absurd hvalid (hstart u hu)
      count := fun _ => by
        have hle : (undecided g ids₀).card ≤ g.nodes.length :=
          (card_filter_le _ _).trans (toFinset_card_le _)
        show 0 + (undecided g ids₀).card ≤ g.nodes.length
        omega
      done := fun hdone => absurd hdone Bool.false_ne_true }
  -- the loop ends only when nothing is undecided
  have hnone : undecided g s.ids = ∅ := by
    cases hdone : s.done with
    | true => exact hdecides.done hdone
    | false =>
      rw [hdone, Bool.not_false, Bool.and_true] at hexit
      have hge := of_decide_eq_false hexit
      have hcount := hdecides.count hdone
      rw [← card_eq_zero]
      omega
  have hvalid : ∀ v, g.Node v → s.ids.hasValidComponentID v = true := by
    intro v hv
    by_contra hopen
    have hin := mem_undecided.mpr ⟨hv, hopen⟩
    rw [hnone] at hin
    exact absurd hin (notMem_empty v)
  refine ⟨s.ids, ⟨max k k', fun f hf => ?_⟩, hvalid, ?_⟩
  · have hloop := hk' f (by omega)
    rw [hk f (by omega)]
    simp only at hloop
    rw [hloop, Option.map_some]
  · intro u v hu hv
    constructor
    · exact hdecides.names.neverMixes hok u v hu hv (hvalid u hu)
    · intro huv
      exact (hdecides.whole u v hu (hvalid u hu) huv).symm

end

/-! ## 6. Layouts -/

section

/-- The tables without any edge or mask. -/
def edgeless (sizes : List Nat) : TableGraph where
  sizes := sizes
  mask := none
  scanFwd := fun _ => []
  scanBwd := fun _ => []
  fwd_node := fun _ _ _ h => absurd h not_mem_nil
  bwd_node := fun _ _ _ h => absurd h not_mem_nil
  transpose := fun _ _ _ _ => iff_of_false not_mem_nil not_mem_nil

variable {v : NodeID}

theorem edgeless_strong {sizes : List Nat} {u : NodeID} (h : Strong (edgeless sizes).Edge u v) :
    u = v := by
  cases h.1.cases_head with
  | inl heq => exact heq
  | inr hstep =>
    obtain ⟨w, hedge, -⟩ := hstep
    exact absurd hedge.2 not_mem_nil

variable {sizes : List Nat} {sched : Schedule} {maxIterations i : Nat} {ids : ComponentIDs}

theorem edgeless_colors (sched : Schedule) (maxIterations i : Nat) (hv : (edgeless sizes).Node v)
    (hopen : Undecided ids v) :
    fwdColors (edgeless sizes) sched maxIterations i ids v = sequenceID sizes v ∧
      bwdColors (edgeless sizes) sched maxIterations i ids v = sequenceID sizes v := by
  constructor
  · obtain ⟨u, -, hreach, hval⟩ := fwdColors_from sched maxIterations i hv hopen
    rcases hreach.cases_tail with heq | ⟨w, -, hpass⟩
    · rw [hval, heq]
      rfl
    · exact absurd hpass.1 not_mem_nil
  · rcases bwdColors_from (edgeless sizes) sched maxIterations i ids v with
      hown | ⟨s, -, hreach, hval⟩
    · exact hown
    · rcases hreach.cases_tail with heq | ⟨w, -, hpass⟩
      · rw [hval, heq]
        rfl
      · exact absurd hpass.1 not_mem_nil

theorem edgeless_scc (hsmall : ∀ n ∈ sizes, n < 2 ^ 32) (hmax : 0 < maxIterations)
    {raw : ComponentIDs} (h : Halts (scc (edgeless sizes) sched maxIterations raw) ids) :
    ∀ v, (edgeless sizes).Node v → ids v = sequenceID sizes v := by
  obtain ⟨ids₀, hstart, k, hk⟩ := allocated (edgeless sizes) sched maxIterations hsmall raw
  obtain ⟨k', hk'⟩ := h
  have hrun := hk (max k k' + 2) (by omega)
  rw [hk' (max k k' + 2) (by omega)] at hrun
  have hdone : (sccStep (edgeless sizes) sched maxIterations ⟨0, 0, ids₀, false⟩).done = true := by
    show (!hasDifferentColor (edgeless sizes) sched maxIterations 0 ids₀) = true
    rw [Bool.not_eq_true', hasDifferentColor, any_eq_false]
    intro v hv
    obtain ⟨hfwd, hbwd⟩ := edgeless_colors sched maxIterations 0 (TableGraph.mem_nodes.mp hv)
      (hstart v (TableGraph.mem_nodes.mp hv))
    rw [hfwd, hbwd]
    simp
  unfold whileLoop at hrun
  rw [if_pos (by simpa using hmax), Option.bind_some] at hrun
  unfold whileLoop at hrun
  rw [if_neg (by rw [hdone]; simp), Option.map_some] at hrun
  have hids := Option.some.inj hrun
  intro v hv
  obtain ⟨hfwd, hbwd⟩ := edgeless_colors sched maxIterations 0 hv (hstart v hv)
  rw [hids]
  exact (updateComponentIDs_of_agree hv (hstart v hv) (hfwd.trans hbwd.symm)).trans hfwd

theorem fillTables_diverges {t n : Nat} (hn : sizes[t]? = some n) (hbig : 2 ^ 32 ≤ n)
    (value raw : ComponentIDs) (fuel : Nat) : fillTables sizes value fuel raw = none := by
  exact allocate_diverges hn hbig value raw fuel

theorem exists_position (sizes : List Nat) (t x : Nat) (hx : x < (sizes.take t).sum) :
    ∃ s n i, s < t ∧ sizes[s]? = some n ∧ i < n ∧ (sizes.take s).sum + i = x := by
  induction t with
  | zero => exact absurd hx (Nat.not_lt_zero x)
  | succ t ih =>
    by_cases hlow : x < (sizes.take t).sum
    · obtain ⟨s, n, i, hs, hn, hi, heq⟩ := ih hlow
      exact ⟨s, n, i, by omega, hn, hi, heq⟩
    · cases hn : sizes[t]? with
      | none =>
        rw [take_add_one, hn] at hx
        simp only [Option.toList_none, append_nil] at hx
        exact absurd hx hlow
      | some n =>
        rw [sum_take_succ hn] at hx
        exact ⟨t, n, x - (sizes.take t).sum, by omega, hn, by omega, by omega⟩

theorem exists_collision (hsmall : ∀ n ∈ sizes, n < 2 ^ 32) (hbad : ¬ LayoutOk sizes) :
    ∃ u v, (edgeless sizes).Node u ∧ (edgeless sizes).Node v ∧ u ≠ v ∧
      sequenceID sizes u = sequenceID sizes v := by
  classical
  have hwraps : ∃ t, ∃ n, sizes[t]? = some n ∧ 0 < n ∧ 2 ^ 32 ≤ (sizes.take t).sum := by
    unfold LayoutOk at hbad
    push Not at hbad
    obtain ⟨t, n, hn, hor⟩ := hbad
    obtain ⟨hpos, hsum⟩ := hor (hsmall n (List.mem_of_getElem? hn))
    exact ⟨t, n, hn, hpos, hsum⟩
  -- the first table that wraps; the tables before it do not
  obtain ⟨n, hn, hpos, hsum⟩ := Nat.find_spec hwraps
  have hfirst : ∀ s, s < Nat.find hwraps → ∀ m, sizes[s]? = some m → 0 < m →
      (sizes.take s).sum < 2 ^ 32 := by
    intro s hs m hm hmpos
    by_contra hge
    exact Nat.find_min hwraps hs ⟨m, hm, hmpos, not_lt.mp hge⟩
  obtain ⟨s, m, j, hs, hm, hj, heq⟩ := exists_position sizes (Nat.find hwraps)
    ((sizes.take (Nat.find hwraps)).sum % 2 ^ 32) (by omega)
  refine ⟨⟨s, j⟩, ⟨Nat.find hwraps, 0⟩, ⟨⟨m, hm, hj⟩, fun mask hmask => nomatch hmask⟩,
    ⟨⟨n, hn, hpos⟩, fun mask hmask => nomatch hmask⟩, ?_, ?_⟩
  · intro hsame
    have htable := congrArg NodeID.table hsame
    simp only at htable
    omega
  · have hstart := hfirst s hs m hm (by omega)
    unfold sequenceID
    rw [startOffset_eq, startOffset_eq, Nat.mod_eq_of_lt hstart, heq, Nat.add_zero]

end

/-! ## 7. The whole computation -/

section

theorem isTableNode_singleton {maxOffset : Nat} {mask : Option (Nat → Bool)} {v : NodeID} :
    IsTableNode [maxOffset] (mask.map fun m v => m v.offset) v ↔
      v.table = 0 ∧ IsNode maxOffset mask v.offset := by
  obtain ⟨t, i⟩ := v
  unfold IsTableNode IsNode
  cases t with
  | zero | succ => simp

def ScanGraph.toTables (k : ScanGraph) : TableGraph where
  sizes := [k.maxOffset]
  mask := k.mask.map fun m v => m v.offset
  scanFwd := fun u => (k.scanFwd u.offset).map fun v => ⟨0, v⟩
  scanBwd := fun u => (k.scanBwd u.offset).map fun v => ⟨0, v⟩
  fwd_node := by
    intro u v hu hv
    rw [isTableNode_singleton] at hu ⊢
    obtain ⟨j, hj, rfl⟩ := mem_map.mp hv
    exact ⟨rfl, k.fwd_node u.offset j hu.2 hj⟩
  bwd_node := by
    intro u v hu hv
    rw [isTableNode_singleton] at hu ⊢
    obtain ⟨j, hj, rfl⟩ := mem_map.mp hv
    exact ⟨rfl, k.bwd_node u.offset j hu.2 hj⟩
  transpose := by
    rintro ⟨s, i⟩ ⟨t, j⟩ hu hv
    rw [isTableNode_singleton] at hu hv
    obtain ⟨rfl, hi⟩ := hu
    obtain ⟨rfl, hj⟩ := hv
    simpa using k.transpose i j hi hj

variable {k : ScanGraph} {i j : Nat} {g : TableGraph}

theorem toTables_node : k.toTables.Node ⟨0, i⟩ ↔ k.Node i := by
  show IsTableNode [k.maxOffset] (k.mask.map fun m v => m v.offset) ⟨0, i⟩ ↔ _
  rw [isTableNode_singleton]
  exact and_iff_right rfl

theorem toTables_reach : ReflTransGen k.toTables.Edge ⟨0, i⟩ ⟨0, j⟩ ↔ ReflTransGen k.Edge i j := by
  constructor
  · intro h
    refine h.lift (p := k.Edge) NodeID.offset ?_
    rintro ⟨s, i⟩ ⟨t, j⟩ ⟨hnode, hscan⟩
    obtain ⟨j', hj', heq⟩ := mem_map.mp hscan
    cases heq
    exact ⟨(isTableNode_singleton.mp hnode).2, hj'⟩
  · intro h
    refine h.lift (fun i => NodeID.mk 0 i) ?_
    rintro i j ⟨hnode, hscan⟩
    exact ⟨toTables_node.mpr hnode, mem_map.mpr ⟨j, hscan, rfl⟩⟩

theorem toTables_strong : Strong k.toTables.Edge ⟨0, i⟩ ⟨0, j⟩ ↔ Strong k.Edge i j :=
  and_congr toTables_reach toTables_reach

/-- The partition is the one that the function of a single table returns. -/
def AgreesWithKosaraju (g : TableGraph) (ids : ComponentIDs) : Prop :=
  ∀ k : ScanGraph, g = k.toTables → ∀ raw, ∃ components, Halts (kosaraju k raw) components ∧
    ∀ i j, k.Node i → k.Node j → (ids ⟨0, i⟩ = ids ⟨0, j⟩ ↔ components i = components j)

theorem Partitions.agreesWithKosaraju {ids : ComponentIDs} (hok : LayoutOk g.sizes)
    (h : Partitions g ids) : AgreesWithKosaraju g ids := by
  rintro k rfl raw
  have hsmall : k.maxOffset < 2 ^ 32 := (hok 0 k.maxOffset rfl).1
  obtain ⟨order, components, -, hhalts, hfinds⟩ := kosaraju_halts hsmall raw
  refine ⟨components, hhalts, ?_⟩
  intro i j hi hj
  rw [h.2 ⟨0, i⟩ ⟨0, j⟩ (toTables_node.mpr hi) (toTables_node.mpr hj), toTables_strong,
    hfinds.components i j hi hj]

/-- What the colouring is to do on a graph, for every bound and every order of the relaxations. -/
def ColouringCorrect (g : TableGraph) : Prop :=
  ∀ sched maxIterations raw, (∀ ids, Halts (scc g sched maxIterations raw) ids → NeverMixes g ids) ∧
    (g.nodes.length ≤ maxIterations → ∃ ids, Halts (scc g sched maxIterations raw) ids ∧
      Partitions g ids ∧ AgreesWithKosaraju g ids)

theorem colouringCorrect_of_layout (hok : LayoutOk g.sizes) : ColouringCorrect g := by
  intro sched maxIterations raw
  constructor
  · exact fun ids h => scc_neverMixes hok h
  · intro hmax
    obtain ⟨ids, hhalts, hpart⟩ := scc_partitions hok sched hmax raw
    exact ⟨ids, hhalts, hpart, hpart.agreesWithKosaraju hok⟩

def inOrder : Schedule where
  order := fun _ _ _ es => es
  perm := fun _ _ _ es => .refl es

theorem layout_of_colouringCorrect {sizes : List Nat} (h : ColouringCorrect (edgeless sizes)) :
    LayoutOk sizes := by
  obtain ⟨ids, hhalts, hpart, -⟩ :=
    (h inOrder ((edgeless sizes).nodes.length + 1) fun _ => 0).2 (Nat.le_succ _)
  -- it does not halt on a table that is too large
  have hsmall : ∀ n ∈ sizes, n < 2 ^ 32 := by
    intro n hn
    by_contra hbig
    obtain ⟨t, ht⟩ := mem_iff_getElem?.mp hn
    refine hhalts.not_diverges fun fuel => ?_
    have hnone : getUnvisitedComponentIDs (edgeless sizes).sizes fuel (fun _ => 0) = none :=
      fillTables_diverges ht (not_lt.mp hbig) _ _ fuel
    unfold scc
    rw [hnone]
    rfl
  by_contra hbad
  obtain ⟨u, v, hu, hv, hne, heq⟩ := exists_collision hsmall hbad
  -- without edges every node has its own offset as id
  have hids := edgeless_scc hsmall (Nat.succ_pos _) hhalts
  apply hne
  apply edgeless_strong
  rw [← hpart.2 u v hu hv, hids u hu, hids v hv]
  exact heq

/-- For all table sizes: the colouring is correct on every graph over such tables exactly when the
32-bit counters and start offsets do not wrap. -/
theorem colouring_finds_components_iff (sizes : List Nat) :
    (∀ g : TableGraph, g.sizes = sizes → ColouringCorrect g) ↔ LayoutOk sizes := by
  constructor
  · intro h
    exact layout_of_colouringCorrect (h (edgeless sizes) rfl)
  · rintro hok g rfl
    exact colouringCorrect_of_layout hok

/-- The third table starts at offset zero again. -/
theorem colouring_mixes_three_tables : ¬ ColouringCorrect (edgeless [2 ^ 31, 2 ^ 31, 1]) := by
  intro h
  have hstart := (layout_of_colouringCorrect h 2 1 rfl).2 (by decide)
  exact absurd hstart (by decide)

end

end Ladybug.Algo
