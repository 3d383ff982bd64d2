import Ladybug.Algo.ColouringCorrect
import Ladybug.Algo.KCore
import Mathlib.Algebra.Group.Action.Defs
import Mathlib.Algebra.Order.BigOperators.Group.List
import Mathlib.Algebra.Order.Ring.Nat

/-!
# Peeling gives the core values

Between two rounds the degree of a live node is the number of its edges to live nodes; what the
degrees of removed nodes are does not matter.  The computation ends with the core numbers exactly
when the node counter and the core value fit into their 32 bits.
-/

namespace Ladybug.Algo

open List Option Function Finset

section

variable {g : TableMultigraph} {sched : RemovalSchedule} {s : KCoreState} {v : NodeID}

theorem nodes_nodup (g : TableGraph) : g.nodes.Nodup := by
  apply Nodup.filter
  rw [nodup_flatMap]
  constructor
  · intro t _
    apply Nodup.map _ nodup_range
    intro i j h
    exact (NodeID.mk.inj h).2
  · -- the tables have different numbers
    have htables : g.sizes.zipIdx.Pairwise fun t t' => t.2 ≠ t'.2 := by
      rw [← pairwise_map]
      rw [zipIdx_map_snd]
      exact nodup_range'
    apply htables.imp
    intro t t' hne u hu hu'
    obtain ⟨i, -, rfl⟩ := mem_map.mp hu
    obtain ⟨j, -, heq⟩ := mem_map.mp hu'
    exact hne (NodeID.mk.inj heq).1.symm

def live (g : TableMultigraph) (s : KCoreState) : Finset NodeID :=
  g.nodes.toFinset.filter fun v => s.coreValues v = INVALID_DEGREE

theorem mem_live : v ∈ live g s ↔ v ∈ g.nodes ∧ s.coreValues v = INVALID_DEGREE := by
  unfold live
  rw [Finset.mem_filter, List.mem_toFinset]

theorem mem_degreeLessThanCore : v ∈ degreeLessThanCore g.toTableGraph s ↔
    v ∈ live g s ∧ s.degrees v ≤ s.coreValue.toUInt64 := by
  unfold degreeLessThanCore CoreValues.isValid
  rw [mem_filter, mem_live]
  simp [and_assoc]

theorem coreValue_valid (k : UInt32) : k.toUInt64 ≠ INVALID_DEGREE := by
  intro h
  have hk := k.toNat_lt
  have heq := congrArg UInt64.toNat h
  rw [UInt32.toNat_toUInt64] at heq
  have hmax : INVALID_DEGREE.toNat = 2 ^ 64 - 1 := by decide
  omega

theorem removeVertices_coreValues : (removeVertices g.toTableGraph sched s).coreValues v =
    if v ∈ degreeLessThanCore g.toTableGraph s then s.coreValue.toUInt64 else s.coreValues v := rfl

theorem live_removeVertices : live g (removeVertices g.toTableGraph sched s) =
    live g s \ (degreeLessThanCore g.toTableGraph s).toFinset := by
  ext v
  rw [mem_sdiff, List.mem_toFinset, mem_live, mem_live, removeVertices_coreValues]
  by_cases hv : v ∈ degreeLessThanCore g.toTableGraph s
  · rw [if_pos hv]
    simp [hv, coreValue_valid]
  · rw [if_neg hv]
    simp [hv]

theorem foldl_decrease (es : List (NodeID × NodeID)) (degrees : Degrees) (v : NodeID) :
    es.foldl (fun degrees e => decreaseDegreeByOne degrees e.2) degrees v =
      degrees v - UInt64.ofNat (es.countP fun e => e.2 = v) := by
  induction es generalizing degrees with
  | nil => simp
  | cons e es ih =>
    rw [foldl_cons, ih, countP_cons]
    unfold decreaseDegreeByOne
    by_cases he : e.2 = v
    · rw [he, update_self]
      rw [UInt64.ofNat_add]
      grind
    · rw [update_of_ne (Ne.symm he)]
      simp [he]

def Counts (g : TableMultigraph) (s : KCoreState) : Prop :=
  ∀ v ∈ live g s, s.degrees v = UInt64.ofNat (degreeIn g.toTableGraph (live g s) v)

theorem degreeIn_sdiff {S : Finset NodeID} {found : List NodeID} (hfound : ∀ u ∈ found, u ∈ S) :
    degreeIn g.toTableGraph S v = degreeIn g.toTableGraph (S \ found.toFinset) v +
      (g.scanBoth v).countP fun u => u ∈ found := by
  unfold degreeIn
  induction g.scanBoth v with
  | nil => rfl
  | cons u l ih =>
    rw [countP_cons, countP_cons, countP_cons, ih]
    by_cases hu : u ∈ found
    · simp [hu, hfound u hu]
      omega
    · simp [hu]
      omega

theorem Counts.remove (h : Counts g s) : Counts g (removeVertices g.toTableGraph sched s) := by
  intro v hv
  rw [live_removeVertices] at hv ⊢
  obtain ⟨hlive, -⟩ := mem_sdiff.mp hv
  have hnodup : (degreeLessThanCore g.toTableGraph s).Nodup := (nodes_nodup _).filter _
  have hfound : ∀ u ∈ degreeLessThanCore g.toTableGraph s, u ∈ live g s :=
    fun u hu => (mem_degreeLessThanCore.mp hu).1
  have hnode : ∀ u ∈ live g s, g.Node u := fun u hu => TableGraph.mem_nodes.mp (mem_live.mp hu).1
  -- the edges of the round that end in `v`, seen from `v`
  have hseen : (sched.order s.round (roundEdges g.scanBoth
      (degreeLessThanCore g.toTableGraph s))).countP (fun e => e.2 = v) =
      (g.scanBoth v).countP fun u => u ∈ degreeLessThanCore g.toTableGraph s := by
    rw [(sched.perm _ _).countP_eq, countP_roundEdges, countP_mem_eq_sum hnodup]
    congr 1
    apply map_congr_left
    intro u hu
    exact g.count_scanBoth (hnode u (hfound u hu)) (hnode v hlive)
  show (sched.order s.round _).foldl _ s.degrees v = _
  rw [foldl_decrease, hseen, h v hlive, degreeIn_sdiff hfound, UInt64.ofNat_add,
    UInt64.add_sub_cancel]

structure Counted (g : TableMultigraph) (s : KCoreState) : Prop where
  values : ∀ v ∈ g.nodes, v ∉ live g s → (s.coreValues v).toNat < 2 ^ 32
  count : s.numNodesComputed.toNat + (live g s).card = g.nodes.length

theorem Counted.remove (hsmall : g.nodes.length < 2 ^ 32) (h : Counted g s) :
    Counted g (removeVertices g.toTableGraph sched s) := by
  constructor
  · intro v hv hout
    rw [removeVertices_coreValues]
    by_cases hfound : v ∈ degreeLessThanCore g.toTableGraph s
    · rw [if_pos hfound, UInt32.toNat_toUInt64]
      exact s.coreValue.toNat_lt
    · rw [if_neg hfound]
      apply h.values v hv
      intro hlive
      rw [live_removeVertices, mem_sdiff, List.mem_toFinset] at hout
      exact hout ⟨hlive, hfound⟩
  · have hnodup : (degreeLessThanCore g.toTableGraph s).Nodup := (nodes_nodup _).filter _
    have hsub : (degreeLessThanCore g.toTableGraph s).toFinset ⊆ live g s :=
      fun u hu => (mem_degreeLessThanCore.mp (List.mem_toFinset.mp hu)).1
    have hcard := card_sdiff_add_card_eq_card hsub
    rw [toFinset_card_of_nodup hnodup] at hcard
    have hcount := h.count
    rw [live_removeVertices]
    show (s.numNodesComputed + UInt32.ofNat _).toNat + _ = _
    rw [UInt32.toNat_add, UInt32.toNat_ofNat']
    omega

end

section

variable {g : TableMultigraph} {sched : RemovalSchedule} {s : KCoreState} {v : NodeID}

/-- No nonempty set has `2 ^ 32` edges at each of its nodes, and there are fewer than `2 ^ 32`
nodes, in each table and in all. -/
structure Fits (g : TableMultigraph) : Prop where
  tables : ∀ n ∈ g.sizes, n < 2 ^ 32
  nodes : g.nodes.length < 2 ^ 32
  degrees : ∀ S ⊆ g.nodes.toFinset, Dense (degreeIn g.toTableGraph) (2 ^ 32) S → S = ∅

theorem Fits.degree_lt (h : Fits g) (hv : v ∈ g.nodes) : (g.scanBoth v).length < 2 ^ 64 := by
  have hnode := TableGraph.mem_nodes.mp hv
  have hall : ∀ u ∈ g.scanBoth v, u ∈ g.nodes := by
    intro u hu
    rw [TableGraph.mem_nodes]
    rcases mem_append.mp hu with hfwd | hbwd
    · exact g.fwd_node v u hnode hfwd
    · exact g.bwd_node v u hnode hbwd
  -- parallel edges alone would make a dense pair
  have hpair : ∀ u ∈ g.nodes, (g.scanBoth v).count u ≤ 2 ^ 32 - 1 := by
    intro u hu
    by_contra hmany
    have hboth : (g.scanBoth u).count v = (g.scanBoth v).count u :=
      g.count_scanBoth (TableGraph.mem_nodes.mp hu) hnode
    have hle : ∀ w x, x ∈ ({u, v} : Finset NodeID) →
        (g.scanBoth w).count x ≤ degreeIn g.toTableGraph {u, v} w := by
      intro w x hx
      apply countP_mono_left
      intro y _ hy
      rw [beq_iff_eq.mp hy]
      exact decide_eq_true hx
    have hempty := h.degrees {u, v} (insert_subset_iff.mpr ⟨List.mem_toFinset.mpr hu,
        singleton_subset_iff.mpr (List.mem_toFinset.mpr hv)⟩)
      (by
        intro w hw
        rcases mem_insert.mp hw with rfl | hw
        · have hdeg := hle w v (by simp)
          omega
        · rw [Finset.mem_singleton.mp hw]
          have hdeg := hle v u (by simp)
          omega)
    exact absurd hempty (insert_ne_empty u {v})
  have hlength : (g.scanBoth v).length = (g.nodes.map fun u => (g.scanBoth v).count u).sum := by
    rw [← countP_mem_eq_sum (nodes_nodup _), eq_comm, countP_eq_length]
    exact fun u hu => decide_eq_true (hall u hu)
  have hsum := sum_le_card_nsmul (g.nodes.map fun u => (g.scanBoth v).count u) (2 ^ 32 - 1)
    (fun n hn => by
      obtain ⟨u, hu, rfl⟩ := mem_map.mp hn
      exact hpair u hu)
  rw [length_map, smul_eq_mul] at hsum
  have hnodes := h.nodes
  omega

theorem Fits.degreeIn_lt (h : Fits g) (S : Finset NodeID) (hv : v ∈ g.nodes) :
    degreeIn g.toTableGraph S v < 2 ^ 64 :=
  countP_le_length.trans_lt (h.degree_lt hv)

/-- Between two rounds at the present core value. -/
structure KCoreInv (g : TableMultigraph) (s : KCoreState) : Prop where
  counted : Counted g s
  counts : Counts g s
  peeling : Peeling (degreeIn g.toTableGraph) g.nodes.toFinset s.coreValue.toNat (live g s)
    fun v => (s.coreValues v).toNat

theorem KCoreInv.low (h : KCoreInv g s) (hfits : Fits g) (hv : v ∈ live g s) :
    s.degrees v ≤ s.coreValue.toUInt64 ↔
      degreeIn g.toTableGraph (live g s) v ≤ s.coreValue.toNat := by
  have hlt := hfits.degreeIn_lt (live g s) (mem_live.mp hv).1
  rw [h.counts v hv, UInt64.le_iff_toNat_le, UInt64.toNat_ofNat', UInt32.toNat_toUInt64,
    Nat.mod_eq_of_lt hlt]

theorem KCoreInv.remove (hfits : Fits g) (h : KCoreInv g s) :
    KCoreInv g (removeVertices g.toTableGraph sched s) where
  counted := h.counted.remove hfits.nodes
  counts := h.counts.remove
  peeling := by
    rw [live_removeVertices]
    apply h.peeling.remove (degreeIn_mono g.toTableGraph)
    · intro v hv
      obtain ⟨hlive, hlow⟩ := mem_degreeLessThanCore.mp (List.mem_toFinset.mp hv)
      exact (h.low hfits hlive).mp hlow
    · intro v hv
      rw [removeVertices_coreValues, if_pos (List.mem_toFinset.mp hv), UInt32.toNat_toUInt64]
    · intro v hv
      rw [removeVertices_coreValues, if_neg fun hin => hv (mem_degreeLessThanCore.mp hin).1]

theorem innerLoop_halts (hfits : Fits g) (h : KCoreInv g s) :
    ∃ s', Halts (fun f => innerLoop g.toTableGraph sched f s) s' ∧ KCoreInv g s' ∧
      s'.coreValue = s.coreValue ∧
      ∀ v ∈ live g s', s.coreValue.toNat < degreeIn g.toTableGraph (live g s') v := by
  obtain ⟨s', hhalts, ⟨hinv, hsame⟩, hnone⟩ := while_halts
    (fun s => !(degreeLessThanCore g.toTableGraph s).isEmpty)
    (fun _ s => some (removeVertices g.toTableGraph sched s))
    (measure fun s => (live g s).card).wf
    (fun s' => KCoreInv g s' ∧ s'.coreValue = s.coreValue)
    (fun s' hinv hfound => by
      refine ⟨_, halts_const _, ⟨hinv.1.remove hfits, hinv.2⟩, ?_⟩
      show (live g (removeVertices g.toTableGraph sched s')).card < (live g s').card
      rw [Bool.not_eq_true', isEmpty_eq_false_iff] at hfound
      obtain ⟨v, hv⟩ := exists_mem_of_ne_nil _ hfound
      rw [live_removeVertices]
      apply card_lt_card
      rw [ssubset_iff_of_subset sdiff_subset]
      refine ⟨v, (mem_degreeLessThanCore.mp hv).1, fun hin => ?_⟩
      exact (mem_sdiff.mp hin).2 (List.mem_toFinset.mpr hv))
    (s := s) ⟨h, rfl⟩
  refine ⟨s', hhalts, hinv, hsame, ?_⟩
  intro v hv
  by_contra hlow
  have hempty : degreeLessThanCore g.toTableGraph s' = [] := by simpa using hnone
  have hfound : v ∈ degreeLessThanCore g.toTableGraph s' := by
    rw [mem_degreeLessThanCore, hinv.low hfits hv, hsame]
    exact ⟨hv, not_lt.mp hlow⟩
  rw [hempty] at hfound
  exact absurd hfound not_mem_nil

/-- Between two core values: all nodes are done, and the counter may have wrapped, or the peeling
goes on. -/
structure OuterInv (g : TableMultigraph) (s : KCoreState) : Prop where
  counted : Counted g s
  done : ∀ v ∈ g.nodes, v ∉ live g s →
    CoreNumber (degreeIn g.toTableGraph) g.nodes.toFinset v (s.coreValues v).toNat
  going : (live g s).Nonempty → KCoreInv g s

theorem OuterInv.step (hfits : Fits g) (h : OuterInv g s) (hlive : (live g s).Nonempty) :
    ∃ s', Halts (fun f => (innerLoop g.toTableGraph sched f s).map
        fun s => { s with coreValue := s.coreValue + 1 }) s' ∧ OuterInv g s' ∧
      ((live g s').Nonempty → s.coreValue.toNat < s'.coreValue.toNat) := by
  obtain ⟨s', hhalts, hinv, hsame, hhigh⟩ := @innerLoop_halts g sched s hfits (h.going hlive)
  have hnext := hinv.peeling.next fun v hv => hsame ▸ hhigh v hv
  -- a nonempty live set is dense, so the core value has not reached the end of its range
  have hwraps : (live g s').Nonempty → (s'.coreValue + 1).toNat = s'.coreValue.toNat + 1 := by
    intro hne
    show (s'.coreValue.toNat + 1) % 2 ^ 32 = _
    by_contra hge
    have hdense : Dense (degreeIn g.toTableGraph) (2 ^ 32) (live g s') := by
      intro v hv
      have hdeg := hhigh v hv
      rw [← hsame] at hdeg
      omega
    rw [hfits.degrees _ hnext.sub hdense] at hne
    exact absurd hne Finset.not_nonempty_empty
  refine ⟨_, hhalts.map _, ⟨⟨hinv.counted.values, hinv.counted.count⟩,
    fun v hv => hnext.done v (List.mem_toFinset.mpr hv), ?_⟩, ?_⟩
  · intro hne
    refine ⟨⟨hinv.counted.values, hinv.counted.count⟩, hinv.counts, ?_⟩
    rw [hwraps hne]
    exact hnext
  · intro hne
    rw [hwraps hne, hsame]
    exact Nat.lt_succ_self _

end

/-- What the decomposition is to do on a graph, for every order of the decrements of a round. -/
def KCoreCorrect (g : TableMultigraph) : Prop :=
  ∀ sched rawDegrees rawCores, ∃ cores : CoreValues,
    Halts (kcore g.toTableGraph sched rawDegrees rawCores) cores ∧
    ∀ v, g.Node v → CoreNumber (degreeIn g.toTableGraph) g.nodes.toFinset v (cores v).toNat

section

variable {g : TableMultigraph}

theorem kcore_starts (hsmall : ∀ n ∈ g.sizes, n < 2 ^ 32) (rawDegrees : Degrees)
    (rawCores : CoreValues) : ∃ (degrees : Degrees) (cores : CoreValues),
    (∀ v ∈ g.nodes, degrees v = 0 ∧ cores v = INVALID_DEGREE) ∧ ∃ k, ∀ f, k ≤ f → ∀ sched,
      kcore g.toTableGraph sched rawDegrees rawCores f =
        (whileLoop (fun s => decide (g.nodes.length ≠ s.numNodesComputed.toNat))
          (fun s => (innerLoop g.toTableGraph sched f s).map
            fun s => { s with coreValue := s.coreValue + 1 })
          f ⟨computeDegree g.toTableGraph degrees, cores, 0, 0, 0⟩).map KCoreState.coreValues := by
  obtain ⟨degrees, ⟨k, hk⟩, hzero⟩ := allocate_halts hsmall (fun _ => (0 : UInt64)) rawDegrees
  obtain ⟨cores, ⟨k', hk'⟩, hinvalid⟩ := allocate_halts hsmall (fun _ => INVALID_DEGREE) rawCores
  refine ⟨degrees, cores, ?_, max k k', ?_⟩
  · intro v hv
    obtain ⟨⟨n, hn, hlt⟩, -⟩ := TableGraph.mem_nodes.mp hv
    exact ⟨hzero v n hn hlt, hinvalid v n hn hlt⟩
  · intro f hf sched
    have hdegrees : allocate g.sizes (fun _ => (0 : UInt64)) f rawDegrees = some degrees :=
      hk f (by omega)
    have hcores : allocate g.sizes (fun _ => INVALID_DEGREE) f rawCores = some cores :=
      hk' f (by omega)
    unfold kcore
    rw [hdegrees, bind_some, hcores, bind_some]

theorem outerInv_start {degrees : Degrees} {cores : CoreValues}
    (h : ∀ v ∈ g.nodes, degrees v = 0 ∧ cores v = INVALID_DEGREE) :
    OuterInv g ⟨computeDegree g.toTableGraph degrees, cores, 0, 0, 0⟩ := by
  have hall : live g ⟨computeDegree g.toTableGraph degrees, cores, 0, 0, 0⟩ = g.nodes.toFinset := by
    ext v
    rw [mem_live, List.mem_toFinset]
    exact ⟨And.left, fun hv => ⟨hv, (h v hv).2⟩⟩
  have hout : ∀ v ∈ g.nodes, v ∉ live g ⟨computeDegree g.toTableGraph degrees, cores, 0, 0, 0⟩ →
      False := fun v hv hnot => hnot (hall ▸ List.mem_toFinset.mpr hv)
  have hcounted : Counted g ⟨computeDegree g.toTableGraph degrees, cores, 0, 0, 0⟩ := by
    refine ⟨fun v hv hnot => (hout v hv hnot).elim, ?_⟩
    rw [hall, toFinset_card_of_nodup (nodes_nodup _)]
    exact Nat.zero_add _
  refine ⟨hcounted, fun v hv hnot => (hout v hv hnot).elim, fun _ => ⟨hcounted, ?_, ?_⟩⟩
  · intro v hv
    have hv' := (mem_live.mp hv).1
    rw [hall]
    show computeDegree g.toTableGraph degrees v = _
    -- every neighbour is a node, so the degree counts all of them
    have hcount : degreeIn g.toTableGraph g.nodes.toFinset v =
        (g.scanFwd v).length + (g.scanBwd v).length := by
      rw [← length_append]
      apply countP_eq_length.mpr
      intro u hu
      have hnode := TableGraph.mem_nodes.mp hv'
      rw [decide_eq_true_iff, List.mem_toFinset, TableGraph.mem_nodes]
      rcases mem_append.mp hu with hfwd | hbwd
      · exact g.fwd_node v u hnode hfwd
      · exact g.bwd_node v u hnode hbwd
    unfold computeDegree
    rw [if_pos hv', (h v hv').1, hcount, UInt64.ofNat_add, UInt64.zero_add]
  · rw [hall]
    exact Peeling.start _ _ _

theorem kcoreCorrect_of_fits (hfits : Fits g) : KCoreCorrect g := by
  intro sched rawDegrees rawCores
  obtain ⟨degrees, cores, hstart, k, hk⟩ := kcore_starts hfits.tables rawDegrees rawCores
  have hlive : ∀ s : KCoreState, OuterInv g s →
      (g.nodes.length ≠ s.numNodesComputed.toNat ↔ (live g s).Nonempty) := by
    intro s hinv
    have hcount := hinv.counted.count
    rw [← card_pos]
    omega
  obtain ⟨s', ⟨k', hk'⟩, hinv, hexit⟩ := while_halts
    (fun s : KCoreState => decide (g.nodes.length ≠ s.numNodesComputed.toNat))
    (fun f s => (innerLoop g.toTableGraph sched f s).map
      fun s => { s with coreValue := s.coreValue + 1 })
    (measure fun s : KCoreState =>
      if (live g s).Nonempty then 2 ^ 32 - s.coreValue.toNat else 0).wf
    (OuterInv g)
    (fun s hinv hcond => by
      have hne := (hlive s hinv).mp (of_decide_eq_true hcond)
      obtain ⟨s₁, hhalts, hinv₁, hmore⟩ := @OuterInv.step g sched s hfits hinv hne
      refine ⟨s₁, hhalts, hinv₁, ?_⟩
      show (if (live g s₁).Nonempty then 2 ^ 32 - s₁.coreValue.toNat else 0) <
        if (live g s).Nonempty then 2 ^ 32 - s.coreValue.toNat else 0
      have hlt := s.coreValue.toNat_lt
      split
      next hne₁ =>
        have hgrows := hmore hne₁
        omega
      · omega)
    (s := ⟨computeDegree g.toTableGraph degrees, cores, 0, 0, 0⟩) (outerInv_start hstart)
  refine ⟨s'.coreValues, ⟨max k k', fun f hf => ?_⟩, ?_⟩
  · have hloop := hk' f (by omega)
    rw [hk f (by omega) sched]
    simp only at hloop
    rw [hloop, map_some]
  · intro v hv
    apply hinv.done v (TableGraph.mem_nodes.mpr hv)
    intro hin
    exact of_decide_eq_false hexit ((hlive s' hinv).mpr ⟨v, hin⟩)

theorem kcore_values_lt (hsmall : ∀ n ∈ g.sizes, n < 2 ^ 32) (hnodes : g.nodes.length < 2 ^ 32)
    {sched : RemovalSchedule} {rawDegrees : Degrees} {rawCores cores : CoreValues}
    (h : Halts (kcore g.toTableGraph sched rawDegrees rawCores) cores) {v : NodeID}
    (hv : v ∈ g.nodes) : (cores v).toNat < 2 ^ 32 := by
  obtain ⟨degrees, cores₀, hstart, k, hk⟩ := kcore_starts hsmall rawDegrees rawCores
  obtain ⟨k', hk'⟩ := h
  have hrun := hk (max k k') (le_max_left k k') sched
  rw [hk' _ (le_max_right k k')] at hrun
  obtain ⟨s', hs', rfl⟩ := map_eq_some_iff.mp hrun.symm
  have hcounted : Counted g s' := while_inv (Counted g) (fun s s₁ hinv _ hbody => by
      obtain ⟨s₂, hinner, rfl⟩ := map_eq_some_iff.mp hbody
      have hinv₂ : Counted g s₂ := while_inv (Counted g) (fun a b ha _ hb => by
          cases hb
          exact ha.remove hnodes)
        hinv hinner
      exact ⟨hinv₂.values, hinv₂.count⟩)
    (outerInv_start hstart).counted hs'
  have hcond := while_exit hs'
  have hexit : ¬ g.nodes.length ≠ s'.numNodesComputed.toNat := of_decide_eq_false hcond
  apply hcounted.values v hv
  intro hin
  have hpos := card_pos.mpr ⟨v, hin⟩
  have hcount := hcounted.count
  omega

theorem fits_of_kcoreCorrect (h : KCoreCorrect g) : Fits g := by
  obtain ⟨cores, hhalts, hvalues⟩ := h ⟨fun _ es ↦ es, fun _ es ↦ .refl es⟩ (fun _ ↦ 0) fun _ ↦ 0
  have hsmall : ∀ n ∈ g.sizes, n < 2 ^ 32 := by
    intro n hn
    by_contra hbig
    obtain ⟨t, ht⟩ := mem_iff_getElem?.mp hn
    apply hhalts.not_diverges
    intro fuel
    unfold kcore
    rw [allocate_diverges ht (not_lt.mp hbig)]
    rfl
  have hnodes : g.nodes.length < 2 ^ 32 := by
    by_contra hbig
    apply hhalts.not_diverges
    intro fuel
    -- the 32-bit counter never reaches the number of nodes
    have hcond : ∀ s : KCoreState, decide (g.nodes.length ≠ s.numNodesComputed.toNat) = true := by
      intro s
      have hlt := s.numNodesComputed.toNat_lt
      exact decide_eq_true (by omega)
    unfold kcore
    cases allocate g.sizes (fun _ => (0 : UInt64)) fuel fun _ => 0 with
    | none => rfl
    | some degrees =>
      rw [bind_some]
      cases allocate g.sizes (fun _ => INVALID_DEGREE) fuel fun _ => 0 with
      | none => rfl
      | some cores =>
        rw [bind_some, while_diverges hcond]
        rfl
  refine ⟨hsmall, hnodes, fun S hS hdense => ?_⟩
  by_contra hne
  obtain ⟨v, hv⟩ := nonempty_iff_ne_empty.mpr hne
  have hmem := List.mem_toFinset.mp (hS hv)
  have hge := (hvalues v (TableGraph.mem_nodes.mp hmem)).2 ⟨S, hS, hv, hdense⟩
  have hlt := kcore_values_lt hsmall hnodes hhalts hmem
  omega

/-- For every graph: the decomposition ends with the core number of each node exactly when there
are fewer than `2 ^ 32` nodes and no set in which every node has `2 ^ 32` edges. -/
theorem kcore_finds_core_numbers_iff (g : TableMultigraph) : KCoreCorrect g ↔ Fits g :=
  ⟨fits_of_kcoreCorrect, kcoreCorrect_of_fits⟩

/-- One node with `n` relationships to itself. -/
def loops (n : Nat) : TableMultigraph where
  sizes := [1]
  mask := none
  scanFwd := fun u => replicate n u
  scanBwd := fun u => replicate n u
  fwd_node := fun u v hu hv => eq_of_mem_replicate hv ▸ hu
  bwd_node := fun u v hu hv => eq_of_mem_replicate hv ▸ hu
  transpose := fun u v _ _ => by
    rw [mem_replicate, mem_replicate, eq_comm]
  multiplicity := fun u v _ _ => by
    rw [count_replicate, count_replicate, Bool.beq_comm]

/-- The core value wraps before it reaches the degree of the node, and the loop goes on for ever. -/
theorem kcore_wraps_on_loops : ¬ KCoreCorrect (loops (2 ^ 31)) := by
  intro h
  have hdense : Dense (degreeIn (loops (2 ^ 31)).toTableGraph) (2 ^ 32) {⟨0, 0⟩} := by
    intro v hv
    obtain rfl := Finset.mem_singleton.mp hv
    show 2 ^ 32 ≤ countP _ (replicate (2 ^ 31) _ ++ replicate (2 ^ 31) _)
    rw [countP_append, countP_replicate, if_pos (by simp)]
    decide
  have hempty := (fits_of_kcoreCorrect h).degrees {⟨0, 0⟩}
    (singleton_subset_iff.mpr (List.mem_toFinset.mpr (by decide))) hdense
  exact absurd hempty (singleton_ne_empty _)

end

end Ladybug.Algo
