import Ladybug.Algo.ColouringCorrect

/-!
# Weak components (`algo/src/function/weakly_connected_components.cpp`, `component_ids.cpp`)

Every node offers its component id to its neighbours in both directions until nothing changes or
the bound is reached.  A relaxation loads the id of the bound node and then lowers that of the
neighbour by compare and swap; between the two other relaxations may write.
-/

namespace Ladybug.Algo

open Relation List

/-- `ComponentIDsPair::update` with the loaded `boundValue`; the compare and swap is tried until it
succeeds or the neighbour's id is small enough. -/
def updateLoaded (ids : ComponentIDs) (boundValue : Nat) (nbr : NodeID) : Bool × ComponentIDs :=
  if ids nbr > boundValue then (true, Function.update ids nbr boundValue) else (false, ids)

/-- `WCCEdgeCompute` on one neighbour; the second component collects the next frontier. -/
def wccEdgeCompute (boundValue : Nat) (nbr : NodeID) (s : ComponentIDs × List NodeID) :
    ComponentIDs × List NodeID :=
  match updateLoaded s.1 boundValue nbr with
  | (true, ids) => (ids, nbr :: s.2)
  | (false, _) => s

/-- The relaxations of a round in the order of their writes; `age` is the number of writes between
a relaxation's load and its own (past the first write of the round it is the present value). -/
def wccRound : List (Nat × NodeID × NodeID) → List ComponentIDs → ComponentIDs × List NodeID →
    ComponentIDs × List NodeID
  | [], _, s => s
  | (age, bound, nbr) :: es, past, s =>
    wccRound es (s.1 :: past) (wccEdgeCompute ((past.getD age s.1) bound) nbr s)

/-- The order of the writes and the moments of the loads, for every round. -/
structure RaceSchedule where
  order : Nat → List (NodeID × NodeID) → List (Nat × NodeID × NodeID)
  perm : ∀ k es, ((order k es).map Prod.snd).Perm es

section

variable (g : TableGraph) (sched : RaceSchedule) (maxIterations : Nat)

def wccIteration (k : Nat) (ids : ComponentIDs) (frontier : List NodeID) :
    ComponentIDs × List NodeID :=
  let s := wccRound (sched.order k (roundEdges g.scanBoth frontier)) [] (ids, [])
  (s.1, g.nodes.filter fun v => v ∈ s.2)

def wcc (raw : ComponentIDs) (fuel : Nat) : Option ComponentIDs :=
  (getSequenceComponentIDs g.sizes fuel raw).map fun ids =>
    rounds (wccIteration g sched) maxIterations 0 ids g.nodes

end

theorem wccEdgeCompute_eq_offer (boundValue : Nat) (nbr : NodeID) (s : ComponentIDs × List NodeID) :
    wccEdgeCompute boundValue nbr s = offer (fun _ => true) boundValue nbr s := by
  unfold wccEdgeCompute updateLoaded offer
  by_cases hlt : boundValue < s.1 nbr
  · simp [hlt]
  · simp [hlt]

theorem wccRound_eq_race (es : List (Nat × NodeID × NodeID)) (past : List ComponentIDs)
    (s : ComponentIDs × List NodeID) : wccRound es past s = race (fun _ => true) es past s := by
  induction es generalizing past s with
  | nil => rfl
  | cons e es ih =>
    show wccRound es _ (wccEdgeCompute _ e.2.2 s) = race _ es _ (offer _ _ e.2.2 s)
    rw [wccEdgeCompute_eq_offer]
    exact ih (s.1 :: past) _

theorem wccIteration_relaxes (g : TableGraph) (sched : RaceSchedule) :
    Relaxes g.nodes (fun _ => true) g.scanBoth (wccIteration g sched) := by
  intro k ids frontier
  unfold wccIteration
  rw [wccRound_eq_race]
  exact Round.of_race g.nodes (sched.perm k _)

/-- Linked by edges of either direction. -/
abbrev Connected (g : TableGraph) : NodeID → NodeID → Prop := EqvGen g.Edge

section

variable {g : TableGraph} {u v : NodeID}

abbrev Pass (g : TableGraph) : NodeID → NodeID → Prop := Passes (fun _ => true) g.scanBoth

theorem pass_node (hu : g.Node u) (h : Pass g u v) : g.Node v := by
  rcases mem_append.mp h.1 with hfwd | hbwd
  · exact g.fwd_node u v hu hfwd
  · exact g.bwd_node u v hu hbwd

theorem pass_of_edge (h : g.Edge u v) : Pass g u v ∧ Pass g v u := by
  have hv : g.Node v := g.fwd_node u v h.1 h.2
  have hback : u ∈ g.scanBwd v := (g.transpose u v h.1 hv).mp h.2
  exact ⟨⟨mem_append_left _ h.2, rfl⟩, ⟨mem_append_right _ hback, rfl⟩⟩

theorem connected_of_passes (hu : g.Node u) (h : ReflTransGen (Pass g) u v) :
    g.Node v ∧ Connected g u v := by
  induction h with
  | refl => exact ⟨hu, .refl u⟩
  | tail _ hpass ih =>
    refine ⟨pass_node ih.1 hpass, .trans _ _ _ ih.2 ?_⟩
    rcases mem_append.mp hpass.1 with hfwd | hbwd
    · exact .rel _ _ ⟨ih.1, hfwd⟩
    · exact .symm _ _ (.rel _ _ (edge_of_bwd ih.1 hbwd))

theorem passes_of_connected (h : Connected g u v) :
    ReflTransGen (Pass g) u v ∧ ReflTransGen (Pass g) v u := by
  induction h with
  | rel u v hedge =>
    obtain ⟨hto, hback⟩ := pass_of_edge hedge
    exact ⟨.single hto, .single hback⟩
  | refl u => exact ⟨.refl, .refl⟩
  | symm u v _ ih => exact ih.symm
  | trans u v w _ _ ih ih' => exact ⟨ih.1.trans ih'.1, ih'.2.trans ih.2⟩

end

section

variable {g : TableGraph} {sched : RaceSchedule} {maxIterations : Nat} {raw ids₀ : ComponentIDs}
  {u v : NodeID}

theorem wcc_halts (hsmall : ∀ n ∈ g.sizes, n < 2 ^ 32) (raw : ComponentIDs) :
    ∃ ids₀ : ComponentIDs, (∀ v, g.Node v → ids₀ v = sequenceID g.sizes v) ∧
      ∀ sched maxIterations, Halts (wcc g sched maxIterations raw)
        (rounds (wccIteration g sched) maxIterations 0 ids₀ g.nodes) := by
  obtain ⟨ids₀, hhalts, hfilled⟩ := fillTables_halts hsmall (sequenceID g.sizes) raw
  refine ⟨ids₀, ?_, fun sched maxIterations => hhalts.map _⟩
  rintro v ⟨⟨n, hn, hlt⟩, -⟩
  exact hfilled v n hn hlt

theorem wcc_spread (g : TableGraph) (ids₀ : ComponentIDs) :
    Spread g.nodes (fun _ => true) g.scanBoth ids₀ g.Node ids₀ g.nodes :=
  Spread.start _ _ _ (fun _ => TableGraph.mem_nodes.mp) (fun _ h _ => h)

section

variable (hids₀ : ∀ v, g.Node v → ids₀ v = sequenceID g.sizes v)

include hids₀

theorem rounds_named (hv : g.Node v) : ∃ u, g.Node u ∧ Connected g u v ∧
      rounds (wccIteration g sched) maxIterations 0 ids₀ g.nodes v = sequenceID g.sizes u := by
  have hcolour := (wcc_spread g ids₀).rounds_colour (wccIteration_relaxes g sched) maxIterations 0 v
  rcases hcolour with hown | ⟨u, hu, hreach, hval⟩
  · exact ⟨v, hv, .refl v, hown.trans (hids₀ v hv)⟩
  · exact ⟨u, hu, (connected_of_passes hu hreach).2, hval.trans (hids₀ u hu)⟩

theorem rounds_least (hmax : g.nodes.length ≤ maxIterations) (hu : g.Node u) (h : Connected g u v) :
    rounds (wccIteration g sched) maxIterations 0 ids₀ g.nodes v ≤ sequenceID g.sizes u := by
  have hclosed : ∀ a b, a ∈ g.nodes → Pass g a b → b ∈ g.nodes := by
    intro a b ha hab
    rw [TableGraph.mem_nodes] at ha ⊢
    exact pass_node ha hab
  have hsettled := (wcc_spread g ids₀).rounds_settle (wccIteration_relaxes g sched) hclosed
    (fun _ hs => TableGraph.mem_nodes.mpr hs)
    (fun s a hs ha hnot => absurd (connected_of_passes hs ha).1 hnot) hmax 0 v
  rw [← hids₀ u hu]
  exact not_lt.mp fun hlt => hsettled ⟨u, hu, (passes_of_connected h).1, hlt⟩

end

end

def MinimumID (g : TableGraph) (v : NodeID) (id : Nat) : Prop :=
  IsLeast {x | ∃ u, g.Node u ∧ Connected g u v ∧ sequenceID g.sizes u = x} id

/-- What the propagation is to do on a graph, for every order of the writes and every moment of the
loads. -/
def WccCorrect (g : TableGraph) : Prop :=
  ∀ sched raw, ∃ ids : Nat → ComponentIDs,
    (∀ maxIterations, Halts (wcc g sched maxIterations raw) (ids maxIterations)) ∧
    (∀ maxIterations v, g.Node v → ids (maxIterations + 1) v ≤ ids maxIterations v ∧
      ∃ u, g.Node u ∧ Connected g u v ∧ ids maxIterations v = sequenceID g.sizes u) ∧
    ∀ maxIterations, g.nodes.length ≤ maxIterations →
      (∀ v, g.Node v → MinimumID g v (ids maxIterations v)) ∧
      ∀ u v, g.Node u → g.Node v → (ids maxIterations u = ids maxIterations v ↔ Connected g u v)

theorem wccCorrect_of_layout {g : TableGraph} (hok : LayoutOk g.sizes) : WccCorrect g := by
  intro sched raw
  obtain ⟨ids₀, hids₀, hhalts⟩ := wcc_halts hok.small raw
  refine ⟨fun bound => rounds (wccIteration g sched) bound 0 ids₀ g.nodes,
    fun bound => hhalts sched bound, ?_, ?_⟩
  · intro bound v hv
    exact ⟨rounds_succ_le (wccIteration_relaxes g sched) bound 0 ids₀ g.nodes v,
      rounds_named hids₀ hv⟩
  · intro bound hmax
    constructor
    · intro v hv
      constructor
      · obtain ⟨u, hu, huv, hval⟩ := @rounds_named g sched bound ids₀ v hids₀ hv
        exact ⟨u, hu, huv, hval.symm⟩
      · rintro x ⟨u, hu, huv, rfl⟩
        exact rounds_least hids₀ hmax hu huv
    · intro u v hu hv
      obtain ⟨a, ha, hau, hvala⟩ := @rounds_named g sched bound ids₀ u hids₀ hu
      obtain ⟨b, hb, hbv, hvalb⟩ := @rounds_named g sched bound ids₀ v hids₀ hv
      constructor
      · intro heq
        have hsame : a = b := sequenceID_inj hok ha hb (hvala.symm.trans (heq.trans hvalb))
        exact .trans _ _ _ (.symm _ _ hau) (hsame ▸ hbv)
      · intro huv
        apply le_antisymm
        · show _ ≤ rounds (wccIteration g sched) bound 0 ids₀ g.nodes v
          rw [hvalb]
          exact rounds_least hids₀ hmax hb (.trans _ _ _ hbv (.symm _ _ huv))
        · show _ ≤ rounds (wccIteration g sched) bound 0 ids₀ g.nodes u
          rw [hvala]
          exact rounds_least hids₀ hmax ha (.trans _ _ _ hau huv)

theorem edgeless_connected {sizes : List Nat} {u v : NodeID}
    (h : Connected (edgeless sizes) u v) : u = v := by
  rcases (passes_of_connected h).1.cases_head with heq | ⟨w, hpass, -⟩
  · exact heq
  · exact absurd hpass.1 not_mem_nil

/-- Every relaxation loads the present id and writes at once. -/
def noRace : RaceSchedule where
  order := fun _ es => es.map fun e => (es.length, e)
  perm := fun _ es => by
    rw [List.map_map]
    exact List.Perm.of_eq (List.map_id es)

theorem layout_of_wccCorrect {sizes : List Nat} (h : WccCorrect (edgeless sizes)) :
    LayoutOk sizes := by
  obtain ⟨ids, hhalts, -, hcomplete⟩ := h noRace fun _ => 0
  obtain ⟨hleast, hiff⟩ := hcomplete _ le_rfl
  have hsmall : ∀ n ∈ sizes, n < 2 ^ 32 := by
    intro n hn
    by_contra hbig
    obtain ⟨t, ht⟩ := mem_iff_getElem?.mp hn
    apply (hhalts 0).not_diverges
    intro fuel
    have hnone : getSequenceComponentIDs (edgeless sizes).sizes fuel (fun _ => 0) = none :=
      fillTables_diverges ht (not_lt.mp hbig) _ _ fuel
    unfold wcc
    rw [hnone]
    rfl
  by_contra hbad
  obtain ⟨u, v, hu, hv, hne, heq⟩ := exists_collision hsmall hbad
  -- without edges every node keeps its sequence id
  have hown : ∀ w, (edgeless sizes).Node w →
      ids (edgeless sizes).nodes.length w = sequenceID sizes w := by
    intro w hw
    obtain ⟨a, -, haw, hval⟩ := (hleast w hw).1
    rw [← hval, edgeless_connected haw]
    rfl
  apply hne
  apply edgeless_connected
  rw [← hiff u v hu hv, hown u hu, hown v hv]
  exact heq

/-- For all table sizes: the propagation finds the weak components of every graph over such tables
exactly when the 32-bit counters and start offsets do not wrap. -/
theorem wcc_finds_components_iff (sizes : List Nat) :
    (∀ g : TableGraph, g.sizes = sizes → WccCorrect g) ↔ LayoutOk sizes := by
  constructor
  · intro h
    exact layout_of_wccCorrect (h (edgeless sizes) rfl)
  · rintro hok g rfl
    exact wccCorrect_of_layout hok

/-- Node 0 of the third table has the id of node 0 of the first, without any edge. -/
theorem wcc_joins_three_tables : ¬ WccCorrect (edgeless [2 ^ 31, 2 ^ 31, 1]) := by
  intro h
  have hstart := (layout_of_wccCorrect h 2 1 rfl).2 (by decide)
  exact absurd hstart (by decide)

end Ladybug.Algo
