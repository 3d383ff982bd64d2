import Ladybug.Algo.LouvainComms

/-!
# Runs of Louvain

What holds in every state of a run: the sums of the communities, where the communities of the phases
lie in the graph, and what the result says.
-/

namespace Ladybug.Louvain

open Algo Finset Relation Option

/-! ## 1. Inside a phase -/

structure SumsInv (s : PhaseState) : Prop where
  small : s.graph.numNodes < 2 ^ 32
  graph : PhaseGraph s
  curr : CommsOk s s.currComm
  infos : InfosOk s

/-- What holds in a phase until its communities are renumbered. -/
structure PhaseInv (s : PhaseState) : Prop extends SumsInv s where
  accepted : CommsOk s s.acceptedComm

section

variable {s : PhaseState} {o : Outcome} {n k : Nat} {row : Nat → List Neighbor}

theorem InfosOk.start (hn : s.graph.numNodes = n) (hcurr : ∀ u < n, s.currComm u = u)
    (hinfos : ∀ u < n, s.currCommInfos u = ⟨1, s.nodeWeightedDegrees u⟩)
    (hgraph : PhaseGraph s) : InfosOk s := by
  have hown : ∀ c < n, ∀ val : Nat → UInt64, members s s.currComm val c =
      if s.graph.nbrs c ≠ [] then val c else 0 := by
    intro c hc val
    unfold members
    rw [hn, sum_eq_single_of_mem c (mem_range.mpr hc)]
    · rw [hcurr c hc]
      exact if_congr (and_iff_left rfl) rfl rfl
    · intro u hu hne
      rw [if_neg]
      intro h
      rw [hcurr u (mem_range.mp hu)] at h
      exact hne h.2
  intro c hc
  rw [hn] at hc
  rw [hown c hc, hown c hc, hinfos c hc]
  by_cases hnil : s.graph.nbrs c = []
  · rw [if_neg (not_not.mpr hnil), if_neg (not_not.mpr hnil), if_pos hnil,
      hgraph.degrees c (hn.symm ▸ hc), hnil]
    exact ⟨(zero_add 1).symm, rfl⟩
  · rw [if_pos hnil, if_pos hnil, if_neg hnil]
    exact ⟨(add_zero 1).symm, rfl⟩

theorem Starts.phaseInv (h : Starts s n row) (hrow : Symmetric n row) (hn : n < 2 ^ 32) :
    PhaseInv s where
  small := h.numNodes.symm ▸ hn
  graph := h.phaseGraph hrow
  curr := CommsOk.identity (h.numNodes.symm ▸ h.curr)
  accepted := CommsOk.identity (h.numNodes.symm ▸ h.accepted)
  infos := InfosOk.start h.numNodes h.curr
    (fun u hu => by rw [h.infos u hu, h.degrees u hu]) (h.phaseGraph hrow)

theorem PhaseInv.rejected (h : PhaseInv s) : PhaseInv (runIteration o s.startNewIter) :=
  ⟨⟨h.small, ⟨h.graph.symmetric, h.graph.degrees, h.graph.total⟩,
    ⟨h.curr.edges, h.curr.isolated⟩, h.infos⟩, ⟨h.accepted.edges, h.accepted.isolated⟩⟩

theorem PhaseInv.iterated (h : PhaseInv s) :
    PhaseInv (rotateComms (updateCommInfos (runIteration o s.startNewIter))) := by
  have htarget := h.curr.target h.graph.symmetric o
  exact ⟨⟨h.small, ⟨h.graph.symmetric, h.graph.degrees, h.graph.total⟩,
    ⟨htarget.edges, htarget.isolated⟩, h.infos.next htarget h.small⟩,
    ⟨h.curr.edges, h.curr.isolated⟩⟩

theorem SumsInv.renumber (h : SumsInv s) : SumsInv (renumberCommunities s).2 :=
  ⟨h.small, h.graph.renumber, ⟨h.curr.edges, h.curr.isolated⟩, h.infos⟩

theorem PhaseInv.edgesAssigned (h : PhaseInv s) : EdgesAssigned s s.acceptedComm := by
  intro u hu hua
  by_contra hedge
  have hlt := (h.accepted.edges u hu hedge).1
  have hsmall := h.small
  rw [hua] at hlt
  unfold UNASSIGNED_COMM at hlt
  omega

theorem renumber_identity (hid : ∀ u < s.graph.numNodes, s.acceptedComm u = u)
    (hn : s.graph.numNodes < 2 ^ 32) : (renumberCommunities s).1 = s.graph.numNodes := by
  have hren := renumberCommunities_renumbered s
  have hassigned : ∀ u < s.graph.numNodes, s.acceptedComm u ≠ UNASSIGNED_COMM := by
    intro u hu
    rw [hid u hu]
    unfold UNASSIGNED_COMM
    omega
  apply Nat.le_antisymm hren.le
  have hcard := card_le_card_of_injOn (s := range s.graph.numNodes)
    (t := range (renumberCommunities s).1) (renumberCommunities s).2.acceptedComm
    (by
      intro u hu
      rw [mem_coe, mem_range] at hu ⊢
      exact hren.lt u hu (hassigned u hu))
    (by
      intro u hu v hv heq
      rw [mem_coe, mem_range] at hu hv
      have hsame := (hren.same u hu v hv (hassigned u hu) (hassigned v hv)).mp heq
      rw [hid u hu, hid v hv] at hsame
      exact hsame)
  rwa [card_range, card_range] at hcard

theorem PhaseInv.merged (h : PhaseInv s) (hk : s.graph.numNodes ≠ (renumberCommunities s).1) :
    ∀ u < s.graph.numNodes, s.acceptedComm u ≠ UNASSIGNED_COMM → s.graph.nbrs u ≠ [] := by
  intro u hu hua hnil
  rcases h.accepted.isolated with hid | hun
  · exact hk (renumber_identity hid h.small).symm
  · exact hua (hun u hu hnil)

theorem PhaseInv.same_comm (h : PhaseInv s) {u v : Nat} (hu : u < s.graph.numNodes)
    (hv : v < s.graph.numNodes) (huedge : s.graph.nbrs u ≠ []) (hvedge : s.graph.nbrs v ≠ [])
    (heq : (renumberCommunities s).2.acceptedComm u = (renumberCommunities s).2.acceptedComm v) :
    Linked s u v := by
  have hassigned := h.edgesAssigned
  have hsame := ((renumberCommunities_renumbered s).same u hu v hv
    (fun hua => huedge (hassigned u hu hua)) (fun hva => hvedge (hassigned v hv hva))).mp heq
  have hulink := (h.accepted.edges u hu huedge).2.2
  have hvlink := (h.accepted.edges v hv hvedge).2.2
  rw [hsame] at hulink
  exact hulink.trans _ _ _ (hvlink.symm _ _)

end

/-! ## 2. The next phase -/

section

variable {s s' : PhaseState} {o : Outcome}

theorem PhaseInv.next (h : PhaseInv s) (hrun : aggregateCommunities o (renumberCommunities s).1
    (renumberCommunities s).2 = some s') :
    PhaseInv s' ∧ s'.graph.numNodes = (renumberCommunities s).1 := by
  have hstarts := aggregateCommunities_starts hrun
  have hnum : Numbered (renumberCommunities s).2 (renumberCommunities s).1 :=
    numbered_renumber h.edgesAssigned
  exact ⟨hstarts.2.2.phaseInv (commRow_symmetric o h.graph.symmetric hnum) hstarts.2.1,
    hstarts.2.2.numNodes⟩

variable {c : Nat}

theorem joined_next (h : PhaseInv s) (hrun : aggregateCommunities o (renumberCommunities s).1
    (renumberCommunities s).2 = some s') (hc : c < s'.graph.numNodes) (d : Nat) :
    Joined (s'.graph.nbrs c) d ↔ ∃ u < s.graph.numNodes, ∃ v < s.graph.numNodes,
      (renumberCommunities s).2.acceptedComm u = c ∧
      (renumberCommunities s).2.acceptedComm v = d ∧ Joined (s.graph.nbrs u) v := by
  have hstarts := (aggregateCommunities_starts hrun).2.2
  rw [hstarts.nbrs c (hstarts.numNodes ▸ hc), joined_commRow]
  exact allWeights_joined (s := (renumberCommunities s).2) h.graph.symmetric c d

theorem PhaseInv.next_edges (h : PhaseInv s) (hk : s.graph.numNodes ≠ (renumberCommunities s).1)
    (hrun : aggregateCommunities o (renumberCommunities s).1 (renumberCommunities s).2 = some s')
    (hc : c < s'.graph.numNodes) : s'.graph.nbrs c ≠ [] := by
  have hck : c < (renumberCommunities s).1 := (h.next hrun).2 ▸ hc
  obtain ⟨v, hv, hva, hvc⟩ := (renumberCommunities_renumbered s).used c hck
  obtain ⟨e, he⟩ := List.exists_mem_of_ne_nil _ (h.merged hk v hv hva)
  have hjoined := (joined_next h hrun hc _).mpr
    ⟨v, hv, e.neighbor, h.graph.symmetric.lt v hv e he, hvc, rfl, e, he, rfl⟩
  obtain ⟨e', he', -⟩ := hjoined
  exact List.ne_nil_of_mem he'

theorem linked_next (h : PhaseInv s)
    (hrun : aggregateCommunities o (renumberCommunities s).1 (renumberCommunities s).2 = some s')
    {d : Nat} (hlinked : Linked s' c d) :
    c = d ∨ ∃ u < s.graph.numNodes, ∃ v < s.graph.numNodes, s.graph.nbrs u ≠ [] ∧
      s.graph.nbrs v ≠ [] ∧ (renumberCommunities s).2.acceptedComm u = c ∧
      (renumberCommunities s).2.acceptedComm v = d ∧ Linked s u v := by
  induction hlinked with
  | rel c d hcd =>
    obtain ⟨hc, hd, hjoined⟩ := hcd
    obtain ⟨u, hu, v, hv, huc, hvd, huv⟩ := (joined_next h hrun hc d).mp hjoined
    obtain ⟨e, he, hev⟩ := huv
    have hvedge := (h.graph.symmetric.nbr_edges hu he).2
    rw [hev] at hvedge
    exact .inr ⟨u, hu, v, hv, List.ne_nil_of_mem he, hvedge, huc, hvd,
      EqvGen.rel _ _ ⟨hu, hv, e, he, hev⟩⟩
  | refl c => exact .inl rfl
  | symm c d _ ih =>
    rcases ih with heq | ⟨u, hu, v, hv, huedge, hvedge, huc, hvd, huv⟩
    · exact .inl heq.symm
    · exact .inr ⟨v, hv, u, hu, hvedge, huedge, hvd, huc, huv.symm _ _⟩
  | trans c d e _ _ ih₁ ih₂ =>
    rcases ih₁ with heq | ⟨u, hu, v, hv, huedge, hvedge, huc, hvd, huv⟩
    · rw [heq]
      exact ih₂
    · rcases ih₂ with heq | ⟨v', hv', w, hw, hvedge', hwedge, hvd', hwe, hvw⟩
      · rw [← heq]
        exact .inr ⟨u, hu, v, hv, huedge, hvedge, huc, hvd, huv⟩
      · -- both are members of the community between
        have hmid := h.same_comm hv hv' hvedge hvedge' (hvd.trans hvd'.symm)
        exact .inr ⟨u, hu, w, hw, huedge, hwedge, huc, hwe, (huv.trans _ _ _ hmid).trans _ _ _ hvw⟩

end

/-! ## 3. The nodes of the graph in the phases -/

def HasRel (g : StoredGraph) (v : Nat) : Prop := ∃ u, (v, u) ∈ g.rels ∨ (u, v) ∈ g.rels

def WeaklyConnected (g : StoredGraph) : Nat → Nat → Prop := EqvGen fun u v => (u, v) ∈ g.rels

structure Placed (g : StoredGraph) (s : PhaseState) (place : Nat → Nat) : Prop where
  edges : ∀ v < g.numNodes, HasRel g v → place v < s.graph.numNodes ∧ s.graph.nbrs (place v) ≠ []
  linked : ∀ u < g.numNodes, ∀ v < g.numNodes, HasRel g u → HasRel g v →
    Linked s (place u) (place v) → WeaklyConnected g u v
  others : (s.graph.numNodes = g.numNodes ∧ (∀ v < g.numNodes, place v = v) ∧
      ∀ v < g.numNodes, ¬ HasRel g v → s.graph.nbrs v = []) ∨
    ∀ v < g.numNodes, ¬ HasRel g v → place v = UNASSIGNED_COMM

/-- What the result promises. -/
def FinalOk (g : StoredGraph) (communities : Nat → Nat) : Prop :=
  (∀ v < g.numNodes, HasRel g v → communities v ≠ UNASSIGNED_COMM) ∧
  ∀ u < g.numNodes, ∀ v < g.numNodes, communities u = communities v →
    communities u ≠ UNASSIGNED_COMM → WeaklyConnected g u v

/-- The community of every node at the end of a phase. -/
def saved (s : PhaseState) (place : Nat → Nat) (v : Nat) : Nat :=
  if place v = UNASSIGNED_COMM then UNASSIGNED_COMM
  else (renumberCommunities s).2.acceptedComm (place v)

section

variable {g : StoredGraph} {s s' : PhaseState} {o : Outcome} {place : Nat → Nat} {v : Nat}

theorem initialRow_ne_nil : initialRow g v ≠ [] ↔ HasRel g v := by
  unfold initialRow
  rw [ne_eq, List.map_eq_nil_iff, List.eq_nil_iff_forall_not_mem, not_forall]
  simp only [not_not]
  apply exists_congr
  intro u
  exact mem_gatherNbrs

theorem Placed.start {fuel : Nat} (h : initInMemoryGraph g fuel = some s) :
    Placed g s fun v => v := by
  have hstarts := (initInMemoryGraph_starts h).2
  have hnbrs : ∀ v < g.numNodes, s.graph.nbrs v ≠ [] ↔ HasRel g v := by
    intro v hv
    rw [hstarts.nbrs v hv]
    exact initialRow_ne_nil
  constructor
  · intro v hv hrel
    exact ⟨hstarts.numNodes.symm ▸ hv, (hnbrs v hv).mpr hrel⟩
  · have hall : ∀ u v, Linked s u v → WeaklyConnected g u v := by
      intro u v huv
      induction huv with
      | rel u v huv =>
        obtain ⟨hu, -, e, he, hev⟩ := huv
        rw [hstarts.nbrs u (hstarts.numNodes ▸ hu)] at he
        obtain ⟨x, hx, hxe⟩ := List.mem_map.mp he
        rw [← hxe] at hev
        obtain rfl : x = v := hev
        rcases mem_gatherNbrs.mp hx with hr | hr
        · exact EqvGen.rel _ _ hr
        · exact (EqvGen.rel _ _ hr).symm _ _
      | refl u => exact EqvGen.refl u
      | symm u v _ ih => exact ih.symm _ _
      | trans u v w _ _ ih₁ ih₂ => exact ih₁.trans _ _ _ ih₂
    intro u _ v _ _ _ huv
    exact hall u v huv
  · left
    refine ⟨hstarts.numNodes, fun _ _ => rfl, ?_⟩
    intro v hv hrel
    by_contra hedge
    exact hrel ((hnbrs v hv).mp hedge)

section

variable (h : Placed g s place)

include h

section

variable (hs : PhaseInv s) (hv : v < g.numNodes) (hrel : HasRel g v)

include hs hv hrel

theorem Placed.ne_unassigned : place v ≠ UNASSIGNED_COMM := by
  have hlt := (h.edges v hv hrel).1
  have hsmall := hs.small
  unfold UNASSIGNED_COMM
  omega

theorem Placed.lookup :
    (renumberCommunities s).2.acceptedComm (place v) < (renumberCommunities s).1 := by
  obtain ⟨hlt, hedge⟩ := h.edges v hv hrel
  exact (renumberCommunities_renumbered s).lt _ hlt fun hua => hedge (hs.edgesAssigned _ hlt hua)

theorem Placed.saved_eq : saved s place v = (renumberCommunities s).2.acceptedComm (place v) :=
  if_neg (h.ne_unassigned hs hv hrel)

theorem Placed.saved_ne : saved s place v ≠ UNASSIGNED_COMM := by
  have hlt := h.lookup hs hv hrel
  have hle := (renumberCommunities_renumbered s).le
  have hsmall := hs.small
  rw [h.saved_eq hs hv hrel]
  unfold UNASSIGNED_COMM
  omega

end

theorem Placed.alone (hs : PhaseInv s) {u : Nat} (hu : u < g.numNodes) (hv : v < g.numNodes)
    (hrel : ¬ HasRel g u) (heq : saved s place u = saved s place v)
    (hne : saved s place u ≠ UNASSIGNED_COMM) : u = v := by
  rcases h.others with ⟨hn, hid, hnil⟩ | hun
  · have hsmall := hs.small
    have hplace : ∀ w < g.numNodes, saved s place w = (renumberCommunities s).2.acceptedComm w := by
      intro w hw
      unfold saved
      rw [hid w hw, if_neg]
      unfold UNASSIGNED_COMM
      omega
    have hren := renumberCommunities_renumbered s
    rw [hplace u hu] at heq hne
    rw [hplace v hv] at heq
    rw [← hn] at hu hv
    have hua : s.acceptedComm u ≠ UNASSIGNED_COMM := fun hua => hne (hren.unassigned u hu hua)
    have hva : s.acceptedComm v ≠ UNASSIGNED_COMM :=
      fun hva => hne (heq.trans (hren.unassigned v hv hva))
    have hsame := (hren.same u hu v hv hua hva).mp heq
    rcases hs.accepted.isolated with haid | haun
    · rwa [haid u hu, haid v hv] at hsame
    · exact absurd (haun u hu (hnil u (hn ▸ hu) hrel)) hua
  · exact absurd (if_pos (hun u hu hrel)) hne

theorem Placed.finalOk (hs : PhaseInv s) : FinalOk g (saved s place) := by
  refine ⟨fun v hv hrel => h.saved_ne hs hv hrel, ?_⟩
  intro u hu v hv heq hne
  by_cases hurel : HasRel g u
  · by_cases hvrel : HasRel g v
    · rw [h.saved_eq hs hu hurel, h.saved_eq hs hv hvrel] at heq
      obtain ⟨hult, huedge⟩ := h.edges u hu hurel
      obtain ⟨hvlt, hvedge⟩ := h.edges v hv hvrel
      exact h.linked u hu v hv hurel hvrel (hs.same_comm hult hvlt huedge hvedge heq)
    · rw [h.alone hs hv hu hvrel heq.symm (heq ▸ hne)]
      exact EqvGen.refl u
  · rw [h.alone hs hu hv hurel heq hne]
    exact EqvGen.refl v

end

theorem Placed.next (h : Placed g s place) (hs : PhaseInv s)
    (hk : s.graph.numNodes ≠ (renumberCommunities s).1)
    (hrun : aggregateCommunities o (renumberCommunities s).1 (renumberCommunities s).2 = some s') :
    Placed g s' (saved s place) := by
  have hn := (hs.next hrun).2
  constructor
  · intro v hv hrel
    rw [h.saved_eq hs hv hrel]
    have hlt : (renumberCommunities s).2.acceptedComm (place v) < s'.graph.numNodes :=
      hn ▸ h.lookup hs hv hrel
    exact ⟨hlt, hs.next_edges hk hrun hlt⟩
  · intro u hu v hv hurel hvrel hlinked
    obtain ⟨hult, huedge⟩ := h.edges u hu hurel
    obtain ⟨hvlt, hvedge⟩ := h.edges v hv hvrel
    rw [h.saved_eq hs hu hurel, h.saved_eq hs hv hvrel] at hlinked
    apply h.linked u hu v hv hurel hvrel
    rcases linked_next hs hrun hlinked with heq | ⟨x, hx, y, hy, hxedge, hyedge, hxu, hyv, hxy⟩
    · exact hs.same_comm hult hvlt huedge hvedge heq
    · have hux := hs.same_comm hult hx huedge hxedge hxu.symm
      have hyv' := hs.same_comm hy hvlt hyedge hvedge hyv
      exact (hux.trans _ _ _ hxy).trans _ _ _ hyv'
  · right
    intro v hv hrel
    unfold saved
    rcases h.others with ⟨hsame, hid, hnil⟩ | hun
    · have hvn : v < s.graph.numNodes := hsame.symm ▸ hv
      by_cases hva : s.acceptedComm v = UNASSIGNED_COMM
      · rw [hid v hv, (renumberCommunities_renumbered s).unassigned v hvn hva, ite_self]
      · exact absurd (hnil v hv hrel) (hs.merged hk v hvn hva)
    · rw [if_pos (hun v hv hrel)]

end

/-! ## 4. Runs -/

/-- Where the nodes are: in the first phase they are its nodes. -/
def RunState.place (t : RunState) (v : Nat) : Nat :=
  if t.phase = 0 then v else t.communities v

structure RunInv (g : StoredGraph) (cfg : Config) (t : RunState) : Prop where
  sums : SumsInv t.state
  phase : t.point ≠ .done → PhaseInv t.state
  small : g.numNodes < 2 ^ 32
  count : t.point ≠ .done → t.phase.toNat + t.state.graph.numNodes ≤ g.numNodes
  placed : t.point ≠ .done → Placed g t.state t.place
  unset : t.point ≠ .done → t.phase = 0 → t.communities = fun _ => 0
  phases : t.phase ≠ 0 ∨ t.point = .iterHead ∨ t.point = .phaseEnd → 0 < cfg.maxPhases
  result : t.point = .done → (0 < cfg.maxPhases ∧ FinalOk g t.communities) ∨
    (cfg.maxPhases = 0 ∧ t.communities = fun _ => 0)

section

variable {g : StoredGraph} {cfg : Config} {t t' : RunState} {o : Outcome}

theorem RunInv.start {fuel : Nat} {s : PhaseState} (h : initInMemoryGraph g fuel = some s) :
    RunInv g cfg (RunState.start s) := by
  obtain ⟨hsmall, hstarts⟩ := initInMemoryGraph_starts h
  have hphase := hstarts.phaseInv (initialRow_symmetric g) hsmall
  refine ⟨hphase.toSumsInv, fun _ => hphase, hsmall, ?_, ?_, fun _ _ => rfl, ?_, ?_⟩
  · intro _
    show (0 : UInt32).toNat + s.graph.numNodes ≤ g.numNodes
    rw [hstarts.numNodes]
    exact (Nat.zero_add _).le
  · intro _
    exact Placed.start h
  · rintro (h | h | h)
    · exact absurd rfl h
    · cases h
    · cases h
  · intro h
    cases h

theorem saveCommAssignments_eq (h : RunInv g cfg t) {v : Nat} (hv : v < g.numNodes) :
    saveCommAssignments t.phase t.communities (renumberCommunities t.state).2 v =
      saved t.state t.place v := by
  unfold saveCommAssignments saved RunState.place
  by_cases hphase : t.phase = 0
  · rw [if_pos hphase, if_pos hphase, if_neg]
    have hsmall := h.small
    unfold UNASSIGNED_COMM
    omega
  · rw [if_neg hphase, if_neg hphase]
    by_cases hun : t.communities v = UNASSIGNED_COMM
    · rw [if_pos hun, if_pos hun, hun]
    · rw [if_neg hun, if_neg hun]

theorem FinalOk.congr {c c' : Nat → Nat} (h : FinalOk g c) (heq : ∀ v < g.numNodes, c' v = c v) :
    FinalOk g c' := by
  constructor
  · intro v hv
    rw [heq v hv]
    exact h.1 v hv
  · intro u hu v hv
    rw [heq u hu, heq v hv]
    exact h.2 u hu v hv

variable {s : PhaseState} {p : Nat → Nat}

theorem Placed.congr {p' : Nat → Nat} (h : Placed g s p) (heq : ∀ v < g.numNodes, p' v = p v) :
    Placed g s p' := by
  constructor
  · intro v hv
    rw [heq v hv]
    exact h.edges v hv
  · intro u hu v hv
    rw [heq u hu, heq v hv]
    exact h.linked u hu v hv
  · rcases h.others with ⟨hn, hid, hnil⟩ | hun
    · exact .inl ⟨hn, fun v hv => (heq v hv).trans (hid v hv), hnil⟩
    · exact .inr fun v hv hrel => (heq v hv).trans (hun v hv hrel)

theorem Placed.stored_finalOk (h : Placed g s p) (hs : PhaseInv s)
    (hun : ∀ v < g.numNodes, ¬ HasRel g v → p v = UNASSIGNED_COMM) : FinalOk g p := by
  refine ⟨fun v hv hrel => h.ne_unassigned hs hv hrel, ?_⟩
  intro u hu v hv heq hne
  have hurel : HasRel g u := by
    by_contra hrel
    exact hne (hun u hu hrel)
  have hvrel : HasRel g v := by
    by_contra hrel
    exact hne (heq.trans (hun v hv hrel))
  exact h.linked u hu v hv hurel hvrel (heq ▸ EqvGen.refl _)

section

variable (h : RunInv g cfg t)

include h

theorem RunInv.stored (hpoint : t.point ≠ .done) (hphase : t.phase ≠ 0) :
    Placed g t.state t.communities ∧
      ∀ v < g.numNodes, ¬ HasRel g v → t.communities v = UNASSIGNED_COMM := by
  have hplaced : Placed g t.state t.communities :=
    (h.placed hpoint).congr fun v _ => (if_neg hphase).symm
  refine ⟨hplaced, ?_⟩
  rcases hplaced.others with ⟨hn, -, -⟩ | hun
  · -- a later phase has fewer nodes
    have hcount := h.count hpoint
    have hpos : t.phase.toNat ≠ 0 := fun h0 => hphase (UInt32.toNat_inj.mp h0)
    omega
  · exact hun

theorem RunInv.phaseHead (hpoint : t.point = .phaseHead) (hstep : step cfg o t = some t') :
    RunInv g cfg t' := by
  have hne : t.point ≠ .done := by
    rw [hpoint]
    decide
  unfold step at hstep
  rw [hpoint] at hstep
  dsimp only at hstep
  split at hstep
  · rename_i hlt
    rw [← some.inj hstep]
    exact ⟨h.sums, fun _ ↦ h.phase hne, h.small, fun _ ↦ h.count hne, fun _ ↦ h.placed hne, fun _ ↦ h.unset hne,
      fun _ => Nat.lt_of_le_of_lt (Nat.zero_le _) hlt, fun hdone => by cases hdone⟩
  · rename_i hge
    rw [← some.inj hstep]
    refine ⟨h.sums, fun hd => absurd rfl hd, h.small, fun hd => absurd rfl hd,
      fun hd => absurd rfl hd, fun hd => absurd rfl hd, ?_, ?_⟩
    · rintro (hphase | hpoint | hpoint)
      · exact h.phases (.inl hphase)
      · cases hpoint
      · cases hpoint
    · intro _
      by_cases hphase : t.phase = 0
      · right
        refine ⟨?_, h.unset hne hphase⟩
        rw [hphase] at hge
        exact Nat.le_zero.mp (Nat.le_of_not_lt hge)
      · left
        obtain ⟨hplaced, hun⟩ := h.stored hne hphase
        exact ⟨h.phases (.inl hphase), hplaced.stored_finalOk (h.phase hne) hun⟩

theorem RunInv.inside (hpoint : t.point = .iterHead) (hs : PhaseInv s)
    (hgraph : s.graph = t.state.graph) (point : Point) (hne : point ≠ .done) (iter : UInt32) :
    RunInv g cfg { t with point := point, state := s, iter := iter } := by
  have hnd : t.point ≠ .done := by
    rw [hpoint]
    decide
  have hlinked : Linked s = Linked t.state := by
    unfold Linked
    rw [hgraph]
  have hplaced := h.placed hnd
  refine ⟨hs.toSumsInv, fun _ ↦ hs, h.small, ?_, ?_, fun _ ↦ h.unset hnd, fun _ ↦ h.phases (.inr (.inl hpoint)),
    fun hd => absurd hd hne⟩
  · intro _
    rw [hgraph]
    exact h.count hnd
  · intro _
    constructor
    · rw [hgraph]
      exact hplaced.edges
    · rw [hlinked]
      exact hplaced.linked
    · rw [hgraph]
      exact hplaced.others

theorem RunInv.iterHead (hpoint : t.point = .iterHead) (hstep : step cfg o t = some t') :
    RunInv g cfg t' := by
  have hne : t.point ≠ .done := by
    rw [hpoint]
    decide
  unfold step at hstep
  rw [hpoint] at hstep
  dsimp only at hstep
  split at hstep
  · split at hstep
    · rw [← some.inj hstep]
      rw [← hpoint]
      exact h.inside hpoint ((h.phase hne).iterated (o := o)) rfl t.point hne (t.iter + 1)
    · rw [← some.inj hstep]
      exact h.inside hpoint ((h.phase hne).rejected (o := o)) rfl .phaseEnd (by decide) t.iter
  · rw [← some.inj hstep]
    exact h.inside hpoint (h.phase hne) rfl .phaseEnd (by decide) t.iter

theorem RunInv.phaseEnd (hpoint : t.point = .phaseEnd) (hstep : step cfg o t = some t') :
    RunInv g cfg t' := by
  have hne : t.point ≠ .done := by
    rw [hpoint]
    decide
  have hphase := h.phase hne
  have hplaced := h.placed hne
  have hpos : 0 < cfg.maxPhases := h.phases (.inr (.inr hpoint))
  have hsaved : ∀ v < g.numNodes,
      saveCommAssignments t.phase t.communities (renumberCommunities t.state).2 v =
        saved t.state t.place v := fun v hv => saveCommAssignments_eq h hv
  unfold step at hstep
  rw [hpoint] at hstep
  dsimp only at hstep
  split at hstep
  · rw [← some.inj hstep]
    exact ⟨h.sums.renumber, fun hd => absurd rfl hd, h.small, fun hd => absurd rfl hd,
      fun hd => absurd rfl hd, fun hd => absurd rfl hd, fun _ => hpos,
      fun _ => .inl ⟨hpos, (hplaced.finalOk hphase).congr hsaved⟩⟩
  · rename_i hk
    obtain ⟨s', hrun, ht'⟩ := map_eq_some_iff.mp hstep
    rw [← ht']
    obtain ⟨hnext, hn⟩ := hphase.next hrun
    -- there are fewer nodes, so the counter of the phases does not wrap
    have hcount := h.count hne
    have hle := (renumberCommunities_renumbered t.state).le
    have hsmall := h.small
    have hwrap : (t.phase + 1).toNat = t.phase.toNat + 1 := by
      show (t.phase.toNat + 1) % 2 ^ 32 = t.phase.toNat + 1
      omega
    have hlater : t.phase + 1 ≠ 0 := by
      intro h0
      rw [h0] at hwrap
      cases hwrap
    refine ⟨hnext.toSumsInv, fun _ => hnext, h.small, ?_, ?_, ?_, fun _ => hpos,
      fun hd => by cases hd⟩
    · intro _
      show (t.phase + 1).toNat + s'.graph.numNodes ≤ g.numNodes
      omega
    · intro _
      apply (hplaced.next hphase hk hrun).congr
      intro v hv
      exact (if_neg hlater).trans (hsaved v hv)
    · intro _ h0
      exact absurd h0 hlater

end

theorem RunInv.step (h : RunInv g cfg t) (hstep : step cfg o t = some t') : RunInv g cfg t' := by
  cases hpoint : t.point with
  | phaseHead => exact h.phaseHead hpoint hstep
  | iterHead => exact h.iterHead hpoint hstep
  | phaseEnd => exact h.phaseEnd hpoint hstep
  | done =>
    unfold Louvain.step at hstep
    rw [hpoint] at hstep
    cases hstep

theorem Reached.inv (h : Reached g cfg t) : RunInv g cfg t := by
  induction h with
  | start fuel s hs => exact RunInv.start hs
  | next o t t' _ hstep ih => exact ih.step hstep

end

/-! ## 5. The sums of the communities -/

/-- How many nodes with edges are in the community `c`. -/
def memberCount (s : PhaseState) (c : Nat) : Nat :=
  ((range s.graph.numNodes).filter fun u => s.graph.nbrs u ≠ [] ∧ s.currComm u = c).card

theorem memberCount_le (s : PhaseState) (c : Nat) : memberCount s c ≤ s.graph.numNodes := by
  exact (card_filter_le _ _).trans (card_range _).le

theorem members_toNat (s : PhaseState) (hn : s.graph.numNodes < 2 ^ 32) (c : Nat) :
    (members s s.currComm (fun _ => 1) c).toNat = memberCount s c := by
  have hone : ∀ p : Prop, [Decidable p] →
      (if p then (1 : UInt64) else 0).toNat = if p then 1 else 0 := by
    intro p _
    split
    · rfl
    · rfl
  have hcount : ∑ u ∈ range s.graph.numNodes,
      (if s.graph.nbrs u ≠ [] ∧ s.currComm u = c then (1 : UInt64) else 0).toNat =
        memberCount s c := by
    unfold memberCount
    rw [card_filter]
    apply sum_congr rfl
    intro u _
    rw [hone]
  have hle := memberCount_le s c
  unfold members
  rw [Weighted.toNat_sum (by rw [hcount]; omega), hcount]

/-- In every state of every run the infos of the communities are those of `currComm`, so that the
modularity is computed from the true sums. -/
theorem community_sums_exact (g : StoredGraph) (cfg : Config) (t : RunState) (h : Reached g cfg t) :
    let s := t.state
    (∀ c < s.graph.numNodes, (s.currCommInfos c).size.toNat =
        memberCount s c + (if s.graph.nbrs c = [] then 1 else 0) ∧
      (s.currCommInfos c).degree = ∑ u ∈ range s.graph.numNodes,
        if s.graph.nbrs u ≠ [] ∧ s.currComm u = c then rowWeight (s.graph.nbrs u) else 0) ∧
    (∀ u < s.graph.numNodes, s.graph.nbrs u ≠ [] → s.graph.nbrs (s.currComm u) ≠ []) ∧
    ∀ o, computeModularity (runIteration o s.startNewIter) =
      (intraSum s, ∑ c ∈ range s.graph.numNodes, members s s.currComm s.nodeWeightedDegrees c *
          members s s.currComm s.nodeWeightedDegrees c) := by
  intro s
  have hsums : SumsInv s := h.inv.sums
  refine ⟨?_, fun u hu hedge ↦ (hsums.curr.edges u hu hedge).2.1, computeModularity_exact hsums.infos⟩
  intro c hc
  obtain ⟨hsize, hdegree⟩ := hsums.infos c hc
  have hcount := members_toNat s hsums.small c
  have hle := memberCount_le s c
  have hsmall := hsums.small
  constructor
  · rw [hsize, UInt64.toNat_add, hcount]
    split
    · exact Nat.mod_eq_of_lt (by show memberCount s c + 1 < 2 ^ 64; omega)
    · exact Nat.mod_eq_of_lt (by show memberCount s c + 0 < 2 ^ 64; omega)
  · rw [hdegree]
    apply sum_congr rfl
    intro u hu
    rw [hsums.graph.degrees u (mem_range.mp hu)]

def plainRun (cfg : Config) : Nat → Option RunState
  | 0 => (initInMemoryGraph fourNodes 10).map RunState.start
  | n + 1 => (plainRun cfg n).bind (step cfg Outcome.plain)

theorem plainRun_reached {cfg : Config} {n : Nat} {t : RunState} (h : plainRun cfg n = some t) :
    Reached fourNodes cfg t := by
  induction n generalizing t with
  | zero =>
    obtain ⟨s, hs, rfl⟩ := map_eq_some_iff.mp h
    exact .start 10 s hs
  | succ n ih =>
    obtain ⟨t', ht', hstep⟩ := bind_eq_some_iff.mp h
    exact .next Outcome.plain t' t (ih ht') hstep

/-- After an iteration in which two nodes have moved to the community of a neighbour. -/
theorem community_sums_exact_moved : ∃ t, Reached fourNodes ⟨20, 20⟩ t ∧
    (t.iter, t.state.graph.numNodes, (List.range 4).map t.state.currComm) = (1, 4, [0, 1, 1, 2]) ∧
    (t.state.currCommInfos 1).size.toNat =
      memberCount t.state 1 + (if t.state.graph.nbrs 1 = [] then 1 else 0) := by
  have hrun : (plainRun ⟨20, 20⟩ 2).map (fun t => (t.iter, t.state.graph.numNodes,
      (List.range 4).map t.state.currComm)) = some (1, 4, [0, 1, 1, 2]) := by decide
  obtain ⟨t, ht, hstate⟩ := map_eq_some_iff.mp hrun
  have hn : t.state.graph.numNodes = 4 := (congrArg (fun v => v.2.1) hstate :)
  have h := community_sums_exact fourNodes ⟨20, 20⟩ t (plainRun_reached ht)
  exact ⟨t, plainRun_reached ht, hstate, (h.1 1 (by rw [hn]; decide)).1⟩

def loneNode : StoredGraph where
  numNodes := 1
  rels := []
  rels_lt := by decide
  scanFwd _ := []
  scanBwd _ := []
  fwd_perm _ := List.Perm.refl _
  bwd_perm _ := List.Perm.refl _

/-- The entry of a node without rels counts a node that has no edge. -/
theorem community_size_of_lone_node :
    ¬ ∀ (g : StoredGraph) (cfg : Config) (t : RunState), Reached g cfg t →
      ∀ c < t.state.graph.numNodes,
        (t.state.currCommInfos c).size.toNat = memberCount t.state c := by
  intro hall
  have hinit : (initInMemoryGraph loneNode 10).isSome := by decide
  obtain ⟨s, hs⟩ := isSome_iff_exists.mp hinit
  have hstarts := (initInMemoryGraph_starts hs).2
  have hn : s.graph.numNodes = 1 := hstarts.numNodes
  have hnil : s.graph.nbrs 0 = [] := hstarts.nbrs 0 (by decide)
  have h := hall loneNode ⟨20, 20⟩ (RunState.start s) (Reached.start 10 s hs) 0
    (by show 0 < s.graph.numNodes; omega)
  have hsize : (s.currCommInfos 0).size.toNat = 1 := by
    rw [hstarts.infos 0 (by decide)]
    rfl
  have hcount : memberCount s 0 = 0 := by
    unfold memberCount
    rw [hn]
    simp [hnil]
  have heq : (s.currCommInfos 0).size.toNat = memberCount s 0 := h
  rw [hsize, hcount] at heq
  cases heq

/-! ## 6. The result -/

theorem zero_ne_unassigned : 0 ≠ UNASSIGNED_COMM := by decide

/-- The communities of the result are connected exactly where a phase has run, or all nodes are
connected; and in every later phase the stored communities are nodes of its graph. -/
theorem result_connected_iff (g : StoredGraph) (cfg : Config) (t : RunState) (h : Reached g cfg t) :
    (t.point = .done → (FinalOk g t.communities ↔
      0 < cfg.maxPhases ∨ ∀ u < g.numNodes, ∀ v < g.numNodes, WeaklyConnected g u v)) ∧
    (t.point ≠ .done → t.phase ≠ 0 → ∀ v < g.numNodes, HasRel g v →
      t.communities v < t.state.graph.numNodes ∧
      t.state.acceptedComm (t.communities v) ≠ UNASSIGNED_COMM ∧
      (renumberCommunities t.state).2.acceptedComm (t.communities v) ≠ UNASSIGNED_COMM) := by
  have hinv := h.inv
  constructor
  · intro hdone
    rcases hinv.result hdone with ⟨hpos, hok⟩ | ⟨hzero, hcomm⟩
    · exact iff_of_true hok (.inl hpos)
    · rw [hcomm]
      constructor
      · intro hok
        right
        intro u hu v hv
        exact hok.2 u hu v hv rfl zero_ne_unassigned
      · rintro (hpos | hall)
        · omega
        · exact ⟨fun _ _ _ => zero_ne_unassigned, fun u hu v hv _ _ => hall u hu v hv⟩
  · intro hpoint hphase v hv hrel
    have hplaced := (hinv.stored hpoint hphase).1
    have hphase := hinv.phase hpoint
    obtain ⟨hlt, hedge⟩ := hplaced.edges v hv hrel
    refine ⟨hlt, fun hua => hedge (hphase.edgesAssigned _ hlt hua), ?_⟩
    have hne := hplaced.saved_ne hphase hv hrel
    rwa [hplaced.saved_eq hphase hv hrel] at hne

/-- A run of one phase, in which two nodes move. -/
theorem result_connected_moved : ∃ t, Reached fourNodes ⟨1, 2⟩ t ∧
    (t.point, (List.range 4).map t.communities) = (.done, [0, 1, 1, 2]) ∧
    FinalOk fourNodes t.communities := by
  have hrun : (plainRun ⟨1, 2⟩ 6).map (fun t => (t.point, (List.range 4).map t.communities)) =
      some (.done, [0, 1, 1, 2]) := by decide
  obtain ⟨t, ht, hresult⟩ := map_eq_some_iff.mp hrun
  have hdone := (congrArg Prod.fst hresult :)
  exact ⟨t, plainRun_reached ht, hresult,
    ((result_connected_iff fourNodes ⟨1, 2⟩ t (plainRun_reached ht)).1 hdone).mpr (.inl Nat.one_pos)⟩

def twoPairs : StoredGraph where
  numNodes := 4
  rels := [(0, 1), (2, 3)]
  rels_lt := by decide
  scanFwd u := ([(0, 1), (2, 3)].filter fun r : Nat × Nat => r.1 = u).map Prod.snd
  scanBwd u := ([(0, 1), (2, 3)].filter fun r : Nat × Nat => r.2 = u).map Prod.fst
  fwd_perm _ := List.Perm.refl _
  bwd_perm _ := List.Perm.refl _

theorem twoPairs_apart : ¬ WeaklyConnected twoPairs 0 2 := by
  have hhalf : ∀ u v, WeaklyConnected twoPairs u v → u / 2 = v / 2 := by
    intro u v huv
    induction huv with
    | rel u v huv =>
      have hpair : (u, v) = (0, 1) ∨ (u, v) = (2, 3) := by
        simpa [twoPairs] using huv
      rcases hpair with heq | heq
      all_goals
        cases heq
        decide
    | refl u => rfl
    | symm u v _ ih => exact ih.symm
    | trans u v w _ _ ih₁ ih₂ => exact ih₁.trans ih₂
  intro h
  exact absurd (hhalf 0 2 h) (by decide)

/-- With no phase at all every node gets the id 0. -/
theorem result_without_phases : ¬ ∀ (g : StoredGraph) (cfg : Config) (t : RunState),
    Reached g cfg t → t.point = .done → FinalOk g t.communities := by
  intro hall
  have hinit : (initInMemoryGraph twoPairs 10).isSome := by decide
  obtain ⟨s, hs⟩ := isSome_iff_exists.mp hinit
  have hstart : Reached twoPairs ⟨0, 20⟩ (RunState.start s) := .start 10 s hs
  have hdone := Reached.next Outcome.plain _ _ hstart rfl
  have hok := hall twoPairs ⟨0, 20⟩ _ hdone rfl
  exact twoPairs_apart (hok.2 0 (by decide) 2 (by decide) rfl zero_ne_unassigned)

end Ladybug.Louvain
