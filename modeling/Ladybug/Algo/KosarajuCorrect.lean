import Ladybug.Algo.Kosaraju
import Mathlib.Data.Finset.Card

/-!
# Kosaraju's algorithm finds the strong components

The forward pass is a depth-first search, so it leaves a finishing order; the backward pass then
meets the components one by one.  Both counters of the source have 32 bits, and the loops they count
end only for tables with fewer than `2 ^ 32` nodes.
-/

namespace Ladybug.Algo

open Relation List Function

/-! ## 1. Rounds that are left -/

/-- Offsets below `n` that satisfy `p`. -/
def pending (n : Nat) (p : Nat → Bool) : Nat := ((Finset.range n).filter fun i => p i = true).card

variable {n c : Nat} {t : Traversal} {g : ScanGraph} {s s₀ : VisitedState}

theorem pending_lt {p q : Nat → Bool} (hsub : ∀ i, q i = true → p i = true) {x : Nat} (hx : x < n)
    (hp : p x = true) (hq : q x = false) : pending n q < pending n p := by
  apply Finset.card_lt_card
  rw [Finset.ssubset_iff_of_subset]
  · refine ⟨x, Finset.mem_filter.mpr ⟨Finset.mem_range.mpr hx, hp⟩, ?_⟩
    intro hmem
    rw [Finset.mem_filter, hq] at hmem
    exact absurd hmem.2 (by decide)
  · intro i hi
    rw [Finset.mem_filter] at hi ⊢
    exact ⟨hi.1, hsub i hi.2⟩

/-- Fewer pending offsets, or as many and a shorter stack. -/
def Shrinks (n : Nat) (p : VisitedState → Nat → Bool) : Traversal → Traversal → Prop :=
  InvImage (Prod.Lex (· < ·) (· < ·)) fun t => (pending n (p t.state), t.toProcess.length)

theorem shrinks_wf (n : Nat) (p : VisitedState → Nat → Bool) : WellFounded (Shrinks n p) :=
  InvImage.wf _ (WellFounded.prod_lex Nat.lt_wfRel.wf Nat.lt_wfRel.wf)

theorem shrinks_of_pop {p : VisitedState → Nat → Bool} {t' : Traversal}
    (hpending : pending n (p t'.state) = pending n (p t.state))
    (hlen : t'.toProcess.length < t.toProcess.length) : Shrinks n p t' t := by
  show Prod.Lex _ _ (pending n (p t'.state), _) (pending n (p t.state), _)
  rw [hpending]
  exact Prod.Lex.right _ hlen

/-! ## 2. The forward pass -/

def Marked (g : ScanGraph) (s : VisitedState) (i : Nat) : Prop := g.Node i ∧ s.visited i = true

structure Forward (g : ScanGraph) (t : Traversal) : Prop where
  nodes : ∀ i ∈ t.toProcess, g.Node i
  search : DepthFirst g.Edge t.toProcess (Marked g t.state) t.order
  processed : ∀ i, g.Node i → (t.state.processed i = true ↔ i ∈ t.order)

/-- On the stack, or met before. -/
def Seen (g : ScanGraph) (t : Traversal) (i : Nat) : Prop := i ∈ t.toProcess ∨ Marked g t.state i

theorem forwardStep_spec (h : Forward g t) (hne : t.toProcess ≠ []) :
    Forward g (forwardStep g t) ∧ (∀ i, Seen g t i → Seen g (forwardStep g t) i) ∧
      Shrinks g.maxOffset (fun s i => !s.visited i) (forwardStep g t) t := by
  obtain ⟨stack, s, order⟩ := t
  obtain ⟨x, rest, rfl⟩ := exists_cons_of_ne_nil hne
  obtain ⟨hnodes, hsearch, hproc⟩ := h
  have hx : g.Node x := hnodes x mem_cons_self
  have hrest : ∀ i ∈ rest, g.Node i := fun i hi => hnodes i (mem_cons_of_mem x hi)
  unfold forwardStep
  simp only
  by_cases hvis : s.visited x = true
  · have hseen : ∀ i, i ∈ x :: rest ∨ Marked g s i → i ∈ rest ∨ Marked g s i := by
      intro i hi
      rcases hi with hin | hm
      · rcases mem_cons.mp hin with rfl | hin
        · exact .inr ⟨hx, hvis⟩
        · exact .inl hin
      · exact .inr hm
    rw [if_pos hvis]
    by_cases hdone : s.processed x = true
    · rw [if_pos hdone]
      refine ⟨⟨hrest, hsearch.pop ((hproc x hx).mp hdone), hproc⟩, hseen, ?_⟩
      exact shrinks_of_pop rfl (Nat.lt_succ_self rest.length)
    · -- the second visit finishes the node
      rw [if_neg hdone]
      have hmarked : ∀ i, Marked g (s.setProcessed x) i ↔ Marked g s i := by
        intro i
        unfold Marked
        rw [VisitedState.visited_setProcessed hvis]
      have hopen : Open (Marked g s) order x := ⟨⟨hx, hvis⟩, fun hin ↦ hdone ((hproc x hx).mpr hin)⟩
      refine ⟨⟨hrest, (hsearch.finish hopen).congr hmarked, ?_⟩, ?_, ?_⟩
      · intro i hi
        rw [VisitedState.processed_setProcessed, hproc i hi, mem_cons, or_comm]
      · intro i hi
        exact (hseen i hi).imp id (hmarked i).mpr
      · refine shrinks_of_pop ?_ (Nat.lt_succ_self rest.length)
        have hsame : ∀ i, (s.setProcessed x).visited i = s.visited i := fun i =>
          Bool.eq_iff_iff.mpr (VisitedState.visited_setProcessed hvis i)
        simp only [hsame]
  · rw [if_neg hvis]
    have hmarked : ∀ i, Marked g (s.setVisited x) i ↔ Marked g s i ∨ i = x := by
      intro i
      unfold Marked
      rw [VisitedState.visited_setVisited]
      constructor
      · rintro ⟨hi, hv | rfl⟩
        · exact .inl ⟨hi, hv⟩
        · exact .inr rfl
      · rintro (⟨hi, hv⟩ | rfl)
        · exact ⟨hi, .inl hv⟩
        · exact ⟨hx, .inr rfl⟩
    have hpush : ∀ w, w ∈ ((g.scanFwd x).filter fun v => !(s.setVisited x).visited v).reverse ↔
        w ∈ g.scanFwd x ∧ ¬ (s.setVisited x).visited w = true := by
      simp
    have hdiscover := hsearch.discover (fun hm => hvis hm.2)
      ((g.scanFwd x).filter fun v => !(s.setVisited x).visited v).reverse
      (fun w hw => by
        obtain ⟨hin, hnew⟩ := (hpush w).mp hw
        exact ⟨⟨hx, hin⟩, fun hm => hnew ((hmarked w).mpr hm).2⟩)
      (fun w hw => by
        by_cases hnew : (s.setVisited x).visited w = true
        · exact .inl ((hmarked w).mp ⟨g.fwd_node x w hx hw.2, hnew⟩)
        · exact .inr ((hpush w).mpr ⟨hw.2, hnew⟩))
    refine ⟨⟨?_, hdiscover.congr hmarked, ?_⟩, ?_, ?_⟩
    · intro i hi
      rcases mem_append.mp hi with hin | hin
      · exact g.fwd_node x i hx ((hpush i).mp hin).1
      · exact hnodes i hin
    · intro i hi
      rw [VisitedState.processed_setVisited hvis, hproc i hi]
    · intro i hi
      rcases hi with hin | hm
      · exact .inl (mem_append_right _ hin)
      · exact .inr ((hmarked i).mpr (.inl hm))
    · refine Prod.Lex.left _ _ (pending_lt ?_ hx.1 ?_ ?_)
      · intro i hi
        simp only [Bool.not_eq_true', Bool.eq_false_iff] at hi ⊢
        exact fun hv => hi ((VisitedState.visited_setVisited s x i).mpr (.inl hv))
      · simpa using hvis
      · have hmark := (VisitedState.visited_setVisited s x x).mpr (.inr rfl)
        simp [hmark]

theorem forwardDFS_halts (h : Forward g t) :
    ∃ t', Halts (fun f => forwardDFS g f t) t' ∧ Forward g t' ∧ t'.toProcess = [] ∧
      ∀ i, Seen g t i → Marked g t'.state i := by
  obtain ⟨t', hhalts, ⟨hfwd, hseen⟩, hdone⟩ := while_halts
    (fun t : Traversal => !t.toProcess.isEmpty) (fun _ t => some (forwardStep g t))
    (shrinks_wf g.maxOffset fun s i => !s.visited i)
    (fun t' => Forward g t' ∧ ∀ i, Seen g t i → Seen g t' i)
    (fun t' hinv hcond => by
      have hne : t'.toProcess ≠ [] := by
        intro hnil
        rw [hnil] at hcond
        exact absurd hcond (by decide)
      obtain ⟨hfwd, hseen, hshrinks⟩ := forwardStep_spec hinv.1 hne
      exact ⟨_, halts_const _, ⟨hfwd, fun i hi => hseen i (hinv.2 i hi)⟩, hshrinks⟩)
    (s := t) ⟨h, fun i hi => hi⟩
  have hempty : t'.toProcess = [] := by
    rw [Bool.not_eq_false', List.isEmpty_iff] at hdone
    exact hdone
  refine ⟨t', hhalts, hfwd, hempty, ?_⟩
  intro i hi
  rcases hseen i hi with hin | hm
  · rw [hempty] at hin
    exact absurd hin not_mem_nil
  · exact hm

theorem initVisited_halts (hn : n < 2 ^ 32) (raw : VisitedState) :
    ∃ s, Halts (fun f => initVisited n f raw) s ∧ ∀ i, i < n → s i = NOT_VISITED := by
  apply forU32_halts hn (fun _ i s => some (Function.update s i.toNat NOT_VISITED))
    (fun k s => ∀ i, i < k → s i = NOT_VISITED)
  · intro i s hi hinit
    refine ⟨Function.update s i.toNat NOT_VISITED, halts_const _, ?_⟩
    intro j hj
    rw [update_apply]
    split
    · rfl
    next hne => exact hinit j (by omega)
  · exact fun i hi => absurd hi (Nat.not_lt_zero i)

theorem forward_start (hinit : ∀ i, i < g.maxOffset → s i = NOT_VISITED) :
    Forward g ⟨[], s, []⟩ where
  nodes := fun i hi => absurd hi not_mem_nil
  search := by
    apply (DepthFirst.start g.Edge).congr
    intro i
    refine iff_of_false ?_ id
    rintro ⟨hi, hvis⟩
    have hmark : decide (VISITED ≤ s i) = true := hvis
    rw [hinit i hi.1] at hmark
    exact absurd hmark (by decide)
  processed := by
    intro i hi
    refine iff_of_false ?_ not_mem_nil
    intro hproc
    have hmark : decide (s i = PROCESSED) = true := hproc
    rw [hinit i hi.1] at hmark
    exact absurd hmark (by decide)

theorem forwardPass_halts (hn : g.maxOffset < 2 ^ 32)
    (hinit : ∀ i, i < g.maxOffset → s i = NOT_VISITED) :
    ∃ t, Halts (fun f => forwardPass g f s) t ∧ t.toProcess = [] ∧ FinishOrder g.Edge t.order ∧
      (∀ i, i ∈ t.order ↔ g.Node i) ∧ ∀ i, g.Node i → t.state.processed i = true := by
  obtain ⟨t, hhalts, hfwd, hempty, hmarked⟩ := forU32_halts hn
    (fun f i t => if !g.valid i.toNat then some t
      else if t.state.visited i.toNat then some t
      else forwardDFS g f { t with toProcess := i.toNat :: t.toProcess })
    (fun k t => Forward g t ∧ t.toProcess = [] ∧ ∀ i, i < k → g.Node i → Marked g t.state i)
    (fun i t hi hinv => by
      obtain ⟨hfwd, hempty, hmarked⟩ := hinv
      have hnext : ∀ t' : Traversal, (∀ j, Marked g t.state j → Marked g t'.state j) →
          (g.Node i.toNat → Marked g t'.state i.toNat) →
          ∀ j, j < i.toNat + 1 → g.Node j → Marked g t'.state j := by
        intro t' hkeeps hi' j hj hnode
        rcases Nat.lt_succ_iff_lt_or_eq.mp hj with hlt | rfl
        · exact hkeeps j (hmarked j hlt hnode)
        · exact hi' hnode
      by_cases hvalid : g.valid i.toNat = true
      · have hnode : g.Node i.toNat := (ScanGraph.node_iff hi).mpr hvalid
        by_cases hvis : t.state.visited i.toNat = true
        · refine ⟨t, ?_, hfwd, hempty, hnext t (fun j hj => hj) fun _ => ⟨hnode, hvis⟩⟩
          simp only [hvalid, hvis, Bool.not_true, Bool.false_eq_true, if_false, if_true]
          exact halts_const t
        · -- a new root
          have hroot : Forward g { t with toProcess := i.toNat :: t.toProcess } := by
            refine ⟨?_, ?_, hfwd.processed⟩
            · intro j hj
              rw [hempty, mem_singleton] at hj
              rw [hj]
              exact hnode
            · have hsearch := hfwd.search
              rw [hempty] at hsearch ⊢
              exact hsearch.root i.toNat
          obtain ⟨t', hhalts, hfwd', hempty', hseen⟩ := forwardDFS_halts hroot
          refine ⟨t', ?_, hfwd', hempty', hnext t' (fun j hj => hseen j (.inr hj)) fun _ => ?_⟩
          · simp only [hvalid, hvis, Bool.not_true, Bool.false_eq_true, if_false]
            exact hhalts
          · exact hseen i.toNat (.inl mem_cons_self)
      · refine ⟨t, ?_, hfwd, hempty, hnext t (fun j hj => hj) fun hnode => ?_⟩
        · simp only [hvalid, Bool.not_false, if_true]
          exact halts_const t
        · exact absurd ((ScanGraph.node_iff hi).mp hnode) hvalid)
    (s := ⟨[], s, []⟩)
    ⟨forward_start hinit, rfl, fun i hi => absurd hi (Nat.not_lt_zero i)⟩
  have hsearch := hfwd.search
  rw [hempty] at hsearch
  have horder : ∀ i, i ∈ t.order ↔ g.Node i := by
    intro i
    rw [hsearch.mem_order_iff]
    exact ⟨fun hm => hm.1, fun hi => hmarked i hi.1 hi⟩
  refine ⟨t, hhalts, hempty, hsearch.finishOrder, horder, ?_⟩
  intro i hi
  exact (hfwd.processed i hi).mpr ((horder i).mpr hi)

/-! ## 3. The backward pass -/

def HasID (s : VisitedState) (i : Nat) : Prop := s.componentIDSet i = true

/-- The ids handed out so far: whole components, each under one of its nodes. -/
structure Labelled (g : ScanGraph) (s : VisitedState) : Prop where
  id_node : ∀ i, g.Node i → HasID s i → Strong g.Edge i (s i)
  same : ∀ i j, g.Node i → HasID s i → Strong g.Edge i j → HasID s j ∧ s j = s i

theorem hasID_setComponentID {x : Nat} (hc : c < NOT_VISITED) (i : Nat) :
    HasID (s.setComponentID x c) i ↔ HasID s i ∨ i = x := by
  unfold HasID VisitedState.componentIDSet VisitedState.setComponentID
  rw [update_apply]
  by_cases hi : i = x
  · rw [if_pos hi]
    exact iff_of_true (decide_eq_true hc) (.inr hi)
  · rw [if_neg hi, or_iff_left hi]

/-- The search backwards from `c`, when the ids were those of `s₀` before it. -/
structure Backward (g : ScanGraph) (s₀ : VisitedState) (c : Nat) (t : Traversal) : Prop where
  stack : ∀ i ∈ t.toProcess, g.Node i ∧ ReflTransGen g.Edge i c
  old : ∀ i, HasID s₀ i → HasID t.state i ∧ t.state i = s₀ i
  new : ∀ i, HasID t.state i → ¬ HasID s₀ i → t.state i = c ∧ g.Node i ∧ ReflTransGen g.Edge i c ∧
      ∀ w, g.Edge w i → HasID t.state w ∨ w ∈ t.toProcess
  root : HasID t.state c ∨ c ∈ t.toProcess

theorem backwardsStep_spec (hc : c < NOT_VISITED) (h : Backward g s₀ c t) (hne : t.toProcess ≠ []) :
    Backward g s₀ c (backwardsStep g c t) ∧ (backwardsStep g c t).order = t.order ∧
      Shrinks g.maxOffset (fun s i => !s.componentIDSet i) (backwardsStep g c t) t := by
  obtain ⟨stack, s, order⟩ := t
  obtain ⟨x, rest, rfl⟩ := exists_cons_of_ne_nil hne
  obtain ⟨hstack, hold, hnew, hroot⟩ := h
  obtain ⟨hx, hreach⟩ := hstack x mem_cons_self
  have hrest : ∀ i ∈ rest, g.Node i ∧ ReflTransGen g.Edge i c := fun i hi =>
    hstack i (mem_cons_of_mem x hi)
  unfold backwardsStep
  simp only
  by_cases hset : HasID s x
  · rw [if_pos (show s.componentIDSet x = true from hset)]
    -- an entry whose node has its id is dropped
    have hdrop : ∀ w, HasID s w ∨ w ∈ x :: rest → HasID s w ∨ w ∈ rest := by
      intro w hw
      rcases hw with hid | hin
      · exact .inl hid
      · rcases mem_cons.mp hin with rfl | hin
        · exact .inl hset
        · exact .inr hin
    refine ⟨⟨hrest, hold, ?_, hdrop c hroot⟩, rfl, shrinks_of_pop rfl (Nat.lt_succ_self rest.length)⟩
    intro i hi hi₀
    obtain ⟨hval, hnode, hto, hpred⟩ := hnew i hi hi₀
    exact ⟨hval, hnode, hto, fun w hw => hdrop w (hpred w hw)⟩
  · rw [if_neg (show ¬ s.componentIDSet x = true from hset)]
    have hpush : ∀ w, w ∈ ((g.scanBwd x).filter fun v =>
        !(s.setComponentID x c).componentIDSet v).reverse ↔
        w ∈ g.scanBwd x ∧ ¬ HasID (s.setComponentID x c) w := by
      unfold HasID
      simp
    have hids := hasID_setComponentID (s := s) (x := x) hc
    have hother : ∀ i, i ≠ x → s.setComponentID x c i = s i := by
      intro i hi
      exact update_of_ne hi c s
    refine ⟨⟨?_, ?_, ?_, ?_⟩, rfl, ?_⟩
    · intro i hi
      rcases mem_append.mp hi with hin | hin
      · have hpred := ((hpush i).mp hin).1
        exact ⟨g.bwd_node x i hx hpred, .head ((ScanGraph.edge_iff_bwd hx).mpr hpred) hreach⟩
      · exact hrest i hin
    · intro i hi
      obtain ⟨hid, hval⟩ := hold i hi
      have hne' : i ≠ x := fun heq => hset (heq ▸ hid)
      exact ⟨(hids i).mpr (.inl hid), (hother i hne').trans hval⟩
    · intro i hi hi₀
      -- a predecessor has its id, or is pushed or was on the stack
      have hpred' : ∀ w, HasID s w ∨ w ∈ x :: rest → HasID (s.setComponentID x c) w ∨
          w ∈ ((g.scanBwd x).filter fun v => !(s.setComponentID x c).componentIDSet v).reverse ++
            rest := by
        intro w hw
        rcases hw with hid | hin
        · exact .inl ((hids w).mpr (.inl hid))
        · rcases mem_cons.mp hin with rfl | hin
          · exact .inl ((hids w).mpr (.inr rfl))
          · exact .inr (mem_append_right _ hin)
      by_cases hix : i = x
      · refine ⟨?_, hix ▸ hx, hix ▸ hreach, ?_⟩
        · rw [hix]
          exact update_self x c s
        · intro w hw
          by_cases hid : HasID (s.setComponentID x c) w
          · exact .inl hid
          · refine .inr (mem_append_left _ ((hpush w).mpr ⟨?_, hid⟩))
            exact (ScanGraph.edge_iff_bwd hx).mp (hix ▸ hw)
      · obtain ⟨hval, hnode, hto, hpred⟩ := hnew i (((hids i).mp hi).resolve_right hix) hi₀
        exact ⟨(hother i hix).trans hval, hnode, hto, fun w hw => hpred' w (hpred w hw)⟩
    · rcases hroot with hid | hin
      · exact .inl ((hids c).mpr (.inl hid))
      · rcases mem_cons.mp hin with hcx | hin
        · exact .inl ((hids c).mpr (.inr hcx))
        · exact .inr (mem_append_right _ hin)
    · refine Prod.Lex.left _ _ (pending_lt ?_ hx.1 ?_ ?_)
      · intro i hi
        simp only [Bool.not_eq_true', Bool.eq_false_iff] at hi ⊢
        exact fun hid => hi ((hids i).mpr (.inl hid))
      · simpa [HasID] using hset
      · have hid : (s.setComponentID x c).componentIDSet x = true := (hids x).mpr (.inr rfl)
        simp [hid]

theorem backwardsDFS_halts (hc : c < NOT_VISITED) (h : Backward g s₀ c t) :
    ∃ t', Halts (fun f => backwardsDFS g c f t) t' ∧ Backward g s₀ c t' ∧ t'.toProcess = [] ∧
      t'.order = t.order := by
  obtain ⟨t', hhalts, ⟨hback, horder⟩, hdone⟩ := while_halts
    (fun t : Traversal => !t.toProcess.isEmpty) (fun _ t => some (backwardsStep g c t))
    (shrinks_wf g.maxOffset fun s i => !s.componentIDSet i)
    (fun t' => Backward g s₀ c t' ∧ t'.order = t.order)
    (fun t' hinv hcond => by
      have hne : t'.toProcess ≠ [] := by
        intro hnil
        rw [hnil] at hcond
        exact absurd hcond (by decide)
      obtain ⟨hback, horder, hshrinks⟩ := backwardsStep_spec hc hinv.1 hne
      exact ⟨_, halts_const _, ⟨hback, horder.trans hinv.2⟩, hshrinks⟩)
    (s := t) ⟨h, rfl⟩
  rw [Bool.not_eq_false', List.isEmpty_iff] at hdone
  exact ⟨t', hhalts, hback, hdone, horder⟩

theorem node_of_reach {u v : Nat} (hu : g.Node u) (h : ReflTransGen g.Edge u v) : g.Node v := by
  induction h with
  | refl => exact hu
  | tail _ hedge _ => exact g.fwd_node _ _ hedge.1 hedge.2

theorem Backward.labelled {later earlier : List Nat} (h : Backward g s₀ c t)
    (hempty : t.toProcess = []) (hlab : Labelled g s₀)
    (horder : FinishOrder g.Edge (later ++ c :: earlier))
    (hnodes : ∀ i, i ∈ later ++ c :: earlier ↔ g.Node i) (hlater : ∀ i ∈ later, HasID s₀ i)
    (hc : ¬ HasID s₀ c) :
    Labelled g t.state ∧ ∀ i, g.Node i → (HasID t.state i ↔ HasID s₀ i ∨ Strong g.Edge i c) := by
  have hcnode : g.Node c := (hnodes c).mp (mem_append_right _ mem_cons_self)
  have hstrong : ∀ i, g.Node i → ¬ HasID s₀ i → ReflTransGen g.Edge i c → Strong g.Edge i c := by
    intro i hi hi₀ hreach
    refine horder.reaches_root (fun i => g.Node i ∧ HasID s₀ i) rfl ?_ ?_
      ((hnodes i).mpr hi) (fun hseen => hi₀ hseen.2) hreach
    · intro y hy
      exact ⟨(hnodes y).mp (mem_append_left _ hy), hlater y hy⟩
    · intro y z hy hyz
      exact ⟨node_of_reach hy.1 hyz.1, (hlab.same y z hy.1 hy.2 hyz).1⟩
  -- backwards along a path inside the component every node gets the id
  have hfound : ∀ i, ReflTransGen g.Edge i c → ReflTransGen g.Edge c i → HasID t.state i := by
    intro i hto
    induction hto using ReflTransGen.head_induction_on with
    | refl =>
      intro _
      rcases h.root with hid | hin
      · exact hid
      · rw [hempty] at hin
        exact absurd hin not_mem_nil
    | head hedge hto ih =>
      rename_i a b
      intro hfrom
      have hb := ih (hfrom.tail hedge)
      have hb₀ : ¬ HasID s₀ b := fun hid =>
        hc (hlab.same b c (node_of_reach hcnode (hfrom.tail hedge)) hid ⟨hto, hfrom.tail hedge⟩).1
      obtain ⟨-, -, -, hpred⟩ := h.new b hb hb₀
      rcases hpred a hedge with hid | hin
      · exact hid
      · rw [hempty] at hin
        exact absurd hin not_mem_nil
  have hids : ∀ i, g.Node i → (HasID t.state i ↔ HasID s₀ i ∨ Strong g.Edge i c) := by
    intro i hi
    constructor
    · intro hid
      by_cases hi₀ : HasID s₀ i
      · exact .inl hi₀
      · obtain ⟨-, -, hto, -⟩ := h.new i hid hi₀
        exact .inr (hstrong i hi hi₀ hto)
    · rintro (hi₀ | hic)
      · exact (h.old i hi₀).1
      · exact hfound i hic.1 hic.2
  refine ⟨⟨?_, ?_⟩, hids⟩
  · intro i hi hid
    by_cases hi₀ : HasID s₀ i
    · rw [(h.old i hi₀).2]
      exact hlab.id_node i hi hi₀
    · obtain ⟨hval, -, hto, -⟩ := h.new i hid hi₀
      rw [hval]
      exact hstrong i hi hi₀ hto
  · intro i j hi hid hij
    have hj : g.Node j := node_of_reach hi hij.1
    by_cases hi₀ : HasID s₀ i
    · obtain ⟨hj₀, hval⟩ := hlab.same i j hi hi₀ hij
      obtain ⟨hjid, hjval⟩ := h.old j hj₀
      exact ⟨hjid, by rw [hjval, hval, (h.old i hi₀).2]⟩
    · have hic : Strong g.Edge i c := ((hids i hi).mp hid).resolve_left hi₀
      have hjid : HasID t.state j := (hids j hj).mpr (.inr (hij.symm.trans hic))
      have hj₀ : ¬ HasID s₀ j := fun hid₀ => hi₀ (hlab.same j i hj hid₀ hij.symm).1
      exact ⟨hjid, by rw [(h.new j hjid hj₀).1, (h.new i hid hi₀).1]⟩

/-- Between two searches: the nodes finished later than those left have their ids. -/
structure Sweep (g : ScanGraph) (order : List Nat) (t : Traversal) : Prop where
  empty : t.toProcess = []
  labelled : Labelled g t.state
  done : ∃ later, order = later ++ t.order ∧ ∀ i ∈ later, HasID t.state i

def backwardRound (g : ScanGraph) (fuel : Nat) (t : Traversal) : Option Traversal :=
  match t.order with
  | [] => some t
  | offset :: order =>
    if t.state.componentIDSet offset then some { t with order }
    else backwardsDFS g offset fuel { t with toProcess := offset :: t.toProcess, order }

theorem backwardPass_halts (hn : g.maxOffset < 2 ^ 32) (hempty : t.toProcess = [])
    (horder : FinishOrder g.Edge t.order) (hnodes : ∀ i, i ∈ t.order ↔ g.Node i)
    (hproc : ∀ i, g.Node i → t.state.processed i = true) :
    ∃ t', Halts (fun f => backwardPass g f t) t' ∧ Labelled g t'.state ∧
      ∀ i, g.Node i → HasID t'.state i := by
  have hstart : ∀ i, g.Node i → ¬ HasID t.state i := by
    intro i hi hid
    have hmark : t.state i = PROCESSED := of_decide_eq_true (hproc i hi)
    unfold HasID VisitedState.componentIDSet at hid
    rw [hmark] at hid
    exact absurd hid (by decide)
  obtain ⟨t', hhalts, hsweep, hdone⟩ := while_halts (fun t : Traversal => !t.order.isEmpty)
    (backwardRound g)
    (measure fun t : Traversal => t.order.length).wf (Sweep g t.order)
    (fun t₁ hinv hcond => by
      obtain ⟨stack, s, order⟩ := t₁
      obtain ⟨hempty₁, hlab, later, hsplit, hlater⟩ := hinv
      subst hempty₁
      cases order with
      | nil => exact absurd hcond Bool.false_ne_true
      | cons c earlier =>
        have hcnode : g.Node c := by
          rw [← hnodes, hsplit]
          exact mem_append_right later mem_cons_self
        have hsplit' : t.order = (later ++ [c]) ++ earlier := by
          rw [hsplit, append_assoc, singleton_append]
        by_cases hc : HasID s c
        · refine ⟨⟨[], s, earlier⟩, ?_, ⟨rfl, hlab, later ++ [c], hsplit', ?_⟩,
            Nat.lt_succ_self earlier.length⟩
          · unfold backwardRound
            simp only [show s.componentIDSet c = true from hc, if_true]
            exact halts_const _
          · intro i hi
            rcases mem_append.mp hi with hin | hin
            · exact hlater i hin
            · rw [mem_singleton.mp hin]
              exact hc
        · have hsmall : c < NOT_VISITED := by
            have hlt := hcnode.1
            unfold NOT_VISITED
            omega
          have hback : Backward g s c ⟨[c], s, earlier⟩ := by
            refine ⟨?_, fun i hi => ⟨hi, rfl⟩, fun i hi hi₀ => absurd hi hi₀, .inr mem_cons_self⟩
            intro i hi
            rw [mem_singleton.mp hi]
            exact ⟨hcnode, .refl⟩
          obtain ⟨t', hhalts, hback', hempty', horder'⟩ := backwardsDFS_halts hsmall hback
          have hlab' := hback'.labelled hempty' hlab (hsplit ▸ horder) (hsplit ▸ hnodes) hlater hc
          refine ⟨t', ?_, ⟨hempty', hlab'.1, later ++ [c], ?_, ?_⟩, ?_⟩
          · unfold backwardRound
            simp only [show ¬ s.componentIDSet c = true from hc]
            exact hhalts
          · rw [horder']
            exact hsplit'
          · intro i hi
            rcases mem_append.mp hi with hin | hin
            · exact (hback'.old i (hlater i hin)).1
            · rw [mem_singleton.mp hin]
              exact (hlab'.2 c hcnode).mpr (.inr (AntisymmRel.refl _ c))
          · show t'.order.length < earlier.length + 1
            rw [horder']
            exact Nat.lt_succ_self earlier.length)
    (s := t)
    ⟨hempty, ⟨fun i hi hid ↦ absurd hid (hstart i hi), fun i j hi hid _ ↦ absurd hid (hstart i hi)⟩,
      [], rfl, fun i hi => absurd hi not_mem_nil⟩
  rw [Bool.not_eq_false', List.isEmpty_iff] at hdone
  obtain ⟨later, hsplit, hlater⟩ := hsweep.done
  rw [hdone, append_nil] at hsplit
  refine ⟨t', hhalts, hsweep.labelled, ?_⟩
  intro i hi
  apply hlater
  rw [← hsplit]
  exact (hnodes i).mpr hi

/-! ## 4. The whole computation -/

/-- What the two passes are to produce. -/
structure FindsComponents (g : ScanGraph) (order : List Nat) (ids : VisitedState) : Prop where
  nodup : order.Nodup
  mem_order : ∀ i, i ∈ order ↔ g.Node i
  /-- An edge from the component of `u` to another one, that of `v`. -/
  last_after : ∀ u v, g.Node u → ¬ Strong g.Edge u v →
    (∃ u' v', Strong g.Edge u u' ∧ g.Edge u' v' ∧ Strong g.Edge v' v) →
    ∃ later z earlier, order = later ++ z :: earlier ∧ Strong g.Edge u z ∧
      (∀ w ∈ later, ¬ Strong g.Edge u w) ∧ ∀ w, Strong g.Edge v w → w ∈ earlier
  assigned : ∀ u, g.Node u → ids.componentIDSet u = true
  components : ∀ u v, g.Node u → g.Node v → (ids u = ids v ↔ Strong g.Edge u v)

theorem kosaraju_halts (hn : g.maxOffset < 2 ^ 32) (raw : VisitedState) :
    ∃ order ids, Halts (finishingOrder g raw) order ∧ Halts (kosaraju g raw) ids ∧
      FindsComponents g order ids := by
  obtain ⟨s, hs, hinit⟩ := initVisited_halts hn raw
  obtain ⟨t, ht, hempty, horder, hnodes, hproc⟩ := forwardPass_halts hn hinit
  obtain ⟨t', ht', hlab, hids⟩ := backwardPass_halts hn hempty horder hnodes hproc
  refine ⟨t.order, t'.state, hs.bind (ht.map Traversal.order),
    hs.bind (ht.bind (ht'.map Traversal.state)), horder.nodup, hnodes, ?_, hids, ?_⟩
  · rintro u v hu hne ⟨u', v', huu', hedge, hvv'⟩
    have hreach : ReflTransGen g.Edge u v := (huu'.1.tail hedge).trans hvv'.1
    exact horder.last_after ((hnodes u).mpr hu) hreach fun hback => hne ⟨hreach, hback⟩
  · intro u v hu hv
    constructor
    · intro heq
      have hu' := hlab.id_node u hu (hids u hu)
      have hv' := hlab.id_node v hv (hids v hv)
      rw [heq] at hu'
      exact hu'.trans hv'.symm
    · intro hsame
      exact (hlab.same u v hu (hids u hu) hsame).2.symm

theorem kosaraju_diverges (hn : 2 ^ 32 ≤ g.maxOffset) (raw : VisitedState) :
    Diverges (kosaraju g raw) := by
  intro f
  unfold kosaraju initVisited
  rw [forU32_diverges hn]
  rfl

/-- For every graph over every table, whatever the memory held before: the computation terminates
and finds the strong components exactly when the table has fewer than `2 ^ 32` nodes. -/
theorem kosaraju_finds_components_iff (g : ScanGraph) (raw : VisitedState) :
    (∃ order ids, Halts (finishingOrder g raw) order ∧ Halts (kosaraju g raw) ids ∧
      FindsComponents g order ids) ↔ g.maxOffset < 2 ^ 32 := by
  constructor
  · rintro ⟨order, ids, -, hids, -⟩
    by_contra hge
    exact hids.not_diverges (kosaraju_diverges (not_lt.mp hge) raw)
  · exact fun hn => kosaraju_halts hn raw

def ofEdges (n : Nat) (edges : List (Nat × Nat)) (h : ∀ e ∈ edges, e.1 < n ∧ e.2 < n) :
    ScanGraph where
  maxOffset := n
  mask := none
  scanFwd := fun u => (edges.filter fun e => e.1 = u).map Prod.snd
  scanBwd := fun v => (edges.filter fun e => e.2 = v).map Prod.fst
  fwd_node := by
    intro u v hu hv
    obtain ⟨e, he, rfl⟩ := mem_map.mp hv
    exact ⟨(h e (mem_filter.mp he).1).2, fun m hm => nomatch hm⟩
  bwd_node := by
    intro u v hu hv
    obtain ⟨e, he, rfl⟩ := mem_map.mp hv
    exact ⟨(h e (mem_filter.mp he).1).1, fun m hm => nomatch hm⟩
  transpose := by
    intro u v _ _
    simp only [mem_map, mem_filter, decide_eq_true_eq]
    constructor
    all_goals
      rintro ⟨e, ⟨he, rfl⟩, rfl⟩
      exact ⟨e, ⟨he, rfl⟩, rfl⟩

-- two nodes on a cycle, with a loop and a doubled edge, that lead to a third one
example : (kosaraju (ofEdges 3 [(0, 1), (0, 0), (0, 1), (1, 2), (1, 0)] (by decide)) (fun _ => 7)
    20).map (fun ids => (List.range 3).map ids) = some [0, 0, 2] := by decide +kernel

theorem kosaraju_diverges_isolated :
    Diverges (kosaraju (ofEdges (2 ^ 32) [] (fun _ h => absurd h not_mem_nil)) fun _ => 0) :=
  kosaraju_diverges (Nat.le_refl (2 ^ 32)) _

end Ladybug.Algo
