import Ladybug.Algo.SpanningForest
import Ladybug.Base.DisjointSets
import Ladybug.Base.Forests
import Mathlib.Algebra.Order.Group.Nat

/-!
# The emitted edges are a spanning forest

The trees of parent offsets are the trees of the forest so far, so an edge is taken exactly when the
taken ones do not link its ends: the result is the greedy forest of the sorted edges.  The loops count
in 32 bits, which is enough for fewer than `2 ^ 32` nodes and edges.
-/

namespace Ladybug.Algo

open List Function

/-! ## 1. Finding and merging components -/

section

variable {W R : Type} {parents parents' c rank : Nat → Nat} {fuel x r bound : Nat}

theorem findComponent_spec (hroots : Roots parents c) (hrank : Ranked parents rank)
    (h : findComponent fuel parents x = some (r, parents')) :
    r = c x ∧ Roots parents' c ∧ Ranked parents' rank := by
  obtain ⟨p, hp, heq⟩ := Option.map_eq_some_iff.mp h
  cases heq
  have hinv : Roots parents' c ∧ Ranked parents' rank := by
    apply while_inv (fun p => Roots p c ∧ Ranked p rank) _ ⟨hroots, hrank⟩ hp
    intro q q' hq hcond hbody
    cases hbody
    have hne : q x ≠ q (q x) := of_decide_eq_true hcond
    exact ⟨hq.1.halve hq.2 hne, hq.2.halve hne⟩
  have hexit := while_exit hp
  exact ⟨hinv.1.eq_of_fixed (not_not.mp (of_decide_eq_false hexit)).symm, hinv⟩

theorem findComponent_halts (hroots : Roots parents c) (hrank : Ranked parents rank)
    (hbound : ∀ y, rank y ≤ bound) (x : Nat) :
    ∃ parents', Halts (fun f => findComponent f parents x) (c x, parents') ∧
      Roots parents' c ∧ Ranked parents' rank := by
  obtain ⟨p, hhalts, hinv, -⟩ := while_halts (fun p : Nat → Nat => decide (p x ≠ p (p x)))
    (fun _ p => some (Function.update p x (p (p x))))
    (measure fun p : Nat → Nat => bound - rank (p x)).wf
    (fun p => Roots p c ∧ Ranked p rank)
    (fun p hp hcond => by
      have hne : p x ≠ p (p x) := of_decide_eq_true hcond
      refine ⟨_, halts_const _, ⟨hp.1.halve hp.2 hne, hp.2.halve hne⟩, ?_⟩
      show bound - rank (Function.update p x (p (p x)) x) < bound - rank (p x)
      rw [update_self]
      have hgrow := hp.2 (p x) hne.symm
      have hle := hbound (p (p x))
      omega)
    (s := parents) ⟨hroots, hrank⟩
  have hfind : Halts (fun f => findComponent f parents x) (p x, p) := hhalts.map fun p => (p x, p)
  obtain ⟨k, hk⟩ := hfind
  obtain ⟨heq, hkept⟩ := findComponent_spec hroots hrank (hk k le_rfl)
  exact ⟨p, ⟨k, fun f hf => heq ▸ hk f hf⟩, hkept⟩

theorem mergeComponents_cases (s : KruskalState R) {r₁ r₂ : Nat} (hne : r₁ ≠ r₂) :
    ∃ a b, (a = r₁ ∧ b = r₂ ∨ a = r₂ ∧ b = r₁) ∧ (mergeComponents s r₁ r₂).forest = s.forest ∧
      (mergeComponents s r₁ r₂).parents = Function.update s.parents a b ∧
      (∀ x, x ≠ b → (mergeComponents s r₁ r₂).rank x = s.rank x) ∧
      (mergeComponents s r₁ r₂).rank a < (mergeComponents s r₁ r₂).rank b ∧
      s.rank b ≤ (mergeComponents s r₁ r₂).rank b ∧
      (mergeComponents s r₁ r₂).rank b ≤ s.rank b + 1 := by
  unfold mergeComponents
  split
  next hrank =>
    have hmax : max r₁ r₂ ≠ min r₁ r₂ := by omega
    have hsame : s.rank (max r₁ r₂) = s.rank (min r₁ r₂) := by
      rcases le_total r₁ r₂ with hle | hle
      · rw [max_eq_right hle, min_eq_left hle, hrank]
      · rw [max_eq_left hle, min_eq_right hle, hrank]
    have hparent : Function.update s.rank (min r₁ r₂) (s.rank (min r₁ r₂) + 1) (min r₁ r₂) =
        s.rank (min r₁ r₂) + 1 := update_self _ _ _
    refine ⟨max r₁ r₂, min r₁ r₂, by omega, rfl, rfl, ?_, ?_, ?_, ?_⟩
    · intro x hx
      exact update_of_ne hx _ _
    · show Function.update s.rank (min r₁ r₂) (s.rank (min r₁ r₂) + 1) (max r₁ r₂) <
        Function.update s.rank (min r₁ r₂) (s.rank (min r₁ r₂) + 1) (min r₁ r₂)
      rw [update_of_ne hmax, hparent, hsame]
      exact Nat.lt_succ_self _
    · exact (Nat.le_succ _).trans_eq hparent.symm
    · exact hparent.le
  next hrank =>
    split
    next hlt => exact ⟨r₁, r₂, .inl ⟨rfl, rfl⟩, rfl, rfl, fun _ _ ↦ rfl, hlt, le_rfl, Nat.le_succ _⟩
    next hlt =>
      have hgt : s.rank r₂ < s.rank r₁ := by omega
      exact ⟨r₂, r₁, .inr ⟨rfl, rfl⟩, rfl, rfl, fun _ _ => rfl, hgt, le_rfl, Nat.le_succ _⟩

end

/-! ## 2. The components are the trees -/

section

variable {W R : Type} {n fuel : Nat} {A : List (WeightedEdge W R)} {c : Nat → Nat}
  {t t' : RunState R} {e : WeightedEdge W R} {u v : Nat}

abbrev LinkedBy (A : List (WeightedEdge W R)) : Nat → Nat → Prop :=
  Linked WeightedEdge.srcId WeightedEdge.dstId {e | e ∈ A}

def WeightedEdge.toResult (e : WeightedEdge W R) : ResultEdge R :=
  ⟨e.srcId, e.dstId, e.relId, 2 ^ 64 - 1⟩

/-- The state after the edges of `A` were taken: `c` names the trees. -/
structure Merged (n : Nat) (A : List (WeightedEdge W R)) (c : Nat → Nat) (t : RunState R) :
    Prop where
  roots : Roots t.2.parents c
  ranked : Ranked t.2.parents t.2.rank
  bounded : ∀ x, t.2.rank x ≤ t.1
  linked : ∀ u v, c u = c v ↔ LinkedBy A u v
  forest : t.2.forest = A.map WeightedEdge.toResult
  count : rootCount n t.2.parents + t.1 = n
  below : ∀ x < n, c x < n

theorem merged_start (n : Nat) :
    Merged n ([] : List (WeightedEdge W R)) (fun i => i) (0, ⟨[], fun i => i, fun _ => 0⟩) where
  roots := roots_id
  ranked := ranked_id _
  bounded := fun _ => le_rfl
  linked := by
    intro u v
    constructor
    · rintro rfl
      exact .refl u
    · exact Linked.lift ⟨fun _ => rfl, Eq.symm, Eq.trans⟩ fun e he => absurd he not_mem_nil
  forest := rfl
  count := rootCount_id n
  below := fun _ hx => hx

section

variable (h : Merged n A c t)

include h

theorem Merged.skip {parents : Nat → Nat} (hroots : Roots parents c)
    (hrank : Ranked parents t.2.rank) :
    Merged n A c (t.1, { t.2 with parents := parents }) where
  roots := hroots
  ranked := hrank
  bounded := h.bounded
  linked := h.linked
  forest := h.forest
  count := by
    rw [h.roots.count_congr hroots]
    exact h.count
  below := h.below

theorem Merged.merge (hsrc : e.srcId < n) (hdst : e.dstId < n) (hne : c e.srcId ≠ c e.dstId) :
    ∃ c', Merged n (A ++ [e]) c' (t.1 + 1, mergeComponents
      { t.2 with forest := t.2.forest ++ [e.toResult] } (c e.srcId) (c e.dstId)) := by
  obtain ⟨a, b, hab, hforest, hparents, hrank, hlt, hle, hsucc⟩ :=
    mergeComponents_cases { t.2 with forest := t.2.forest ++ [e.toResult] } hne
  have hdistinct : a ≠ b := by
    rcases hab with ⟨rfl, rfl⟩ | ⟨rfl, rfl⟩
    · exact hne
    · exact hne.symm
  have hroot : t.2.parents a = a ∧ t.2.parents b = b := by
    rcases hab with ⟨rfl, rfl⟩ | ⟨rfl, rfl⟩
    all_goals exact ⟨h.roots.fixed _, h.roots.fixed _⟩
  have hbelow : a < n ∧ b < n := by
    rcases hab with ⟨rfl, rfl⟩ | ⟨rfl, rfl⟩
    · exact ⟨h.below _ hsrc, h.below _ hdst⟩
    · exact ⟨h.below _ hdst, h.below _ hsrc⟩
  refine ⟨joinRoots c a b, ?_, ?_, ?_, ?_, ?_, ?_, ?_⟩
  · rw [hparents]
    exact h.roots.join hdistinct hroot.1 hroot.2
  · rw [hparents]
    exact h.ranked.join hroot.1 hroot.2 hrank hlt hle
  · intro x
    have hold := h.bounded x
    by_cases hx : x = b
    · subst hx
      exact hsucc.trans (Nat.succ_le_succ hold)
    · rw [hrank x hx]
      exact Nat.le_succ_of_le hold
  · intro u v
    have hset : {f | f ∈ A ++ [e]} = insert e {f | f ∈ A} := by
      ext f
      simp [or_comm]
    have hswap : ∀ x y, c x = c y ↔ LinkedBy A y x := fun x y => by rw [eq_comm, h.linked]
    show _ ↔ Linked _ _ {f | f ∈ A ++ [e]} u v
    rw [joinRoots_eq_iff hdistinct, hset, linked_insert]
    rcases hab with ⟨rfl, rfl⟩ | ⟨rfl, rfl⟩
    · rw [h.linked u v, h.linked u e.srcId, hswap v e.dstId, h.linked u e.dstId, hswap v e.srcId]
    · rw [h.linked u v, h.linked u e.dstId, hswap v e.srcId, h.linked u e.srcId, hswap v e.dstId]
      exact or_congr_right or_comm
  · rw [hforest, h.forest, map_append]
    rfl
  · have hcount := rootCount_join (n := n) hdistinct hroot.1 hbelow.1
    rw [hparents]
    have hold := h.count
    show rootCount n (Function.update t.2.parents a b) + (t.1 + 1) = n
    omega
  · intro x hx
    unfold joinRoots
    split
    · exact hbelow.2
    · exact h.below x hx

theorem processEdge_spec (hsrc : e.srcId < n) (hdst : e.dstId < n)
    (hrun : processEdge fuel e t = some t') :
    (LinkedBy A e.srcId e.dstId ∧ Merged n A c t' ∧ t'.1 = t.1) ∨
      ¬ LinkedBy A e.srcId e.dstId ∧ ∃ c', Merged n (A ++ [e]) c' t' := by
  obtain ⟨⟨r₁, p₁⟩, hfind₁, hrest⟩ := Option.bind_eq_some_iff.mp hrun
  obtain ⟨⟨r₂, p₂⟩, hfind₂, heq⟩ := Option.map_eq_some_iff.mp hrest
  obtain ⟨rfl, hroots₁, hrank₁⟩ := findComponent_spec h.roots h.ranked hfind₁
  obtain ⟨rfl, hroots₂, hrank₂⟩ := findComponent_spec hroots₁ hrank₁ hfind₂
  have hskip := h.skip hroots₂ hrank₂
  simp only at heq
  rw [← h.linked]
  by_cases hne : c e.srcId = c e.dstId
  · rw [if_neg (not_not.mpr hne)] at heq
    subst heq
    exact .inl ⟨hne, hskip, rfl⟩
  · rw [if_pos hne] at heq
    subst heq
    exact .inr ⟨hne, hskip.merge hsrc hdst hne⟩

theorem processEdge_halts (e : WeightedEdge W R) : ∃ t', Halts (fun f => processEdge f e t) t' := by
  obtain ⟨p₁, hfind₁, hroots₁, hrank₁⟩ := findComponent_halts h.roots h.ranked h.bounded e.srcId
  obtain ⟨p₂, hfind₂, -, -⟩ := findComponent_halts hroots₁ hrank₁ h.bounded e.dstId
  exact ⟨_, hfind₁.bind (hfind₂.map _)⟩

theorem Merged.last_iff (hn : 0 < n) : t.1 = n - 1 ↔ ∀ u < n, ∀ v < n, LinkedBy A u v := by
  have hcount := h.count
  constructor
  · intro hlast u hu v hv
    rw [← h.linked]
    exact h.roots.single (by omega) h.below u hu v hv
  · intro hall
    have hone := h.roots.count_one hn h.below fun u hu v hv => (h.linked u v).mpr (hall u hu v hv)
    omega

end

end

/-! ## 3. The loop over the edges -/

section

variable {W R : Type} {n : Nat} {edges A : List (WeightedEdge W R)} {c : Nat → Nat}
  {s : KruskalState R} {t : RunState R}

abbrev GreedyOf (edges A : List (WeightedEdge W R)) : Prop :=
  Greedy WeightedEdge.srcId WeightedEdge.dstId edges {e | e ∈ A}

theorem maxForestSize_eq (hn : 0 < n) (hsmall : n < 2 ^ 32) : maxForestSize n = n - 1 := by
  unfold maxForestSize
  omega

theorem Merged.greedy_all (h : Merged n A c t) (hn : 0 < n) (hlast : t.1 = n - 1) {k : Nat}
    (hgreedy : GreedyOf (edges.take k) A) (hnodup : edges.Nodup)
    (hends : ∀ e ∈ edges, e.srcId < n ∧ e.dstId < n) : GreedyOf edges A := by
  have hall := (h.last_iff hn).mp hlast
  have hrest := @Greedy.rest _ _ WeightedEdge.srcId WeightedEdge.dstId (edges.take k) {e | e ∈ A}
    (edges.drop k) hgreedy
  rw [take_append_drop] at hrest
  refine hrest hnodup fun e he => ?_
  obtain ⟨hsrc, hdst⟩ := hends e (mem_of_mem_drop he)
  exact hall _ hsrc _ hdst

theorem greedy_start : GreedyOf (edges.take 0) ([] : List (WeightedEdge W R)) := by
  have hset : {e : WeightedEdge W R | e ∈ ([] : List (WeightedEdge W R))} = ∅ := by
    ext e
    simp
  show Greedy _ _ (edges.take 0) {e | e ∈ ([] : List (WeightedEdge W R))}
  rw [hset, take_zero]
  exact Greedy.nil

/-- The first edges have been processed, or the forest is complete. -/
def RunInv (n : Nat) (edges : List (WeightedEdge W R)) (t : UInt32 × RunState R) : Prop :=
  ∃ A c, Merged n A c t.2 ∧ A.Nodup ∧
    (t.1.toNat ≤ edges.length ∧ GreedyOf (edges.take t.1.toNat) A ∨
      t.2.1 = maxForestSize n ∧ GreedyOf edges A)

theorem RunInv.step {t t' : UInt32 × RunState R} {fuel : Nat} {e : WeightedEdge W R}
    (h : RunInv n edges t) (hsmall : n < 2 ^ 32) (hnodup : edges.Nodup)
    (hends : ∀ e ∈ edges, e.srcId < n ∧ e.dstId < n)
    (hfits : edges.length < 2 ^ 32 ∨ ∀ u < n, ∀ v < n, LinkedBy (edges.take (2 ^ 32)) u v)
    (hlt : t.1.toNat < edges.length) (hnot : t.2.1 ≠ maxForestSize n)
    (he : edges[t.1.toNat]? = some e) (hrun : processEdge fuel e t.2 = some t'.2)
    (hnext : t'.1 = t.1 + 1) :
    RunInv n edges t' ∧ (t'.2.1 = maxForestSize n ∨ t'.1.toNat = t.1.toNat + 1) := by
  obtain ⟨A, c, hmerged, hA, hpos⟩ := h
  have hgreedy := (hpos.resolve_right fun hdone => hnot hdone.1).2
  have hmem : e ∈ edges := mem_of_getElem? he
  obtain ⟨hsrc, hdst⟩ := hends e hmem
  have hn : 0 < n := by omega
  have htake : edges.take (t.1.toNat + 1) = edges.take t.1.toNat ++ [e] := by
    rw [take_add_one, he]
    rfl
  have hnew : e ∉ edges.take t.1.toNat := by
    have hsplit := (take_sublist (t.1.toNat + 1) edges).nodup hnodup
    rw [htake] at hsplit
    intro hin
    exact (nodup_append.mp hsplit).2.2 e hin e (mem_singleton_self e) rfl
  -- the edges taken so far and the state agree after this edge too
  obtain ⟨A', c', hmerged', hA', hgreedy'⟩ : ∃ A' c', Merged n A' c' t'.2 ∧ A'.Nodup ∧
      GreedyOf (edges.take (t.1.toNat + 1)) A' := by
    rw [htake]
    rcases processEdge_spec hmerged hsrc hdst hrun with ⟨hin, hmerged', -⟩ | ⟨hout, c', hmerged'⟩
    · exact ⟨A, c, hmerged', hA, hgreedy.skip hnew hin⟩
    · have hset : {f | f ∈ A ++ [e]} = insert e {f | f ∈ A} := by
        ext f
        simp [or_comm]
      refine ⟨A ++ [e], c', hmerged', ?_, ?_⟩
      · refine nodup_append.mpr ⟨hA, nodup_singleton e, ?_⟩
        intro x hx y hy hxy
        rw [mem_singleton] at hy
        exact hnew (hgreedy.sub e (hy ▸ hxy ▸ hx))
      · show Greedy _ _ _ {f | f ∈ A ++ [e]}
        rw [hset]
        exact hgreedy.take hnew hout
  have hcount : t'.1.toNat = (t.1.toNat + 1) % 2 ^ 32 := by
    rw [hnext, UInt32.toNat_add]
    rfl
  by_cases hwrap : t.1.toNat + 1 < 2 ^ 32
  · have hindex : t'.1.toNat = t.1.toNat + 1 := by
      rw [hcount, Nat.mod_eq_of_lt hwrap]
    refine ⟨⟨A', c', hmerged', hA', .inl ?_⟩, .inr hindex⟩
    rw [hindex]
    exact ⟨hlt, hgreedy'⟩
  · -- the counter wraps, but only after the forest has become one tree
    have hindex : t.1.toNat + 1 = 2 ^ 32 := by
      have hbound := t.1.toNat_lt
      omega
    have hall := hfits.resolve_left (by omega)
    have hlast : t'.2.1 = n - 1 := by
      apply (hmerged'.last_iff hn).mpr
      intro u hu v hv
      rw [hindex] at hgreedy'
      exact hgreedy'.spanning.linked_iff.mpr (hall u hu v hv)
    have hmax : t'.2.1 = maxForestSize n := by
      rw [maxForestSize_eq hn hsmall, hlast]
    exact ⟨⟨A', c', hmerged', hA', .inr ⟨hmax,
      hmerged'.greedy_all hn hlast hgreedy' hnodup hends⟩⟩, .inl hmax⟩

theorem run_halts (hsmall : n < 2 ^ 32) (hnodup : edges.Nodup)
    (hends : ∀ e ∈ edges, e.srcId < n ∧ e.dstId < n)
    (hfits : edges.length < 2 ^ 32 ∨ ∀ u < n, ∀ v < n, LinkedBy (edges.take (2 ^ 32)) u v) :
    ∃ s A c k, Halts (fun f => run n edges f ⟨[], fun i => i, fun _ => 0⟩) s ∧
      Merged n A c (k, s) ∧ A.Nodup ∧ GreedyOf edges A := by
  obtain ⟨t, hhalts, ⟨A, c, hmerged, hA, hpos⟩, hexit⟩ := while_halts
    (fun t : UInt32 × RunState R =>
      decide (t.1.toNat < edges.length ∧ t.2.1 ≠ maxForestSize n))
    (fun f t => edges[t.1.toNat]?.bind fun e => (processEdge f e t.2).map fun u => (t.1 + 1, u))
    (measure fun t : UInt32 × RunState R =>
      if t.2.1 = maxForestSize n then 0 else 2 ^ 32 - t.1.toNat).wf
    (RunInv n edges)
    (fun t hinv hcond => by
      obtain ⟨hlt, hnot⟩ := of_decide_eq_true hcond
      obtain ⟨e, he⟩ : ∃ e, edges[t.1.toNat]? = some e := ⟨_, getElem?_eq_getElem hlt⟩
      have hmerged := hinv
      obtain ⟨A, c, hmerged, -⟩ := hmerged
      obtain ⟨u, k, hk⟩ := processEdge_halts hmerged e
      obtain ⟨hinv', hprogress⟩ := @RunInv.step _ _ _ _ t (t.1 + 1, u) k e hinv hsmall hnodup hends
        hfits hlt hnot he (hk k le_rfl) rfl
      refine ⟨(t.1 + 1, u), ?_, hinv', ?_⟩
      · rw [he]
        exact Halts.map ⟨k, hk⟩ _
      · show (if u.1 = maxForestSize n then 0 else 2 ^ 32 - (t.1 + 1).toNat) <
          if t.2.1 = maxForestSize n then 0 else 2 ^ 32 - t.1.toNat
        have hbound := t.1.toNat_lt
        rw [if_neg hnot]
        rcases hprogress with hmax | hindex
        · rw [if_pos hmax]
          omega
        · split
          · omega
          · have hindex' : (t.1 + 1).toNat = t.1.toNat + 1 := hindex
            omega)
    (s := (0, 0, ⟨[], fun i => i, fun _ => 0⟩))
    ⟨[], fun i => i, merged_start n, nodup_nil, .inl ⟨Nat.zero_le _, greedy_start⟩⟩
  refine ⟨t.2.2, A, c, t.2.1, hhalts.map _, hmerged, hA, ?_⟩
  rcases hpos with ⟨hle, hgreedy⟩ | ⟨-, hgreedy⟩
  · by_cases hlt : t.1.toNat < edges.length
    · -- the forest is one tree
      have hmax : t.2.1 = maxForestSize n :=
        not_not.mp fun hnot => of_decide_eq_false hexit ⟨hlt, hnot⟩
      obtain ⟨e, he⟩ := exists_mem_of_length_pos (Nat.zero_lt_of_lt hlt)
      have hn : 0 < n := Nat.zero_lt_of_lt (hends e he).1
      rw [maxForestSize_eq hn hsmall] at hmax
      exact hmerged.greedy_all hn hmax hgreedy hnodup hends
    · have hall : edges.take t.1.toNat = edges := take_of_length_le (by omega)
      rw [hall] at hgreedy
      exact hgreedy
  · exact hgreedy

theorem run_diverges (hsmall : n < 2 ^ 32) (hends : ∀ e ∈ edges, e.srcId < n ∧ e.dstId < n)
    (hlong : 2 ^ 32 ≤ edges.length)
    (hcut : ¬ ∀ u < n, ∀ v < n, LinkedBy (edges.take (2 ^ 32)) u v) (fuel : Nat) :
    run n edges fuel ⟨[], fun i => i, fun _ => 0⟩ = none := by
  unfold run
  rw [while_never (fun t : UInt32 × RunState R => ∃ A c, Merged n A c t.2 ∧
    ∀ e ∈ A, e ∈ edges.take (2 ^ 32))]
  · rfl
  · rintro t ⟨A, c, hmerged, hsub⟩
    have hbound := t.1.toNat_lt
    have hn : 0 < n := by
      obtain ⟨e, he⟩ := exists_mem_of_length_pos (show 0 < edges.length by omega)
      exact Nat.zero_lt_of_lt (hends e he).1
    refine decide_eq_true ⟨by omega, fun hmax => hcut ?_⟩
    rw [maxForestSize_eq hn hsmall] at hmax
    intro u hu v hv
    exact ((hmerged.last_iff hn).mp hmax u hu v hv).mono hsub
  · rintro t t' ⟨A, c, hmerged, hsub⟩ hbody
    obtain ⟨e, he, hrest⟩ := Option.bind_eq_some_iff.mp hbody
    obtain ⟨u, hu, rfl⟩ := Option.map_eq_some_iff.mp hrest
    obtain ⟨hsrc, hdst⟩ := hends e (mem_of_getElem? he)
    rcases processEdge_spec hmerged hsrc hdst hu with ⟨-, hmerged', -⟩ | ⟨-, c', hmerged'⟩
    · exact ⟨A, c, hmerged', hsub⟩
    · refine ⟨A ++ [e], c', hmerged', ?_⟩
      intro f hf
      rcases mem_append.mp hf with hin | hlast
      · exact hsub f hin
      · rw [mem_singleton.mp hlast]
        have hbound := t.1.toNat_lt
        exact mem_of_getElem? ((getElem?_take_of_lt hbound).trans he)
  · exact ⟨[], fun i => i, merged_start n, fun e he => absurd he not_mem_nil⟩

end

/-! ## 4. The ids of the trees -/

section

variable {W R : Type} {n k : Nat} {A : List (WeightedEdge W R)} {c : Nat → Nat}
  {s : KruskalState R}

def namedEdges (A : List (WeightedEdge W R)) (c : Nat → Nat) : List (ResultEdge R) :=
  A.map fun e => { e.toResult with forestId := c e.srcId }

theorem assignForestIds_halts (h : Merged n A c (k, s)) :
    Halts (fun f => (assignForestIds f s).map Prod.fst) (namedEdges A c) := by
  obtain ⟨⟨out, p⟩, hhalts, hout, -, -⟩ := @foldlM_halts _ _
    (fun f (t : List (ResultEdge R) × (Nat → Nat)) e =>
      (findComponent f t.2 e.srcId).map fun r => (t.1 ++ [{ e with forestId := r.1 }], r.2))
    s.forest
    (fun done t => t.1 = (done.map fun e => { e with forestId := c e.srcId }) ∧
      Roots t.2 c ∧ Ranked t.2 s.rank)
    (fun done e t _ hinv => by
      obtain ⟨hout, hroots, hrank⟩ := hinv
      obtain ⟨p, hfind, hroots', hrank'⟩ := findComponent_halts hroots hrank h.bounded e.srcId
      refine ⟨_, hfind.map _, ?_, hroots', hrank'⟩
      rw [hout, map_append]
      rfl)
    ([], s.parents) ⟨rfl, h.roots, h.ranked⟩
  have heq : out = namedEdges A c := by
    have hforest : s.forest = A.map WeightedEdge.toResult := h.forest
    rw [show out = _ from hout, hforest, map_map]
    rfl
  subst heq
  exact hhalts.map Prod.fst

end

/-! ## 5. The edges of a graph -/

section

variable {W R : Type} [One W] (g : WeightedGraph W R) (weightProperty : Bool)

def WeightedNbr.toEdge (weightProperty : Bool) (nodeId : Nat) (nbr : WeightedNbr W R) :
    WeightedEdge W R :=
  ⟨nodeId, nbr.nbrId, nbr.relId, if weightProperty then nbr.weight else DEFAULT_WEIGHT W⟩

def WeightedGraph.scanned : List (WeightedEdge W R) :=
  (range g.numNodes).flatMap fun u => (g.scanFwd u).map (WeightedNbr.toEdge weightProperty u)

def WeightedGraph.edges : List (WeightedEdge W R) :=
  (g.scanned weightProperty).filter fun e => e.dstId ≠ e.srcId

variable {g weightProperty}

theorem filterMap_edgeOfNbr (u : Nat) (l : List (WeightedNbr W R)) :
    l.filterMap (edgeOfNbr weightProperty u) =
      (l.map (WeightedNbr.toEdge weightProperty u)).filter fun e => e.dstId ≠ e.srcId := by
  induction l with
  | nil => rfl
  | cons x l ih =>
    rw [filterMap_cons, map_cons, filter_cons, ih]
    unfold edgeOfNbr WeightedNbr.toEdge
    by_cases hx : x.nbrId = u
    · simp [hx]
    · simp [hx]

theorem initEdges_halts (hsmall : g.numNodes < 2 ^ 32) :
    Halts (fun f => initEdges g weightProperty f) (g.edges weightProperty) := by
  obtain ⟨edges, hhalts, hedges⟩ := forU32_halts hsmall (fun _ nodeId edges => some (edges ++
      (g.scanFwd nodeId.toNat).filterMap (edgeOfNbr weightProperty nodeId.toNat)))
    (fun i edges => edges = (range i).flatMap fun u =>
      (g.scanFwd u).filterMap (edgeOfNbr weightProperty u))
    (fun i edges _ hinv => by
      refine ⟨_, halts_const _, ?_⟩
      rw [hinv, range_succ, flatMap_append, flatMap_singleton])
    (s := []) rfl
  have heq : edges = g.edges weightProperty := by
    rw [hedges]
    unfold WeightedGraph.edges WeightedGraph.scanned
    rw [filter_flatMap]
    simp only [filterMap_edgeOfNbr]
  exact heq ▸ hhalts

theorem scanned_ends {e : WeightedEdge W R} (he : e ∈ g.scanned weightProperty) :
    e.srcId < g.numNodes ∧ e.dstId < g.numNodes := by
  obtain ⟨u, hu, hin⟩ := mem_flatMap.mp he
  obtain ⟨x, hx, rfl⟩ := mem_map.mp hin
  rw [mem_range] at hu
  exact ⟨hu, g.nbr_lt u hu x hx⟩

theorem scanned_nodup : (g.scanned weightProperty).Nodup := by
  apply Nodup.of_map WeightedEdge.relId
  have hrels : (g.scanned weightProperty).map WeightedEdge.relId =
      (range g.numNodes).flatMap fun u => (g.scanFwd u).map WeightedNbr.relId := by
    unfold WeightedGraph.scanned
    rw [map_flatMap]
    simp only [map_map]
    rfl
  rw [hrels]
  exact g.rels_nodup

variable {e : WeightedEdge W R}

theorem mem_edges : e ∈ g.edges weightProperty ↔
    e ∈ g.scanned weightProperty ∧ e.dstId ≠ e.srcId := by
  unfold WeightedGraph.edges
  rw [mem_filter, decide_eq_true_iff]

end

/-! ## 6. The order of the edges -/

section

variable {W R : Type} [LinearOrder W]

def Variant.Le : Variant → W → W → Prop
  | .min, a, b => a ≤ b
  | .max, a, b => b ≤ a

instance (variant : Variant) : IsPreorder W variant.Le where
  refl := by
    intro a
    cases variant <;> exact le_refl a
  trans := by
    intro a b c h h'
    cases variant
    · exact le_trans (a := a) h h'
    · exact le_trans (a := c) h' h

instance (variant : Variant) : Std.Antisymm (variant.Le : W → W → Prop) where
  antisymm := by
    intro a b h h'
    cases variant
    · exact le_antisymm (a := a) h h'
    · exact le_antisymm (a := a) h' h

instance (variant : Variant) : Std.Total (variant.Le : W → W → Prop) where
  total := by
    intro a b
    cases variant
    · exact le_total a b
    · exact le_total b a

variable [LinearOrder R] {variant : Variant} {edges edges' : List (WeightedEdge W R)}
  {e e' : WeightedEdge W R}

theorem compareFn_eq_false : compareFn variant e' e = false ↔ variant.Le e.tie e'.tie := by
  cases variant
  · show decide (e'.tie < e.tie) = false ↔ e.tie ≤ e'.tie
    rw [decide_eq_false_iff_not, not_lt]
  · show decide (e.tie < e'.tie) = false ↔ e'.tie ≤ e.tie
    rw [decide_eq_false_iff_not, not_lt]

omit [LinearOrder W] [LinearOrder R] in
theorem tie_injective : Function.Injective (WeightedEdge.tie : WeightedEdge W R → _) := by
  rintro ⟨s, d, r, w⟩ ⟨s', d', r', w'⟩ h
  cases h
  rfl

theorem le_weight (h : variant.Le e.tie e'.tie) : variant.Le e.weight e'.weight := by
  cases variant
  all_goals exact Prod.Lex.monotone_fst _ _ h

theorem sortEdges_perm : (sortEdges variant edges).Perm edges := perm_insertionSort _ edges

theorem sortEdges_pairwise :
    (sortEdges variant edges).Pairwise fun e e' => variant.Le e.tie e'.tie := by
  have hpairwise : ∀ l : List (WeightedEdge W R), (l.insertionSort fun e e' =>
      compareFn variant e' e = false).Pairwise fun e e' => compareFn variant e' e = false := by
    have htotal : Std.Total fun e e' : WeightedEdge W R => compareFn variant e' e = false :=
      ⟨fun e e' => by
        rw [compareFn_eq_false, compareFn_eq_false]
        exact total_of variant.Le e.tie e'.tie⟩
    have htrans : IsTrans (WeightedEdge W R) fun e e' => compareFn variant e' e = false :=
      ⟨fun e₁ e₂ e₃ h h' => by
        rw [compareFn_eq_false] at h h' ⊢
        exact trans_of variant.Le h h'⟩
    exact pairwise_insertionSort _
  exact (hpairwise edges).imp compareFn_eq_false.mp

theorem sortEdges_congr (h : edges'.Perm edges) :
    sortEdges variant edges' = sortEdges variant edges := by
  apply Perm.eq_of_pairwise _ sortEdges_pairwise sortEdges_pairwise
    ((sortEdges_perm.trans h).trans sortEdges_perm.symm)
  intro e e' _ _ hle hge
  exact tie_injective (antisymm_of variant.Le hle hge)

end

/-! ## 7. Spanning forests of least or greatest weight -/

section

variable {W R : Type} [One W] [LinearOrder W] [LinearOrder R] [AddCommMonoid W]
  {g : WeightedGraph W R} {weightProperty : Bool} {variant : Variant}

/-- What the rows are to be: the edges of a forest that links what the graph links, of the least or
greatest total weight of all such, and two of them have one id exactly when they are in one tree. -/
def Emits (g : WeightedGraph W R) (weightProperty : Bool) (variant : Variant)
    (out : List (ResultEdge R)) : Prop :=
  ∃ forest : Finset (WeightedEdge W R), (out.map fun r => (r.srcId, r.dstId, r.relId)).Perm
      (forest.toList.map fun e => (e.srcId, e.dstId, e.relId)) ∧
    SpanningForest WeightedEdge.srcId WeightedEdge.dstId (forest : Set (WeightedEdge W R))
      {e | e ∈ g.scanned weightProperty} ∧
    (∀ other : Finset (WeightedEdge W R),
      SpanningForest WeightedEdge.srcId WeightedEdge.dstId (other : Set (WeightedEdge W R))
        {e | e ∈ g.scanned weightProperty} →
      variant.Le (∑ e ∈ forest, e.weight) (∑ e ∈ other, e.weight)) ∧
    ∀ a ∈ out, ∀ b ∈ out, a.forestId = b.forestId ↔
      Linked WeightedEdge.srcId WeightedEdge.dstId (forest : Set (WeightedEdge W R)) a.srcId b.srcId

/-- One result for every order in which the edges are scanned. -/
def ForestFound (g : WeightedGraph W R) (weightProperty : Bool) (variant : Variant) : Prop :=
  ∃ out, Emits g weightProperty variant out ∧ ∀ g' : WeightedGraph W R,
    g'.numNodes = g.numNodes → (g'.scanned weightProperty).Perm (g.scanned weightProperty) →
    Halts (spanningForest g' weightProperty variant) out

/-- The 32-bit counters reach the last node, and the last edge or one tree. -/
def Countable (g : WeightedGraph W R) (weightProperty : Bool) (variant : Variant) : Prop :=
  g.numNodes < 2 ^ 32 ∧ ((g.edges weightProperty).length < 2 ^ 32 ∨
    ∀ u < g.numNodes, ∀ v < g.numNodes,
      LinkedBy ((sortEdges variant (g.edges weightProperty)).take (2 ^ 32)) u v)

omit [LinearOrder W] [LinearOrder R] [AddCommMonoid W] in
theorem spanning_scanned_iff {F : Set (WeightedEdge W R)} :
    SpanningForest WeightedEdge.srcId WeightedEdge.dstId F {e | e ∈ g.scanned weightProperty} ↔
      SpanningForest WeightedEdge.srcId WeightedEdge.dstId F
        {e | e ∈ g.edges weightProperty} := by
  constructor
  · intro h
    refine ⟨fun e he => mem_edges.mpr ⟨h.sub he, ?_⟩, h.acyclic,
      fun e he => h.spans e (mem_edges.mp he).1⟩
    intro hloop
    apply h.acyclic e he
    rw [hloop]
    exact .refl _
  · intro h
    refine ⟨fun e he => (mem_edges.mp (h.sub he)).1, h.acyclic, ?_⟩
    intro e he
    by_cases hloop : e.dstId = e.srcId
    · rw [hloop]
      exact .refl _
    · exact h.spans e (mem_edges.mpr ⟨he, hloop⟩)

theorem namedEdges_emits [IsOrderedAddMonoid W] {n k : Nat} {A : List (WeightedEdge W R)}
    {c : Nat → Nat} {s : KruskalState R} (h : Merged n A c (k, s)) (hA : A.Nodup)
    (hgreedy : GreedyOf (sortEdges variant (g.edges weightProperty)) A) :
    Emits g weightProperty variant (namedEdges A c) := by
  have hcoe : ((A.toFinset : Finset (WeightedEdge W R)) : Set (WeightedEdge W R)) = {e | e ∈ A} :=
    coe_toFinset A
  have hsorted : {e | e ∈ sortEdges variant (g.edges weightProperty)} =
      {e | e ∈ g.edges weightProperty} := by
    ext e
    exact sortEdges_perm.mem_iff
  have hspanning := hgreedy.spanning
  rw [hsorted] at hspanning
  refine ⟨A.toFinset, ?_, ?_, ?_, ?_⟩
  · have hkeys : (namedEdges A c).map (fun r => (r.srcId, r.dstId, r.relId)) =
        A.map fun e => (e.srcId, e.dstId, e.relId) := by
      unfold namedEdges
      rw [map_map]
      rfl
    rw [hkeys]
    exact ((toFinset_toList hA).map _).symm
  · rw [hcoe]
    exact spanning_scanned_iff.mpr hspanning
  · intro other hother
    rw [spanning_scanned_iff, ← hsorted] at hother
    unfold GreedyOf at hgreedy
    rw [← hcoe] at hgreedy
    refine hgreedy.optimal (sortEdges_perm.nodup_iff.mpr (scanned_nodup.filter _))
      (sortEdges_pairwise.imp le_weight) ?_ hother
    intro a b c hab
    cases variant
    all_goals exact add_le_add hab le_rfl
  · intro a ha b hb
    obtain ⟨e, -, rfl⟩ := mem_map.mp ha
    obtain ⟨e', -, rfl⟩ := mem_map.mp hb
    rw [hcoe]
    exact h.linked e.srcId e'.srcId

omit [AddCommMonoid W] in
theorem sortEdges_ends : ∀ e ∈ sortEdges variant (g.edges weightProperty),
    e.srcId < g.numNodes ∧ e.dstId < g.numNodes := fun _ he =>
  scanned_ends (mem_edges.mp (sortEdges_perm.mem_iff.mp he)).1

theorem found_of_countable [IsOrderedAddMonoid W] (h : Countable g weightProperty variant) :
    ForestFound g weightProperty variant := by
  obtain ⟨hsmall, hfits⟩ := h
  have hnodup : (sortEdges variant (g.edges weightProperty)).Nodup :=
    sortEdges_perm.nodup_iff.mpr (scanned_nodup.filter _)
  obtain ⟨s, A, c, k, hrun, hmerged, hA, hgreedy⟩ := run_halts hsmall hnodup sortEdges_ends
    (by rw [sortEdges_perm.length_eq]; exact hfits)
  refine ⟨namedEdges A c, namedEdges_emits hmerged hA hgreedy, ?_⟩
  intro g' hnodes hscan
  have hinit : Halts (fun f => initEdges g' weightProperty f) (g'.edges weightProperty) :=
    initEdges_halts (hnodes ▸ hsmall)
  have hsame : sortEdges variant (g'.edges weightProperty) =
      sortEdges variant (g.edges weightProperty) := sortEdges_congr (hscan.filter _)
  refine hinit.bind ?_
  rw [hsame, hnodes]
  exact hrun.bind (assignForestIds_halts hmerged)

theorem countable_of_found (h : ForestFound g weightProperty variant) :
    Countable g weightProperty variant := by
  obtain ⟨out, -, hhalts⟩ := h
  obtain ⟨k, hk⟩ := hhalts g rfl (Perm.refl _)
  have hsmall : g.numNodes < 2 ^ 32 := by
    by_contra hbig
    have hrun := hk k le_rfl
    unfold spanningForest initEdges at hrun
    rw [forU32_diverges (not_lt.mp hbig)] at hrun
    cases hrun
  refine ⟨hsmall, ?_⟩
  by_contra hnot
  obtain ⟨k', hk'⟩ := @initEdges_halts _ _ _ g weightProperty hsmall
  have hrun := hk (max k k') (le_max_left k k')
  have hinit : initEdges g weightProperty (max k k') = some (g.edges weightProperty) :=
    hk' (max k k') (le_max_right k k')
  unfold spanningForest at hrun
  rw [hinit, Option.bind_some,
    run_diverges hsmall sortEdges_ends _ fun hall => hnot (.inr hall)] at hrun
  · cases hrun
  · rw [sortEdges_perm.length_eq]
    exact not_lt.mp fun hlt => hnot (.inl hlt)

/-- For all graphs and both variants: the result is a spanning forest of least, or greatest, weight,
whatever the order of the scans, exactly when the 32-bit counters do not wrap before the last node
and before the last edge or one tree. -/
theorem spanning_forest_found_iff [IsOrderedAddMonoid W] (g : WeightedGraph W R)
    (weightProperty : Bool) (variant : Variant) :
    ForestFound g weightProperty variant ↔ Countable g weightProperty variant := by
  constructor
  · exact countable_of_found
  · exact found_of_countable

end

/-! ## 8. Many parallel edges -/

def parallelEdges (count : Nat) : WeightedGraph Nat Nat where
  numNodes := 3
  scanFwd := fun u => if u = 0 then (range count).map fun i => ⟨1, i, 1⟩ else []
  nbr_lt := by
    intro u _ x hx
    split at hx
    · obtain ⟨i, -, rfl⟩ := mem_map.mp hx
      exact (by decide : 1 < 3)
    · exact absurd hx not_mem_nil
  rels_nodup := by
    have hrange : range 3 = [0, 1, 2] := rfl
    rw [hrange]
    simp [map_map, comp_def, nodup_range]

theorem parallelEdges_edges (count : Nat) : (parallelEdges count).edges false =
    (range count).map fun i => ⟨0, 1, i, 1⟩ := by
  have hrange : range (parallelEdges count).numNodes = [0, 1, 2] := rfl
  unfold WeightedGraph.edges WeightedGraph.scanned
  rw [hrange, filter_eq_self.mpr]
  · simp [parallelEdges, WeightedNbr.toEdge, DEFAULT_WEIGHT, comp_def]
  · intro e he
    simp [parallelEdges, WeightedNbr.toEdge] at he
    obtain ⟨i, -, rfl⟩ := he
    rfl

theorem spanning_forest_found_few : ForestFound (parallelEdges 4) false .max ↔
    Countable (parallelEdges 4) false .max :=
  spanning_forest_found_iff (parallelEdges 4) false .max

theorem parallelEdges_cut (variant : Variant) (count limit : Nat) :
    ¬ LinkedBy ((sortEdges variant ((parallelEdges count).edges false)).take limit) 0 2 := by
  intro hlinked
  have hcut : ∀ e ∈ {e | e ∈ (sortEdges variant ((parallelEdges count).edges false)).take limit},
      e.srcId = 2 ↔ e.dstId = 2 := by
    intro e he
    have hmem := sortEdges_perm.mem_iff.mp (mem_of_mem_take he)
    rw [parallelEdges_edges] at hmem
    obtain ⟨i, -, rfl⟩ := mem_map.mp hmem
    exact iff_of_false (show ¬ 0 = 2 by decide) (show ¬ 1 = 2 by decide)
  have hequiv : Equivalence fun u v : Nat => (u = 2 ↔ v = 2) :=
    ⟨fun _ => Iff.rfl, Iff.symm, Iff.trans⟩
  exact absurd ((hlinked.lift hequiv hcut).mpr rfl) (by decide)

/-- The counter of the edges wraps, and the third node keeps the loop going. -/
theorem spanning_forest_never_ends : ¬ ForestFound (parallelEdges (2 ^ 32)) false .min := by
  intro h
  rcases (countable_of_found h).2 with hfew | hall
  · rw [parallelEdges_edges, length_map, length_range] at hfew
    exact lt_irrefl _ hfew
  · exact parallelEdges_cut .min _ _ (hall 0 (by decide) 2 (by decide))

end Ladybug.Algo
