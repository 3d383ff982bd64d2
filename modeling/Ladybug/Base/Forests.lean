import Mathlib.Algebra.BigOperators.Group.Finset.Basic
import Mathlib.Data.Finset.Max
import Mathlib.Data.Finset.Powerset

/-!
# Spanning forests

Edges with two ends, parallel edges and loops allowed.  A set of edges is a forest when each of them
is the only link between its ends.  Taking the edges of a list one by one, each unless the taken ones
already link its ends, gives a spanning forest, and of least weight when the list is sorted by
weight.
-/

namespace Ladybug

open Relation List Finset

section

variable {V E : Type} (src dst : E → V) {F G : Set E} {u v w : V} {e : E}

/-- Linked by a path of edges of `F`, each walked in either direction. -/
def Linked (F : Set E) : V → V → Prop := EqvGen fun u v => ∃ e ∈ F, src e = u ∧ dst e = v

/-- No edge of `F` closes a cycle with the others. -/
def Acyclic (F : Set E) : Prop := ∀ e ∈ F, ¬ Linked src dst (F \ {e}) (src e) (dst e)

/-- Acyclic, and linking whatever `G` links. -/
structure SpanningForest (F G : Set E) : Prop where
  sub : F ⊆ G
  acyclic : Acyclic src dst F
  spans : ∀ e ∈ G, Linked src dst F (src e) (dst e)

section

variable {src dst}

theorem Linked.of_mem (h : e ∈ F) : Linked src dst F (src e) (dst e) := .rel _ _ ⟨e, h, rfl, rfl⟩

theorem Linked.refl (u : V) : Linked src dst F u u := EqvGen.refl u

theorem Linked.symm (h : Linked src dst F u v) : Linked src dst F v u := EqvGen.symm _ _ h

theorem Linked.trans (h : Linked src dst F u v) (h' : Linked src dst F v w) :
    Linked src dst F u w := EqvGen.trans _ _ _ h h'

theorem Linked.lift {r : V → V → Prop} (hr : Equivalence r) (hF : ∀ e ∈ F, r (src e) (dst e))
    (h : Linked src dst F u v) : r u v := by
  induction h with
  | rel u v hedge =>
    obtain ⟨e, he, rfl, rfl⟩ := hedge
    exact hF e he
  | refl u => exact hr.refl u
  | symm u v _ ih => exact hr.symm ih
  | trans u v w _ _ ih ih' => exact hr.trans ih ih'

theorem linked_equivalence (F : Set E) : Equivalence (Linked src dst F) :=
  ⟨Linked.refl, Linked.symm, Linked.trans⟩

theorem Linked.mono (hFG : F ⊆ G) (h : Linked src dst F u v) : Linked src dst G u v :=
  h.lift (linked_equivalence G) fun _ he => .of_mem (hFG he)

theorem linked_insert : Linked src dst (insert e F) u v ↔ Linked src dst F u v ∨
      (Linked src dst F u (src e) ∧ Linked src dst F (dst e) v) ∨
      (Linked src dst F u (dst e) ∧ Linked src dst F (src e) v) := by
  have hmono : ∀ {x y}, Linked src dst F x y → Linked src dst (insert e F) x y := fun h =>
    h.mono (Set.subset_insert e F)
  have hedge : Linked src dst (insert e F) (src e) (dst e) := .of_mem (Set.mem_insert e F)
  constructor
  · intro h
    induction h with
    | rel x y hxy =>
      obtain ⟨f, hf, rfl, rfl⟩ := hxy
      rcases Set.mem_insert_iff.mp hf with rfl | hf
      · exact .inr (.inl ⟨.refl _, .refl _⟩)
      · exact .inl (.of_mem hf)
    | refl x => exact .inl (.refl x)
    | symm x y _ ih =>
      rcases ih with h | ⟨h, h'⟩ | ⟨h, h'⟩
      · exact .inl h.symm
      · exact .inr (.inr ⟨h'.symm, h.symm⟩)
      · exact .inr (.inl ⟨h'.symm, h.symm⟩)
    | trans x y z _ _ ih ih' =>
      rcases ih with h | ⟨h, h'⟩ | ⟨h, h'⟩
      · rcases ih' with k | ⟨k, k'⟩ | ⟨k, k'⟩
        · exact .inl (h.trans k)
        · exact .inr (.inl ⟨h.trans k, k'⟩)
        · exact .inr (.inr ⟨h.trans k, k'⟩)
      · rcases ih' with k | ⟨k, k'⟩ | ⟨k, k'⟩
        · exact .inr (.inl ⟨h, h'.trans k⟩)
        · exact .inr (.inl ⟨h, k'⟩)
        · exact .inl (h.trans k')
      · rcases ih' with k | ⟨k, k'⟩ | ⟨k, k'⟩
        · exact .inr (.inr ⟨h, h'.trans k⟩)
        · exact .inl (h.trans k')
        · exact .inr (.inr ⟨h, k'⟩)
  · rintro (h | ⟨h, h'⟩ | ⟨h, h'⟩)
    · exact hmono h
    · exact ((hmono h).trans hedge).trans (hmono h')
    · exact ((hmono h).trans hedge.symm).trans (hmono h')

theorem SpanningForest.linked_iff (h : SpanningForest src dst F G) :
    Linked src dst F u v ↔ Linked src dst G u v := by
  constructor
  · exact Linked.mono h.sub
  · exact Linked.lift (linked_equivalence F) h.spans

end

variable {src dst}

theorem acyclic_empty : Acyclic src dst (∅ : Set E) := fun _ he => absurd he (Set.notMem_empty _)

theorem Acyclic.mono (h : Acyclic src dst G) (hFG : F ⊆ G) : Acyclic src dst F := by
  intro e he hlinked
  exact h e (hFG he) (hlinked.mono (Set.sdiff_subset_sdiff_left hFG))

theorem Acyclic.join (h : Acyclic src dst F) (he : ¬ Linked src dst F (src e) (dst e)) :
    Acyclic src dst (insert e F) := by
  have hnot : e ∉ F := fun hin => he (.of_mem hin)
  intro f hf hlinked
  rcases Set.mem_insert_iff.mp hf with rfl | hin
  · apply he
    rwa [Set.insert_sdiff_self_of_notMem hnot] at hlinked
  · have hne : e ≠ f := fun heq => hnot (heq ▸ hin)
    rw [Set.insert_sdiff_of_notMem F (show e ∉ ({f} : Set E) from hne), linked_insert] at hlinked
    have hsub : ∀ {x y}, Linked src dst (F \ {f}) x y → Linked src dst F x y := fun h =>
      h.mono Set.sdiff_subset
    have hends : Linked src dst F (src f) (dst f) := .of_mem hin
    rcases hlinked with hold | ⟨h₁, h₂⟩ | ⟨h₁, h₂⟩
    · exact h f hin hold
    · exact he (((hsub h₁).symm.trans hends).trans (hsub h₂).symm)
    · exact he (((hsub h₂).trans hends.symm).trans (hsub h₁))

/-- A path in a forest that leaves `A` has an edge outside `A` without which its ends fall apart. -/
theorem Acyclic.exists_bridge {T : Finset E} {A : Set E} (hT : Acyclic src dst (T : Set E))
    (hA : A ⊆ T) (h : Linked src dst (T : Set E) u v) (hnot : ¬ Linked src dst A u v) :
    ∃ f ∈ T, f ∉ A ∧ ¬ Linked src dst ((T : Set E) \ {f}) u v := by
  classical
  -- a largest set between `A` and `T` that does not link the ends
  have hlower : (T.filter (· ∈ A) : Set E) = A := by
    ext e
    simp only [coe_filter, Set.mem_ofPred_eq]
    exact ⟨fun h => h.2, fun h => ⟨hA h, h⟩⟩
  obtain ⟨S, hS, hmax⟩ := exists_max_image
    (T.powerset.filter fun S : Finset E => A ⊆ (S : Set E) ∧ ¬ Linked src dst (S : Set E) u v)
    card
    ⟨T.filter (· ∈ A), by
      rw [Finset.mem_filter, mem_powerset, hlower]
      exact ⟨Finset.filter_subset _ _, subset_rfl, hnot⟩⟩
  rw [Finset.mem_filter, mem_powerset] at hS
  obtain ⟨hST, hAS, hcut⟩ := hS
  have hne : S ≠ T := by
    rintro rfl
    exact hcut h
  obtain ⟨f, hf, hfS⟩ := exists_of_ssubset (lt_of_le_of_ne hST hne)
  have hjoin : Linked src dst (insert f (S : Set E)) u v := by
    by_contra hcut'
    have hmem : insert f S ∈ T.powerset.filter fun S : Finset E =>
        A ⊆ (S : Set E) ∧ ¬ Linked src dst (S : Set E) u v := by
      rw [Finset.mem_filter, mem_powerset, coe_insert]
      exact ⟨insert_subset hf hST, hAS.trans (Set.subset_insert f _), hcut'⟩
    have hcard := hmax _ hmem
    rw [card_insert_of_notMem hfS] at hcard
    omega
  refine ⟨f, hf, fun hfA => hfS (hAS hfA), fun hrest => ?_⟩
  -- otherwise the rest of the forest would link the ends of `f`
  have hsub : ∀ {x y}, Linked src dst (S : Set E) x y → Linked src dst ((T : Set E) \ {f}) x y := by
    intro x y hxy
    refine hxy.mono fun e he => ⟨hST he, ?_⟩
    rintro rfl
    exact hfS he
  apply hT f hf
  rcases linked_insert.mp hjoin with hold | ⟨h₁, h₂⟩ | ⟨h₁, h₂⟩
  · exact absurd hold hcut
  · exact ((hsub h₁).symm.trans hrest).trans (hsub h₂).symm
  · exact ((hsub h₂).trans hrest.symm).trans (hsub h₁)

end

section

variable {V E W : Type} {src dst : E → V} {order : List E} {A : Set E}

/-- The edges of a list that are taken when each is, unless those taken before link its ends. -/
structure Greedy (src dst : E → V) (order : List E) (A : Set E) : Prop where
  sub : ∀ e ∈ A, e ∈ order
  choice : ∀ pre e post, order = pre ++ e :: post →
    (e ∈ A ↔ ¬ Linked src dst {x ∈ A | x ∈ pre} (src e) (dst e))

theorem Greedy.acyclic (h : Greedy src dst order A) : Acyclic src dst A := by
  have hupto : ∀ pre post, order = pre ++ post → Acyclic src dst {x ∈ A | x ∈ pre} := by
    intro pre
    induction pre using reverseRecOn with
    | nil =>
      intro post _
      exact acyclic_empty.mono fun e he => absurd he.2 not_mem_nil
    | append_singleton pre e ih =>
      intro post hpost
      rw [append_assoc, singleton_append] at hpost
      have hpre := ih (e :: post) hpost
      by_cases hA : e ∈ A
      · refine (hpre.join ((h.choice pre e post hpost).mp hA)).mono fun x hx => ?_
        rcases mem_append.mp hx.2 with hin | hlast
        · exact .inr ⟨hx.1, hin⟩
        · exact .inl (List.mem_singleton.mp hlast)
      · refine hpre.mono fun x hx => ⟨hx.1, ?_⟩
        rcases mem_append.mp hx.2 with hin | hlast
        · exact hin
        · exact absurd (List.mem_singleton.mp hlast ▸ hx.1) hA
  exact (hupto order [] (append_nil order).symm).mono fun e he => ⟨he, h.sub e he⟩

theorem Greedy.spanning (h : Greedy src dst order A) :
    SpanningForest src dst A {e | e ∈ order} where
  sub := h.sub
  acyclic := h.acyclic
  spans := by
    intro e he
    obtain ⟨pre, post, hsplit⟩ := append_of_mem he
    by_cases hA : e ∈ A
    · exact .of_mem hA
    · have hlinked := not_not.mp (mt (h.choice pre e post hsplit).mpr hA)
      exact hlinked.mono fun x hx => hx.1

theorem Greedy.nil : Greedy src dst ([] : List E) ∅ where
  sub := fun _ he => absurd he (Set.notMem_empty _)
  choice := by
    intro pre e post h
    simp at h

theorem Greedy.take {e : E} (h : Greedy src dst order A) (hnew : e ∉ order)
    (he : ¬ Linked src dst A (src e) (dst e)) : Greedy src dst (order ++ [e]) (insert e A) where
  sub := by
    intro x hx
    rcases Set.mem_insert_iff.mp hx with rfl | hin
    · simp
    · exact mem_append_left _ (h.sub x hin)
  choice := by
    intro pre x post hsplit
    have hpre : ∀ l : List E, (∀ y ∈ l, y ∈ order) → {y ∈ insert e A | y ∈ l} = {y ∈ A | y ∈ l} := by
      intro l hl
      ext y
      constructor
      · rintro ⟨hy, hin⟩
        refine ⟨hy.resolve_left ?_, hin⟩
        rintro rfl
        exact hnew (hl _ hin)
      · exact fun hy => ⟨.inr hy.1, hy.2⟩
    rcases append_eq_append_iff.mp hsplit with ⟨mid, rfl, hrest⟩ | ⟨mid, rfl, hrest⟩
    · -- `e` itself
      cases mid with
      | nil =>
        obtain ⟨rfl, -⟩ := List.cons.inj hrest
        rw [append_nil, hpre order fun y hy => hy]
        refine iff_of_true (Set.mem_insert e A) fun hlinked => he ?_
        exact hlinked.mono fun y hy => hy.1
      | cons y mid =>
        have hnil := (List.cons.inj hrest).2
        simp at hnil
    · cases mid with
      | nil =>
        obtain ⟨rfl, -⟩ := List.cons.inj hrest
        rw [hpre pre fun y hy => by simpa using hy]
        refine iff_of_true (Set.mem_insert x A) fun hlinked => he ?_
        exact hlinked.mono fun y hy => hy.1
      | cons y mid =>
        obtain ⟨rfl, hpost⟩ := List.cons.inj hrest
        rw [hpre pre fun y hy => mem_append_left _ hy, ← h.choice pre x mid rfl]
        refine or_iff_right ?_
        rintro rfl
        exact hnew (by simp)

theorem Greedy.skip {e : E} (h : Greedy src dst order A) (hnew : e ∉ order)
    (he : Linked src dst A (src e) (dst e)) : Greedy src dst (order ++ [e]) A where
  sub := fun x hx => mem_append_left _ (h.sub x hx)
  choice := by
    have hall : {y ∈ A | y ∈ order} = A := by
      ext y
      exact ⟨fun hy => hy.1, fun hy => ⟨hy, h.sub y hy⟩⟩
    have hlast : e ∈ A ↔ ¬ Linked src dst {y ∈ A | y ∈ order} (src e) (dst e) := by
      rw [hall]
      exact iff_of_false (fun hin => hnew (h.sub e hin)) (not_not.mpr he)
    intro pre x post hsplit
    rcases append_eq_append_iff.mp hsplit with ⟨mid, rfl, hrest⟩ | ⟨mid, rfl, hrest⟩
    · cases mid with
      | nil =>
        obtain ⟨rfl, -⟩ := List.cons.inj hrest
        rw [append_nil]
        exact hlast
      | cons y mid =>
        have hnil := (List.cons.inj hrest).2
        simp at hnil
    · cases mid with
      | nil =>
        obtain ⟨rfl, -⟩ := List.cons.inj hrest
        rw [append_nil] at hlast
        exact hlast
      | cons y mid =>
        obtain ⟨rfl, -⟩ := List.cons.inj hrest
        exact h.choice pre x mid rfl

theorem Greedy.rest {later : List E} (h : Greedy src dst order A) (hnodup : (order ++ later).Nodup)
    (hlater : ∀ e ∈ later, Linked src dst A (src e) (dst e)) :
    Greedy src dst (order ++ later) A := by
  induction later generalizing order with
  | nil =>
    rw [append_nil]
    exact h
  | cons e later ih =>
    rw [← singleton_append, ← append_assoc] at hnodup ⊢
    have hnew : e ∉ order := fun hin =>
      (nodup_append.mp (nodup_append.mp hnodup).1).2.2 e hin e (List.mem_singleton_self e)
        rfl
    exact ih (h.skip hnew (hlater e mem_cons_self)) hnodup fun x hx =>
      hlater x (mem_cons_of_mem e hx)

variable [AddCommMonoid W] {rel : W → W → Prop} [IsPreorder W rel] {weight : E → W}

theorem Greedy.optimal {A T : Finset E} (h : Greedy src dst order (A : Set E))
    (hnodup : order.Nodup) (hsorted : order.Pairwise fun e f => rel (weight e) (weight f))
    (hadd : ∀ a b c : W, rel a b → rel (a + c) (b + c))
    (hT : SpanningForest src dst (T : Set E) {e | e ∈ order}) :
    rel (∑ e ∈ A, weight e) (∑ e ∈ T, weight e) := by
  classical
  have hupto : ∀ pre post, order = pre ++ post → ∃ S : Finset E,
      SpanningForest src dst (S : Set E) {e | e ∈ order} ∧ (∀ e ∈ pre, e ∈ S ↔ e ∈ A) ∧
      rel (∑ e ∈ S, weight e) (∑ e ∈ T, weight e) := by
    intro pre
    induction pre using reverseRecOn with
    | nil =>
      intro post _
      exact ⟨T, hT, fun e he => absurd he not_mem_nil, refl _⟩
    | append_singleton pre e ih =>
      intro post hpost
      rw [append_assoc, singleton_append] at hpost
      obtain ⟨S, hS, hagree, hweight⟩ := ih (e :: post) hpost
      have hepre : e ∉ pre := fun hin =>
        (nodup_append.mp (hpost ▸ hnodup)).2.2 e hin e mem_cons_self rfl
      have htaken : {x ∈ (A : Set E) | x ∈ pre} ⊆ (S : Set E) := fun x hx =>
        (hagree x hx.2).mpr hx.1
      -- what holds of `pre` and of `e` holds of both
      have hboth : ∀ {S' : Finset E}, (∀ x ∈ pre, x ∈ S' ↔ x ∈ A) → (e ∈ S' ↔ e ∈ A) →
          ∀ x ∈ pre ++ [e], x ∈ S' ↔ x ∈ A := by
        intro S' hpre he x hx
        rcases mem_append.mp hx with hin | hlast
        · exact hpre x hin
        · exact List.mem_singleton.mp hlast ▸ he
      have hchoice := h.choice pre e post hpost
      by_cases hA : e ∈ A
      · by_cases heS : e ∈ S
        · exact ⟨S, hS, hboth hagree (iff_of_true heS hA), hweight⟩
        · -- exchange `e` for an edge that is still to come
          have heorder : e ∈ order := hpost ▸ mem_append_right pre mem_cons_self
          obtain ⟨f, hf, hfA, hcut⟩ := hS.acyclic.exists_bridge htaken (hS.spans e heorder)
            (hchoice.mp hA)
          have hforder : f ∈ order := hS.sub hf
          have hfpre : f ∉ pre := fun hin => hfA ⟨(hagree f hin).mp hf, hin⟩
          have hfe : f ≠ e := fun heq => heS (heq ▸ hf)
          have hfpost : f ∈ post := by
            rw [hpost] at hforder
            rcases mem_append.mp hforder with hin | hin
            · exact absurd hin hfpre
            · exact (mem_cons.mp hin).resolve_left hfe
          have hle : rel (weight e) (weight f) := by
            rw [hpost] at hsorted
            exact (pairwise_cons.mp (pairwise_append.mp hsorted).2.1).1 f hfpost
          have herase : ((S.erase f : Finset E) : Set E) = (S : Set E) \ {f} :=
            coe_erase f S
          have heerase : e ∉ S.erase f := fun hin => heS (Finset.mem_of_mem_erase hin)
          refine ⟨insert e (S.erase f), ⟨?_, ?_, ?_⟩, hboth ?_ ?_, ?_⟩
          · rw [coe_insert, herase]
            exact Set.insert_subset heorder (Set.sdiff_subset.trans hS.sub)
          · rw [coe_insert, herase]
            exact (hS.acyclic.mono Set.sdiff_subset).join hcut
          · have hwhole : insert f ((S : Set E) \ {f}) = S := Set.insert_sdiff_self_of_mem hf
            have hnew : Linked src dst ((insert e (S.erase f) : Finset E) : Set E)
                (src f) (dst f) := by
              rw [coe_insert, herase]
              have hends := hS.spans e heorder
              rw [← hwhole, linked_insert] at hends
              rcases hends with hold | ⟨h₁, h₂⟩ | ⟨h₁, h₂⟩
              · exact absurd hold hcut
              · exact linked_insert.mpr (.inr (.inl ⟨h₁.symm, h₂.symm⟩))
              · exact linked_insert.mpr (.inr (.inr ⟨h₂, h₁⟩))
            intro x hx
            refine (hS.spans x hx).lift (linked_equivalence _) fun y hy => ?_
            by_cases hyf : y = f
            · exact hyf ▸ hnew
            · exact .of_mem (Finset.mem_insert_of_mem (mem_erase.mpr ⟨hyf, hy⟩))
          · intro x hx
            rw [← hagree x hx, mem_insert, mem_erase]
            constructor
            · rintro (rfl | hin)
              · exact absurd hx hepre
              · exact hin.2
            · intro hin
              refine .inr ⟨?_, hin⟩
              rintro rfl
              exact hfpre hx
          · exact iff_of_true (Finset.mem_insert_self e _) hA
          · refine trans_of rel ?_ hweight
            rw [sum_insert heerase, ← add_sum_erase S weight hf]
            exact hadd _ _ _ hle
      · -- the edges taken so far link the ends of `e`
        have heS : e ∉ S := by
          intro heS
          refine hS.acyclic e heS ((not_not.mp (mt hchoice.mpr hA)).mono fun x hx => ?_)
          refine ⟨htaken hx, ?_⟩
          rintro rfl
          exact hepre hx.2
        exact ⟨S, hS, hboth hagree (iff_of_false heS hA), hweight⟩
  obtain ⟨S, hS, hagree, hweight⟩ := hupto order [] (append_nil order).symm
  have heq : S = A := by
    ext e
    exact ⟨fun he => (hagree e (hS.sub he)).mp he, fun he => (hagree e (h.sub e he)).mpr he⟩
  exact heq ▸ hweight

end

end Ladybug
