import Ladybug.Base.SlotStack
import Ladybug.Vector.EmbeddingHandles

/-!
# The space of live handles is never used again
-/

namespace Ladybug.Vector

open List Option Function

namespace OnDiskEmbeddingScanState

variable {α : Type} {T : EmbeddingStorage α} {s s' : OnDiskEmbeddingScanState α}
  {handle other : EmbeddingHandle α}

/-! ## 1. The space of the handles -/

def slots (s : OnDiskEmbeddingScanState α) : SlotStack := ⟨s.usedEmbeddingOffsets, s.allocatedOffsets⟩

/-- The stack covers the embeddings in use, and the data vector reaches as far as the stack. -/
structure Wf (T : EmbeddingStorage α) (s : OnDiskEmbeddingScanState α) : Prop where
  slots : s.slots.Wf
  room : s.slots.bound * T.embeddingDim ≤ s.data.length
  aligned : T.embeddingDim ∣ s.data.length

structure Reads (T : EmbeddingStorage α) (s : OnDiskEmbeddingScanState α)
    (handle : EmbeddingHandle α) : Prop where
  aligned : T.embeddingDim ∣ handle.offsetInData
  within : handle.offsetInData + T.embeddingDim ≤ s.data.length
  data : s.getEmbeddingPtr T handle = handle.embedding

structure Held (T : EmbeddingStorage α) (s : OnDiskEmbeddingScanState α)
    (handle : EmbeddingHandle α) : Prop extends Reads T s handle where
  allocated : s.allocatedOffsets (handle.offsetInData / T.embeddingDim) = true

/-- The place of the handle is behind those on the stack. -/
structure Fresh (T : EmbeddingStorage α) (s : OnDiskEmbeddingScanState α)
    (handle : EmbeddingHandle α) : Prop extends Reads T s handle where
  behind : s.slots.bound * T.embeddingDim ≤ handle.offsetInData

theorem Reads.slot (h : Reads T s handle) :
    handle.offsetInData / T.embeddingDim * T.embeddingDim = handle.offsetInData :=
  Nat.div_mul_cancel h.aligned

theorem Reads.disjoint (h : Reads T s handle) (h' : Reads T s other)
    (hne : handle.offsetInData ≠ other.offsetInData) :
    handle.offsetInData + T.embeddingDim ≤ other.offsetInData ∨
      other.offsetInData + T.embeddingDim ≤ handle.offsetInData := by
  obtain ⟨i, hi⟩ := h.aligned
  obtain ⟨j, hj⟩ := h'.aligned
  have hij : i ≠ j := by
    intro heq
    rw [hi, hj, heq] at hne
    exact hne rfl
  rw [hi, hj, ← Nat.mul_succ, ← Nat.mul_succ]
  rcases Nat.lt_or_gt_of_ne hij with hlt | hlt
  · exact .inl (Nat.mul_le_mul_left _ hlt)
  · exact .inr (Nat.mul_le_mul_left _ hlt)

theorem Reads.slot_ne (h : Reads T s handle) (h' : Reads T s other)
    (hne : handle.offsetInData ≠ other.offsetInData) :
    handle.offsetInData / T.embeddingDim ≠ other.offsetInData / T.embeddingDim := by
  intro heq
  have hslot := h.slot
  rw [heq, h'.slot] at hslot
  exact hne hslot.symm

theorem Held.end_le (h : Held T s handle) (hslots : s.slots.Wf) :
    handle.offsetInData + T.embeddingDim ≤ s.slots.bound * T.embeddingDim := by
  have hslot := hslots.lt_bound h.allocated
  have hmul := Nat.mul_le_mul_right T.embeddingDim (Nat.succ_le_of_lt hslot)
  rw [Nat.succ_mul, h.toReads.slot] at hmul
  exact hmul

theorem Reads.of_prefix (h : Reads T s handle) (n : Nat)
    (hn : handle.offsetInData + T.embeddingDim ≤ n)
    (hn' : handle.offsetInData + T.embeddingDim ≤ s'.data.length)
    (hdata : s'.data.take n = s.data.take n) : Reads T s' handle where
  aligned := h.aligned
  within := hn'
  data := by
    have hcut : ∀ t : OnDiskEmbeddingScanState α, t.getEmbeddingPtr T handle =
        ((t.data.take n).drop handle.offsetInData).take T.embeddingDim := by
      intro t
      unfold getEmbeddingPtr
      rw [drop_take, take_take, Nat.min_eq_left (by omega)]
    rw [hcut s', hdata, ← hcut s]
    exact h.data

/-! ## 2. One operation -/

theorem Reads.append (h : Reads T s handle) (xs : List α) :
    Reads T { s with data := s.data ++ xs } handle := by
  have hwithin := h.within
  apply h.of_prefix s.data.length hwithin
  · rw [length_append]
    omega
  · rw [take_left, take_length]

theorem Held.append (h : Held T s handle) (xs : List α) :
    Held T { s with data := s.data ++ xs } handle :=
  ⟨h.toReads.append xs, h.allocated⟩

theorem addEmbedding_eq (hadd : s.addEmbedding T handle = some s') :
    s'.slots = s.slots.push (handle.offsetInData / T.embeddingDim) ∧ s'.data = s.data := by
  unfold addEmbedding at hadd
  simp only at hadd
  split at hadd
  · cases hadd
    exact ⟨rfl, rfl⟩
  · cases hadd

theorem Reads.add (h : Reads T s other) (hadd : s.addEmbedding T handle = some s') :
    Reads T s' other := by
  obtain ⟨-, hdata⟩ := addEmbedding_eq hadd
  have hwithin := h.within
  exact h.of_prefix s.data.length hwithin (hdata ▸ hwithin) (by rw [hdata])

theorem Held.add (h : Held T s other) (hadd : s.addEmbedding T handle = some s') :
    Held T s' other := by
  obtain ⟨hslots, -⟩ := addEmbedding_eq hadd
  refine ⟨h.toReads.add hadd, ?_⟩
  show s'.slots.allocated _ = true
  rw [hslots]
  exact SlotStack.allocated_push_of h.allocated

theorem Fresh.bound_add (h : Fresh T s handle) (hadd : s.addEmbedding T handle = some s') :
    s'.slots.bound * T.embeddingDim = handle.offsetInData + T.embeddingDim := by
  obtain ⟨hslots, -⟩ := addEmbedding_eq hadd
  rw [hslots, SlotStack.bound_push, Nat.add_mul, Nat.one_mul, h.slot]

theorem Wf.add (h : Wf T s) (hfresh : Fresh T s handle)
    (hadd : s.addEmbedding T handle = some s') : Wf T s' ∧ Held T s' handle := by
  obtain ⟨hslots, hdata⟩ := addEmbedding_eq hadd
  have hbehind : s.slots.bound ≤ handle.offsetInData / T.embeddingDim :=
    (Nat.le_div_iff_mul_le T.dim_pos).mpr hfresh.behind
  refine ⟨⟨?_, ?_, ?_⟩, hfresh.toReads.add hadd, ?_⟩
  · rw [hslots]
    exact h.slots.push hbehind
  · rw [hfresh.bound_add hadd, hdata]
    exact hfresh.within
  · rw [hdata]
    exact h.aligned
  · show s'.slots.allocated _ = true
    rw [hslots]
    exact SlotStack.allocated_push _ _

theorem slots_reclaim (T : EmbeddingStorage α) (s : OnDiskEmbeddingScanState α)
    (handle : EmbeddingHandle α) : (s.reclaimEmbedding T handle).slots =
      s.slots.release (handle.offsetInData / T.embeddingDim) := rfl

theorem Wf.data_reclaim (h : Wf T s) (handle : EmbeddingHandle α) :
    (s.reclaimEmbedding T handle).slots.bound * T.embeddingDim ≤ s.data.length ∧
      (s.reclaimEmbedding T handle).data =
        s.data.take ((s.reclaimEmbedding T handle).slots.bound * T.embeddingDim) := by
  have hbound : (s.reclaimEmbedding T handle).slots.bound ≤ s.slots.bound :=
    h.slots.bound_release_le _
  have hle := Nat.le_trans (Nat.mul_le_mul_right T.embeddingDim hbound) h.room
  refine ⟨hle, ?_⟩
  rw [← T.resize_take s.data _ hle]
  unfold OnDiskEmbeddingScanState.reclaimEmbedding OnDiskEmbeddingScanState.slots SlotStack.bound
  simp only []
  apply congrArg (T.resizeDataVector s.data)
  cases s.usedEmbeddingOffsets.dropWhile _ with
  | nil => exact (Nat.zero_mul _).symm
  | cons top rest => rfl

theorem Wf.length_reclaim (h : Wf T s) (handle : EmbeddingHandle α) :
    (s.reclaimEmbedding T handle).data.length =
      (s.reclaimEmbedding T handle).slots.bound * T.embeddingDim := by
  obtain ⟨hle, hdata⟩ := h.data_reclaim handle
  rw [hdata, length_take, Nat.min_eq_left hle]

theorem Wf.reclaim (h : Wf T s) (handle : EmbeddingHandle α) :
    Wf T (s.reclaimEmbedding T handle) where
  slots := h.slots.release _
  room := Nat.le_of_eq (h.length_reclaim handle).symm
  aligned := ⟨_, (h.length_reclaim handle).trans (Nat.mul_comm _ _)⟩

theorem Held.reclaim (hother : Held T s other) (h : Wf T s) (hreads : Reads T s handle)
    (hne : other.offsetInData ≠ handle.offsetInData) :
    Held T (s.reclaimEmbedding T handle) other := by
  have hallocated : (s.reclaimEmbedding T handle).slots.allocated
      (other.offsetInData / T.embeddingDim) = true := by
    rw [slots_reclaim]
    exact SlotStack.allocated_release_of hother.allocated (hother.toReads.slot_ne hreads hne)
  have hslot := (h.reclaim handle).slots.lt_bound hallocated
  have hend : other.offsetInData + T.embeddingDim ≤
      (s.reclaimEmbedding T handle).slots.bound * T.embeddingDim := by
    have hmul := Nat.mul_le_mul_right T.embeddingDim (Nat.succ_le_of_lt hslot)
    rw [Nat.succ_mul, hother.toReads.slot] at hmul
    exact hmul
  refine ⟨hother.toReads.of_prefix _ hend ?_ ?_, hallocated⟩
  · rw [h.length_reclaim]
    exact hend
  · rw [(h.data_reclaim handle).2, take_take, Nat.min_self]

/-! ## 3. A batch -/

def Before (T : EmbeddingStorage α) (a b : Option (EmbeddingHandle α)) : Prop :=
  ∀ x ∈ a, ∀ y ∈ b, x.offsetInData + T.embeddingDim ≤ y.offsetInData

section

variable {entries : List (Option Nat)}

theorem mem_placeEntries {offsets : List Nat} {o : Nat}
    (ho : some o ∈ placeEntries T offsets entries) : some o ∈ entries := by
  induction offsets generalizing entries with
  | nil => cases ho
  | cons offset offsets ih =>
    unfold placeEntries at ho
    split at ho
    · cases entries with
      | nil => exact ih ((mem_cons.mp ho).resolve_left (some_ne_none o))
      | cons entry entries =>
        rcases mem_cons.mp ho with heq | ho
        · rw [heq]
          exact mem_cons_self
        · exact mem_cons_of_mem entry (ih ho)
    · exact ih ((mem_cons.mp ho).resolve_left (some_ne_none o))

theorem placeEntries_pairwise {R : Nat → Nat → Prop} (offsets : List Nat)
    (h : entries.Pairwise fun a b => ∀ x ∈ a, ∀ y ∈ b, R x y) :
    (placeEntries T offsets entries).Pairwise fun a b => ∀ x ∈ a, ∀ y ∈ b, R x y := by
  induction offsets generalizing entries with
  | nil => exact List.Pairwise.nil
  | cons offset offsets ih =>
    unfold placeEntries
    split
    · cases entries with
      | nil => exact List.Pairwise.cons (fun _ _ x hx => by cases hx) (ih h)
      | cons entry entries =>
        obtain ⟨hentry, hrest⟩ := pairwise_cons.mp h
        apply List.Pairwise.cons
        · intro b hb x hx y hy
          exact hentry b (hy ▸ mem_placeEntries (hy ▸ hb)) x hx y hy
        · exact ih hrest
    · exact List.Pairwise.cons (fun _ _ x hx => by cases hx) (ih h)

theorem Wf.destroyAll (h : Wf T s) {built : List (Option (EmbeddingHandle α))}
    (hheld : ∀ e, some e ∈ built → Held T s e) (hpair : built.Pairwise (Before T)) :
    Wf T (built.foldl (destroy T) s) ∧
      ∀ o, Held T s o → (∀ e, some e ∈ built → o.offsetInData ≠ e.offsetInData) →
        Held T (built.foldl (destroy T) s) o := by
  induction built generalizing s with
  | nil => exact ⟨h, fun _ ho _ => ho⟩
  | cons first built ih =>
    cases first with
    | none =>
      obtain ⟨hwf, hothers⟩ := ih h (fun e he => hheld e (mem_cons_of_mem _ he))
        (pairwise_cons.mp hpair).2
      exact ⟨hwf, fun o ho hne => hothers o ho fun e he => hne e (mem_cons_of_mem _ he)⟩
    | some e =>
      obtain ⟨hbefore, hrest⟩ := pairwise_cons.mp hpair
      have hread := (hheld e mem_cons_self).toReads
      have hpos := T.dim_pos
      have hkept : ∀ e', some e' ∈ built → Held T (s.reclaimEmbedding T e) e' := by
        intro e' he'
        have hle := hbefore _ he' e rfl e' rfl
        exact (hheld e' (mem_cons_of_mem _ he')).reclaim h hread (by omega)
      obtain ⟨hwf, hothers⟩ := ih (h.reclaim e) hkept hrest
      refine ⟨hwf, fun o ho hne => ?_⟩
      exact hothers o (ho.reclaim h hread (hne e mem_cons_self))
        fun e' he' => hne e' (mem_cons_of_mem _ he')

theorem Wf.constructAll (h : Wf T s) (built entries : List (Option (EmbeddingHandle α)))
    (hheld : ∀ e, some e ∈ built → Held T s e) (hfresh : ∀ e, some e ∈ entries → Fresh T s e)
    (hpair : (built ++ entries).Pairwise (Before T)) :
    ∃ s' result, OnDiskEmbeddingScanState.constructAll T built entries s = (s', result) ∧ Wf T s' ∧
      (∀ o, Held T s o → (∀ e, some e ∈ built → o.offsetInData ≠ e.offsetInData) → Held T s' o) ∧
      ∀ handles, result = some handles → handles = built ++ entries ∧
        ∀ e, some e ∈ handles → Held T s' e := by
  induction entries generalizing built s with
  | nil =>
    refine ⟨s, some built, rfl, h, fun _ ho _ => ho, fun handles heq => ?_⟩
    cases heq
    exact ⟨(append_nil built).symm, hheld⟩
  | cons entry entries ih =>
    have hpair' := hpair
    rw [append_cons] at hpair'
    unfold OnDiskEmbeddingScanState.constructAll
    cases entry with
    | none =>
      obtain ⟨s', result, heq, hwf, hothers, hresult⟩ := ih h (built ++ [none])
        (fun e he => hheld e (by simpa using he))
        (fun e he => hfresh e (mem_cons_of_mem _ he)) hpair'
      refine ⟨s', result, heq, hwf, fun o ho hne => hothers o ho fun e he => ?_, ?_⟩
      · exact hne e (by simpa using he)
      · rw [append_cons]
        exact hresult
    | some e =>
      have hnew : Fresh T s e := hfresh e mem_cons_self
      cases hadd : s.addEmbedding T e with
      | none =>
        rw [show s.construct T (some e) = none from hadd]
        obtain ⟨hwf, hothers⟩ := h.destroyAll hheld (pairwise_append.mp hpair).1
        exact ⟨_, none, rfl, hwf, hothers, fun _ heq => by cases heq⟩
      | some s₁ =>
        obtain ⟨hwf₁, hheld₁⟩ := h.add hnew hadd
        have hbound := hnew.bound_add hadd
        have hpos := T.dim_pos
        have hbuilt : ∀ x, some x ∈ built ++ [some e] → Held T s₁ x := by
          intro x hx
          rcases mem_append.mp hx with hx | hx
          · exact (hheld x hx).add hadd
          · rw [some.inj (mem_singleton.mp hx)]
            exact hheld₁
        have hrest : ∀ y, some y ∈ entries → Fresh T s₁ y := by
          intro y hy
          refine ⟨(hfresh y (mem_cons_of_mem _ hy)).toReads.add hadd, ?_⟩
          rw [hbound]
          have htail := (pairwise_append.mp hpair).2.1
          exact (pairwise_cons.mp htail).1 _ hy e rfl y rfl
        obtain ⟨s', result, heq, hwf, hothers, hresult⟩ :=
          ih hwf₁ (built ++ [some e]) hbuilt hrest hpair'
        rw [show s.construct T (some e) = some s₁ from hadd]
        refine ⟨s', result, heq, hwf, fun o ho hne => ?_, ?_⟩
        · apply hothers o (ho.add hadd)
          intro x hx
          rcases mem_append.mp hx with hx | hx
          · exact hne x hx
          · -- a place on the stack is in front of the new one
            rw [some.inj (mem_singleton.mp hx)]
            have hend := ho.end_le h.slots
            have hfront := hnew.behind
            omega
        · rw [append_cons]
          exact hresult

theorem Wf.getEmbeddings (h : Wf T s) (offsets : List Nat) :
    ∃ s' result, s.getEmbeddings T offsets = (s', result) ∧ Wf T s' ∧
      (∀ o, Held T s o → Held T s' o) ∧
      ∀ handles, result = some handles → handles.Pairwise (Before T) ∧
        ∀ e, some e ∈ handles → Held T s' e ∧ s.data.length ≤ e.offsetInData := by
  obtain ⟨xs, hxs⟩ := T.lookup_appends s.data (offsets.filter T.isVisible)
  have haligned := T.lookup_aligned s.data (offsets.filter T.isVisible) h.aligned
  have hplace := T.entry_place s.data (offsets.filter T.isVisible) h.aligned
  have horder := T.entry_order s.data (offsets.filter T.isVisible)
  unfold OnDiskEmbeddingScanState.getEmbeddings
  cases hlookup : T.lookupMultiple s.data (offsets.filter T.isVisible) with
  | mk data entries =>
    rw [hlookup] at hxs haligned hplace horder
    simp only at hxs haligned hplace horder ⊢
    have hwf : Wf T { s with data } := by
      refine ⟨h.slots, ?_, haligned⟩
      have hroom := h.room
      show s.slots.bound * T.embeddingDim ≤ data.length
      rw [hxs, length_append]
      omega
    -- the entries that have become handles
    have hfresh : ∀ e, some e ∈ (placeEntries T offsets entries).map (fun entry =>
        entry.map fun o => (⟨o, (data.drop o).take T.embeddingDim⟩ : EmbeddingHandle α)) →
        Reads T { s with data } e ∧ s.data.length ≤ e.offsetInData := by
      intro e he
      obtain ⟨entry, hentry, heq⟩ := mem_map.mp he
      obtain ⟨o, rfl, rfl⟩ := map_eq_some_iff.mp heq
      obtain ⟨hdvd, hbehind, hend⟩ := hplace o (mem_placeEntries hentry)
      exact ⟨⟨hdvd, hend, rfl⟩, hbehind⟩
    have hpair : ((placeEntries T offsets entries).map fun entry =>
        entry.map fun o => (⟨o, (data.drop o).take T.embeddingDim⟩ : EmbeddingHandle α)).Pairwise
          (Before T) := by
      rw [pairwise_map]
      apply (placeEntries_pairwise offsets horder).imp
      intro a b hab x hx y hy
      obtain ⟨o, ho, rfl⟩ := map_eq_some_iff.mp hx
      obtain ⟨o', ho', rfl⟩ := map_eq_some_iff.mp hy
      exact hab o ho o' ho'
    obtain ⟨s', result, hconstruct, hwf', hothers, hresult⟩ := hwf.constructAll [] _
      (fun e he => absurd he not_mem_nil)
      (fun e he => ⟨(hfresh e he).1, Nat.le_trans h.room (hfresh e he).2⟩) hpair
    refine ⟨s', result, hconstruct, hwf', fun o ho => ?_, fun handles heq => ?_⟩
    · apply hothers o
      · rw [hxs]
        exact ho.append xs
      · exact fun e he => absurd he not_mem_nil
    · obtain ⟨hentries, hheld⟩ := hresult handles heq
      rw [hentries] at hheld ⊢
      exact ⟨hpair, fun e he => ⟨hheld e he, (hfresh e he).2⟩⟩

end

end OnDiskEmbeddingScanState

/-! ## 4. Programs -/

namespace HandleState

open OnDiskEmbeddingScanState (Before Held Wf)

variable {α : Type} {T : EmbeddingStorage α}

structure Owned (T : EmbeddingStorage α) (scan : OnDiskEmbeddingScanState α)
    (objects : Nat → Option (Option (EmbeddingHandle α))) : Prop where
  held : ∀ name h, objects name = some (some h) → Held T scan h
  distinct : ∀ name name' h h', objects name = some (some h) → objects name' = some (some h') →
    h.offsetInData = h'.offsetInData → name = name'

structure Inv (T : EmbeddingStorage α) (s : HandleState α) : Prop where
  wf : Wf T s.scan
  owned : Owned T s.scan s.objects

section

variable {scan : OnDiskEmbeddingScanState α} {objects : Nat → Option (Option (EmbeddingHandle α))}
  {handle : Option (EmbeddingHandle α)}

theorem Owned.update (h : Owned T scan objects) (name : Nat) (hheld : ∀ e ∈ handle, Held T scan e)
    (hnew : ∀ e ∈ handle, ∀ other h', objects other = some (some h') →
      h'.offsetInData ≠ e.offsetInData) :
    Owned T scan (Function.update objects name (some handle)) where
  held := by
    intro other h' hother
    by_cases heq : other = name
    · rw [heq, update_self] at hother
      exact hheld h' (some.inj hother)
    · rw [update_of_ne heq] at hother
      exact h.held other h' hother
  distinct := by
    intro a b x y ha hb hoff
    by_cases hane : a = name
    · by_cases hbne : b = name
      · rw [hane, hbne]
      · rw [hane, update_self] at ha
        rw [update_of_ne hbne] at hb
        exact absurd hoff.symm (hnew x (some.inj ha) b y hb)
    · rw [update_of_ne hane] at ha
      by_cases hbne : b = name
      · rw [hbne, update_self] at hb
        exact absurd hoff (hnew y (some.inj hb) a x ha)
      · rw [update_of_ne hbne] at hb
        exact h.distinct a b x y ha hb hoff

theorem Owned.drop (h : Owned T scan objects) (name : Nat)
    (value : Option (Option (EmbeddingHandle α))) (hvalue : ∀ e, value ≠ some (some e)) :
    Owned T scan (Function.update objects name value) where
  held := by
    intro other h' hother
    by_cases heq : other = name
    · rw [heq, update_self] at hother
      exact absurd hother (hvalue h')
    · rw [update_of_ne heq] at hother
      exact h.held other h' hother
  distinct := by
    intro a b x y ha hb hoff
    have hkeep : ∀ c z, Function.update objects name value c = some (some z) →
        objects c = some (some z) := by
      intro c z hc
      by_cases hcne : c = name
      · rw [hcne, update_self] at hc
        exact absurd hc (hvalue z)
      · rw [update_of_ne hcne] at hc
        exact hc
    exact h.distinct a b x y (hkeep a x ha) (hkeep b y hb) hoff

theorem Owned.move (h : Owned T scan objects) {o src : Nat} (hne : o ≠ src)
    (hsrc : objects src = some handle) : Owned T scan (HandleState.move objects o src handle) := by
  have hswap : HandleState.move objects o src handle =
      Function.update (Function.update objects src (some none)) o (some handle) := by
    exact update_comm hne _ _ _
  rw [hswap]
  have hdrop := h.drop src (some none) fun e he => by cases he
  apply hdrop.update
  · intro e he
    exact h.held src e (hsrc.trans (congrArg some he))
  · intro e he other h' hother hoff
    by_cases heq : other = src
    · rw [heq, update_self] at hother
      cases hother
    · rw [update_of_ne heq] at hother
      exact heq (h.distinct other src h' e hother (hsrc.trans (congrArg some he)) hoff)

theorem Owned.bind (h : Owned T scan objects) (names : List Nat)
    {handles : List (Option (EmbeddingHandle α))}
    (hheld : ∀ e, some e ∈ handles → Held T scan e)
    (hpair : handles.Pairwise (Before T))
    (hnew : ∀ e, some e ∈ handles → ∀ other h', objects other = some (some h') →
      h'.offsetInData ≠ e.offsetInData) :
    Owned T scan (HandleState.bind names handles objects) := by
  induction names generalizing handles objects with
  | nil =>
    cases handles with
    | nil | cons => exact h
  | cons name names ih =>
    cases handles with
    | nil => exact h
    | cons handle handles =>
      obtain ⟨hbefore, hpair⟩ := pairwise_cons.mp hpair
      apply ih
      · apply h.update
        · exact fun e he => hheld e (he ▸ mem_cons_self)
        · exact fun e he => hnew e (he ▸ mem_cons_self)
      · exact fun e he => hheld e (mem_cons_of_mem _ he)
      · exact hpair
      · intro e he other h' hother
        by_cases heq : other = name
        · rw [heq, update_self] at hother
          have hle := hbefore _ he h' (some.inj hother) e rfl
          have hpos := T.dim_pos
          omega
        · rw [update_of_ne heq] at hother
          exact hnew e (mem_cons_of_mem _ he) other h' hother

end

section

variable {s s' : HandleState α}

theorem Inv.init (T : EmbeddingStorage α) : Inv T (init α) where
  wf := ⟨SlotStack.wf_empty, Nat.le_of_eq (Nat.zero_mul _), Nat.dvd_zero _⟩
  owned :=
    { held := fun _ _ h => by cases h
      distinct := fun _ _ _ _ h => by cases h }

theorem Inv.step (h : Inv T s) {op : HandleOp} (hstep : s.step T op = some s') : Inv T s' := by
  cases op with
  | getEmbeddings names offsets =>
    obtain ⟨-, hstep⟩ := ite_none_right_eq_some.mp hstep
    obtain ⟨scan, result, hget, hwf, hothers, hresult⟩ := h.wf.getEmbeddings offsets
    have howned : Owned T scan s.objects :=
      ⟨fun name x hx => hothers x (h.owned.held name x hx), h.owned.distinct⟩
    rw [hget] at hstep
    cases result with
    | none =>
      cases hstep
      exact ⟨hwf, howned⟩
    | some handles =>
      cases hstep
      obtain ⟨hpair, hheld⟩ := hresult handles rfl
      refine ⟨hwf, ?_⟩
      apply howned.bind names (fun e he => (hheld e he).1) hpair
      -- the new places are behind everything that has been read
      intro e he other x hx
      have hwithin := (h.owned.held other x hx).within
      have hle := (hheld e he).2
      have hpos := T.dim_pos
      omega
  | moveConstruct o src =>
    unfold HandleState.step at hstep
    simp only at hstep
    split at hstep
    next handle ho hsrc =>
      cases hstep
      have hne : o ≠ src := by
        intro heq
        rw [heq, hsrc] at ho
        cases ho
      exact ⟨h.wf, h.owned.move hne hsrc⟩
    · cases hstep
  | moveAssign o src =>
    unfold HandleState.step at hstep
    simp only at hstep
    split at hstep
    next old handle ho hsrc =>
      split at hstep
      · cases hstep
        exact h
      next hne =>
        cases hstep
        exact ⟨h.wf, h.owned.move hne hsrc⟩
    · cases hstep
  | destroy o =>
    unfold HandleState.step at hstep
    simp only at hstep
    split at hstep
    next handle ho =>
      cases hstep
      have hdrop := h.owned.drop o none fun e he => by cases he
      cases handle with
      | none => exact ⟨h.wf, hdrop⟩
      | some e =>
        have hread := (h.owned.held o e ho).toReads
        refine ⟨h.wf.reclaim e, fun name x hx => ?_, hdrop.distinct⟩
        replace hx : Function.update s.objects o none name = some (some x) := hx
        have hne : name ≠ o := by
          intro heq
          rw [heq, update_self] at hx
          cases hx
        rw [update_of_ne hne] at hx
        apply (h.owned.held name x hx).reclaim h.wf hread
        exact fun heq => hne (h.owned.distinct name o x e hx ho heq)
    · cases hstep

theorem Inv.run (h : Inv T s) {ops : List HandleOp}
    (hrun : HandleState.run T ops s = some s') : Inv T s' := by
  induction ops generalizing s with
  | nil =>
    cases hrun
    exact h
  | cons op ops ih =>
    obtain ⟨s₁, hstep, hrest⟩ := bind_eq_some_iff.mp hrun
    exact ih (h.step hstep) hrest

variable {name o src : Nat} {objects : Nat → Option (Option (EmbeddingHandle α))}

theorem bind_of_notMem {names : List Nat} (hname : name ∉ names)
    (handles : List (Option (EmbeddingHandle α)))
    (objects : Nat → Option (Option (EmbeddingHandle α))) :
    HandleState.bind names handles objects name = objects name := by
  induction names generalizing handles objects with
  | nil =>
    cases handles with
    | nil | cons => rfl
  | cons first names ih =>
    rw [mem_cons, not_or] at hname
    cases handles with
    | nil => rfl
    | cons handle handles =>
      unfold HandleState.bind
      rw [ih hname.2, update_of_ne hname.1]

theorem move_src (hne : o ≠ src) (handle : Option (EmbeddingHandle α)) :
    HandleState.move objects o src handle o = some handle := by
  unfold HandleState.move
  rw [update_of_ne hne, update_self]

theorem move_of_ne (ho : name ≠ o) (hsrc : name ≠ src) (handle : Option (EmbeddingHandle α)) :
    HandleState.move objects o src handle name = objects name := by
  unfold HandleState.move
  rw [update_of_ne hsrc, update_of_ne ho]

theorem live_step {op : HandleOp} (hstep : s.step T op = some s') {handle : EmbeddingHandle α}
    (hlive : s.Live name handle) :
    op = .destroy name ∨ (∃ src, op = .moveAssign name src) ∨ ∃ name', s'.Live name' handle := by
  unfold Live at hlive
  cases op with
  | getEmbeddings names offsets =>
    obtain ⟨hnames, hstep⟩ := ite_none_right_eq_some.mp hstep
    split at hstep
    · cases hstep
      have hfresh : name ∉ names := by
        intro hin
        rw [hnames.2.2 name hin] at hlive
        cases hlive
      exact .inr (.inr ⟨name, (bind_of_notMem hfresh _ _).trans hlive⟩)
    · cases hstep
      exact .inr (.inr ⟨name, hlive⟩)
  | moveConstruct o src =>
    unfold HandleState.step at hstep
    simp only at hstep
    split at hstep
    next h ho hsrc =>
      cases hstep
      have hname : name ≠ o := by
        intro heq
        rw [← heq, hlive] at ho
        cases ho
      by_cases hmoved : name = src
      · rw [← hmoved, hlive] at hsrc
        cases hsrc
        exact .inr (.inr ⟨o, move_src (hmoved ▸ hname.symm) _⟩)
      · exact .inr (.inr ⟨name, (move_of_ne hname hmoved _).trans hlive⟩)
    · cases hstep
  | moveAssign o src =>
    by_cases hname : name = o
    · exact .inr (.inl ⟨src, by rw [hname]⟩)
    · unfold HandleState.step at hstep
      simp only at hstep
      split at hstep
      next old h ho hsrc =>
        split at hstep
        · cases hstep
          exact .inr (.inr ⟨name, hlive⟩)
        next hne =>
          cases hstep
          by_cases hmoved : name = src
          · rw [← hmoved, hlive] at hsrc
            cases hsrc
            exact .inr (.inr ⟨o, move_src hne _⟩)
          · exact .inr (.inr ⟨name, (move_of_ne hname hmoved _).trans hlive⟩)
      · cases hstep
  | destroy o =>
    by_cases hname : name = o
    · exact .inl (by rw [hname])
    · unfold HandleState.step at hstep
      simp only at hstep
      split at hstep
      · cases hstep
        exact .inr (.inr ⟨name, (update_of_ne hname _ _).trans hlive⟩)
      · cases hstep

/-- In every run the stack is increasing, and a handle that lives reads what was read for it, within the
data vector and where no other one does; it stays as it is until it is destroyed or assigned to. -/
theorem live_handles_sound (T : EmbeddingStorage α) (ops : List HandleOp) (s : HandleState α)
    (hrun : HandleState.run T ops (HandleState.init α) = some s) :
    s.scan.usedEmbeddingOffsets.Pairwise (· > ·) ∧
    ∀ name handle, s.Live name handle → (handle.offsetInData + T.embeddingDim ≤ s.scan.data.length ∧
        s.scan.getEmbeddingPtr T handle = handle.embedding) ∧
      (∀ name' handle', s.Live name' handle' → name' ≠ name →
        handle.offsetInData + T.embeddingDim ≤ handle'.offsetInData ∨
          handle'.offsetInData + T.embeddingDim ≤ handle.offsetInData) ∧
      ∀ op s', s.step T op = some s' →
        op = .destroy name ∨ (∃ src, op = .moveAssign name src) ∨ ∃ name', s'.Live name' handle := by
  have hinv := (Inv.init T).run hrun
  refine ⟨hinv.wf.slots.sorted, fun name handle hlive => ?_⟩
  have hread := (hinv.owned.held name handle hlive).toReads
  refine ⟨⟨hread.within, hread.data⟩, fun name' handle' hlive' hne => ?_, fun op s' hstep => ?_⟩
  · apply hread.disjoint (hinv.owned.held name' handle' hlive').toReads
    exact fun heq => hne (hinv.owned.distinct name' name handle' handle hlive' hlive heq.symm)
  · exact live_step hstep hlive

end

end HandleState

/-! ## 5. Rows in memory -/

section

def appendRows (row : Nat → Option (List Nat)) (data : List Nat) :
    List Nat → List Nat × List (Option Nat)
  | [] => (data, [])
  | offset :: offsets =>
    match row offset with
    | none =>
      let (data, entries) := appendRows row data offsets
      (data, none :: entries)
    | some embedding =>
      let (data', entries) := appendRows row (data ++ embedding) offsets
      (data', some data.length :: entries)

variable {row : Nat → Option (List Nat)} {dim : Nat} (hrow : ∀ o, ∀ e ∈ row o, e.length = dim)

include hrow

theorem appendRows_spec (data offsets : List Nat) :
    ∃ xs, (appendRows row data offsets).1 = data ++ xs ∧ dim ∣ xs.length ∧
      (∀ o, some o ∈ (appendRows row data offsets).2 →
        data.length ≤ o ∧ o + dim ≤ (data ++ xs).length ∧ (dim ∣ data.length → dim ∣ o)) ∧
      (appendRows row data offsets).2.Pairwise fun a b => ∀ x ∈ a, ∀ y ∈ b, x + dim ≤ y := by
  induction offsets generalizing data with
  | nil =>
    exact ⟨[], (append_nil data).symm, Nat.dvd_zero _, fun _ ho => absurd ho not_mem_nil,
      List.Pairwise.nil⟩
  | cons offset offsets ih =>
    unfold appendRows
    cases hoffset : row offset with
    | none =>
      obtain ⟨xs, hdata, hdvd, hentries, hpair⟩ := ih data
      refine ⟨xs, hdata, hdvd, fun o ho => ?_, ?_⟩
      · exact hentries o ((mem_cons.mp ho).resolve_left (some_ne_none o))
      · exact List.Pairwise.cons (fun _ _ x hx => by cases hx) hpair
    | some embedding =>
      have hlen := hrow offset embedding hoffset
      obtain ⟨xs, hdata, hdvd, hentries, hpair⟩ := ih (data ++ embedding)
      rw [append_assoc] at hdata hentries
      rw [length_append, hlen] at hentries
      refine ⟨embedding ++ xs, hdata, ?_, fun o ho => ?_, ?_⟩
      · rw [length_append, hlen]
        exact Nat.dvd_add (Nat.dvd_refl _) hdvd
      · rcases mem_cons.mp ho with heq | ho
        · rw [some.inj heq]
          rw [length_append, length_append, hlen]
          omega
        · obtain ⟨hle, hend, haligned⟩ := hentries o ho
          exact ⟨by omega, hend, fun h => haligned (Nat.dvd_add h (Nat.dvd_refl _))⟩
      · apply List.Pairwise.cons
        · intro b hb x hx y hy
          cases hx
          exact (hentries y (hy ▸ hb)).1
        · exact hpair

omit hrow

def EmbeddingStorage.ofRows (vectorCapacity : Nat) (hpos : 0 < dim)
    (hrow : ∀ o, ∀ e ∈ row o, e.length = dim) : EmbeddingStorage Nat where
  embeddingDim := dim
  vectorCapacity := vectorCapacity
  isVisible := fun _ => true
  lookupMultiple := appendRows row
  resizeDataVector := fun data n => data.take n ++ List.replicate (n - data.length) 0
  dim_pos := hpos
  lookup_appends := by
    intro data offsets
    obtain ⟨xs, hdata, -⟩ := appendRows_spec hrow data offsets
    exact ⟨xs, hdata⟩
  lookup_aligned := by
    intro data offsets hdvd
    obtain ⟨xs, hdata, hxs, -⟩ := appendRows_spec hrow data offsets
    rw [hdata, length_append]
    exact Nat.dvd_add hdvd hxs
  entry_place := by
    intro data offsets hdvd o ho
    obtain ⟨xs, hdata, -, hentries, -⟩ := appendRows_spec hrow data offsets
    obtain ⟨hle, hend, haligned⟩ := hentries o ho
    rw [hdata]
    exact ⟨haligned hdvd, hle, hend⟩
  entry_order := by
    intro data offsets
    obtain ⟨xs, -, -, -, hpair⟩ := appendRows_spec hrow data offsets
    exact hpair
  resize_take := by
    intro data n hn
    rw [Nat.sub_eq_zero_of_le hn, replicate_zero, append_nil]

def twoRows (o : Nat) : Option (List Nat) :=
  if o = 0 then some [10, 11] else if o = 2 then some [20, 21] else none

theorem length_twoRows (o : Nat) (e : List Nat) (he : e ∈ twoRows o) : e.length = 2 := by
  unfold twoRows at he
  split at he
  · cases he
    rfl
  · split at he
    · cases he
      rfl
    · cases he

def twoRowStorage : EmbeddingStorage Nat := EmbeddingStorage.ofRows 4 (by decide) length_twoRows

/-- A batch whose first handle is destroyed before the others, a handle that is read behind it, and one
that is moved. -/
def batchOps : List HandleOp :=
  [.getEmbeddings [5, 6, 7] [0, 1, 2], .destroy 5, .getEmbeddings [8] [0], .moveConstruct 9 7,
    .destroy 7]

def afterBatch : HandleState Nat :=
  (HandleState.run twoRowStorage batchOps (HandleState.init Nat)).getD (HandleState.init Nat)

theorem live_handles_sound_batch :
    HandleState.run twoRowStorage batchOps (HandleState.init Nat) = some afterBatch ∧
      afterBatch.scan.usedEmbeddingOffsets = [2, 1, 0] ∧ afterBatch.Live 9 ⟨2, [20, 21]⟩ ∧
      afterBatch.scan.getEmbeddingPtr twoRowStorage ⟨2, [20, 21]⟩ = [20, 21] :=
  ⟨rfl, rfl, rfl,
    ((HandleState.live_handles_sound twoRowStorage batchOps afterBatch rfl).2 9 ⟨2, [20, 21]⟩ rfl).1.2⟩

end

end Ladybug.Vector
