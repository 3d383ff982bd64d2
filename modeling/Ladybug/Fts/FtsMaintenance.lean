import Ladybug.Base.Bytes
import Ladybug.Fts.FtsIndex
import Mathlib.Data.Finset.Card

/-!
# The index is exact

After every sequence of operations the three tables are those of the live rows, and no operation
fails.  Rows without terms are as if they were not there, so the tables are compared with a function
that gives each offset a list of terms.
-/

namespace Ladybug.Fts

open List Function Except Option

/-! ## 1. Keyed tables -/

namespace KeyedTable

variable {K : Type} [DecidableEq K] {t : KeyedTable K} {k k' : K} {offset v : Nat}

/-- Every row has an offset of its own. -/
structure Keyed (t : KeyedTable K) : Prop where
  lt : ∀ k p, t.row k = some p → p.1 < t.numTotalRows
  inj : ∀ k k' p p', t.row k = some p → t.row k' = some p' → p.1 = p'.1 → k = k'

theorem row_insert (t : KeyedTable K) (k k' : K) (v : Nat) :
    (t.insert k v).row k' = if k' = k then some (t.numTotalRows, v) else t.row k' :=
  update_apply ..

theorem row_update (t : KeyedTable K) (k k' : K) (offset v : Nat) :
    (t.update k offset v).row k' = if k' = k then some (offset, v) else t.row k' :=
  update_apply ..

theorem row_delete (t : KeyedTable K) (k k' : K) :
    (t.delete k).row k' = if k' = k then none else t.row k' :=
  update_apply ..

theorem Keyed.insert (h : t.Keyed) (k : K) (v : Nat) : (t.insert k v).Keyed := by
  constructor
  · intro k' p hp
    rw [row_insert] at hp
    split at hp
    · cases hp
      exact Nat.lt_succ_self _
    · exact Nat.lt_succ_of_lt (h.lt k' p hp)
  · intro k₁ k₂ p₁ p₂ h₁ h₂ heq
    rw [row_insert] at h₁ h₂
    -- an old offset is below the new one
    split at h₁ <;> split at h₂
    next hk₁ hk₂ => exact hk₁.trans hk₂.symm
    next =>
      cases h₁
      exact absurd heq.symm (h.lt _ _ h₂).ne
    next =>
      cases h₂
      exact absurd heq (h.lt _ _ h₁).ne
    next => exact h.inj _ _ _ _ h₁ h₂ heq

theorem Keyed.update (h : t.Keyed) (hrow : t.row k = some (offset, v)) (v' : Nat) :
    (t.update k offset v').Keyed := by
  -- a row and its update have the same offset
  have hold : ∀ k' p, (t.update k offset v').row k' = some p → ∃ p', t.row k' = some p' ∧ p'.1 = p.1 := by
    intro k' p hp
    rw [row_update] at hp
    split at hp
    next hk =>
      cases hp
      exact ⟨(offset, v), hk ▸ hrow, rfl⟩
    next => exact ⟨p, hp, rfl⟩
  constructor
  · intro k' p hp
    obtain ⟨p', hp', heq⟩ := hold k' p hp
    exact heq ▸ h.lt k' p' hp'
  · intro k₁ k₂ p₁ p₂ h₁ h₂ heq
    obtain ⟨q₁, hq₁, heq₁⟩ := hold k₁ p₁ h₁
    obtain ⟨q₂, hq₂, heq₂⟩ := hold k₂ p₂ h₂
    exact h.inj k₁ k₂ q₁ q₂ hq₁ hq₂ (heq₁.trans (heq.trans heq₂.symm))

theorem Keyed.delete (h : t.Keyed) (k : K) : (t.delete k).Keyed := by
  have hold : ∀ k' p, (t.delete k).row k' = some p → t.row k' = some p := by
    intro k' p hp
    rw [row_delete] at hp
    split at hp
    · cases hp
    · exact hp
  constructor
  · exact fun k' p hp => h.lt k' p (hold k' p hp)
  · exact fun k₁ k₂ p₁ p₂ h₁ h₂ => h.inj k₁ k₂ p₁ p₂ (hold k₁ p₁ h₁) (hold k₂ p₂ h₂)

end KeyedTable

/-! ## 2. The terms of a document -/

section

variable {T : Type} [DecidableEq T] {terms : KeyedTable T} {t : T}

/-- The document frequency, zero for a term that is not there. -/
def df (terms : KeyedTable T) (t : T) : Nat :=
  match terms.row t with
  | some (_, df) => df
  | none => 0

def termOffset (terms : KeyedTable T) (t : T) : Nat :=
  match terms.row t with
  | some (offset, _) => offset
  | none => 0

theorem insertTerm_row (terms : KeyedTable T) (t t' : T) : (insertTerm terms t).2.row t' =
      if t' = t then some ((insertTerm terms t).1, df terms t + 1) else terms.row t' := by
  unfold insertTerm df
  cases hrow : terms.row t with
  | none => exact KeyedTable.row_insert terms t t' 1
  | some p => exact KeyedTable.row_update terms t t' p.1 (p.2 + 1)

theorem insertTerm_offset {p : Nat × Nat} (hrow : terms.row t = some p) :
    (insertTerm terms t).1 = p.1 := by
  unfold insertTerm
  rw [hrow]

theorem insertTerm_keyed (h : terms.Keyed) (t : T) : (insertTerm terms t).2.Keyed := by
  unfold insertTerm
  split
  next hrow => exact h.update hrow _
  next => exact h.insert t 1

structure TermsInserted (terms terms' : KeyedTable T) (ts : List T) : Prop where
  keyed : terms'.Keyed
  others : ∀ t, t ∉ ts → terms'.row t = terms.row t
  counted : ∀ t ∈ ts, terms'.row t = some (termOffset terms' t, df terms t + 1)
  offset : ∀ t p, terms.row t = some p → termOffset terms' t = p.1

theorem insertToTermsTable_spec (tf : T → Nat) (h : terms.Keyed) {ts : List T} (hts : ts.Nodup) :
    TermsInserted terms (insertToTermsTable tf terms ts).1 ts ∧ (insertToTermsTable tf terms ts).2 =
        ts.map fun t => (termOffset (insertToTermsTable tf terms ts).1 t, tf t) := by
  -- the terms are inserted one after the other, so the last one is split off
  induction ts using reverseRecOn with
  | nil =>
    refine ⟨⟨h, fun _ _ => rfl, fun t ht => absurd ht not_mem_nil, ?_⟩, rfl⟩
    intro t p hrow
    show termOffset terms t = p.1
    unfold termOffset
    rw [hrow]
  | append_singleton ts t ih =>
    rw [nodup_append] at hts
    have hnew : t ∉ ts := fun ht => hts.2.2 t ht t (mem_singleton.mpr rfl) rfl
    obtain ⟨hins, hinfos⟩ := ih hts.1
    have hstep : insertToTermsTable tf terms (ts ++ [t]) =
        ((insertTerm (insertToTermsTable tf terms ts).1 t).2, (insertToTermsTable tf terms ts).2 ++
            [((insertTerm (insertToTermsTable tf terms ts).1 t).1, tf t)]) := by
      unfold insertToTermsTable
      rw [foldl_append]
      rfl
    rw [hstep]
    generalize insertToTermsTable tf terms ts = r at hins hinfos ⊢
    have hrow : ∀ t', (insertTerm r.1 t).2.row t' =
        if t' = t then some ((insertTerm r.1 t).1, df terms t + 1) else r.1.row t' := by
      intro t'
      have hdf : df r.1 t = df terms t := by
        unfold df
        rw [hins.others t hnew]
      rw [insertTerm_row, hdf]
    have hoffset : ∀ t', t' ≠ t → termOffset (insertTerm r.1 t).2 t' = termOffset r.1 t' := by
      intro t' hne
      unfold termOffset
      rw [hrow, if_neg hne]
    have hlast : termOffset (insertTerm r.1 t).2 t = (insertTerm r.1 t).1 := by
      unfold termOffset
      rw [hrow, if_pos rfl]
    refine ⟨⟨insertTerm_keyed hins.keyed t, ?_, ?_, ?_⟩, ?_⟩
    · intro t' ht'
      rw [mem_append, not_or, mem_singleton] at ht'
      rw [hrow, if_neg ht'.2]
      exact hins.others t' ht'.1
    · intro t' ht'
      by_cases heq : t' = t
      · rw [heq, hrow, if_pos rfl, hlast]
      · have hin : t' ∈ ts := by simpa [heq] using ht'
        rw [hrow, if_neg heq, hoffset t' heq]
        exact hins.counted t' hin
    · intro t' p hp
      by_cases heq : t' = t
      · rw [heq] at hp
        rw [heq, hlast]
        exact insertTerm_offset ((hins.others t hnew).trans hp)
      · rw [hoffset t' heq]
        exact hins.offset t' p hp
    · show r.2 ++ [((insertTerm r.1 t).1, tf t)] = _
      rw [map_append, hinfos, map_singleton, hlast]
      congr 1
      apply map_congr_left
      intro t' ht'
      rw [hoffset t' (fun heq => hnew (heq ▸ ht'))]

structure TermsDeleted (terms terms' : KeyedTable T) (ts : List T) : Prop where
  keyed : terms'.Keyed
  others : ∀ t, t ∉ ts → terms'.row t = terms.row t
  counted : ∀ t ∈ ts, ∀ offset df, terms.row t = some (offset, df) →
    terms'.row t = if df = 1 then none else some (offset, df - 1)

theorem deleteTerm_ok (h : terms.Keyed) {offset df : Nat} (hrow : terms.row t = some (offset, df)) :
    ∃ terms', deleteTerm terms t = .ok terms' ∧ terms'.Keyed ∧ ∀ t', terms'.row t' =
      if t' = t then (if df = 1 then none else some (offset, df - 1)) else terms.row t' := by
  unfold deleteTerm
  rw [hrow]
  by_cases hone : df = 1
  · refine ⟨terms.delete t, if_pos hone, h.delete t, ?_⟩
    intro t'
    rw [KeyedTable.row_delete, if_pos hone]
  · refine ⟨terms.update t offset (df - 1), if_neg hone, h.update hrow _, ?_⟩
    intro t'
    rw [KeyedTable.row_update, if_neg hone]

theorem deleteFromTermsTable_ok (h : terms.Keyed) {ts : List T} (hts : ts.Nodup)
    (hthere : ∀ t ∈ ts, (terms.row t).isSome) :
    ∃ terms', deleteFromTermsTable terms ts = .ok terms' ∧ TermsDeleted terms terms' ts := by
  induction ts generalizing terms with
  | nil => exact ⟨terms, rfl, h, fun _ _ => rfl, fun t ht => absurd ht not_mem_nil⟩
  | cons t ts ih =>
    rw [nodup_cons] at hts
    obtain ⟨⟨offset, df⟩, hrow⟩ := isSome_iff_exists.mp (hthere t mem_cons_self)
    obtain ⟨terms₁, hdel, hkeyed, hrows⟩ := deleteTerm_ok h hrow
    have hsame : ∀ t', t' ≠ t → terms₁.row t' = terms.row t' := by
      intro t' hne
      rw [hrows, if_neg hne]
    obtain ⟨terms', hrun, hspec⟩ := ih hkeyed hts.2 (fun t' ht' => by
      rw [hsame t' (fun heq => hts.1 (heq ▸ ht'))]
      exact hthere t' (mem_cons_of_mem t ht'))
    refine ⟨terms', ?_, hspec.keyed, ?_, ?_⟩
    · show (deleteTerm terms t >>= fun terms => foldlM deleteTerm terms ts) = _
      rw [hdel]
      exact hrun
    · intro t' ht'
      rw [mem_cons, not_or] at ht'
      rw [hspec.others t' ht'.2, hsame t' ht'.1]
    · intro t' ht' offset' df' hrow'
      rcases mem_cons.mp ht' with heq | hin
      · rw [heq] at hrow'
        rw [hrow] at hrow'
        cases hrow'
        rw [heq, hspec.others t hts.1, hrows, if_pos rfl]
      · apply hspec.counted t' hin
        rw [hsame t' (fun heq => hts.1 (heq ▸ hin))]
        exact hrow'

end

/-! ## 3. One document -/

section

variable {T : Type} [DecidableEq T] {content : Nat → List T} {n offset : Nat} {x : FtsIndex T}

/-- The documents that contain a term. -/
def holders (content : Nat → List T) (n : Nat) (t : T) : Finset Nat :=
  (Finset.range n).filter fun o => t ∈ content o

/-- The tables are those of the documents: `content` has the terms of every offset below `n`. -/
structure Exact (content : Nat → List T) (n : Nat) (x : FtsIndex T) : Prop where
  bounded : ∀ o, n ≤ o → content o = []
  docs_keyed : x.docs.Keyed
  docs : ∀ o, (x.docs.row o).map Prod.snd = if content o = [] then none else some (content o).length
  terms_keyed : x.terms.Keyed
  terms : ∀ t, (x.terms.row t).map Prod.snd =
    if holders content n t = ∅ then none else some (holders content n t).card
  mem_appearsIn : ∀ e, e ∈ x.appearsIn ↔ ∃ t o p q, x.terms.row t = some p ∧
    x.docs.row o = some q ∧ t ∈ content o ∧ e = ⟨p.1, q.1, (content o).count t⟩
  once : (x.appearsIn.map fun e => (e.term, e.doc)).Nodup

variable {t : T} {o : Nat}

section

variable (h : Exact content n x)

include h

theorem Exact.doc_of_mem (ht : t ∈ content o) :
    ∃ docID, x.docs.row o = some (docID, (content o).length) := by
  have hdoc := h.docs o
  rw [if_neg (ne_nil_of_mem ht), map_eq_some_iff] at hdoc
  obtain ⟨⟨docID, len⟩, hrow, hlen⟩ := hdoc
  exact ⟨docID, hlen ▸ hrow⟩

theorem Exact.no_doc (ho : content o = []) : x.docs.row o = none := by
  have hdoc := h.docs o
  rw [if_pos ho, map_eq_none_iff] at hdoc
  exact hdoc

theorem Exact.mem_holders : o ∈ holders content n t ↔ t ∈ content o := by
  unfold holders
  rw [Finset.mem_filter, Finset.mem_range]
  refine and_iff_right_of_imp fun ht => ?_
  by_contra hge
  rw [h.bounded o (not_lt.mp hge)] at ht
  exact absurd ht not_mem_nil

theorem Exact.term_of_mem (ht : t ∈ content o) :
    ∃ termID, x.terms.row t = some (termID, (holders content n t).card) := by
  have hterm := h.terms t
  rw [if_neg (Finset.ne_empty_of_mem (h.mem_holders.mpr ht)), map_eq_some_iff] at hterm
  obtain ⟨⟨termID, df⟩, hrow, hdf⟩ := hterm
  exact ⟨termID, hdf ▸ hrow⟩

theorem Exact.df_eq (t : T) : df x.terms t = (holders content n t).card := by
  have hterm := h.terms t
  unfold df
  split at hterm
  next hempty =>
    rw [map_eq_none_iff] at hterm
    rw [hterm, hempty]
    rfl
  next =>
    obtain ⟨⟨termID, df⟩, hrow, hdf⟩ := map_eq_some_iff.mp hterm
    rw [hrow]
    exact hdf

end

theorem holders_update (hlt : offset < n) (ts : List T) (t : T) :
    holders (Function.update content offset ts) n t =
      if t ∈ ts then insert offset (holders content n t) else (holders content n t).erase offset := by
  unfold holders
  ext o
  by_cases ho : o = offset
  · subst ho
    by_cases ht : t ∈ ts <;> simp [ht, hlt]
  · by_cases ht : t ∈ ts <;> simp [ht, ho]

omit [DecidableEq T] in
theorem termOffset_eq {terms : KeyedTable T} {p : Nat × Nat} (hrow : terms.row t = some p) :
    termOffset terms t = p.1 := by
  unfold termOffset
  rw [hrow]

theorem Exact.appears_doc (h : Exact content n x) {e : Appears} (he : e ∈ x.appearsIn) :
    e.doc < x.docs.numTotalRows := by
  obtain ⟨t, o, p, q, -, hq, -, rfl⟩ := (h.mem_appearsIn e).mp he
  exact h.docs_keyed.lt o q hq

section

variable {terms' : KeyedTable T} {ts us : List T}

/-- The index after the document of a row that had none has been inserted. -/
def inserted (x : FtsIndex T) (terms' : KeyedTable T) (offset : Nat) (ts us : List T) : FtsIndex T where
  docs := x.docs.insert offset ts.length
  terms := terms'
  appearsIn := x.appearsIn ++ us.map fun t => ⟨termOffset terms' t, x.docs.numTotalRows, ts.count t⟩
  numIndexedNodes := x.numIndexedNodes

section

variable (h : Exact content n x)

include h

theorem inserted_terms (hlt : offset < n) (hfree : content offset = [])
    (hins : TermsInserted x.terms terms' us) (hus : ∀ t, t ∈ us ↔ t ∈ ts) (t : T) :
    (terms'.row t).map Prod.snd = if holders (Function.update content offset ts) n t = ∅ then none
      else some (holders (Function.update content offset ts) n t).card := by
  have hnew : offset ∉ holders content n t := by
    rw [h.mem_holders, hfree]
    exact not_mem_nil
  rw [holders_update hlt]
  by_cases ht : t ∈ ts
  · rw [if_pos ht, if_neg (Finset.insert_ne_empty _ _), Finset.card_insert_of_notMem hnew,
      hins.counted t ((hus t).mpr ht), h.df_eq]
    rfl
  · rw [if_neg ht, Finset.erase_eq_of_notMem hnew, hins.others t (fun hin => ht ((hus t).mp hin))]
    exact h.terms t

theorem inserted_mem_appearsIn (hfree : content offset = [])
    (hins : TermsInserted x.terms terms' us) (hus : ∀ t, t ∈ us ↔ t ∈ ts) (e : Appears) :
    e ∈ (inserted x terms' offset ts us).appearsIn ↔ ∃ t o p q, terms'.row t = some p ∧
      (x.docs.insert offset ts.length).row o = some q ∧ t ∈ Function.update content offset ts o ∧
      e = ⟨p.1, q.1, (Function.update content offset ts o).count t⟩ := by
  -- the other documents keep their rows
  have hdocs : ∀ o, o ≠ offset → (x.docs.insert offset ts.length).row o = x.docs.row o := by
    intro o ho
    rw [KeyedTable.row_insert, if_neg ho]
  have hdoc : (x.docs.insert offset ts.length).row offset = some (x.docs.numTotalRows, ts.length) := by
    rw [KeyedTable.row_insert, if_pos rfl]
  show e ∈ x.appearsIn ++ _ ↔ _
  rw [mem_append, h.mem_appearsIn]
  constructor
  · rintro (⟨t, o, p, q, hp, hq, ht, rfl⟩ | hnew)
    · have ho : o ≠ offset := by
        rintro rfl
        rw [hfree] at ht
        exact absurd ht not_mem_nil
      -- a term keeps its offset
      have hoffset := hins.offset t p hp
      obtain ⟨p', hp'⟩ : ∃ p', terms'.row t = some p' := by
        by_cases hin : t ∈ us
        · exact ⟨_, hins.counted t hin⟩
        · exact ⟨p, (hins.others t hin).trans hp⟩
      refine ⟨t, o, p', q, hp', (hdocs o ho).trans hq, ?_, ?_⟩
      · rw [update_of_ne ho]
        exact ht
      · rw [update_of_ne ho, ← termOffset_eq hp', hoffset]
    · obtain ⟨t, ht, rfl⟩ := mem_map.mp hnew
      refine ⟨t, offset, _, _, hins.counted t ht, hdoc, ?_, ?_⟩
      · rw [update_self]
        exact (hus t).mp ht
      · rw [update_self]
  · rintro ⟨t, o, p, q, hp, hq, ht, rfl⟩
    by_cases ho : o = offset
    · right
      rw [ho, hdoc] at hq
      rw [ho, update_self] at ht
      cases hq
      refine mem_map.mpr ⟨t, (hus t).mpr ht, ?_⟩
      rw [ho, update_self, termOffset_eq hp]
    · left
      rw [update_of_ne ho] at ht
      obtain ⟨termID, hterm⟩ := h.term_of_mem ht
      refine ⟨t, o, _, q, hterm, (hdocs o ho).symm.trans hq, ht, ?_⟩
      rw [update_of_ne ho, ← termOffset_eq hp, hins.offset t _ hterm]

theorem inserted_once (hins : TermsInserted x.terms terms' us) (hnodup : us.Nodup) :
    ((inserted x terms' offset ts us).appearsIn.map fun e => (e.term, e.doc)).Nodup := by
  show (List.map _ (x.appearsIn ++ _)).Nodup
  rw [map_append, nodup_append, List.map_map]
  refine ⟨h.once, ?_, ?_⟩
  · apply hnodup.map_on
    intro t ht t' ht' heq
    exact hins.keyed.inj t t' _ _ (hins.counted t ht) (hins.counted t' ht') (Prod.mk.inj heq).1
  · -- the old edges lead to documents with smaller offsets
    intro a ha b hb heq
    obtain ⟨e, he, rfl⟩ := mem_map.mp ha
    obtain ⟨t, -, rfl⟩ := mem_map.mp hb
    exact absurd (Prod.mk.inj heq).2 (h.appears_doc he).ne

theorem Exact.inserted (hlt : offset < n) (hfree : content offset = []) (hts : ts ≠ [])
    (hins : TermsInserted x.terms terms' us) (hus : ∀ t, t ∈ us ↔ t ∈ ts) (hnodup : us.Nodup) :
    Exact (Function.update content offset ts) n (inserted x terms' offset ts us) where
  bounded := by
    intro o ho
    rw [update_of_ne (by omega)]
    exact h.bounded o ho
  docs_keyed := h.docs_keyed.insert offset ts.length
  docs := by
    intro o
    show ((x.docs.insert offset ts.length).row o).map Prod.snd = _
    rw [KeyedTable.row_insert]
    by_cases ho : o = offset
    · rw [if_pos ho, ho, update_self, if_neg hts]
      rfl
    · rw [if_neg ho, update_of_ne ho]
      exact h.docs o
  terms_keyed := hins.keyed
  terms := inserted_terms h hlt hfree hins hus
  mem_appearsIn := inserted_mem_appearsIn h hfree hins hus
  once := inserted_once h hins hnodup

end

end

theorem insertDoc_exact (ord : TermOrder T) (h : Exact content n x) (hlt : offset < n)
    (hfree : content offset = []) (ts : List T) :
    ∃ x', insertDoc ord x offset ts = .ok x' ∧ x'.numIndexedNodes = x.numIndexedNodes ∧
      Exact (Function.update content offset ts) n x' := by
  unfold insertDoc
  by_cases hts : ts = []
  · refine ⟨x, if_pos hts, rfl, ?_⟩
    rw [hts, ← hfree, update_eq_self]
    exact h
  · have hnodup : (ord.order ts).Nodup := (ord.perm ts).nodup_iff.mpr (nodup_dedup ts)
    have hus : ∀ t, t ∈ ord.order ts ↔ t ∈ ts := fun t => by
      rw [(ord.perm ts).mem_iff, mem_dedup]
    obtain ⟨hins, hinfos⟩ := insertToTermsTable_spec (fun t => ts.count t) h.terms_keyed hnodup
    refine ⟨_, ?_, ?_, h.inserted hlt hfree hts hins hus hnodup⟩
    · rw [if_neg hts]
      unfold insertToDocTable
      rw [h.no_doc hfree]
      show ok (FtsIndex.mk (x.docs.insert offset ts.length)
        (insertToTermsTable (fun t => ts.count t) x.terms (ord.order ts)).1
        (insertToAppearsInTable x.appearsIn
          (insertToTermsTable (fun t => ts.count t) x.terms (ord.order ts)).2 x.docs.numTotalRows)
        x.numIndexedNodes) = _
      unfold insertToAppearsInTable
      rw [hinfos, List.map_map]
      rfl
    · rfl

section

variable {terms' : KeyedTable T} {ts us : List T} {docID len : Nat}

def deleted (x : FtsIndex T) (terms' : KeyedTable T) (offset docID : Nat) : FtsIndex T where
  docs := x.docs.delete offset
  terms := terms'
  appearsIn := deleteFromAppearsInTable x.appearsIn docID
  numIndexedNodes := x.numIndexedNodes

section

variable (h : Exact content n x)

include h

theorem deleted_terms (hlt : offset < n) (hdel : TermsDeleted x.terms terms' us)
    (hus : ∀ t, t ∈ us ↔ t ∈ content offset) (t : T) :
    (terms'.row t).map Prod.snd = if holders (Function.update content offset []) n t = ∅ then none
      else some (holders (Function.update content offset []) n t).card := by
  rw [holders_update hlt, if_neg not_mem_nil]
  by_cases ht : t ∈ content offset
  · have hin := h.mem_holders.mpr ht
    obtain ⟨termID, hrow⟩ := h.term_of_mem ht
    have hcard := Finset.card_erase_of_mem hin
    have hpos := Finset.card_pos.mpr ⟨offset, hin⟩
    rw [hdel.counted t ((hus t).mpr ht) _ _ hrow]
    by_cases hone : (holders content n t).card = 1
    · rw [if_pos hone, if_pos (Finset.card_eq_zero.mp (by omega))]
      rfl
    · have hleft : (holders content n t).erase offset ≠ ∅ := by
        rw [← Finset.card_pos.trans Finset.nonempty_iff_ne_empty]
        omega
      rw [if_neg hone, if_neg hleft, hcard]
      rfl
  · rw [Finset.erase_eq_of_notMem (fun hin => ht (h.mem_holders.mp hin)),
      hdel.others t (fun hin => ht ((hus t).mp hin))]
    exact h.terms t

theorem deleted_row (hdel : TermsDeleted x.terms terms' us) (hus : ∀ t, t ∈ us ↔ t ∈ content offset)
    {t : T} {o : Nat} (ho : o ≠ offset) (ht : t ∈ content o) :
    ∃ p p', x.terms.row t = some p ∧ terms'.row t = some p' ∧ p'.1 = p.1 := by
  obtain ⟨termID, hrow⟩ := h.term_of_mem ht
  by_cases hin : t ∈ us
  · have hcounted := hdel.counted t hin _ _ hrow
    -- both documents hold the term
    have htwo : 1 < (holders content n t).card := by
      apply Finset.one_lt_card.mpr
      exact ⟨o, h.mem_holders.mpr ht, offset, h.mem_holders.mpr ((hus t).mp hin), ho⟩
    rw [if_neg (by omega)] at hcounted
    exact ⟨_, _, hrow, hcounted, rfl⟩
  · exact ⟨_, _, hrow, (hdel.others t hin).trans hrow, rfl⟩

theorem deleted_mem_appearsIn (hdel : TermsDeleted x.terms terms' us)
    (hus : ∀ t, t ∈ us ↔ t ∈ content offset) (hdoc : x.docs.row offset = some (docID, len))
    (e : Appears) :
    e ∈ deleteFromAppearsInTable x.appearsIn docID ↔ ∃ t o p q, terms'.row t = some p ∧
      (x.docs.delete offset).row o = some q ∧ t ∈ Function.update content offset [] o ∧
      e = ⟨p.1, q.1, (Function.update content offset [] o).count t⟩ := by
  unfold deleteFromAppearsInTable
  rw [mem_filter, h.mem_appearsIn]
  constructor
  · rintro ⟨⟨t, o, p, q, hp, hq, ht, rfl⟩, hother⟩
    have ho : o ≠ offset := by
      rintro rfl
      rw [hdoc] at hq
      cases hq
      simp at hother
    obtain ⟨p₀, p', hp₀, hp', heq⟩ := deleted_row h hdel hus ho ht
    rw [hp] at hp₀
    cases hp₀
    refine ⟨t, o, p', q, hp', ?_, ?_, ?_⟩
    · rw [KeyedTable.row_delete, if_neg ho]
      exact hq
    · rw [update_of_ne ho]
      exact ht
    · rw [update_of_ne ho, heq]
  · rintro ⟨t, o, p, q, hp, hq, ht, rfl⟩
    have ho : o ≠ offset := by
      rintro rfl
      rw [update_self] at ht
      exact absurd ht not_mem_nil
    rw [update_of_ne ho] at ht
    rw [KeyedTable.row_delete, if_neg ho] at hq
    obtain ⟨p₀, p', hp₀, hp', heq⟩ := deleted_row h hdel hus ho ht
    rw [hp] at hp'
    cases hp'
    refine ⟨⟨t, o, p₀, q, hp₀, hq, ht, ?_⟩, ?_⟩
    · rw [update_of_ne ho, heq]
    · simp only [ne_eq, decide_eq_true_eq]
      exact fun heq => ho (h.docs_keyed.inj _ _ _ _ hq hdoc heq)

theorem Exact.deleted (hlt : offset < n) (hdel : TermsDeleted x.terms terms' us)
    (hus : ∀ t, t ∈ us ↔ t ∈ content offset) (hdoc : x.docs.row offset = some (docID, len)) :
    Exact (Function.update content offset []) n (deleted x terms' offset docID) where
  bounded := by
    intro o ho
    rw [update_of_ne (by omega)]
    exact h.bounded o ho
  docs_keyed := h.docs_keyed.delete offset
  docs := by
    intro o
    show ((x.docs.delete offset).row o).map Prod.snd = _
    rw [KeyedTable.row_delete]
    by_cases ho : o = offset
    · rw [if_pos ho, ho, update_self]
      rfl
    · rw [if_neg ho, update_of_ne ho]
      exact h.docs o
  terms_keyed := hdel.keyed
  terms := deleted_terms h hlt hdel hus
  mem_appearsIn := deleted_mem_appearsIn h hdel hus hdoc
  once := h.once.sublist (filter_sublist.map _)

end

end

theorem deleteDoc_exact (ord : TermOrder T) (h : Exact content n x) :
    ∃ x', deleteDoc ord x offset (content offset) = .ok x' ∧
      x'.numIndexedNodes = x.numIndexedNodes ∧ Exact (Function.update content offset []) n x' := by
  unfold deleteDoc
  by_cases hts : content offset = []
  · refine ⟨x, if_pos hts, rfl, ?_⟩
    rw [← hts, update_eq_self]
    exact h
  · have hnodup : (ord.order (content offset)).Nodup :=
      (ord.perm _).nodup_iff.mpr (nodup_dedup _)
    have hus : ∀ t, t ∈ ord.order (content offset) ↔ t ∈ content offset := fun t => by
      rw [(ord.perm _).mem_iff, mem_dedup]
    have hlt : offset < n := by
      by_contra hge
      exact hts (h.bounded offset (not_lt.mp hge))
    obtain ⟨t₀, ht₀⟩ := exists_mem_of_ne_nil _ hts
    obtain ⟨docID, hdoc⟩ := h.doc_of_mem ht₀
    obtain ⟨terms', hrun, hdel⟩ := deleteFromTermsTable_ok h.terms_keyed hnodup (fun t ht => by
      obtain ⟨termID, hrow⟩ := h.term_of_mem ((hus t).mp ht)
      rw [hrow]
      rfl)
    refine ⟨_, ?_, ?_, h.deleted hlt hdel hus hdoc⟩
    · rw [if_neg hts]
      unfold deleteFromDocTable
      rw [hdoc]
      show (deleteFromTermsTable x.terms (ord.order (content offset)) >>= fun terms =>
        ok (FtsIndex.mk (x.docs.delete offset) terms
          (deleteFromAppearsInTable x.appearsIn docID) x.numIndexedNodes)) = _
      rw [hrun]
      rfl
    · rfl

theorem Exact.mono (h : Exact content n x) {m : Nat} (hle : n ≤ m) : Exact content m x := by
  have hholders : ∀ t, holders content m t = holders content n t := by
    intro t
    ext o
    rw [h.mem_holders]
    unfold holders
    rw [Finset.mem_filter, Finset.mem_range]
    refine and_iff_right_of_imp fun ht => ?_
    by_contra hge
    rw [h.bounded o (by omega)] at ht
    exact absurd ht not_mem_nil
  exact { h with
    bounded := fun o ho => h.bounded o (by omega)
    terms := fun t => by rw [hholders]; exact h.terms t }

end

/-! ## 4. Vectors of rows -/

section

variable {C T : Type} [DecidableEq T] {getTerms : List C → List T} {n : Nat} {x : FtsIndex T}
  {c : Nat → List T}

def content (getTerms : List C → List T) (table : Nat → Option (List C)) : Nat → List T := fun o =>
  match table o with
  | none => []
  | some row => getTerms row

/-- The terms after some rows have been inserted. -/
def withRows (getTerms : List C → List T) (c : Nat → List T) (rows : List (Nat × List C)) :
    Nat → List T :=
  rows.foldl (fun c r => Function.update c r.1 (getTerms r.2)) c

variable {rows : List (Nat × List C)} {o mark : Nat}

omit [DecidableEq T] in
theorem withRows_of_notMem (ho : o ∉ rows.map Prod.fst) : withRows getTerms c rows o = c o := by
  induction rows generalizing c with
  | nil => rfl
  | cons r rows ih =>
    rw [map_cons, mem_cons, not_or] at ho
    show withRows getTerms (Function.update c r.1 (getTerms r.2)) rows o = c o
    rw [ih ho.2, update_of_ne ho.1]

omit [DecidableEq T] in
theorem withRows_of_mem (hnodup : (rows.map Prod.fst).Nodup) {row : List C} (hr : (o, row) ∈ rows) :
    withRows getTerms c rows o = getTerms row := by
  induction rows generalizing c with
  | nil => exact absurd hr not_mem_nil
  | cons r rows ih =>
    rw [map_cons, nodup_cons] at hnodup
    show withRows getTerms (Function.update c r.1 (getTerms r.2)) rows o = _
    rcases mem_cons.mp hr with heq | hin
    · rw [← heq] at hnodup ⊢
      rw [withRows_of_notMem hnodup.1, update_self]
    · exact ih hnodup.2 hin

theorem insertRows_exact (ord : TermOrder T) (h : Exact c n x) (hlt : ∀ r ∈ rows, r.1 < n)
    (hnodup : (rows.map Prod.fst).Nodup) (hfree : ∀ r ∈ rows, c r.1 = []) :
    ∃ x', rows.foldlM (fun x r => insertDoc ord x r.1 (getTerms r.2)) x = .ok x' ∧
      x'.numIndexedNodes = x.numIndexedNodes ∧ Exact (withRows getTerms c rows) n x' := by
  induction rows generalizing c x with
  | nil => exact ⟨x, rfl, rfl, h⟩
  | cons r rows ih =>
    rw [map_cons, nodup_cons] at hnodup
    obtain ⟨x₁, hrun₁, hmark₁, h₁⟩ := insertDoc_exact ord h (hlt r mem_cons_self)
      (hfree r mem_cons_self) (getTerms r.2)
    obtain ⟨x', hrun, hmark, h'⟩ := ih h₁ (fun r' hr' => hlt r' (mem_cons_of_mem r hr'))
      hnodup.2 (fun r' hr' => by
        have hne : r'.1 ≠ r.1 := fun heq => hnodup.1 (heq ▸ mem_map_of_mem hr')
        rw [update_of_ne hne]
        exact hfree r' (mem_cons_of_mem r hr'))
    refine ⟨x', ?_, hmark.trans hmark₁, h'⟩
    rw [foldlM_cons, hrun₁]
    exact hrun

/-- The mark after some rows have been inserted. -/
def markRows (mark : Nat) (rows : List (Nat × List C)) : Nat :=
  rows.foldl (fun mark r => max mark (r.1 + 1)) mark

theorem le_markRows (mark : Nat) (rows : List (Nat × List C)) : mark ≤ markRows mark rows := by
  induction rows generalizing mark with
  | nil => exact Nat.le_refl mark
  | cons r rows ih => exact (Nat.le_max_left _ _).trans (ih (max mark (r.1 + 1)))

theorem lt_markRows (mark : Nat) {r : Nat × List C} (hr : r ∈ rows) : r.1 < markRows mark rows := by
  induction rows generalizing mark with
  | nil => exact absurd hr not_mem_nil
  | cons r' rows ih =>
    rcases mem_cons.mp hr with heq | hin
    · have hle := le_markRows (max mark (r'.1 + 1)) rows
      show r.1 < markRows (max mark (r'.1 + 1)) rows
      rw [heq]
      omega
    · exact ih (max mark (r'.1 + 1)) hin

theorem markRows_le {bound : Nat} (hmark : mark ≤ bound) (hrows : ∀ r ∈ rows, r.1 < bound) :
    markRows mark rows ≤ bound := by
  induction rows generalizing mark with
  | nil => exact hmark
  | cons r rows ih =>
    have hr := hrows r mem_cons_self
    apply ih (max_le hmark hr)
    exact fun r' hr' => hrows r' (mem_cons_of_mem r hr')

theorem insert_exact (getTerms : List C → List T) (ord : TermOrder T) (h : Exact c n x)
    (rows : List (Nat × List C)) (hlt : ∀ r ∈ rows, r.1 < n)
    (hnodup : (rows.map Prod.fst).Nodup) (hfree : ∀ r ∈ rows, c r.1 = []) :
    ∃ x', x.insert getTerms ord rows = .ok x' ∧
      x'.numIndexedNodes = markRows x.numIndexedNodes rows ∧
      Exact (withRows getTerms c rows) n x' := by
  obtain ⟨x₁, hrun, hmark, h₁⟩ := insertRows_exact ord h hlt hnodup hfree
  refine ⟨{ x₁ with numIndexedNodes := markRows x₁.numIndexedNodes rows }, ?_, ?_, ?_⟩
  · unfold FtsIndex.insert
    rw [hrun]
    rfl
  · rw [hmark]
  · exact { h₁ with }

variable {table : Nat → Option (List C)}

section

variable (ord : TermOrder T) (h : Exact c n x)

include ord h

theorem deleteRow_exact (hrow : c o = content getTerms table o ∨ mark ≤ o ∧ c o = []) :
    ∃ x', (if o ≥ mark && !containsDoc x o then ok x
      else match table o with
        | none => .ok x
        | some row => deleteDoc ord x o (getTerms row)) = .ok x' ∧
      x'.numIndexedNodes = x.numIndexedNodes ∧ Exact (Function.update c o []) n x' := by
  have hskip : c o = [] → Exact (Function.update c o []) n x := by
    intro hnone
    rw [← hnone, update_eq_self]
    exact h
  by_cases hcond : (o ≥ mark && !containsDoc x o) = true
  · -- no document, so no terms
    refine ⟨x, if_pos hcond, rfl, hskip ?_⟩
    by_contra hsome
    obtain ⟨t, ht⟩ := exists_mem_of_ne_nil _ hsome
    obtain ⟨docID, hdoc⟩ := h.doc_of_mem ht
    simp [containsDoc, hdoc] at hcond
  · rw [if_neg hcond]
    -- a row that was never indexed has been skipped
    have hterms : c o = content getTerms table o := by
      rcases hrow with heq | ⟨hge, hnone⟩
      · exact heq
      · exact absurd (by simp [containsDoc, h.no_doc hnone, hge]) hcond
    unfold content at hterms
    cases htable : table o with
    | none =>
      rw [htable] at hterms
      exact ⟨x, rfl, rfl, hskip hterms⟩
    | some row =>
      rw [htable] at hterms
      show ∃ x', deleteDoc ord x o (getTerms row) = .ok x' ∧ _
      rw [show getTerms row = c o from hterms.symm]
      exact deleteDoc_exact ord h

theorem deleteRows_exact {offsets : List Nat} (hnodup : offsets.Nodup)
    (hrows : ∀ o ∈ offsets, c o = content getTerms table o ∨ mark ≤ o ∧ c o = []) :
    ∃ x', offsets.foldlM (fun x o => if o ≥ mark && !containsDoc x o then ok x
      else match table o with
        | none => .ok x
        | some row => deleteDoc ord x o (getTerms row)) x = .ok x' ∧
      x'.numIndexedNodes = x.numIndexedNodes ∧
      Exact (fun o => if o ∈ offsets then [] else c o) n x' := by
  induction offsets generalizing c x with
  | nil => exact ⟨x, rfl, rfl, by simpa using h⟩
  | cons o offsets ih =>
    rw [nodup_cons] at hnodup
    obtain ⟨x₁, hrun₁, hmark₁, h₁⟩ := deleteRow_exact ord h (hrows o mem_cons_self)
    obtain ⟨x', hrun, hmark, h'⟩ := ih h₁ hnodup.2 (fun o' ho' => by
      have hne : o' ≠ o := fun heq => hnodup.1 (heq ▸ ho')
      rw [update_of_ne hne]
      exact hrows o' (mem_cons_of_mem o ho'))
    refine ⟨x', ?_, hmark.trans hmark₁, ?_⟩
    · rw [foldlM_cons, hrun₁]
      exact hrun
    · have hsame : (fun o' => if o' ∈ offsets then [] else Function.update c o [] o') =
          fun o' => if o' ∈ o :: offsets then [] else c o' := by
        funext o'
        by_cases heq : o' = o
        · simp [heq]
        · simp [heq]
      rw [← hsame]
      exact h'

theorem delete_exact (table : Nat → Option (List C)) {offsets : List Nat} (hnodup : offsets.Nodup)
    (hrows : ∀ o ∈ offsets, c o = content getTerms table o ∨ x.numIndexedNodes ≤ o ∧ c o = []) :
    ∃ x', x.delete getTerms ord table offsets = .ok x' ∧ x'.numIndexedNodes = x.numIndexedNodes ∧
      Exact (fun o => if o ∈ offsets then [] else c o) n x' :=
  deleteRows_exact ord h hnodup hrows

end

def contentBelow (getTerms : List C → List T) (table : Nat → Option (List C)) (k : Nat) :
    Nat → List T := fun o => if o < k then content getTerms table o else []

theorem finalizeRows_exact (ord : TermOrder T) {k : Nat} (m : Nat)
    (h : Exact (contentBelow getTerms table k) n x) (hm : k + m = n) (hle : x.numIndexedNodes ≤ n)
    (hmarked : ∀ o, o < k → (table o).isSome → o < x.numIndexedNodes) :
    ∃ x', (range' k m).foldlM (fun x o =>
        match table o with
        | none => ok x
        | some row => x.insert getTerms ord [(o, row)]) x = .ok x' ∧
      x'.numIndexedNodes ≤ n ∧ (∀ o, o < n → (table o).isSome → o < x'.numIndexedNodes) ∧
      Exact (contentBelow getTerms table n) n x' := by
  induction m generalizing k x with
  | zero =>
    exact ⟨x, rfl, hle, hm ▸ hmarked, hm ▸ h⟩
  | succ m ih =>
    rw [range'_succ, foldlM_cons]
    -- the next row, if it was not rejected
    have hnext : contentBelow getTerms table (k + 1) =
        Function.update (contentBelow getTerms table k) k (content getTerms table k) := by
      funext o
      unfold contentBelow
      rw [update_apply]
      by_cases heq : o = k
      · simp [heq]
      · rw [if_neg heq]
        by_cases hlt : o < k
        · rw [if_pos hlt, if_pos (by omega)]
        · rw [if_neg hlt, if_neg (by omega)]
    have hfree : contentBelow getTerms table k k = [] := if_neg (Nat.lt_irrefl k)
    cases hrow : table k with
    | none =>
      have hnone : content getTerms table k = [] := by
        unfold content
        rw [hrow]
      rw [hnone, ← hfree, update_eq_self] at hnext
      apply ih (hnext ▸ h) (by omega) hle
      intro o ho hlive
      apply hmarked o _ hlive
      by_contra hge
      rw [show o = k by omega, hrow] at hlive
      exact absurd hlive Bool.false_ne_true
    | some row =>
      obtain ⟨x₁, hrun₁, hmark₁, h₁⟩ := insert_exact getTerms ord h [(k, row)]
        (by simpa using (show k < n by omega)) (by simp) (by simpa using hfree)
      have hmark : x₁.numIndexedNodes = max x.numIndexedNodes (k + 1) := hmark₁
      have hterms : withRows getTerms (contentBelow getTerms table k) [(k, row)] =
          contentBelow getTerms table (k + 1) := by
        rw [hnext]
        unfold content
        rw [hrow]
        rfl
      rw [hterms] at h₁
      obtain ⟨x', hrun, hrest⟩ := ih h₁ (by omega) (by omega) (fun o ho hlive => by
        by_cases hlt : o < k
        · omega
        · omega)
      refine ⟨x', ?_, hrest⟩
      show (x.insert getTerms ord [(k, row)] >>= _) = _
      rw [hrun₁]
      exact hrun

end

/-! ## 5. Runs -/

section

variable {C T : Type} [DecidableEq T] {getTerms : List C → List T} {d : Indexed C T}

structure Maintained (getTerms : List C → List T) (d : Indexed C T) : Prop where
  rows_lt : ∀ o, d.numTotalRows ≤ o → d.table o = none
  marked : ∀ o, (d.table o).isSome → o < d.index.numIndexedNodes
  mark_le : d.index.numIndexedNodes ≤ d.numTotalRows
  exact : Exact (content getTerms d.table) d.numTotalRows d.index

variable {o : Nat}

theorem mem_newRows {start : Nat} {rows : List (List C)} {row : List C} :
    (o, row) ∈ (range' start rows.length).zip rows ↔ start ≤ o ∧ rows[o - start]? = some row := by
  rw [mem_iff_getElem?]
  constructor
  · rintro ⟨i, hi⟩
    obtain ⟨hoffset, hrow⟩ := List.getElem?_zip_eq_some.mp hi
    rw [List.getElem?_eq_some_iff] at hoffset
    obtain ⟨hlt, heq⟩ := hoffset
    rw [getElem_range'] at heq
    simp only at heq hrow
    rw [← heq, show start + 1 * i - start = i by omega]
    exact ⟨by omega, hrow⟩
  · rintro ⟨hle, hrow⟩
    have hlt := (List.getElem?_eq_some_iff.mp hrow).1
    refine ⟨o - start, List.getElem?_zip_eq_some.mpr ⟨?_, hrow⟩⟩
    rw [getElem?_range' hlt]
    simp only [some.injEq]
    omega

theorem newRows_offsets (start : Nat) (rows : List (List C)) :
    ((range' start rows.length).zip rows).map Prod.fst = range' start rows.length := by
  rw [map_fst_zip]
  rw [length_range']

theorem appendRows_of_lt (table : Nat → Option (List C)) {start : Nat} (rows : List (List C))
    (ho : o < start) : appendRows table start rows o = table o := if_neg (by omega)

theorem appendRows_of_le (table : Nat → Option (List C)) {start : Nat} (rows : List (List C))
    (ho : start ≤ o) : appendRows table start rows o = rows[o - start]? := if_pos ho

omit [DecidableEq T] in
theorem content_appendRows (getTerms : List C → List T) {table : Nat → Option (List C)}
    {start : Nat} (hend : ∀ o, start ≤ o → table o = none) (rows : List (List C)) :
    content getTerms (appendRows table start rows) = withRows getTerms (content getTerms table)
      ((range' start rows.length).zip rows) := by
  funext o
  by_cases hnew : start ≤ o ∧ o - start < rows.length
  · have hrow : rows[o - start]? = some rows[o - start] := getElem?_eq_getElem hnew.2
    rw [withRows_of_mem (by rw [newRows_offsets]; exact nodup_range') (mem_newRows.mpr ⟨hnew.1, hrow⟩)]
    unfold content
    rw [appendRows_of_le table rows hnew.1, hrow]
  · rw [withRows_of_notMem (by rw [newRows_offsets, mem_range'_1]; omega)]
    unfold content
    by_cases ho : start ≤ o
    · rw [appendRows_of_le table rows ho, hend o ho, getElem?_eq_none (by omega)]
    · rw [appendRows_of_lt table rows (not_le.mp ho)]

variable (ord : TermOrder T)

theorem Maintained.insert (h : Maintained getTerms d) (rows : List (List C)) :
    ∃ d', (Op.insert rows).apply getTerms ord d = .ok d' ∧ Maintained getTerms d' := by
  have hmem : ∀ r ∈ (range' d.numTotalRows rows.length).zip rows,
      d.numTotalRows ≤ r.1 ∧ r.1 < d.numTotalRows + rows.length := by
    intro r hr
    obtain ⟨hle, hrow⟩ := mem_newRows.mp hr
    have hlt := (List.getElem?_eq_some_iff.mp hrow).1
    omega
  have hold := h.exact.mono (Nat.le_add_right d.numTotalRows rows.length)
  obtain ⟨index, hrun, hmark, hexact⟩ := insert_exact getTerms ord hold
    ((range' d.numTotalRows rows.length).zip rows) (fun r hr => (hmem r hr).2)
    (by rw [newRows_offsets]; exact nodup_range')
    (fun r hr => h.exact.bounded r.1 (hmem r hr).1)
  refine ⟨⟨appendRows d.table d.numTotalRows rows, d.numTotalRows + rows.length, index⟩, ?_, ?_⟩
  · show (d.index.insert getTerms ord _ >>= _) = _
    rw [hrun]
    rfl
  · refine ⟨?_, ?_, ?_, ?_⟩
    · intro o ho
      simp only at ho
      show appendRows d.table d.numTotalRows rows o = none
      rw [appendRows_of_le _ _ (by omega), getElem?_eq_none (by omega)]
    · intro o (hlive : (appendRows d.table d.numTotalRows rows o).isSome = true)
      rw [hmark]
      by_cases ho : d.numTotalRows ≤ o
      · rw [appendRows_of_le _ _ ho] at hlive
        obtain ⟨row, hrow⟩ := isSome_iff_exists.mp hlive
        exact lt_markRows _ (mem_newRows.mpr ⟨ho, hrow⟩)
      · rw [appendRows_of_lt _ _ (not_le.mp ho)] at hlive
        exact (h.marked o hlive).trans_le (le_markRows _ _)
    · rw [hmark]
      exact markRows_le (h.mark_le.trans (Nat.le_add_right _ _)) fun r hr => (hmem r hr).2
    · rw [content_appendRows getTerms h.rows_lt]
      exact hexact

omit [DecidableEq T] in
theorem content_deleteRows (getTerms : List C → List T) (table : Nat → Option (List C))
    (offsets : List Nat) : content getTerms (deleteRows table offsets) =
      fun o => if o ∈ offsets then [] else content getTerms table o := by
  funext o
  unfold content deleteRows
  by_cases ho : o ∈ offsets
  · rw [if_pos ho, if_pos ho]
  · rw [if_neg ho, if_neg ho]

theorem deleteRows_isSome {table : Nat → Option (List C)} {offsets : List Nat}
    (hlive : (deleteRows table offsets o).isSome) : (table o).isSome := by
  unfold deleteRows at hlive
  split at hlive
  · exact absurd hlive Bool.false_ne_true
  · exact hlive

section

variable (h : Maintained getTerms d)

include h

theorem Maintained.delete (offsets : List Nat) :
    ∃ d', (Op.delete offsets).apply getTerms ord d = .ok d' ∧ Maintained getTerms d' := by
  obtain ⟨index, hrun, hmark, hexact⟩ := delete_exact ord h.exact d.table
    (nodup_dedup (offsets.filter fun offset => (d.table offset).isSome)) (fun o _ => .inl rfl)
  refine ⟨⟨deleteRows d.table (offsets.filter fun offset => (d.table offset).isSome).dedup,
    d.numTotalRows, index⟩, ?_, ?_⟩
  · show (d.index.delete getTerms ord d.table _ >>= _) = _
    rw [hrun]
    rfl
  · refine ⟨?_, ?_, ?_, ?_⟩
    · intro o ho
      show deleteRows d.table _ o = none
      unfold deleteRows
      rw [h.rows_lt o ho]
      exact ite_self none
    · intro o hlive
      rw [hmark]
      exact h.marked o (deleteRows_isSome hlive)
    · rw [hmark]
      exact h.mark_le
    · rw [content_deleteRows]
      exact hexact

theorem Maintained.update (offset columnIdx : Nat) (value : C) :
    ∃ d', (Op.update offset columnIdx value).apply getTerms ord d = .ok d' ∧
      Maintained getTerms d' := by
  cases hrow : d.table offset with
  | none =>
    refine ⟨d, ?_, h⟩
    simp only [Op.apply, hrow]
  | some row =>
    have hlt : offset < d.numTotalRows := by
      by_contra hge
      rw [h.rows_lt offset (not_lt.mp hge)] at hrow
      cases hrow
    have hmarked : offset < d.index.numIndexedNodes := h.marked offset (by rw [hrow]; rfl)
    -- the document of the old row is deleted and that of the new one inserted
    obtain ⟨x₁, hrun₁, hmark₁, h₁⟩ := delete_exact ord h.exact d.table
      (nodup_singleton offset) (fun o _ => .inl rfl)
    obtain ⟨x₂, hrun₂, hmark₂, h₂⟩ := insert_exact getTerms ord h₁
      [(offset, row.set columnIdx value)] (by simpa using hlt) (by simp) (by simp)
    have hmark : x₂.numIndexedNodes = d.index.numIndexedNodes := by
      rw [hmark₂, hmark₁]
      exact max_eq_left hmarked
    refine ⟨⟨Function.update d.table offset (some (row.set columnIdx value)), d.numTotalRows, x₂⟩,
      ?_, ?_⟩
    · have hindex : d.index.update getTerms ord d.table offset columnIdx value = .ok x₂ := by
        unfold FtsIndex.update
        rw [hrun₁, hrow]
        exact hrun₂
      simp only [Op.apply, hrow, hindex]
      rfl
    · refine ⟨?_, ?_, ?_, ?_⟩
      · intro o ho
        simp only at ho
        show Function.update d.table offset _ o = none
        rw [update_of_ne (by omega)]
        exact h.rows_lt o ho
      · intro o (hlive : (Function.update d.table offset _ o).isSome = true)
        rw [hmark]
        by_cases ho : o = offset
        · rw [ho]
          exact hmarked
        · rw [update_of_ne ho] at hlive
          exact h.marked o hlive
      · rw [hmark]
        exact h.mark_le
      · have hterms : content getTerms
            (Function.update d.table offset (some (row.set columnIdx value))) =
              withRows getTerms (fun o => if o ∈ [offset] then [] else content getTerms d.table o)
                [(offset, row.set columnIdx value)] := by
          funext o
          unfold withRows content
          rw [foldl_cons, foldl_nil, update_apply, update_apply]
          by_cases ho : o = offset
          · rw [if_pos ho, if_pos ho]
          · rw [if_neg ho, if_neg ho, if_neg (by simpa using ho)]
        rw [hterms]
        exact h₂

theorem content_copied {table : Nat → Option (List C)}
    (hold : ∀ o, o < d.numTotalRows → table o = d.table o) :
    contentBelow getTerms table d.index.numIndexedNodes = content getTerms d.table := by
  funext o
  unfold contentBelow content
  by_cases ho : o < d.index.numIndexedNodes
  · rw [if_pos ho, hold o (ho.trans_le h.mark_le)]
  · -- above the mark there is nothing in the old table
    rw [if_neg ho]
    cases hrow : d.table o with
    | none => rfl
    | some row => exact absurd (h.marked o (by rw [hrow]; rfl)) ho

theorem Maintained.copy (rows : List (List C × Bool)) :
    ∃ d', (Op.copy rows).apply getTerms ord d = .ok d' ∧ Maintained getTerms d' := by
  simp only [Op.apply]
  generalize htable : appendRows d.table d.numTotalRows (rows.map Prod.fst) = table
  generalize hrej : (range' d.numTotalRows rows.length).filter (fun offset =>
    (rows[offset - d.numTotalRows]?).any fun r => !r.2) = rejected
  have hrejected : ∀ o ∈ rejected, d.numTotalRows ≤ o := by
    intro o ho
    rw [← hrej] at ho
    have hin := mem_range'_1.mp (mem_filter.mp ho).1
    omega
  have hnodup : rejected.Nodup := hrej ▸ List.Nodup.filter _ nodup_range'
  have hend : ∀ o, d.numTotalRows + rows.length ≤ o → table o = none := by
    intro o ho
    rw [← htable, appendRows_of_le _ _ (by omega), getElem?_eq_none]
    rw [length_map]
    omega
  -- the rejected rows are above the mark and have no document
  have hold := h.exact.mono (Nat.le_add_right d.numTotalRows rows.length)
  obtain ⟨x₁, hrun₁, hmark₁, h₁⟩ := delete_exact ord hold table hnodup (fun o ho =>
    .inr ⟨h.mark_le.trans (hrejected o ho), h.exact.bounded o (hrejected o ho)⟩)
  have hsame : (fun o => if o ∈ rejected then [] else content getTerms d.table o) =
      content getTerms d.table := by
    funext o
    by_cases ho : o ∈ rejected
    · rw [if_pos ho, h.exact.bounded o (hrejected o ho)]
    · rw [if_neg ho]
  rw [hsame] at h₁
  -- so `finalize` starts from the old table
  have hbelow : contentBelow getTerms (deleteRows table rejected) x₁.numIndexedNodes =
      content getTerms d.table := by
    rw [hmark₁]
    apply content_copied h
    intro o ho
    unfold deleteRows
    rw [if_neg (fun hin => absurd (hrejected o hin) (not_le.mpr ho)), ← htable,
      appendRows_of_lt _ _ ho]
  rw [← hbelow] at h₁
  have hle : x₁.numIndexedNodes ≤ d.numTotalRows + rows.length := by
    rw [hmark₁]
    exact h.mark_le.trans (Nat.le_add_right _ _)
  obtain ⟨x₂, hrun₂, hmark₂, hmarked, h₂⟩ := finalizeRows_exact ord
    (d.numTotalRows + rows.length - x₁.numIndexedNodes) h₁ (by omega) hle (fun o ho _ => ho)
  refine ⟨⟨deleteRows table rejected, d.numTotalRows + rows.length, x₂⟩, ?_, ?_⟩
  · have hfin : x₁.finalize getTerms ord (deleteRows table rejected)
        (d.numTotalRows + rows.length) = .ok x₂ := by
      unfold FtsIndex.finalize
      split
      next heq =>
        rw [heq, Nat.sub_self] at hrun₂
        exact hrun₂
      next => exact hrun₂
    rw [hrun₁]
    show (x₁.finalize getTerms ord _ _ >>= _) = _
    rw [hfin]
    rfl
  · have hrows : ∀ o, d.numTotalRows + rows.length ≤ o → deleteRows table rejected o = none := by
      intro o ho
      unfold deleteRows
      rw [hend o ho]
      exact ite_self none
    refine ⟨hrows, ?_, hmark₂, ?_⟩
    · intro o (hlive : (deleteRows table rejected o).isSome = true)
      apply hmarked o _ hlive
      by_contra hge
      rw [hrows o (not_lt.mp hge)] at hlive
      exact absurd hlive Bool.false_ne_true
    · have hall : contentBelow getTerms (deleteRows table rejected) (d.numTotalRows + rows.length) =
          content getTerms (deleteRows table rejected) := by
        funext o
        unfold contentBelow
        by_cases ho : o < d.numTotalRows + rows.length
        · rw [if_pos ho]
        · rw [if_neg ho]
          unfold content
          rw [hrows o (not_lt.mp ho)]
      rw [← hall]
      exact h₂

theorem Maintained.apply (op : Op C) :
    ∃ d', op.apply getTerms ord d = .ok d' ∧ Maintained getTerms d' := by
  cases op with
  | insert rows => exact h.insert ord rows
  | update offset columnIdx value => exact h.update ord offset columnIdx value
  | delete offsets => exact h.delete ord offsets
  | copy rows => exact h.copy ord rows

theorem Maintained.runOps (ops : List (Op C)) :
    ∃ d', runOps getTerms ord d ops = .ok d' ∧ Maintained getTerms d' := by
  induction ops generalizing d with
  | nil => exact ⟨d, rfl, h⟩
  | cons op ops ih =>
    obtain ⟨d₁, hrun₁, h₁⟩ := h.apply ord op
    obtain ⟨d', hrun, h'⟩ := ih h₁
    refine ⟨d', ?_, h'⟩
    unfold Fts.runOps at hrun ⊢
    rw [foldlM_cons, hrun₁]
    exact hrun

end

end

end Ladybug.Fts
