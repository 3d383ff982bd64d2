import Ladybug.Sqlite.TableView

/-!
# `applyFrames` on one table

The leaf loop visits the leaves in order; a row may have left a page that is gone, visited or still
to come.  `Visited` is the invariant of the loop and `updateTable_ok` its outcome: the rows of the
refreshed leaves as upserts, and as deletes the rowids that left their page and were not seen again.
-/

namespace Ladybug.Sqlite

open Bytes List Option

/-! ## 1. Retained maps along the loop -/

section

variable {X : Type} {keep : List SqliteValue → Option X} {m₀ m : Int64 → Option X}
  {seen : DecodedRow → Prop} {vac : Int64 → Prop}

/-- A retained map after the rows `seen` were tracked and the rowids `vac` left their pages. -/
structure Kept (keep : List SqliteValue → Option X) (m₀ : Int64 → Option X)
    (seen : DecodedRow → Prop) (vac : Int64 → Prop) (m : Int64 → Option X) : Prop where
  set : ∀ row x, seen row → keep row.values = some x → m row.rowid = some x
  erased : ∀ r, (∀ row, seen row → row.rowid ≠ r) → vac r → m r = none
  same : ∀ r, (∀ row, seen row → row.rowid ≠ r) → ¬ vac r → m r = m₀ r
  source : ∀ r x, m r = some x →
    m₀ r = some x ∨ ∃ row, seen row ∧ row.rowid = r ∧ keep row.values = some x

theorem Kept.step (h : Kept keep m₀ seen vac m) {rows : List DecodedRow} {gone : List Int64}
    {seen' : DecodedRow → Prop} {vac' : Int64 → Prop}
    (hnodup : (rows.map DecodedRow.rowid).Nodup) (hseen : ∀ row, seen' row ↔ seen row ∨ row ∈ rows)
    (hother : ∀ row, seen row → row.rowid ∉ rows.map DecodedRow.rowid)
    (hgone : ∀ r ∈ gone, vac' r ∧ r ∉ rows.map DecodedRow.rowid ∧ ∀ row, seen row → row.rowid ≠ r)
    (hvac : ∀ r, vac r → vac' r)
    (hnew : ∀ r, vac' r → vac r ∨ r ∈ gone ∨ ∃ row, seen row ∧ row.rowid = r) :
    Kept keep m₀ seen' vac'
      (fun r => if r ∈ gone then none else rows.foldl (keepRow keep) m r) := by
  -- a rowid no row of `seen'` has is not on the leaf
  have hunseen : ∀ r, (∀ row, seen' row → row.rowid ≠ r) →
      (∀ row, seen row → row.rowid ≠ r) ∧ rows.foldl (keepRow keep) m r = m r := by
    intro r hr
    refine ⟨fun row hrow => hr row ((hseen row).mpr (.inl hrow)), ?_⟩
    apply foldl_keepRow_of_notMem
    intro hmem
    obtain ⟨row, hrow, heq⟩ := mem_map.mp hmem
    exact hr row ((hseen row).mpr (.inr hrow)) heq
  constructor
  · intro row x hrow hkeep
    have hstay : row.rowid ∉ gone := by
      intro hg
      rcases (hseen row).mp hrow with hold | hmem
      · exact (hgone _ hg).2.2 row hold rfl
      · exact (hgone _ hg).2.1 (mem_map_of_mem hmem)
    rw [if_neg hstay]
    rcases (hseen row).mp hrow with hold | hmem
    · rw [foldl_keepRow_of_notMem keep rows m (hother row hold)]
      exact h.set row x hold hkeep
    · rw [foldl_keepRow_of_mem keep hnodup m hmem, hkeep, some_or]
  · intro r hr hv
    obtain ⟨hr', hm⟩ := hunseen r hr
    split
    · rfl
    next hg =>
      rw [hm]
      rcases hnew r hv with hvr | hg' | ⟨row, hrow, heq⟩
      · exact h.erased r hr' hvr
      · exact absurd hg' hg
      · exact absurd heq (hr' row hrow)
  · intro r hr hv
    obtain ⟨hr', hm⟩ := hunseen r hr
    rw [if_neg fun hg => hv (hgone r hg).1, hm]
    exact h.same r hr' fun hvr => hv (hvac r hvr)
  · intro r x hx
    split at hx
    · cases hx
    by_cases hmem : r ∈ rows.map DecodedRow.rowid
    · obtain ⟨row, hrow, rfl⟩ := mem_map.mp hmem
      rw [foldl_keepRow_of_mem keep hnodup m hrow] at hx
      cases hkeep : keep row.values with
      | some y =>
        rw [hkeep, some_or] at hx
        exact .inr ⟨row, (hseen row).mpr (.inr hrow), rfl, by rw [hkeep, hx]⟩
      | none =>
        rw [hkeep, none_or] at hx
        rcases h.source _ x hx with h₀ | ⟨row', hrow', heq, hk⟩
        · exact .inl h₀
        · exact .inr ⟨row', (hseen row').mpr (.inl hrow'), heq, hk⟩
    · rw [foldl_keepRow_of_notMem keep rows m hmem] at hx
      rcases h.source _ x hx with h₀ | ⟨row', hrow', heq, hk⟩
      · exact .inl h₀
      · exact .inr ⟨row', (hseen row').mpr (.inl hrow'), heq, hk⟩

/-- A retained map of the old view, after the loop, is the retained map of the new view: a row of
the new view was tracked or stayed, and a lost row left its page. -/
theorem Kept.of_view {v₀ v : TableView} (h : Kept keep m₀ seen vac m)
    (h₀ : ∀ r, m₀ r = (v₀.record r).bind keep)
    (hreach : Reaches keep v)
    (hseen : ∀ row, seen row → row ∈ v.all)
    (hstay : ∀ row ∈ v.all, ¬ seen row → v₀.record row.rowid = some row.values ∧
      ¬ vac row.rowid ∧ ∀ row', seen row' → row'.rowid ≠ row.rowid)
    (hlost : ∀ r, v₀.record r ≠ none → v.record r = none → vac r) (r : Int64) :
    m r = (v.record r).bind keep := by
  cases hr : v.record r with
  | none =>
    have hunseen : ∀ row, seen row → row.rowid ≠ r := by
      rintro row hrow rfl
      obtain ⟨p, hp, hmem⟩ := TableView.mem_all.mp (hseen row hrow)
      exact TableView.record_isSome_iff.mpr ⟨p, hp, mem_map_of_mem hmem⟩ hr
    by_cases hvac : vac r
    · exact h.erased r hunseen hvac
    · have hold : v₀.record r = none := by
        by_contra hne
        exact hvac (hlost r hne hr)
      rw [h.same r hunseen hvac, h₀ r, hold]
  | some a =>
    have hmem : (⟨r, a⟩ : DecodedRow) ∈ v.all :=
      TableView.mem_all.mpr (TableView.mem_of_record hr)
    by_cases hrow : seen ⟨r, a⟩
    · cases hk : keep a with
      | some x => exact (h.set ⟨r, a⟩ x hrow hk).trans hk.symm
      | none =>
        -- nothing is ever kept of this table
        have hnever : ∀ b, keep b = none := by
          rcases hreach with hall | hnone
          · exact absurd hk (hall ⟨r, a⟩ hmem)
          · exact hnone
        refine Eq.trans ?_ hk.symm
        rw [eq_none_iff_forall_ne_some]
        intro x hx
        rcases h.source r x hx with hold | ⟨row, -, -, hrowk⟩
        · rw [h₀ r] at hold
          cases hv₀ : v₀.record r with
          | none => rw [hv₀] at hold; cases hold
          | some b => rw [hv₀] at hold; exact absurd hold (by simp [hnever b])
        · rw [hnever] at hrowk
          cases hrowk
    · obtain ⟨hold, hnvac, hunseen⟩ := hstay ⟨r, a⟩ hmem hrow
      rw [h.same r hunseen hnvac, h₀ r, hold]

end

/-! ## 2. Closed forms of the steps -/

theorem emitDeletes_eq (table : String) (w : Work) {rowids : List Int64} (h : rowids.Nodup) :
    w.emitDeletes table rowids =
      { w with
        state := w.state.forgetAll rowids
        deletes := w.deletes ++ rowids.map (rowDelete table w.state) } := by
  unfold Work.emitDeletes
  rw [foldl_emitDelete table rowids h]

/-- The rowids that leave page `pageNo` when it is refreshed. -/
def leaving (old : List Int64) (rows : List DecodedRow) (w : Work) : List Int64 :=
  old.filter fun r => r ∉ rows.map DecodedRow.rowid ∧ r ∉ w.upserted

variable {old : List Int64} {r : Int64} {st : TableState} {fetcher : PageFetcher} {pageSize : Nat}
  {v : TableView}

theorem mem_leaving {rows : List DecodedRow} {w : Work} : r ∈ leaving old rows w ↔
      r ∈ old ∧ r ∉ rows.map DecodedRow.rowid ∧ r ∉ w.upserted := by
  unfold leaving
  rw [mem_filter, decide_eq_true_iff]

theorem refreshLeaf_eq (table : String) (pageNo : UInt32) (hold : old.Nodup)
    (decoded : List DecodedRow × UInt64) (w : Work) :
    refreshLeaf table pageNo old decoded w =
      { state :=
          { w.state with
            pages := w.state.pages.insert pageNo (PageState.ofRows decoded.1 decoded.2)
            identities := fun r => if r ∈ leaving old decoded.1 w then none
              else decoded.1.foldl (keepRow w.state.pkValue) w.state.identities r
            records := fun r => if r ∈ leaving old decoded.1 w then none
              else decoded.1.foldl (keepRow w.state.keptRecord) w.state.records r }
        upserts := w.upserts ++ decoded.1.map (rowOp table)
        deletes := w.deletes ++ (leaving old decoded.1 w).map (rowDelete table w.state)
        upserted := w.upserted ++ decoded.1.map DecodedRow.rowid } := by
  have hfilter : (old.filter fun r => r ∉ (PageState.ofRows decoded.1 decoded.2).rowids ∧
      r ∉ (w.trackRows decoded.1).upserted) = leaving old decoded.1 w := by
    unfold leaving PageState.ofRows
    simp only [mem_dedup]
    rfl
  have hleaving : (leaving old decoded.1 w).Nodup := hold.filter _
  -- the rows of the page do not touch what is retained of the rowids that leave it
  have hpayload : (leaving old decoded.1 w).map (rowDelete table (w.trackRows decoded.1).state) =
      (leaving old decoded.1 w).map (rowDelete table w.state) := by
    apply map_congr_left
    intro r hr
    have hnot := (mem_leaving.mp hr).2.1
    simp only [rowDelete, Work.trackRows, foldl_trackRow, foldl_keepRow_of_notMem _ _ _ hnot]
  unfold refreshLeaf
  simp only [hfilter]
  rw [emitDeletes_eq table _ hleaving, hpayload]
  simp only [Work.emitRows, Work.setPages, Work.trackRows, TableState.forgetAll, foldl_trackRow]

/-! ## 3. The leaf loop -/

section

variable (name : String) (st₀ : TableState) (v : TableView) (dirty : List UInt32)

-- the pages the loop decodes: new under the root, or touched by the commit
def Refreshed (p : UInt32) : Prop := p ∉ st₀.pages ∨ p ∈ dirty

instance (p : UInt32) : Decidable (Refreshed st₀ dirty p) := inferInstanceAs (Decidable (_ ∨ _))

def Seen (done : List UInt32) (row : DecodedRow) : Prop := v.RowOn (Refreshed st₀ dirty) done row

/-- `r` was tracked on a page that is gone, or that was refreshed and no longer holds it. -/
def Vacated (done : List UInt32) (r : Int64) : Prop :=
  ∃ p page, st₀.pages.lookup p = some page ∧ r ∈ page.rowids ∧
    (p ∉ v.leaves ∨ (p ∈ done ∧ p ∈ dirty ∧ r ∉ v.rowidsOn p))

/-- The loop after the leaves `done`, from a batch with `ups₀` and `dels₀`. -/
structure Visited (hash : UInt32 → UInt64) (ups₀ : List RowOp) (dels₀ : List RowDelete)
    (done : List UInt32) (w : Work) : Prop where
  upserts : w.upserts = ups₀ ++ (done.filter (Refreshed st₀ dirty)).flatMap fun p =>
    (v.rows p).map (rowOp name)
  upserted : ∀ r, r ∈ w.upserted ↔ ∃ row, Seen st₀ v dirty done row ∧ row.rowid = r
  deletes : ∃ gone : List Int64, w.deletes = dels₀ ++ gone.map (rowDelete name st₀) ∧
    gone.Nodup ∧ (∀ r ∈ gone, Vacated st₀ v dirty done r) ∧
    ∀ r, Vacated st₀ v dirty done r → r ∈ gone ∨ r ∈ w.upserted
  pages : ∀ p, w.state.pages.lookup p =
    if p ∈ done ∧ Refreshed st₀ dirty p then some (PageState.ofRows (v.rows p) (hash p))
    else if p ∈ v.leaves then st₀.pages.lookup p else none
  frame : { w.state with
    pages := st₀.pages, identities := st₀.identities, records := st₀.records } = st₀
  identities : Kept st₀.pkValue st₀.identities (Seen st₀ v dirty done)
    (Vacated st₀ v dirty done) w.state.identities
  records : Kept st₀.keptRecord st₀.records (Seen st₀ v dirty done)
    (Vacated st₀ v dirty done) w.state.records

variable {name st₀ v dirty} {hash : UInt32 → UInt64} {ups₀ : List RowOp} {dels₀ : List RowDelete}
  {done : List UInt32} {w : Work} {p : UInt32} {r : Int64}

theorem Visited.skip (h : Visited name st₀ v dirty hash ups₀ dels₀ done w)
    (hp : ¬ Refreshed st₀ dirty p) : Visited name st₀ v dirty hash ups₀ dels₀ (done ++ [p]) w := by
  have hseen : Seen st₀ v dirty (done ++ [p]) = Seen st₀ v dirty done :=
    TableView.rowOn_append_of_not hp
  have hclean : p ∉ dirty := fun hd => hp (.inr hd)
  have hvac : Vacated st₀ v dirty (done ++ [p]) = Vacated st₀ v dirty done := by
    funext r
    apply propext
    unfold Vacated
    simp only [mem_append, mem_singleton]
    constructor
    · rintro ⟨q, page, hq, hr, hgone | ⟨hin | rfl, hdirty, hnot⟩⟩
      · exact ⟨q, page, hq, hr, .inl hgone⟩
      · exact ⟨q, page, hq, hr, .inr ⟨hin, hdirty, hnot⟩⟩
      · exact absurd hdirty hclean
    · rintro ⟨q, page, hq, hr, hgone | ⟨hin, hdirty, hnot⟩⟩
      · exact ⟨q, page, hq, hr, .inl hgone⟩
      · exact ⟨q, page, hq, hr, .inr ⟨.inl hin, hdirty, hnot⟩⟩
  constructor
  · rw [filter_append, filter_singleton, decide_eq_false hp, h.upserts]
    simp
  · rw [hseen]
    exact h.upserted
  · rw [hvac]
    exact h.deletes
  · intro q
    rw [h.pages q]
    by_cases hq : q = p
    · rw [hq]
      simp [hp]
    · simp [hq]
  · exact h.frame
  · rw [hseen, hvac]
    exact h.identities
  · rw [hseen, hvac]
    exact h.records

def trackedOn (st : TableState) (p : UInt32) : List Int64 :=
  match st.pages.lookup p with
  | some page => page.rowids
  | none => []

theorem trackedOn_nodup (st : TableState) (p : UInt32) : (trackedOn st p).Nodup := by
  unfold trackedOn
  cases st.pages.lookup p with
  | none => exact nodup_nil
  | some page => exact page.nodup

theorem mem_trackedOn {st : TableState} :
    r ∈ trackedOn st p ↔ ∃ page, st.pages.lookup p = some page ∧ r ∈ page.rowids := by
  unfold trackedOn
  cases st.pages.lookup p with
  | none | some => simp

theorem vacated_append (hp : Refreshed st₀ dirty p) (r : Int64) :
    Vacated st₀ v dirty (done ++ [p]) r ↔
      Vacated st₀ v dirty done r ∨ (r ∈ trackedOn st₀ p ∧ r ∉ v.rowidsOn p) := by
  unfold Vacated
  simp only [mem_append, mem_singleton, mem_trackedOn]
  constructor
  · rintro ⟨q, page, hq, hr, hgone | ⟨hin | rfl, hdirty, hnot⟩⟩
    · exact .inl ⟨q, page, hq, hr, .inl hgone⟩
    · exact .inl ⟨q, page, hq, hr, .inr ⟨hin, hdirty, hnot⟩⟩
    · exact .inr ⟨⟨page, hq, hr⟩, hnot⟩
  · rintro (⟨q, page, hq, hr, hgone | ⟨hin, hdirty, hnot⟩⟩ | ⟨⟨page, hq, hr⟩, hnot⟩)
    · exact ⟨q, page, hq, hr, .inl hgone⟩
    · exact ⟨q, page, hq, hr, .inr ⟨.inl hin, hdirty, hnot⟩⟩
    · refine ⟨p, page, hq, hr, .inr ⟨.inr rfl, ?_, hnot⟩⟩
      -- a tracked page is refreshed only because it is dirty
      rcases hp with hnew | hdirty
      · rw [← AList.lookup_eq_none, hq] at hnew
        cases hnew
      · exact hdirty

theorem not_vacated_of_tracked (hone : OnePage st₀) (hp : p ∈ v.leaves) (hdone : p ∉ done)
    (hr : r ∈ trackedOn st₀ p) : ¬ Vacated st₀ v dirty done r := by
  rintro ⟨q, page, hq, hrq, hcase⟩
  obtain ⟨page', hpage', hr'⟩ := mem_trackedOn.mp hr
  obtain rfl := hone q p page page' r hq hpage' hrq hr'
  rcases hcase with hgone | ⟨hin, -, -⟩
  · exact hgone hp
  · exact hdone hin

section

variable (h : Visited name st₀ v dirty hash ups₀ dels₀ done w) (hwf : v.Wf) (hone : OnePage st₀)
  (hsub : ∀ q ∈ done, q ∈ v.leaves)

include h hwf hone hsub

theorem Visited.refresh {p : UInt32} (hp : p ∈ v.leaves) (hdone : p ∉ done)
    (href : Refreshed st₀ dirty p) :
    Visited name st₀ v dirty hash ups₀ dels₀ (done ++ [p])
      (refreshLeaf name p (trackedOn st₀ p) (v.rows p, hash p) w) := by
  obtain ⟨hpk, hkept⟩ := keep_of_frame h.frame
  -- the rows seen so far are on other leaves
  have hother : ∀ row, Seen st₀ v dirty done row → row.rowid ∉ (v.rows p).map DecodedRow.rowid := by
    rintro row ⟨q, hq, -, hrow⟩ hmem
    have heq := TableView.leaf_unique hwf (hsub q hq) hp (mem_map_of_mem hrow) hmem
    exact hdone (heq ▸ hq)
  have hunseen : ∀ r ∈ leaving (trackedOn st₀ p) (v.rows p) w,
      ∀ row, Seen st₀ v dirty done row → row.rowid ≠ r := by
    intro r hr row hrow heq
    exact (mem_leaving.mp hr).2.2 ((h.upserted r).mpr ⟨row, hrow, heq⟩)
  have hstill : ∀ r ∈ leaving (trackedOn st₀ p) (v.rows p) w, ¬ Vacated st₀ v dirty done r :=
    fun r hr => not_vacated_of_tracked hone hp hdone (mem_leaving.mp hr).1
  have hgone : ∀ r ∈ leaving (trackedOn st₀ p) (v.rows p) w,
      Vacated st₀ v dirty (done ++ [p]) r ∧ r ∉ (v.rows p).map DecodedRow.rowid ∧
        ∀ row, Seen st₀ v dirty done row → row.rowid ≠ r := by
    intro r hr
    obtain ⟨hold, hnot, -⟩ := mem_leaving.mp hr
    exact ⟨(vacated_append href r).mpr (.inr ⟨hold, hnot⟩), hnot, hunseen r hr⟩
  have hvac : ∀ r, Vacated st₀ v dirty done r → Vacated st₀ v dirty (done ++ [p]) r :=
    fun r hr => (vacated_append href r).mpr (.inl hr)
  have hnew : ∀ r, Vacated st₀ v dirty (done ++ [p]) r → Vacated st₀ v dirty done r ∨
      r ∈ leaving (trackedOn st₀ p) (v.rows p) w ∨
        ∃ row, Seen st₀ v dirty done row ∧ row.rowid = r := by
    intro r hr
    rcases (vacated_append href r).mp hr with hold | ⟨hold, hnot⟩
    · exact .inl hold
    by_cases hup : r ∈ w.upserted
    · exact .inr (.inr ((h.upserted r).mp hup))
    · exact .inr (.inl (mem_leaving.mpr ⟨hold, hnot, hup⟩))
  rw [refreshLeaf_eq name p (trackedOn_nodup st₀ p)]
  constructor
  · rw [filter_append, filter_singleton, decide_eq_true href, h.upserts]
    simp
  · intro r
    rw [mem_append, h.upserted r, List.mem_map]
    unfold Seen
    simp only [TableView.rowOn_append href]
    constructor
    · rintro (⟨row, hrow, heq⟩ | ⟨row, hrow, heq⟩)
      · exact ⟨row, .inl hrow, heq⟩
      · exact ⟨row, .inr hrow, heq⟩
    · rintro ⟨row, hrow | hrow, heq⟩
      · exact .inl ⟨row, hrow, heq⟩
      · exact .inr ⟨row, hrow, heq⟩
  · obtain ⟨gone, hdels, hnodup, hsound, hcomplete⟩ := h.deletes
    refine ⟨gone ++ leaving (trackedOn st₀ p) (v.rows p) w, ?_, ?_, ?_, ?_⟩
    · have hpayload : (leaving (trackedOn st₀ p) (v.rows p) w).map (rowDelete name w.state) =
          (leaving (trackedOn st₀ p) (v.rows p) w).map (rowDelete name st₀) := by
        apply map_congr_left
        intro r hr
        simp only [rowDelete, h.identities.same r (hunseen r hr) (hstill r hr),
          h.records.same r (hunseen r hr) (hstill r hr)]
      rw [hdels, hpayload, map_append, append_assoc]
    · refine nodup_append.mpr ⟨hnodup, (trackedOn_nodup st₀ p).filter _, ?_⟩
      intro a ha b hb heq
      exact hstill b hb (heq ▸ hsound a ha)
    · intro r hr
      rcases mem_append.mp hr with hold | hleft
      · exact hvac r (hsound r hold)
      · exact (hgone r hleft).1
    · intro r hr
      simp only [mem_append]
      rcases hnew r hr with hold | hleft | hseen
      · rcases hcomplete r hold with hin | hup
        · exact .inl (.inl hin)
        · exact .inr (.inl hup)
      · exact .inl (.inr hleft)
      · exact .inr (.inl ((h.upserted r).mpr hseen))
  · intro q
    by_cases hq : q = p
    · subst hq
      rw [AList.lookup_insert, if_pos ⟨by simp, href⟩]
    · rw [AList.lookup_insert_ne hq, h.pages q]
      simp [hq]
  · exact h.frame
  · rw [hpk]
    exact h.identities.step (TableView.rowidsOn_nodup hwf hp) (TableView.rowOn_append href) hother hgone hvac
      hnew
  · rw [hkept]
    exact h.records.step (TableView.rowidsOn_nodup hwf hp) (TableView.rowOn_append href) hother hgone hvac
      hnew

theorem Visited.visit {p : UInt32} {fetcher : PageFetcher} {pageSize : Nat} (hp : p ∈ v.leaves)
    (hdone : p ∉ done) (hdecode : decodeLeaf p fetcher pageSize = .ok (v.rows p, hash p)) :
    ∃ w', visitLeaf name dirty fetcher pageSize w p = .ok w' ∧
      Visited name st₀ v dirty hash ups₀ dels₀ (done ++ [p]) w' := by
  have hlookup : w.state.pages.lookup p = st₀.pages.lookup p := by
    rw [h.pages p, if_neg fun hin => hdone hin.1, if_pos hp]
  have hrefresh := h.refresh hwf hone hsub hp hdone
  unfold visitLeaf
  unfold trackedOn at hrefresh
  rw [hlookup, hdecode]
  cases hpage : st₀.pages.lookup p with
  | none =>
    rw [hpage] at hrefresh
    exact ⟨_, rfl, hrefresh (.inl (AList.lookup_eq_none.mp hpage))⟩
  | some page =>
    rw [hpage] at hrefresh
    by_cases hdirty : p ∈ dirty
    · exact ⟨_, if_neg (not_not.mpr hdirty), hrefresh (.inr hdirty)⟩
    · refine ⟨w, if_pos hdirty, h.skip ?_⟩
      rintro (hnew | hin)
      · rw [← AList.lookup_eq_none, hpage] at hnew
        cases hnew
      · exact hdirty hin

end

end

/-! ## 4. Removed pages -/

theorem emitDeletes_append (table : String) (w : Work) (a b : List Int64) :
    (w.emitDeletes table a).emitDeletes table b = w.emitDeletes table (a ++ b) := by
  unfold Work.emitDeletes
  rw [foldl_append]

theorem setPages_emitDeletes (table : String) (w : Work) (pages : Pages) (rowids : List Int64) :
    (w.setPages pages).emitDeletes table rowids = (w.emitDeletes table rowids).setPages pages := by
  have hfold : ∀ (st : TableState) (dels : List RowDelete),
      rowids.foldl (emitDelete table) ({ st with pages }, dels) =
        ({ (rowids.foldl (emitDelete table) (st, dels)).1 with pages },
          (rowids.foldl (emitDelete table) (st, dels)).2) := by
    induction rowids with
    | nil => exact fun st dels => rfl
    | cons r rowids ih => exact fun st dels => ih (st.forget r) (dels ++ [rowDelete table st r])
  unfold Work.emitDeletes Work.setPages
  simp only [hfold]

theorem emitDeletes_pages (table : String) (w : Work) (rowids : List Int64) :
    (w.emitDeletes table rowids).state.pages = w.state.pages := by
  have h := setPages_emitDeletes table w w.state.pages rowids
  have hself : w.setPages w.state.pages = w := rfl
  rw [hself] at h
  rw [h]
  rfl

def removedRowids (leaves : List UInt32) (es : List (Sigma fun _ : UInt32 => PageState)) :
    List Int64 :=
  es.flatMap fun e => if e.1 ∈ leaves then [] else e.2.rowids

def keptPages (leaves : List UInt32) (es : List (Sigma fun _ : UInt32 => PageState))
    (pages : Pages) : Pages :=
  es.foldl (fun ps e => if e.1 ∈ leaves then ps else ps.erase e.1) pages

theorem foldl_removePage (table : String) (leaves : List UInt32)
    (es : List (Sigma fun _ : UInt32 => PageState)) (w : Work) (hw : w.upserted = []) :
    es.foldl (removePage table leaves) w = (w.emitDeletes table (removedRowids leaves es)).setPages
        (keptPages leaves es w.state.pages) := by
  induction es generalizing w with
  | nil => rfl
  | cons e es ih =>
    rw [foldl_cons]
    by_cases he : e.1 ∈ leaves
    · have hstep : removePage table leaves w e = w := if_pos he
      have hkept : keptPages leaves (e :: es) w.state.pages =
          keptPages leaves es w.state.pages := by
        unfold keptPages
        rw [foldl_cons, if_pos he]
      have hgone : removedRowids leaves (e :: es) = removedRowids leaves es := by
        unfold removedRowids
        rw [flatMap_cons, if_pos he, nil_append]
      rw [hstep, ih w hw, hkept, hgone]
    · have hstep : removePage table leaves w e =
          (w.emitDeletes table e.2.rowids).setPages (w.state.pages.erase e.1) := by
        unfold removePage
        rw [if_neg he, hw]
        simp only [not_mem_nil, not_false_eq_true, decide_true, filter_true, emitDeletes_pages]
      have hkept : keptPages leaves (e :: es) w.state.pages =
          keptPages leaves es (w.state.pages.erase e.1) := by
        unfold keptPages
        rw [foldl_cons, if_neg he]
      have hgone : removedRowids leaves (e :: es) = e.2.rowids ++ removedRowids leaves es := by
        unfold removedRowids
        rw [flatMap_cons, if_neg he]
      rw [hstep, ih ((w.emitDeletes table e.2.rowids).setPages (w.state.pages.erase e.1)) hw,
        setPages_emitDeletes, emitDeletes_append, hkept, hgone]
      rfl

theorem lookup_keptPages (leaves : List UInt32) (es : List (Sigma fun _ : UInt32 => PageState))
    (pages : Pages) (p : UInt32) : (keptPages leaves es pages).lookup p =
      if p ∈ es.map Sigma.fst ∧ p ∉ leaves then none else pages.lookup p := by
  unfold keptPages
  induction es generalizing pages with
  | nil => simp
  | cons e es ih =>
    rw [foldl_cons, ih]
    by_cases hp : p = e.1
    · subst hp
      by_cases he : e.1 ∈ leaves
      · simp only [he, not_true_eq_false, and_false, if_false, if_true]
      · rw [if_neg he, AList.lookup_erase, ite_self, if_pos ⟨by simp, he⟩]
    · have hmem : p ∈ (e :: es).map Sigma.fst ↔ p ∈ es.map Sigma.fst := by
        rw [map_cons, mem_cons, or_iff_right hp]
      have herase : (if e.1 ∈ leaves then pages else pages.erase e.1).lookup p =
          pages.lookup p := by
        split
        · rfl
        · exact AList.lookup_erase_ne hp
      simp only [hmem, herase]

theorem mem_removedRowids {leaves : List UInt32} : r ∈ removedRowids leaves st.pages.entries ↔
      ∃ p page, st.pages.lookup p = some page ∧ r ∈ page.rowids ∧ p ∉ leaves := by
  unfold removedRowids
  rw [mem_flatMap]
  constructor
  · rintro ⟨e, he, hr⟩
    by_cases hin : e.1 ∈ leaves
    · rw [if_pos hin] at hr
      cases hr
    · rw [if_neg hin] at hr
      exact ⟨e.1, e.2, entry_iff_lookup.mp he, hr, hin⟩
  · rintro ⟨p, page, hpage, hr, hin⟩
    refine ⟨⟨p, page⟩, entry_iff_lookup.mpr hpage, ?_⟩
    rwa [if_neg hin]

theorem removedRowids_nodup (hone : OnePage st) (leaves : List UInt32) :
    (removedRowids leaves st.pages.entries).Nodup := by
  have hall := trackedRowids_nodup hone
  unfold TableState.trackedRowids at hall
  unfold removedRowids
  rw [nodup_flatMap] at hall ⊢
  constructor
  · intro e he
    split
    · exact nodup_nil
    · exact e.2.nodup
  · refine hall.2.imp ?_
    intro e f hdisj r hre hrf
    dsimp only at hre hrf
    split at hre
    · cases hre
    split at hrf
    · cases hrf
    exact hdisj hre hrf

theorem Visited.start {name : String} {st₀ : TableState} {v : TableView} {dirty : List UInt32}
    {hash : UInt32 → UInt64} {ups₀ : List RowOp} {dels₀ : List RowDelete} (hone : OnePage st₀) :
    Visited name st₀ v dirty hash ups₀ dels₀ []
      (st₀.pages.entries.foldl (removePage name v.leaves) ⟨st₀, ups₀, dels₀, []⟩) := by
  have hvac : ∀ r, Vacated st₀ v dirty [] r ↔ r ∈ removedRowids v.leaves st₀.pages.entries := by
    intro r
    rw [mem_removedRowids]
    constructor
    · rintro ⟨p, page, hp, hr, hgone | ⟨hin, -, -⟩⟩
      · exact ⟨p, page, hp, hr, hgone⟩
      · cases hin
    · rintro ⟨p, page, hp, hr, hgone⟩
      exact ⟨p, page, hp, hr, .inl hgone⟩
  have hunseen : ∀ row, ¬ Seen st₀ v dirty [] row := by
    rintro row ⟨p, hp, -, -⟩
    cases hp
  have hkept {X : Type} (keep : List SqliteValue → Option X) (m : Int64 → Option X) :
      Kept keep m (Seen st₀ v dirty []) (Vacated st₀ v dirty []) fun r =>
        if r ∈ removedRowids v.leaves st₀.pages.entries then none else m r := by
    constructor
    · exact fun row x hrow _ => absurd hrow (hunseen row)
    · exact fun r _ hr => if_pos ((hvac r).mp hr)
    · exact fun r _ hr => if_neg fun hin => hr ((hvac r).mpr hin)
    · intro r x hx
      split at hx
      · cases hx
      · exact .inl hx
  rw [foldl_removePage name v.leaves _ _ rfl,
    emitDeletes_eq name _ (removedRowids_nodup hone v.leaves)]
  constructor
  · simp [Work.setPages]
  · intro r
    simp only [Work.setPages, not_mem_nil, false_iff]
    rintro ⟨row, hrow, -⟩
    exact hunseen row hrow
  · exact ⟨removedRowids v.leaves st₀.pages.entries, rfl, removedRowids_nodup hone v.leaves,
      fun r hr => (hvac r).mpr hr, fun r hr => .inl ((hvac r).mp hr)⟩
  · intro p
    have hnone : ¬ (p ∈ ([] : List UInt32) ∧ Refreshed st₀ dirty p) := fun h => by cases h.1
    simp only [Work.setPages]
    rw [lookup_keptPages, if_neg hnone]
    by_cases hp : p ∈ v.leaves
    · rw [if_pos hp, if_neg fun h => h.2 hp]
    · rw [if_neg hp]
      by_cases hin : p ∈ st₀.pages
      · rw [if_pos ⟨hin, hp⟩]
      · rw [if_neg fun h => hin h.1, AList.lookup_eq_none.mpr hin]
  · rfl
  · exact hkept _ _
  · exact hkept _ _

/-! ## 5. The outcome for a table tracked under the same root -/

def leafHash (fetcher : PageFetcher) (pageSize : Nat) (p : UInt32) : UInt64 :=
  match decodeLeaf p fetcher pageSize with
  | .ok decoded => decoded.2
  | .error _ => 0

theorem ReadsTable.decodeLeaf {root : UInt32} (h : ReadsTable fetcher pageSize root v) {p : UInt32}
    (hp : p ∈ v.leaves) :
    decodeLeaf p fetcher pageSize = .ok (v.rows p, leafHash fetcher pageSize p) := by
  obtain ⟨hash, hdecode⟩ := h.decode p hp
  unfold leafHash
  rw [hdecode]

theorem ReadsTable.of_all {root : UInt32}
    (hwalk : collectLeafPages root fetcher pageSize = .ok v.leaves)
    (hall : (v.leaves.all fun p => Ladybug.Sqlite.decodeLeaf p fetcher pageSize =
      .ok (v.rows p, leafHash fetcher pageSize p)) = true) :
    ReadsTable fetcher pageSize root v where
  walk := hwalk
  decode := fun p hp => ⟨leafHash fetcher pageSize p, of_decide_eq_true (all_eq_true.mp hall p hp)⟩

def rowOps (name : String) (v : TableView) (pages : List UInt32) : List RowOp :=
  pages.flatMap fun p => (v.rows p).map (rowOp name)

/-- A table state after the leaf loop and the retraction; `gone` are the deletes that stay. -/
structure Updated (st₀ : TableState) (v : TableView) (dirty : List UInt32)
    (hash : UInt32 → UInt64) (gone : List Int64) (st₁ : TableState) : Prop where
  nodup : gone.Nodup
  gone_iff : ∀ r, r ∈ gone ↔ Vacated st₀ v dirty v.leaves r ∧
    ∀ row, Seen st₀ v dirty v.leaves row → row.rowid ≠ r
  pages : ∀ p, st₁.pages.lookup p =
    if p ∈ v.leaves ∧ Refreshed st₀ dirty p then some (PageState.ofRows (v.rows p) (hash p))
    else if p ∈ v.leaves then st₀.pages.lookup p else none
  frame : { st₁ with
    pages := st₀.pages, identities := st₀.identities, records := st₀.records } = st₀
  identities : Kept st₀.pkValue st₀.identities (Seen st₀ v dirty v.leaves)
    (Vacated st₀ v dirty v.leaves) st₁.identities
  records : Kept st₀.keptRecord st₀.records (Seen st₀ v dirty v.leaves)
    (Vacated st₀ v dirty v.leaves) st₁.records

theorem updateTable_ok (dirty : List UInt32) {schema : TableSchema} {st₀ : TableState}
    {acc : OpResolver × OpBatch} (hread : ReadsTable fetcher pageSize schema.rootPage v)
    (hwf : v.Wf) (hone : OnePage st₀) (hdels : ∀ d ∈ acc.2.deletes, d.table ≠ schema.name) :
    ∃ st₁ gone, Updated st₀ v dirty (leafHash fetcher pageSize) gone st₁ ∧
      updateTable dirty fetcher pageSize schema st₀ acc = .ok (acc.1.setTable schema.name st₁,
        { acc.2 with
          upserts := acc.2.upserts ++ rowOps schema.name v (v.leaves.filter (Refreshed st₀ dirty))
          deletes := acc.2.deletes ++ gone.map (rowDelete schema.name st₀) }) := by
  have hstart : Visited schema.name st₀ v dirty (leafHash fetcher pageSize) acc.2.upserts
      acc.2.deletes [] _ := Visited.start hone
  obtain ⟨w, hrun, hw⟩ := foldlM_invariant _ hread.leaves_nodup (fun done w p hw hsub hp hdone =>
      hw.visit hwf hone hsub hp hdone (hread.decodeLeaf hp)) hstart
  obtain ⟨gone, hgone, hnodup, hsound, hcomplete⟩ := hw.deletes
  have hfilter : w.deletes.filter (fun d => ¬ (d.table = schema.name ∧ d.rowid ∈ w.upserted)) =
      acc.2.deletes ++ (gone.filter (· ∉ w.upserted)).map (rowDelete schema.name st₀) := by
    rw [hgone, filter_append, List.filter_map]
    congr 1
    · rw [filter_eq_self]
      intro d hd
      exact decide_eq_true fun h => hdels d hd h.1
    · congr 2
      funext r
      simp only [Function.comp_apply, rowDelete, true_and]
  refine ⟨w.state, gone.filter (· ∉ w.upserted), ⟨hnodup.filter _, ?_, hw.pages, hw.frame,
    hw.identities, hw.records⟩, ?_⟩
  · intro r
    rw [mem_filter, decide_eq_true_iff, hw.upserted]
    constructor
    · rintro ⟨hin, hnot⟩
      exact ⟨hsound r hin, fun row hrow heq => hnot ⟨row, hrow, heq⟩⟩
    · rintro ⟨hvac, hunseen⟩
      have hnot : ¬ ∃ row, Seen st₀ v dirty v.leaves row ∧ row.rowid = r := by
        rintro ⟨row, hrow, heq⟩
        exact hunseen row hrow heq
      refine ⟨?_, hnot⟩
      rcases hcomplete r hvac with hin | hup
      · exact hin
      · exact absurd ((hw.upserted r).mp hup) hnot
  · unfold updateTable
    rw [hread.walk]
    simp only
    rw [hrun]
    simp only [Work.retract, Work.store]
    rw [hfilter, hw.upserts]
    rfl

/-! ## 6. Convergence of one table -/

section

variable {st₀ st₁ : TableState} {v₀ v : TableView} {dirty : List UInt32}
  {hash : UInt32 → UInt64} {gone : List Int64}

def CleanLeavesAgree (v₀ v : TableView) (dirty : List UInt32) : Prop :=
  ∀ p ∈ v₀.leaves, p ∈ v.leaves → v₀.rows p ≠ v.rows p → p ∈ dirty

variable {p : UInt32}

theorem rows_eq_of_not_refreshed (ht : Tracks st₀ v₀) (hclean : CleanLeavesAgree v₀ v dirty)
    (hp : p ∈ v.leaves) (hnot : ¬ Refreshed st₀ dirty p) :
    p ∈ v₀.leaves ∧ p ∉ dirty ∧ v₀.rows p = v.rows p := by
  unfold Refreshed at hnot
  rw [not_or, not_not, ht.leaf_iff] at hnot
  refine ⟨hnot.1, hnot.2, ?_⟩
  by_contra hne
  exact hnot.2 (hclean p hnot.1 hp hne)

theorem stays_of_not_refreshed (ht : Tracks st₀ v₀) (hwf₀ : v₀.Wf) (hwf : v.Wf)
    (hclean : CleanLeavesAgree v₀ v dirty) {row : DecodedRow} (hp : p ∈ v.leaves)
    (hrow : row ∈ v.rows p) (hnot : ¬ Refreshed st₀ dirty p) :
    v₀.record row.rowid = some row.values ∧ ¬ Vacated st₀ v dirty v.leaves row.rowid ∧
      ∀ row', Seen st₀ v dirty v.leaves row' → row'.rowid ≠ row.rowid := by
  obtain ⟨hp₀, hndirty, hrows⟩ := rows_eq_of_not_refreshed ht hclean hp hnot
  have hrow₀ : row ∈ v₀.rows p := hrows ▸ hrow
  refine ⟨TableView.record_of_mem hwf₀ (TableView.mem_all.mpr ⟨p, hp₀, hrow₀⟩), ?_, ?_⟩
  · rintro ⟨q, page, hq, hr, hcase⟩
    have heq := TableView.leaf_unique hwf₀ (ht.mem_leaves hq) hp₀
      ((ht.rowids_iff q page hq _).mp hr) (mem_map_of_mem hrow₀)
    subst heq
    rcases hcase with hgone | ⟨-, hdirty, -⟩
    · exact hgone hp
    · exact hndirty hdirty
  · rintro row' ⟨q, hq, href, hrow'⟩ heq
    have hmem : row.rowid ∈ v.rowidsOn q := heq ▸ mem_map_of_mem hrow'
    have hpq := TableView.leaf_unique hwf hp hq (mem_map_of_mem hrow) hmem
    exact hnot (hpq ▸ href)

section

variable (h : Updated st₀ v dirty hash gone st₁) (ht : Tracks st₀ v₀)

include h ht

theorem Updated.gone_record (hwf₀ : v₀.Wf) (hwf : v.Wf) (hclean : CleanLeavesAgree v₀ v dirty)
    (r : Int64) :
    r ∈ gone ↔ v₀.record r ≠ none ∧ v.record r = none := by
  rw [h.gone_iff]
  constructor
  · rintro ⟨hvac, hunseen⟩
    constructor
    · obtain ⟨p, page, hp, hr, -⟩ := hvac
      exact ht.record_isSome hp hr
    · by_contra hsome
      obtain ⟨a, ha⟩ := ne_none_iff_exists'.mp hsome
      obtain ⟨q, hq, hrow⟩ := TableView.mem_of_record ha
      by_cases href : Refreshed st₀ dirty q
      · exact hunseen ⟨r, a⟩ ⟨q, hq, href, hrow⟩ rfl
      · exact (stays_of_not_refreshed ht hwf₀ hwf hclean hq hrow href).2.1 hvac
  · rintro ⟨hold, hnone⟩
    have habsent : ∀ q ∈ v.leaves, r ∉ v.rowidsOn q :=
      fun q hq hr => TableView.record_isSome_iff.mpr ⟨q, hq, hr⟩ hnone
    constructor
    · obtain ⟨p, page, hp, hr⟩ := ht.page_of_record hold
      refine ⟨p, page, hp, hr, ?_⟩
      by_cases hin : p ∈ v.leaves
      · refine .inr ⟨hin, hclean p (ht.mem_leaves hp) hin ?_, habsent p hin⟩
        intro hrows
        apply habsent p hin
        unfold TableView.rowidsOn
        rw [← hrows]
        exact (ht.rowids_iff p page hp r).mp hr
      · exact .inl hin
    · rintro row ⟨q, hq, -, hrow⟩ rfl
      exact habsent q hq (mem_map_of_mem hrow)

theorem Updated.tracks (hclean : CleanLeavesAgree v₀ v dirty) : Tracks st₁ v := by
  constructor
  · intro p
    rw [← AList.lookup_isSome, h.pages p]
    by_cases hp : p ∈ v.leaves
    · by_cases href : Refreshed st₀ dirty p
      · simp only [hp, href, and_self, if_true, isSome_some]
      · have hin := (rows_eq_of_not_refreshed ht hclean hp href).1
        rw [← ht.leaf_iff, ← AList.lookup_isSome] at hin
        simp only [hp, href, and_false, if_false, if_true, hin]
    · simp only [hp, false_and, if_false, isSome_none, Bool.false_eq_true]
  · intro p page hpage r
    rw [h.pages p] at hpage
    split at hpage
    · cases hpage
      exact mem_dedup
    next hnot =>
      split at hpage
      next hp =>
        have href : ¬ Refreshed st₀ dirty p := fun href => hnot ⟨hp, href⟩
        rw [ht.rowids_iff p page hpage r]
        unfold TableView.rowidsOn
        rw [(rows_eq_of_not_refreshed ht hclean hp href).2.2]
      · cases hpage

end

def RowOp.entry (op : RowOp) : Int64 × List SqliteValue := (op.rowid, op.values)

theorem mem_rowOps {name : String} {pages : List UInt32} {op : RowOp} :
    op ∈ rowOps name v pages ↔ ∃ p ∈ pages, ∃ row ∈ v.rows p, op = rowOp name row := by
  unfold rowOps
  simp only [mem_flatMap, List.mem_map, eq_comm]

theorem covers_rowOps (name : String) {loaded : List UInt32} (hwf₀ : v₀.Wf) (hwf : v.Wf)
    (hsub : ∀ p ∈ loaded, p ∈ v.leaves)
    (hsame : ∀ p ∈ v.leaves, p ∉ loaded → p ∈ v₀.leaves ∧ v₀.rows p = v.rows p) :
    Covers v₀.record v.record ((rowOps name v loaded).map RowOp.entry) := by
  constructor
  · intro u hu
    obtain ⟨op, hop, rfl⟩ := mem_map.mp hu
    obtain ⟨p, hp, row, hrow, rfl⟩ := mem_rowOps.mp hop
    exact TableView.record_of_mem hwf (TableView.mem_all.mpr ⟨p, hsub p hp, hrow⟩)
  · intro r a ha hnot
    obtain ⟨p, hp, hrow⟩ := TableView.mem_of_record ha
    have hunloaded : p ∉ loaded := by
      intro hin
      apply hnot
      rw [List.map_map]
      exact mem_map.mpr ⟨rowOp name ⟨r, a⟩, mem_rowOps.mpr ⟨p, hin, ⟨r, a⟩, hrow, rfl⟩, rfl⟩
    obtain ⟨hp₀, hrows⟩ := hsame p hp hunloaded
    have hmem : (⟨r, a⟩ : DecodedRow) ∈ v₀.all :=
      TableView.mem_all.mpr ⟨p, hp₀, hrows ▸ hrow⟩
    exact TableView.record_of_mem hwf₀ hmem

theorem pkValue_reaches {st : TableState} (h : ReachesPk st v) : Reaches st.pkValue v := by
  unfold Reaches TableState.pkValue
  by_cases hpk : ¬ st.pkFromRowid ∧ 0 ≤ st.pkRecordIndex
  · left
    intro row hrow
    rw [if_pos hpk, ne_eq, List.getElem?_eq_none_iff, not_le]
    exact h hpk.1 hpk.2 row hrow
  · right
    intro a
    rw [if_neg hpk]

theorem keptRecord_reaches (st : TableState) : Reaches st.keptRecord v := by
  unfold Reaches TableState.keptRecord
  cases st.retainRecords with
  | true => exact .inl fun row _ => some_ne_none _
  | false => exact .inr fun a => rfl

theorem Updated.retains (h : Updated st₀ v dirty hash gone st₁) (ht : Tracks st₀ v₀)
    (hwf₀ : v₀.Wf) (hwf : v.Wf) (hclean : CleanLeavesAgree v₀ v dirty) (hr : Retains st₀ v₀)
    (hreach : Reaches st₀.pkValue v) : Retains st₁ v := by
  obtain ⟨hpk, hkept⟩ := keep_of_frame h.frame
  have hseen : ∀ row, Seen st₀ v dirty v.leaves row → row ∈ v.all := by
    rintro row ⟨p, hp, -, hrow⟩
    exact TableView.mem_all.mpr ⟨p, hp, hrow⟩
  have hstay : ∀ row ∈ v.all, ¬ Seen st₀ v dirty v.leaves row →
      v₀.record row.rowid = some row.values ∧ ¬ Vacated st₀ v dirty v.leaves row.rowid ∧
        ∀ row', Seen st₀ v dirty v.leaves row' → row'.rowid ≠ row.rowid := by
    intro row hrow hunseen
    obtain ⟨p, hp, hmem⟩ := TableView.mem_all.mp hrow
    exact stays_of_not_refreshed ht hwf₀ hwf hclean hp hmem fun href => hunseen ⟨p, hp, href, hmem⟩
  have hlost : ∀ r, v₀.record r ≠ none → v.record r = none → Vacated st₀ v dirty v.leaves r :=
    fun r hold hnone =>
      ((h.gone_iff r).mp ((h.gone_record ht hwf₀ hwf hclean r).mpr ⟨hold, hnone⟩)).1
  constructor
  · intro r
    rw [hpk]
    exact h.identities.of_view hr.identities hreach hseen hstay hlost r
  · intro r
    rw [hkept]
    exact h.records.of_view hr.records (keptRecord_reaches st₀) hseen hstay hlost r

end

end Ladybug.Sqlite
