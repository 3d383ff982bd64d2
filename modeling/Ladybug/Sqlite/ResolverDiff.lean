import Ladybug.Sqlite.ResolverFrames

/-!
# `fullDiff` and the rebuild of one table

Both load leaves into a fresh state.  A diff takes a page over when its recorded hash matches, and
emits as deletes the rows of the old pages that are on no page now.
-/

namespace Ladybug.Sqlite

open Bytes List Option

theorem decodeLeaf_ok {p : UInt32} {fetcher : PageFetcher} {pageSize : Nat}
    {rows : List DecodedRow} {hash : UInt64}
    (h : decodeLeaf p fetcher pageSize = .ok (rows, hash)) :
    ∃ image bytes, fetcher p = some image ∧ readSlice image 0 pageSize = .ok bytes ∧
      hash = hashImage bytes ∧
      decodeTableLeafPage image pageSize pageSize 0 1 fetcher = .ok rows := by
  unfold decodeLeaf at h
  cases hfetch : fetcher p with
  | none => rw [hfetch] at h; cases h
  | some image =>
    rw [hfetch] at h
    obtain ⟨bytes, hbytes, h⟩ := bind_eq_ok.mp h
    obtain ⟨rows', hrows, h⟩ := bind_eq_ok.mp h
    cases h
    exact ⟨image, bytes, rfl, hbytes, rfl, hrows⟩

section

variable (name : String) (old : Option TableState) (v : TableView) (hash : UInt32 → UInt64)

def unchangedPage (p : UInt32) : Option PageState :=
  (old.bind fun st => st.pages.lookup p).filter fun page => page.imageHash = hash p

def Changed (p : UInt32) : Prop := unchangedPage old hash p = none

instance (p : UInt32) : Decidable (Changed old hash p) :=
  inferInstanceAs (Decidable (_ = none))

def Loaded (done : List UInt32) (row : DecodedRow) : Prop := v.RowOn (Changed old hash) done row

/-- The loop after the leaves `done`, into a state with the flags of `base`. -/
structure Diffed (base : TableState) (ups₀ : List RowOp) (dels₀ : List RowDelete)
    (done : List UInt32) (w : Work) : Prop where
  upserts : w.upserts = ups₀ ++ rowOps name v (done.filter (Changed old hash))
  deletes : w.deletes = dels₀
  upserted : ∀ r, r ∈ w.upserted ↔ ∃ row, Loaded old v hash done row ∧ row.rowid = r
  pages : ∀ p, w.state.pages.lookup p = if p ∈ done then
      (unchangedPage old hash p).or (some (PageState.ofRows (v.rows p) (hash p)))
    else none
  frame : { w.state with
    pages := base.pages, identities := base.identities, records := base.records } = base
  identities : Kept base.pkValue (fun _ => none) (Loaded old v hash done) (fun _ => False)
    w.state.identities
  records : Kept base.keptRecord (fun _ => none) (Loaded old v hash done) (fun _ => False)
    w.state.records

variable {name old v hash} {base : TableState} {ups₀ : List RowOp} {dels₀ : List RowDelete}
  {done : List UInt32} {w : Work}

theorem Diffed.start (hpages : base.pages = ∅) (hids : base.identities = fun _ => none)
    (hrecs : base.records = fun _ => none) :
    Diffed name old v hash base ups₀ dels₀ [] ⟨base, ups₀, dels₀, []⟩ := by
  have hunloaded : ∀ row, ¬ Loaded old v hash [] row := by
    rintro row ⟨p, hp, -, -⟩
    cases hp
  have hkept {X : Type} (keep : List SqliteValue → Option X) :
      Kept keep (fun _ => none) (Loaded old v hash []) (fun _ => False) fun _ => none :=
    ⟨fun row x hrow _ => absurd hrow (hunloaded row), fun r _ h => h.elim, fun r _ _ => rfl,
      fun r x h => by cases h⟩
  constructor
  · simp [rowOps]
  · rfl
  · intro r
    simp only [not_mem_nil, false_iff]
    rintro ⟨row, hrow, -⟩
    exact hunloaded row hrow
  · intro p
    simp [hpages]
  · rfl
  · rw [hids]
    exact hkept _
  · rw [hrecs]
    exact hkept _

variable {p : UInt32}

section

variable (h : Diffed name old v hash base ups₀ dels₀ done w)

include h

theorem Diffed.take {page : PageState} (hp : unchangedPage old hash p = some page) :
    Diffed name old v hash base ups₀ dels₀ (done ++ [p])
      (w.setPages (w.state.pages.insert p page)) := by
  have hnot : ¬ Changed old hash p := by
    unfold Changed
    rw [hp]
    exact some_ne_none page
  have hloaded : Loaded old v hash (done ++ [p]) = Loaded old v hash done :=
    TableView.rowOn_append_of_not hnot
  constructor
  · rw [filter_append, filter_singleton, decide_eq_false hnot]
    simp [Work.setPages, h.upserts]
  · exact h.deletes
  · rw [hloaded]
    exact h.upserted
  · intro q
    simp only [Work.setPages]
    by_cases hq : q = p
    · subst hq
      rw [AList.lookup_insert, if_pos (by simp), hp, some_or]
    · rw [AList.lookup_insert_ne hq, h.pages q]
      simp [hq]
  · exact h.frame
  · rw [hloaded]
    exact h.identities
  · rw [hloaded]
    exact h.records

section

variable (hwf : v.Wf) (hsub : ∀ q ∈ done, q ∈ v.leaves) (hp : p ∈ v.leaves) (hdone : p ∉ done)

include hwf hsub hp hdone

theorem Diffed.load {fetcher : PageFetcher} {pageSize : Nat} (hchanged : Changed old hash p)
    (hdecode : decodeLeaf p fetcher pageSize = .ok (v.rows p, hash p)) :
    ∃ w', loadPage name fetcher pageSize w p = .ok w' ∧
      Diffed name old v hash base ups₀ dels₀ (done ++ [p]) w' := by
  obtain ⟨hpk, hkept⟩ := keep_of_frame h.frame
  have hother : ∀ row, Loaded old v hash done row →
      row.rowid ∉ (v.rows p).map DecodedRow.rowid := by
    rintro row ⟨q, hq, -, hrow⟩ hmem
    have heq := TableView.leaf_unique hwf (hsub q hq) hp (mem_map_of_mem hrow) hmem
    exact hdone (heq ▸ hq)
  have hstep {X : Type} {keep : List SqliteValue → Option X} {m : Int64 → Option X}
      (hm : Kept keep (fun _ => none) (Loaded old v hash done) (fun _ => False) m) :
      Kept keep (fun _ => none) (Loaded old v hash (done ++ [p])) (fun _ => False)
        ((v.rows p).foldl (keepRow keep) m) := by
    have hkeep : Kept keep (fun _ => none) (Loaded old v hash (done ++ [p])) (fun _ => False)
        (fun r => if r ∈ ([] : List Int64) then none else (v.rows p).foldl (keepRow keep) m r) :=
      hm.step (TableView.rowidsOn_nodup hwf hp) (TableView.rowOn_append hchanged) hother
        (fun r hr => by cases hr) (fun r hr => hr) (fun r hr => hr.elim)
    simpa only [not_mem_nil, if_false] using hkeep
  unfold loadPage
  rw [hdecode]
  refine ⟨_, rfl, ?_⟩
  simp only [Work.trackRows, Work.emitRows, Work.setPages, foldl_trackRow]
  constructor
  · rw [filter_append, filter_singleton, decide_eq_true hchanged, h.upserts]
    simp [rowOps]
  · exact h.deletes
  · intro r
    rw [mem_append, h.upserted r, List.mem_map]
    unfold Loaded
    simp only [TableView.rowOn_append hchanged]
    constructor
    · rintro (⟨row, hrow, heq⟩ | ⟨row, hrow, heq⟩)
      · exact ⟨row, .inl hrow, heq⟩
      · exact ⟨row, .inr hrow, heq⟩
    · rintro ⟨row, hrow | hrow, heq⟩
      · exact .inl ⟨row, hrow, heq⟩
      · exact .inr ⟨row, hrow, heq⟩
  · intro q
    by_cases hq : q = p
    · subst hq
      rw [AList.lookup_insert, if_pos (by simp), hchanged, none_or]
    · rw [AList.lookup_insert_ne hq, h.pages q]
      simp [hq]
  · exact h.frame
  · rw [hpk]
    exact hstep h.identities
  · rw [hkept]
    exact hstep h.records

theorem Diffed.diff {fetcher : PageFetcher} {pageSize : Nat}
    (hdecode : decodeLeaf p fetcher pageSize = .ok (v.rows p, hash p)) :
    ∃ w', diffLeaf name fetcher pageSize old w p = .ok w' ∧
      Diffed name old v hash base ups₀ dels₀ (done ++ [p]) w' := by
  obtain ⟨image, bytes, hfetch, hbytes, hhash, -⟩ := decodeLeaf_ok hdecode
  unfold diffLeaf
  rw [hfetch]
  simp only
  rw [hbytes]
  simp only [bind, Except.bind]
  cases hpage : old.bind fun st => st.pages.lookup p with
  | none =>
    exact h.load hwf hsub hp hdone (by rw [Changed, unchangedPage, hpage, filter_none])
      hdecode
  | some page =>
    simp only
    by_cases hsame : page.imageHash = hashImage bytes
    · rw [if_pos hsame]
      refine ⟨_, rfl, h.take ?_⟩
      rw [unchangedPage, hpage, filter_some, if_pos (by simp [hsame, hhash])]
    · rw [if_neg hsame]
      refine h.load hwf hsub hp hdone ?_ hdecode
      rw [Changed, unchangedPage, hpage, filter_some, if_neg (by simp [hhash, hsame])]

end

end

end

/-- A state loaded with every leaf of `v`. -/
structure Built (base : TableState) (v : TableView) (hash : UInt32 → UInt64) (st : TableState) :
    Prop where
  pages : ∀ p, st.pages.lookup p =
    if p ∈ v.leaves then some (PageState.ofRows (v.rows p) (hash p)) else none
  frame : { st with
    pages := base.pages, identities := base.identities, records := base.records } = base
  identities : Kept base.pkValue (fun _ => none) (· ∈ v.all) (fun _ => False) st.identities
  records : Kept base.keptRecord (fun _ => none) (· ∈ v.all) (fun _ => False) st.records

theorem changed_none (hash : UInt32 → UInt64) (p : UInt32) : Changed none hash p := rfl

variable {v : TableView} {hash : UInt32 → UInt64} {base st₀ : TableState} {fetcher : PageFetcher}
  {pageSize : Nat} {schema : TableSchema} {name : String} {w : Work} {st : TableState}
  {old : Option TableState} {acc : OpResolver × OpBatch}

theorem Diffed.built {ups₀ : List RowOp} {dels₀ : List RowDelete}
    (h : Diffed name none v hash base ups₀ dels₀ v.leaves w) :
    Built base v hash w.state ∧ w.upserts = ups₀ ++ rowOps name v v.leaves := by
  have hloaded : Loaded none v hash v.leaves = (· ∈ v.all) := by
    funext row
    unfold Loaded TableView.RowOn
    rw [TableView.mem_all]
    simp only [changed_none, true_and]
  have hids := h.identities
  have hrecs := h.records
  rw [hloaded] at hids hrecs
  refine ⟨⟨?_, h.frame, hids, hrecs⟩, ?_⟩
  · intro p
    rw [h.pages p]
    rfl
  · rw [h.upserts]
    congr 2
    rw [filter_eq_self]
    exact fun p _ => decide_eq_true (changed_none hash p)

theorem Built.tracks (h : Built base v hash st) : Tracks st v := by
  constructor
  · intro p
    rw [← AList.lookup_isSome, h.pages p]
    by_cases hp : p ∈ v.leaves
    · simp [hp]
    · simp [hp]
  · intro p page hpage r
    rw [h.pages p] at hpage
    split at hpage
    · cases hpage
      exact mem_dedup
    · cases hpage

theorem Built.retains (h : Built base v hash st) (hreach : ReachesPk base v) : Retains st v := by
  obtain ⟨hpk, hkept⟩ := keep_of_frame h.frame
  -- from the empty view: every row was loaded
  have hview {X : Type} {keep : List SqliteValue → Option X} {m : Int64 → Option X}
      (hm : Kept keep (fun _ => none) (· ∈ v.all) (fun _ => False) m)
      (hr : Reaches keep v) (r : Int64) :
      m r = (v.record r).bind keep := by
    have hempty : ∀ r : Int64, none = ((⟨[], fun _ => []⟩ : TableView).record r).bind keep :=
      fun _ => rfl
    exact hm.of_view hempty hr (fun _ h => h) (fun row hrow hnot => absurd hrow hnot)
      (fun r hne _ => absurd rfl hne) r
  constructor
  · intro r
    rw [hpk]
    exact hview h.identities (pkValue_reaches hreach) r
  · intro r
    rw [hkept]
    exact hview h.records (keptRecord_reaches base) r

def rebuildDeletes (name : String) (old : Option TableState) : List RowDelete :=
  match old with
  | some st => st.trackedRowids.map (rowDelete name st)
  | none => []

theorem emitOld_eq (hone : ∀ st ∈ old, OnePage st) (deletes : List RowDelete) :
    emitOld name old deletes = deletes ++ rebuildDeletes name old := by
  cases old with
  | none => exact (append_nil deletes).symm
  | some st =>
    have hemit := foldl_emitDelete name _ (trackedRowids_nodup (hone st rfl)) st deletes
    exact congrArg Prod.snd hemit

theorem rebuildTable_ok (acc : OpResolver × OpBatch)
    (hread : ReadsTable fetcher pageSize schema.rootPage v) (hwf : v.Wf)
    (hone : ∀ st ∈ old, OnePage st) :
    ∃ st₁, Built (TableState.ofSchema schema) v (leafHash fetcher pageSize) st₁ ∧
      rebuildTable fetcher pageSize schema old acc =
        .ok (OpResolver.setTable ⟨acc.1.tables.erase schema.name⟩ schema.name st₁, { acc.2 with
            upserts := acc.2.upserts ++ rowOps schema.name v v.leaves
            deletes := acc.2.deletes ++ rebuildDeletes schema.name old }) := by
  have hstart : Diffed schema.name none v (leafHash fetcher pageSize) (TableState.ofSchema schema)
      acc.2.upserts (acc.2.deletes ++ rebuildDeletes schema.name old) [] _ :=
    Diffed.start rfl rfl rfl
  obtain ⟨w, hrun, hw⟩ := foldlM_invariant _ hread.leaves_nodup (fun done w p hw hsub hp hdone =>
      hw.load hwf hsub hp hdone (changed_none _ p) (hread.decodeLeaf hp)) hstart
  obtain ⟨hbuilt, hups⟩ := hw.built
  refine ⟨w.state, hbuilt, ?_⟩
  unfold rebuildTable
  simp only [emitOld_eq hone]
  rw [hread.walk]
  simp only [bind, Except.bind]
  rw [hrun]
  simp only [Work.store]
  rw [hups, hw.deletes]

theorem diffTable_fresh {blind : Bool} (hrowid : schema.withoutRowid = false)
    (hold : comparableState acc.1 schema blind = none)
    (hread : ReadsTable fetcher pageSize schema.rootPage v) (hwf : v.Wf) :
    ∃ st₁, Built (TableState.ofSchema schema) v (leafHash fetcher pageSize) st₁ ∧
      diffTable fetcher pageSize blind schema acc = .ok (acc.1.setTable schema.name st₁,
        { acc.2 with upserts := acc.2.upserts ++ rowOps schema.name v v.leaves }) := by
  have hstart : Diffed schema.name none v (leafHash fetcher pageSize) (TableState.ofSchema schema)
      acc.2.upserts acc.2.deletes [] _ := Diffed.start rfl rfl rfl
  obtain ⟨w, hrun, hw⟩ := foldlM_invariant _ hread.leaves_nodup
    (fun done w p hw hsub hp hdone => hw.diff hwf hsub hp hdone (hread.decodeLeaf hp)) hstart
  obtain ⟨hbuilt, hups⟩ := hw.built
  refine ⟨w.state, hbuilt, ?_⟩
  unfold diffTable
  rw [if_neg (by rw [hrowid]; decide)]
  simp only [hold]
  rw [hread.walk]
  simp only [bind, Except.bind]
  rw [hrun]
  simp only [Work.store]
  rw [hups, hw.deletes]

structure Reconciled (base st₀ : TableState) (v : TableView) (hash : UInt32 → UInt64)
    (gone : List Int64) (st₁ : TableState) : Prop where
  nodup : gone.Nodup
  gone_iff : ∀ r, r ∈ gone ↔ (∃ p page, st₀.pages.lookup p = some page ∧ r ∈ page.rowids ∧
      ¬ ∃ page' ∈ st₁.pages.lookup p, r ∈ page'.rowids) ∧
    ∀ row, Loaded (some st₀) v hash v.leaves row → row.rowid ≠ r
  pages : ∀ p, st₁.pages.lookup p = if p ∈ v.leaves then
      (unchangedPage (some st₀) hash p).or (some (PageState.ofRows (v.rows p) (hash p)))
    else none
  frame : { st₁ with
    pages := base.pages, identities := base.identities, records := base.records } = base
  identities : Kept base.pkValue st₀.identities (Loaded (some st₀) v hash v.leaves) (· ∈ gone)
    st₁.identities
  records : Kept base.keptRecord st₀.records (Loaded (some st₀) v hash v.leaves) (· ∈ gone)
    st₁.records

theorem vanishedRows_nodup (hone : OnePage st₀) (w : Work) : (vanishedRows st₀ w).Nodup := by
  have hall := trackedRowids_nodup hone
  unfold TableState.trackedRowids at hall
  unfold vanishedRows
  rw [nodup_flatMap] at hall ⊢
  refine ⟨fun e _ => e.2.nodup.filter _, hall.2.imp ?_⟩
  intro e f hdisj r hre hrf
  exact hdisj (mem_of_mem_filter hre) (mem_of_mem_filter hrf)

theorem mem_vanishedRows {r : Int64} :
    r ∈ vanishedRows st₀ w ↔ (∃ p page, st₀.pages.lookup p = some page ∧ r ∈ page.rowids ∧
      ¬ ∃ page' ∈ w.state.pages.lookup p, r ∈ page'.rowids) ∧ r ∉ w.upserted := by
  unfold vanishedRows
  simp only [mem_flatMap, mem_filter, decide_eq_true_iff]
  constructor
  · rintro ⟨e, he, hr, hnot, hup⟩
    exact ⟨⟨e.1, e.2, entry_iff_lookup.mp he, hr, hnot⟩, hup⟩
  · rintro ⟨⟨p, page, hp, hr, hnot⟩, hup⟩
    exact ⟨⟨p, page⟩, entry_iff_lookup.mpr hp, hr, hnot, hup⟩

theorem Kept.carry {X : Type} {keep : List SqliteValue → Option X} {m m₀ : Int64 → Option X}
    {seen : DecodedRow → Prop} {gone : List Int64}
    (h : Kept keep (fun _ => none) seen (fun _ => False) m)
    (hgone : ∀ r ∈ gone, ∀ row, seen row → row.rowid ≠ r) :
    Kept keep m₀ seen (· ∈ gone) fun r => if r ∈ gone then none else (m r).or (m₀ r) := by
  constructor
  · intro row x hrow hk
    rw [if_neg fun hg => hgone _ hg row hrow rfl, h.set row x hrow hk, some_or]
  · exact fun r _ hr => if_pos hr
  · intro r hr hnot
    rw [if_neg hnot, h.same r hr not_false, none_or]
  · intro r x hx
    split at hx
    · cases hx
    rcases or_eq_some_iff.mp hx with hm | ⟨-, hold⟩
    · rcases h.source r x hm with hnone | hrow
      · cases hnone
      · exact .inr hrow
    · exact .inl hold

theorem diffTable_same {blind : Bool} (hrowid : schema.withoutRowid = false)
    (hold : comparableState acc.1 schema blind = some st₀)
    (hread : ReadsTable fetcher pageSize schema.rootPage v) (hwf : v.Wf) (hone : OnePage st₀) :
    ∃ st₁ gone, Reconciled (TableState.ofSchema schema) st₀ v (leafHash fetcher pageSize) gone st₁ ∧
      diffTable fetcher pageSize blind schema acc = .ok (acc.1.setTable schema.name st₁,
        { acc.2 with
          upserts := acc.2.upserts ++ rowOps schema.name v
            (v.leaves.filter (Changed (some st₀) (leafHash fetcher pageSize)))
          deletes := acc.2.deletes ++ gone.map (rowDelete schema.name st₀) }) := by
  have hstart : Diffed schema.name (some st₀) v (leafHash fetcher pageSize)
      (TableState.ofSchema schema) acc.2.upserts acc.2.deletes [] _ := Diffed.start rfl rfl rfl
  obtain ⟨w, hrun, hw⟩ := foldlM_invariant _ hread.leaves_nodup
    (fun done w p hw hsub hp hdone => hw.diff hwf hsub hp hdone (hread.decodeLeaf hp)) hstart
  have hunloaded : ∀ r ∈ vanishedRows st₀ w,
      ∀ row, Loaded (some st₀) v (leafHash fetcher pageSize) v.leaves row → row.rowid ≠ r :=
    fun r hr row hrow heq => (mem_vanishedRows.mp hr).2 ((hw.upserted r).mpr ⟨row, hrow, heq⟩)
  have hnodup := vanishedRows_nodup hone w
  have hpayload : (vanishedRows st₀ w).map (rowDelete schema.name (w.carry st₀).state) =
      (vanishedRows st₀ w).map (rowDelete schema.name st₀) := by
    apply map_congr_left
    intro r hr
    simp only [rowDelete, Work.carry, hw.identities.same r (hunloaded r hr) not_false,
      hw.records.same r (hunloaded r hr) not_false, none_or]
  refine ⟨((w.carry st₀).emitDeletes schema.name (vanishedRows st₀ w)).state,
    vanishedRows st₀ w, ?_, ?_⟩
  · rw [emitDeletes_eq _ _ hnodup]
    refine ⟨hnodup, ?_, hw.pages, hw.frame, hw.identities.carry hunloaded,
      hw.records.carry hunloaded⟩
    intro r
    rw [mem_vanishedRows, hw.upserted]
    refine and_congr Iff.rfl ?_
    constructor
    · exact fun hnot row hrow heq => hnot ⟨row, hrow, heq⟩
    · rintro hall ⟨row, hrow, heq⟩
      exact hall row hrow heq
  · unfold diffTable
    rw [if_neg (by rw [hrowid]; decide)]
    simp only [hold]
    rw [hread.walk]
    simp only [bind, Except.bind]
    rw [hrun]
    simp only [Work.store]
    rw [emitDeletes_eq _ _ hnodup, hpayload]
    simp only [Work.carry, hw.upserts, hw.deletes]

section

variable {base st₀ st₁ : TableState} {v₀ v : TableView} {hash : UInt32 → UInt64}
  {gone : List Int64}

def TakenOverAgree (st₀ : TableState) (v₀ v : TableView) (hash : UInt32 → UInt64) : Prop :=
  ∀ p ∈ v.leaves, ¬ Changed (some st₀) hash p → v₀.rows p = v.rows p

variable {p : UInt32}

theorem unchangedPage_some {page : PageState} (h : unchangedPage (some st₀) hash p = some page) :
    st₀.pages.lookup p = some page ∧ page.imageHash = hash p := by
  obtain ⟨hpage, hhash⟩ := filter_eq_some_iff.mp h
  exact ⟨hpage, of_decide_eq_true hhash⟩

theorem mem_leaves_of_not_changed (ht : Tracks st₀ v₀) (h : ¬ Changed (some st₀) hash p) :
    p ∈ v₀.leaves := by
  obtain ⟨page, hpage⟩ := ne_none_iff_exists'.mp h
  exact ht.mem_leaves (unchangedPage_some hpage).1

section

variable (h : Reconciled base st₀ v hash gone st₁) (ht : Tracks st₀ v₀) (hwf₀ : v₀.Wf) (hwf : v.Wf)
  (hsame : TakenOverAgree st₀ v₀ v hash)

include h ht hwf₀ hwf hsame

/-- A row on a leaf taken over was there before, is not among the deletes, and no loaded row has
its rowid. -/
theorem Reconciled.stays {row : DecodedRow} (hp : p ∈ v.leaves) (hrow : row ∈ v.rows p)
    (hnot : ¬ Changed (some st₀) hash p) :
    v₀.record row.rowid = some row.values ∧ row.rowid ∉ gone ∧
      ∀ row', Loaded (some st₀) v hash v.leaves row' → row'.rowid ≠ row.rowid := by
  have hp₀ := mem_leaves_of_not_changed ht hnot
  have hrow₀ : row ∈ v₀.rows p := hsame p hp hnot ▸ hrow
  refine ⟨TableView.record_of_mem hwf₀ (TableView.mem_all.mpr ⟨p, hp₀, hrow₀⟩), ?_, ?_⟩
  · intro hgone
    obtain ⟨⟨q, page, hq, hr, habsent⟩, -⟩ := (h.gone_iff _).mp hgone
    have heq := TableView.leaf_unique hwf₀ (ht.mem_leaves hq) hp₀
      ((ht.rowids_iff q page hq _).mp hr) (mem_map_of_mem hrow₀)
    subst heq
    obtain ⟨page', hpage'⟩ := ne_none_iff_exists'.mp hnot
    have hsamePage := (unchangedPage_some hpage').1
    rw [hq] at hsamePage
    apply habsent
    refine ⟨page', ?_, some.inj hsamePage ▸ hr⟩
    rw [h.pages q, if_pos hp, hpage', some_or]
    rfl
  · rintro row' ⟨q, hq, hchanged, hrow'⟩ heq
    have hmem : row.rowid ∈ v.rowidsOn q := heq ▸ mem_map_of_mem hrow'
    have hpq := TableView.leaf_unique hwf hp hq (mem_map_of_mem hrow) hmem
    exact hnot (hpq ▸ hchanged)

theorem Reconciled.gone_record (r : Int64) : r ∈ gone ↔ v₀.record r ≠ none ∧ v.record r = none := by
  constructor
  · intro hgone
    obtain ⟨⟨p, page, hp, hr, -⟩, hunloaded⟩ := (h.gone_iff r).mp hgone
    refine ⟨ht.record_isSome hp hr, ?_⟩
    by_contra hsome
    obtain ⟨a, ha⟩ := ne_none_iff_exists'.mp hsome
    obtain ⟨q, hq, hrow⟩ := TableView.mem_of_record ha
    by_cases hchanged : Changed (some st₀) hash q
    · exact hunloaded ⟨r, a⟩ ⟨q, hq, hchanged, hrow⟩ rfl
    · exact (h.stays ht hwf₀ hwf hsame hq hrow hchanged).2.1 hgone
  · rintro ⟨hold, hnone⟩
    have habsent : ∀ q ∈ v.leaves, r ∉ v.rowidsOn q :=
      fun q hq hr => TableView.record_isSome_iff.mpr ⟨q, hq, hr⟩ hnone
    rw [h.gone_iff]
    constructor
    · obtain ⟨p, page, hp, hr⟩ := ht.page_of_record hold
      refine ⟨p, page, hp, hr, ?_⟩
      rintro ⟨page', hpage', hr'⟩
      rw [h.pages p] at hpage'
      obtain ⟨hin, hpage'⟩ := ite_none_right_eq_some.mp hpage'
      cases hun : unchangedPage (some st₀) hash p with
      | none =>
        rw [hun] at hpage'
        cases hpage'
        exact habsent p hin (mem_dedup.mp hr')
      | some page'' =>
        have hnot : ¬ Changed (some st₀) hash p := by
          rw [Changed, hun]
          exact some_ne_none _
        apply habsent p hin
        unfold TableView.rowidsOn
        rw [← hsame p hin hnot]
        exact (ht.rowids_iff p page hp r).mp hr
    · rintro row ⟨q, hq, -, hrow⟩ rfl
      exact habsent q hq (mem_map_of_mem hrow)

end

end

end Ladybug.Sqlite
