import Ladybug.Base.Groups
import Ladybug.Sqlite.ResolverMemory
import Ladybug.Sqlite.ResolverReconcile

/-!
# Conflicts inside a batch

A batch is free of conflicts when no row is both upserted and deleted and none is deleted twice;
its two halves may then be applied in either order.  The rows a call gives up are those on the
pages that are gone or read again, less the rows read again; only the rebuilt-root branch of
`applyFrames` takes nothing back.
-/

namespace Ladybug.Sqlite

open Bytes List

/-! ## 1. Batches without conflicts -/

def OpBatch.upsertEntries (b : OpBatch) : List ((String × Int64) × List SqliteValue) :=
  b.upserts.map fun o => ((o.table, o.rowid), o.values)

def OpBatch.deleteKeys (b : OpBatch) : List (String × Int64) :=
  b.deletes.map fun d => (d.table, d.rowid)

structure OpBatch.ConflictFree (b : OpBatch) : Prop where
  apart : ∀ u ∈ b.upsertEntries, u.1 ∉ b.deleteKeys
  once : b.deleteKeys.Nodup

/-- Upserts before deletes and deletes before upserts give the same rows. -/
def OpBatch.OrderFree (b : OpBatch) : Prop :=
  ∀ m : String × Int64 → Option (List SqliteValue),
    setAll b.upsertEntries (eraseAll b.deleteKeys m) =
      eraseAll b.deleteKeys (setAll b.upsertEntries m)

variable {b : OpBatch} {n : String}

theorem OpBatch.ConflictFree.orderFree (h : b.ConflictFree) : b.OrderFree :=
  setAll_eraseAll_comm h.apart

def OpBatch.goneOf (b : OpBatch) (n : String) : List Int64 := (b.deletesOf n).map RowDelete.rowid

variable {x : Int64}

theorem mem_deleteKeys : (n, x) ∈ b.deleteKeys ↔ x ∈ b.goneOf n := by
  unfold OpBatch.deleteKeys OpBatch.goneOf OpBatch.deletesOf
  simp only [mem_map, mem_filter, decide_eq_true_eq, Prod.mk.injEq]
  constructor
  · rintro ⟨d, hd, htable, hrowid⟩
    exact ⟨d, ⟨hd, htable⟩, hrowid⟩
  · rintro ⟨d, ⟨hd, htable⟩, hrowid⟩
    exact ⟨d, hd, htable, hrowid⟩

theorem mem_upsertEntries_keys :
    (∃ u ∈ b.upsertEntries, u.1 = (n, x)) ↔ x ∈ (b.upsertsOf n).map Prod.fst := by
  unfold OpBatch.upsertEntries OpBatch.upsertsOf
  simp only [mem_map, mem_filter, decide_eq_true_eq]
  constructor
  · rintro ⟨u, ⟨o, ho, rfl⟩, hkey⟩
    exact ⟨o.entry, ⟨o, ⟨ho, congrArg Prod.fst hkey⟩, rfl⟩, congrArg Prod.snd hkey⟩
  · rintro ⟨e, ⟨o, ⟨ho, htable⟩, rfl⟩, hrowid⟩
    exact ⟨_, ⟨o, ho, rfl⟩, Prod.ext htable hrowid⟩

theorem conflictFree_iff_tables (b : OpBatch) : b.ConflictFree ↔ ∀ n,
      (∀ x ∈ (b.upsertsOf n).map Prod.fst, x ∉ b.goneOf n) ∧ (b.goneOf n).Nodup := by
  have honce : b.deleteKeys.Nodup ↔ ∀ n, (b.goneOf n).Nodup :=
    nodup_pairs_iff RowDelete.table RowDelete.rowid b.deletes
  constructor
  · intro h n
    refine ⟨fun x hx hgone => ?_, honce.mp h.once n⟩
    obtain ⟨u, hu, hkey⟩ := mem_upsertEntries_keys.mpr hx
    exact h.apart u hu (hkey ▸ mem_deleteKeys.mpr hgone)
  · intro h
    refine ⟨fun u hu hgone => ?_, honce.mpr fun n => (h n).2⟩
    exact (h u.1.1).1 u.1.2 (mem_upsertEntries_keys.mp ⟨u, hu, rfl⟩) (mem_deleteKeys.mp hgone)

/-! ## 2. What the steps give up -/

def Work.gone (name : String) (w : Work) : List Int64 :=
  (w.deletes.filter fun d => d.table = name).map RowDelete.rowid

variable (name : String) (w : Work)

theorem gone_emitDeletes (rowids : List Int64) :
    (w.emitDeletes name rowids).gone name = w.gone name ++ rowids := by
  unfold Work.emitDeletes Work.gone
  generalize w.deletes = dels
  generalize w.state = st
  induction rowids generalizing st dels with
  | nil => exact (append_nil _).symm
  | cons r rowids ih =>
    have hone : ([rowDelete name st r].filter fun d ↦ d.table = name).map RowDelete.rowid = [r] := by
      have htable : (rowDelete name st r).table = name := rfl
      rw [filter_singleton, decide_eq_true htable]
      rfl
    rw [foldl_cons, emitDelete, ih, filter_append, map_append, hone, append_assoc]
    rfl

theorem trackedRowids_eq (st : TableState) :
    st.trackedRowids = st.pages.entries.keys.flatMap (trackedOn st) := by
  unfold TableState.trackedRowids keys
  rw [flatMap_map]
  apply flatMap_congr
  intro e he
  unfold trackedOn
  rw [entry_iff_lookup.mp he]

theorem trackedRowids_nodup_iff (st : TableState) : st.trackedRowids.Nodup ↔ OnePage st := by
  constructor
  · intro h p q page page' x hp hq hx hx'
    rw [trackedRowids_eq, nodup_gathered_iff st.pages.nodupKeys
      fun p _ => trackedOn_nodup st p] at h
    by_contra hne
    have hmem {p : UInt32} {page : PageState} (hp : st.pages.lookup p = some page) :
        p ∈ st.pages.entries.keys := mem_map_of_mem (entry_iff_lookup.mpr hp)
    exact h p (hmem hp) q (hmem hq) hne x (mem_trackedOn.mpr ⟨page, hp, hx⟩)
      (mem_trackedOn.mpr ⟨page', hq, hx'⟩)
  · exact trackedRowids_nodup

theorem goneOf_tableDeletes (n : String) (st : TableState) :
    (tableDeletes n st).map RowDelete.rowid = st.trackedRowids := by
  have h := gone_emitDeletes n ⟨st, [], [], []⟩ st.trackedRowids
  have hall : (tableDeletes n st).filter (fun d => d.table = n) = tableDeletes n st :=
    filter_eq_self.mpr fun d hd => decide_eq_true (tableDeletes_table d hd)
  rw [← hall]
  exact h

theorem gone_retract : (w.retract name).gone name = (w.gone name).filter (· ∉ w.upserted) := by
  unfold Work.gone
  rw [filter_map]
  congr 1
  unfold Work.retract
  simp only [filter_filter]
  apply filter_congr
  intro d _
  by_cases htable : d.table = name <;> by_cases hups : d.rowid ∈ w.upserted <;> simp [htable, hups]

def Work.made (name : String) (w : Work) : List Int64 :=
  (w.upserts.filter fun o => o.table = name).map RowOp.rowid

theorem made_append (rows : List DecodedRow) {w' : Work}
    (h : w'.upserts = w.upserts ++ rows.map (rowOp name)) :
    w'.made name = w.made name ++ rows.map DecodedRow.rowid := by
  unfold Work.made
  have hall : (rows.map (rowOp name)).filter (fun o => o.table = name) = rows.map (rowOp name) := by
    apply filter_eq_self.mpr
    intro o ho
    obtain ⟨row, -, rfl⟩ := mem_map.mp ho
    exact decide_eq_true rfl
  rw [h, filter_append, map_append, hall, map_map]
  rfl

theorem filter_notMem_append (l U N : List Int64) :
    l.filter (· ∉ U ++ N) = (l.filter (· ∉ U)).filter (· ∉ N) := by
  rw [filter_filter]
  apply filter_congr
  intro x _
  by_cases hU : x ∈ U <;> by_cases hN : x ∈ N <;> simp [hU, hN]

/-! ## 3. The leaf loops -/

section

variable {name : String} {st : TableState} {f : PageFetcher} {size : Nat} {leaves : List UInt32}
  {acc acc' : OpResolver × OpBatch}

def RowRead (f : PageFetcher) (size : Nat) (reread : UInt32 → Prop) (done : List UInt32)
    (x : Int64) : Prop :=
  ∃ p ∈ done, reread p ∧ ∃ decoded, decodeLeaf p f size = .ok decoded ∧
    x ∈ decoded.1.map DecodedRow.rowid

variable {reread : UInt32 → Prop} {done dirty : List UInt32} {p : UInt32} {w w' : Work}
  {s : TableSchema}

theorem rowRead_append_of_not (hp : ¬ reread p) (x : Int64) :
    RowRead f size reread (done ++ [p]) x ↔ RowRead f size reread done x := by
  unfold RowRead
  simp only [mem_append, mem_singleton]
  constructor
  · rintro ⟨q, hq | rfl, href, hrow⟩
    · exact ⟨q, hq, href, hrow⟩
    · exact absurd href hp
  · rintro ⟨q, hq, href, hrow⟩
    exact ⟨q, .inl hq, href, hrow⟩

variable {decoded : List DecodedRow × UInt64} {x : Int64}

theorem rowRead_append (hp : reread p) (hdecode : decodeLeaf p f size = .ok decoded) (x : Int64) :
    RowRead f size reread (done ++ [p]) x ↔
      RowRead f size reread done x ∨ x ∈ decoded.1.map DecodedRow.rowid := by
  unfold RowRead
  simp only [mem_append, mem_singleton]
  constructor
  · rintro ⟨q, hq | rfl, href, decoded', hdecode', hx⟩
    · exact .inl ⟨q, hq, href, decoded', hdecode', hx⟩
    · rw [hdecode] at hdecode'
      cases hdecode'
      exact .inr hx
  · rintro (⟨q, hq, href, hrow⟩ | hx)
    · exact ⟨q, .inl hq, href, hrow⟩
    · exact ⟨p, .inr rfl, hp, decoded, hdecode, hx⟩

/-- The rows upserted so far are those read. -/
structure Upserts (name : String) (f : PageFetcher) (size : Nat) (reread : UInt32 → Prop)
    (done : List UInt32) (w : Work) : Prop where
  upserted : ∀ x, x ∈ w.upserted ↔ RowRead f size reread done x
  made : ∀ x, x ∈ w.made name ↔ x ∈ w.upserted

theorem Upserts.skip (h : Upserts name f size reread done w) (hp : ¬ reread p)
    (hups : w'.upserts = w.upserts) (hupserted : w'.upserted = w.upserted) :
    Upserts name f size reread (done ++ [p]) w' := by
  constructor
  · intro x
    rw [rowRead_append_of_not hp, hupserted]
    exact h.upserted x
  · intro x
    have hmade : w'.made name = w.made name := by
      unfold Work.made
      rw [hups]
    rw [hmade, hupserted]
    exact h.made x

theorem Upserts.read (h : Upserts name f size reread done w) (hp : reread p)
    (hdecode : decodeLeaf p f size = .ok decoded)
    (hups : w'.upserts = w.upserts ++ decoded.1.map (rowOp name))
    (hupserted : w'.upserted = w.upserted ++ decoded.1.map DecodedRow.rowid) :
    Upserts name f size reread (done ++ [p]) w' := by
  constructor
  · intro x
    rw [rowRead_append hp hdecode, hupserted, mem_append, h.upserted x]
  · intro x
    rw [made_append name w decoded.1 hups, hupserted, mem_append, mem_append, h.made x]

/-- The loop of `applyFrames` after the leaves `done`: what it has deleted, up to the rows that
the retraction takes back. -/
structure GivingUp (name : String) (st : TableState) (f : PageFetcher) (size : Nat)
    (dirty leaves : List UInt32) (done : List UInt32) (w : Work) : Prop where
  upserts : Upserts name f size (Refreshed st dirty) done w
  gone : (w.gone name).filter (· ∉ w.upserted) = (removedRowids leaves st.pages.entries ++
      (done.filter (Refreshed st dirty)).flatMap (trackedOn st)).filter (· ∉ w.upserted)
  pages : ∀ p ∈ leaves, p ∉ done → w.state.pages.lookup p = st.pages.lookup p

theorem visitLeaf_reads (hpages : w.state.pages.lookup p = st.pages.lookup p)
    (h : visitLeaf name dirty f size w p = .ok w') :
    (¬ Refreshed st dirty p ∧ w' = w) ∨ (Refreshed st dirty p ∧
      ∃ decoded, decodeLeaf p f size = .ok decoded ∧
        w' = refreshLeaf name p (trackedOn st p) decoded w) := by
  unfold visitLeaf at h
  rw [hpages] at h
  cases hst : st.pages.lookup p with
  | some page =>
    have hold : trackedOn st p = page.rowids := by simp only [trackedOn, hst]
    have htracked : p ∈ st.pages := by
      rw [← AList.lookup_isSome, hst]
      rfl
    rw [hst] at h
    simp only at h
    by_cases hclean : p ∉ dirty
    · rw [if_pos hclean] at h
      cases h
      refine .inl ⟨fun href => ?_, rfl⟩
      rcases href with hnew | hdirty
      · exact hnew htracked
      · exact hclean hdirty
    · rw [if_neg hclean] at h
      cases hdecode : decodeLeaf p f size with
      | error stop => rw [hdecode] at h; cases h
      | ok decoded =>
        rw [hdecode] at h
        cases h
        exact .inr ⟨.inr (not_not.mp hclean), decoded, rfl, by rw [hold]⟩
  | none =>
    have hold : trackedOn st p = [] := by simp only [trackedOn, hst]
    rw [hst] at h
    cases hdecode : decodeLeaf p f size with
    | error stop => rw [hdecode] at h; cases h
    | ok decoded =>
      rw [hdecode] at h
      cases h
      exact .inr ⟨.inl (AList.lookup_eq_none.mp hst), decoded, rfl, by rw [hold]⟩

theorem GivingUp.visit {dirty done : List UInt32} {w w' : Work} {p : UInt32}
    (h : GivingUp name st f size dirty leaves done w) (hp : p ∈ leaves) (hdone : p ∉ done)
    (hvisit : visitLeaf name dirty f size w p = .ok w') :
    GivingUp name st f size dirty leaves (done ++ [p]) w' := by
  rcases visitLeaf_reads (h.pages p hp hdone) hvisit with
    ⟨hclean, rfl⟩ | ⟨href, decoded, hdecode, rfl⟩
  · constructor
    · exact h.upserts.skip hclean rfl rfl
    · have hfilter : (done ++ [p]).filter (Refreshed st dirty ·) =
          done.filter (Refreshed st dirty ·) := by
        rw [filter_append, filter_singleton, decide_eq_false hclean]
        exact append_nil _
      rw [hfilter]
      exact h.gone
    · intro q hq hqdone
      exact h.pages q hq fun hin => hqdone (mem_append_left _ hin)
  · rw [refreshLeaf_eq name p (trackedOn_nodup st p)]
    constructor
    · exact h.upserts.read href hdecode rfl rfl
    · have hdels : Work.gone name { w with
          deletes := w.deletes ++ (leaving (trackedOn st p) decoded.1 w).map
            (rowDelete name w.state) } =
          w.gone name ++ leaving (trackedOn st p) decoded.1 w := by
        unfold Work.gone
        have hall : ((leaving (trackedOn st p) decoded.1 w).map (rowDelete name w.state)).filter
            (fun d => d.table = name) =
            (leaving (trackedOn st p) decoded.1 w).map (rowDelete name w.state) :=
          filter_eq_self.mpr fun d hd =>
            decide_eq_true (rowDelete_table w.state _ d hd)
        rw [filter_append, map_append, hall, map_map]
        congr 1
        exact map_id _
      -- a row that is not read again left this page, unless it was read before
      have hleaving : (leaving (trackedOn st p) decoded.1 w).filter
          (· ∉ w.upserted ++ decoded.1.map DecodedRow.rowid) =
          (trackedOn st p).filter (· ∉ w.upserted ++ decoded.1.map DecodedRow.rowid) := by
        unfold leaving
        rw [filter_filter]
        apply filter_congr
        intro x _
        by_cases hU : x ∈ w.upserted <;> by_cases hN : x ∈ decoded.1.map DecodedRow.rowid <;>
          simp [hU, hN]
      show (Work.gone name { w with
          deletes := w.deletes ++ (leaving (trackedOn st p) decoded.1 w).map
            (rowDelete name w.state) }).filter
          (· ∉ w.upserted ++ decoded.1.map DecodedRow.rowid) = filter
        (· ∉ w.upserted ++ decoded.1.map DecodedRow.rowid) _
      have hfilter : (done ++ [p]).filter (Refreshed st dirty ·) =
          done.filter (Refreshed st dirty ·) ++ [p] := by
        rw [filter_append, filter_singleton, decide_eq_true href]
        rfl
      rw [hdels, filter_append, hleaving, filter_notMem_append, h.gone,
        ← filter_notMem_append, ← filter_append, append_assoc, hfilter,
        flatMap_append, flatMap_singleton]
    · intro q hq hqdone
      have hne : q ≠ p := fun heq => hqdone (mem_append_right _ (heq ▸ mem_cons_self))
      rw [AList.lookup_insert_ne hne]
      exact h.pages q hq fun hin => hqdone (mem_append_left _ hin)

/-- The pages a call gives up: those gone, and those read again. -/
def pagesGivenUp (st : TableState) (reread : UInt32 → Prop) [DecidablePred reread]
    (leaves : List UInt32) : List UInt32 :=
  st.pages.entries.keys.filter (· ∉ leaves) ++ leaves.filter (reread ·)

theorem GivingUp.start (hups : acc.2.upsertsOf name = []) (hdels : acc.2.deletesOf name = [])
    (dirty : List UInt32) :
    GivingUp name st f size dirty leaves []
      (st.pages.entries.foldl (removePage name leaves) ⟨st, acc.2.upserts, acc.2.deletes, []⟩) := by
  rw [foldl_removePage name leaves _ _ rfl]
  constructor
  · constructor
    · intro x
      apply iff_of_false not_mem_nil
      rintro ⟨p, hp, -⟩
      cases hp
    · intro x
      have hnone : Work.made name ⟨st, acc.2.upserts, acc.2.deletes, []⟩ = [] := by
        have h := congrArg (map Prod.fst) hups
        unfold OpBatch.upsertsOf at h
        rw [map_map] at h
        exact h
      show x ∈ Work.made name ⟨st, acc.2.upserts, acc.2.deletes, []⟩ ↔ x ∈ []
      rw [hnone]
  · have hnone : Work.gone name ⟨st, acc.2.upserts, acc.2.deletes, []⟩ = [] :=
      congrArg (map RowDelete.rowid) hdels
    have hgone := gone_emitDeletes name ⟨st, acc.2.upserts, acc.2.deletes, []⟩
      (removedRowids leaves st.pages.entries)
    rw [hnone, nil_append] at hgone
    show (Work.gone name (Work.emitDeletes name _ _)).filter _ = (_ ++ []).filter _
    rw [hgone, append_nil]
  · intro p hp _
    show (keptPages leaves st.pages.entries st.pages).lookup p = _
    rw [lookup_keptPages, if_neg fun h => h.2 hp]

theorem removedRowids_eq (st : TableState) (leaves : List UInt32) :
    removedRowids leaves st.pages.entries =
      (st.pages.entries.keys.filter (· ∉ leaves)).flatMap (trackedOn st) := by
  have hentry : ∀ e ∈ st.pages.entries, trackedOn st e.1 = e.2.rowids := by
    intro e he
    unfold trackedOn
    rw [entry_iff_lookup.mp he]
  unfold removedRowids keys
  generalize st.pages.entries = es at hentry
  induction es with
  | nil => rfl
  | cons e es ih =>
    have hrest := ih fun e' he' => hentry e' (mem_cons_of_mem e he')
    rw [flatMap_cons, map_cons, filter_cons, hrest]
    by_cases he : e.1 ∈ leaves
    · simp [he]
    · simp [he, hentry e mem_cons_self]

theorem updateTable_gives (h : updateTable dirty f size s st acc = .ok acc')
    (hups : acc.2.upsertsOf s.name = []) (hdels : acc.2.deletesOf s.name = []) :
    ∃ (leaves : List UInt32) (U : List Int64), collectLeafPages s.rootPage f size = .ok leaves ∧
      (∀ x, x ∈ U ↔ RowRead f size (Refreshed st dirty) leaves x) ∧
      (∀ x, x ∈ (acc'.2.upsertsOf s.name).map Prod.fst ↔ x ∈ U) ∧
      acc'.2.goneOf s.name =
        ((pagesGivenUp st (Refreshed st dirty) leaves).flatMap (trackedOn st)).filter (· ∉ U) := by
  unfold updateTable at h
  cases hleaves : collectLeafPages s.rootPage f size with
  | error stop => rw [hleaves] at h; cases h
  | ok leaves =>
    rw [hleaves] at h
    simp only at h
    split at h
    next w hrun =>
      cases h
      have hw : GivingUp s.name st f size dirty leaves leaves w :=
        foldlM_ok_invariant (GivingUp s.name st f size dirty leaves)
          (collectLeafPages_nodup hleaves)
          (fun _ _ _ _ hinv hp hdone hvisit => hinv.visit hp hdone hvisit) hrun
          (.start hups hdels dirty)
      refine ⟨leaves, w.upserted, rfl, hw.upserts.upserted, ?_, ?_⟩
      · intro x
        rw [← hw.upserts.made x]
        show x ∈ ((w.upserts.filter fun o => o.table = s.name).map RowOp.entry).map Prod.fst ↔ _
        rw [map_map]
        rfl
      · show (w.retract s.name).gone s.name = _
        rw [gone_retract, hw.gone, removedRowids_eq, pagesGivenUp, flatMap_append]
    · cases h

theorem upserts_start (hups : acc.2.upsertsOf name = []) (reread : UInt32 → Prop)
    (base : TableState) (dels : List RowDelete) :
    Upserts name f size reread [] ⟨base, acc.2.upserts, dels, []⟩ := by
  constructor
  · intro x
    apply iff_of_false not_mem_nil
    rintro ⟨p, hp, -⟩
    cases hp
  · intro x
    have hnone : Work.made name ⟨base, acc.2.upserts, dels, []⟩ = [] := by
      have h := congrArg (map Prod.fst) hups
      unfold OpBatch.upsertsOf at h
      rw [map_map] at h
      exact h
    rw [hnone]

theorem mem_upsertsOf_store (r : OpResolver) (b : OpBatch) (x : Int64) :
    x ∈ ((w.store name (r, b)).2.upsertsOf name).map Prod.fst ↔ x ∈ w.made name := by
  show x ∈ ((w.upserts.filter fun o => o.table = name).map RowOp.entry).map Prod.fst ↔ _
  rw [map_map]
  rfl

theorem rebuildTable_gives {old : Option TableState} (h : rebuildTable f size s old acc = .ok acc')
    (hups : acc.2.upsertsOf s.name = []) (hdels : acc.2.deletesOf s.name = []) :
    ∃ leaves, collectLeafPages s.rootPage f size = .ok leaves ∧
      (∀ x, x ∈ (acc'.2.upsertsOf s.name).map Prod.fst ↔ RowRead f size (fun _ => True) leaves x) ∧
      acc'.2.goneOf s.name = (old.map TableState.trackedRowids).getD [] := by
  have hnone : acc.2.goneOf s.name = [] := congrArg (map RowDelete.rowid) hdels
  have hold : ((emitOld s.name old acc.2.deletes).filter fun d => d.table = s.name).map
      RowDelete.rowid = (old.map TableState.trackedRowids).getD [] := by
    cases old with
    | none => exact hnone
    | some st =>
      show ((emitTable s.name st acc.2.deletes).2.filter fun d => d.table = s.name).map
        RowDelete.rowid = st.trackedRowids
      have htable : (tableDeletes s.name st).filter (fun d => d.table = s.name) =
          tableDeletes s.name st :=
        filter_eq_self.mpr fun d hd => decide_eq_true (tableDeletes_table d hd)
      rw [emitTable_deletes, filter_append, map_append, htable, goneOf_tableDeletes]
      show acc.2.goneOf s.name ++ _ = _
      rw [hnone, nil_append]
  unfold rebuildTable at h
  simp only at h
  split at h
  next w hrun =>
    cases h
    obtain ⟨leaves, hleaves, hrun⟩ := bind_eq_ok.mp hrun
    have hkeeps := foldlM_keeps Work.deletes (fun _ _ _ => loadPage_deletes) hrun
    have hw : Upserts s.name f size (fun _ => True) leaves w :=
      foldlM_ok_invariant (Upserts s.name f size fun _ => True) (collectLeafPages_nodup hleaves)
        (fun _ _ _ _ hinv _ _ hload => by
          obtain ⟨decoded, hdecode, hload⟩ := bind_eq_ok.mp hload
          cases hload
          exact hinv.read trivial hdecode rfl rfl) hrun (upserts_start hups _ _ _)
    refine ⟨leaves, hleaves, fun x => ?_, ?_⟩
    · rw [mem_upsertsOf_store, hw.made x, hw.upserted x]
    · show (w.deletes.filter fun d => d.table = s.name).map RowDelete.rowid = _
      rw [hkeeps]
      exact hold
  · cases h

/-- A full diff takes page `p` over: it has the recorded hash. -/
def hashKept (st : TableState) (f : PageFetcher) (size : Nat) (p : UInt32) : Bool :=
  match st.pages.lookup p, f p with
  | some page, some image =>
    match readSlice image 0 size with
    | .ok bytes => page.imageHash = hashImage bytes
    | .error _ => false
  | _, _ => false

def HashDiffers (st : TableState) (f : PageFetcher) (size : Nat) (p : UInt32) : Prop :=
  hashKept st f size p = false

theorem diffLeaf_reads (h : diffLeaf name f size (some st) w p = .ok w') :
    (¬ HashDiffers st f size p ∧ ∃ page, st.pages.lookup p = some page ∧
      w' = w.setPages (w.state.pages.insert p page)) ∨
    (HashDiffers st f size p ∧ loadPage name f size w p = .ok w') := by
  unfold diffLeaf at h
  unfold HashDiffers hashKept
  cases himage : f p with
  | none => rw [himage] at h; cases h
  | some image =>
    rw [himage] at h
    obtain ⟨bytes, hbytes, h⟩ := bind_eq_ok.mp h
    simp only [Option.bind_some] at h
    cases hst : st.pages.lookup p with
    | none =>
      rw [hst] at h
      exact .inr ⟨rfl, h⟩
    | some page =>
      rw [hst] at h
      simp only [hbytes] at h ⊢
      by_cases hhash : page.imageHash = hashImage bytes
      · rw [if_pos hhash] at h
        cases h
        exact .inl ⟨by simp [hhash], page, rfl, rfl⟩
      · rw [if_neg hhash] at h
        exact .inr ⟨by simp [hhash], h⟩

/-- The loop of a diff after the leaves `done`: the rows on the pages of the new state. -/
structure Comparing (name : String) (st : TableState) (f : PageFetcher) (size : Nat)
    (done : List UInt32) (w : Work) : Prop where
  upserts : Upserts name f size (HashDiffers st f size) done w
  pages : ∀ p x, x ∈ trackedOn w.state p ↔ p ∈ done ∧
    ((¬ HashDiffers st f size p ∧ x ∈ trackedOn st p) ∨
      (HashDiffers st f size p ∧ ∃ decoded, decodeLeaf p f size = .ok decoded ∧
        x ∈ decoded.1.map DecodedRow.rowid))

theorem Comparing.diff (h : Comparing name st f size done w) (hdone : p ∉ done)
    (hdiff : diffLeaf name f size (some st) w p = .ok w') :
    Comparing name st f size (done ++ [p]) w' := by
  rcases diffLeaf_reads hdiff with ⟨hsame, page, hpage, rfl⟩ | ⟨hdiffers, hload⟩
  · refine ⟨h.upserts.skip hsame rfl rfl, fun q x => ?_⟩
    by_cases hq : q = p
    · subst hq
      have hold : trackedOn st q = page.rowids := by simp only [trackedOn, hpage]
      rw [trackedOn_insert_self rfl, hold]
      simp [hsame]
    · rw [trackedOn_insert_ne rfl hq, h.pages q x]
      simp [hq]
  · obtain ⟨decoded, hdecode, hload⟩ := bind_eq_ok.mp hload
    cases hload
    refine ⟨h.upserts.read hdiffers hdecode rfl rfl, fun q x => ?_⟩
    have hpages : (((w.trackRows decoded.1).emitRows name decoded.1).setPages
        (((w.trackRows decoded.1).emitRows name decoded.1).state.pages.insert p
          (PageState.ofRows decoded.1 decoded.2))).state.pages =
        w.state.pages.insert p (PageState.ofRows decoded.1 decoded.2) := by
      simp only [Work.setPages, Work.emitRows, Work.trackRows, foldl_trackRow]
    by_cases hq : q = p
    · subst hq
      rw [trackedOn_insert_self hpages, mem_ofRows_rowids]
      simp [hdiffers, hdecode]
    · rw [trackedOn_insert_ne hpages hq, h.pages q x]
      simp [hq]

theorem mem_vanished_iff (h : Comparing name st f size leaves w) {page : PageState}
    (hpage : st.pages.lookup p = some page) (hx : x ∈ page.rowids) :
    (¬ (∃ page' ∈ w.state.pages.lookup p, x ∈ page'.rowids) ∧ x ∉ w.upserted) ↔
      (p ∉ leaves ∨ HashDiffers st f size p) ∧ x ∉ w.upserted := by
  have hold : x ∈ trackedOn st p := mem_trackedOn.mpr ⟨page, hpage, hx⟩
  have hnow : (∃ page' ∈ w.state.pages.lookup p, x ∈ page'.rowids) ↔ x ∈ trackedOn w.state p :=
    mem_trackedOn.symm
  rw [hnow, h.pages p x]
  constructor
  · rintro ⟨hgone, hups⟩
    refine ⟨?_, hups⟩
    by_contra hkept
    rw [not_or, not_not] at hkept
    exact hgone ⟨hkept.1, .inl ⟨hkept.2, hold⟩⟩
  · rintro ⟨hgone, hups⟩
    refine ⟨?_, hups⟩
    rintro ⟨hleaf, ⟨hkept, -⟩ | ⟨hdiffers, hread⟩⟩
    · exact hgone.elim (absurd hleaf) (absurd · hkept)
    · -- a row on a page read again is upserted
      exact hups ((h.upserts.upserted x).mpr ⟨p, hleaf, hdiffers, hread⟩)

theorem diffTable_gives (hst : acc.1.tables.lookup s.name = some st)
    (hroot : st.rootPage = s.rootPage) (hrowid : s.withoutRowid = false)
    (h : diffTable f size false s acc = .ok acc') (hups : acc.2.upsertsOf s.name = [])
    (hdels : acc.2.deletesOf s.name = []) :
    ∃ (leaves : List UInt32) (w : Work), collectLeafPages s.rootPage f size = .ok leaves ∧
      Comparing s.name st f size leaves w ∧
      (∀ x, x ∈ (acc'.2.upsertsOf s.name).map Prod.fst ↔ x ∈ w.upserted) ∧
      acc'.2.goneOf s.name = vanishedRows st w := by
  unfold diffTable at h
  rw [if_neg (by rw [hrowid]; decide), comparableState_same hst hroot] at h
  simp only at h
  split at h
  · cases h
  next w hrun =>
    cases h
    obtain ⟨leaves, hleaves, hrun⟩ := bind_eq_ok.mp hrun
    have hkeeps := foldlM_keeps Work.deletes (fun _ _ _ => diffLeaf_deletes) hrun
    have hstart : Comparing s.name st f size []
        ⟨TableState.ofSchema s, acc.2.upserts, acc.2.deletes, []⟩ := by
      refine ⟨upserts_start hups _ _ _, fun p x => ?_⟩
      apply iff_of_false
      · intro hx
        obtain ⟨page, hpage, -⟩ := mem_trackedOn.mp hx
        cases hpage
      · rintro ⟨hp, -⟩
        cases hp
    have hw : Comparing s.name st f size leaves w :=
      foldlM_ok_invariant (Comparing s.name st f size) (collectLeafPages_nodup hleaves)
        (fun _ _ _ _ hinv _ hdone hdiff => hinv.diff hdone hdiff) hrun hstart
    refine ⟨leaves, w, hleaves, hw, fun x => ?_, ?_⟩
    · rw [mem_upsertsOf_store]
      exact hw.upserts.made x
    · show ((w.carry st).emitDeletes s.name (vanishedRows st w)).gone s.name = _
      rw [gone_emitDeletes]
      show (w.deletes.filter fun d => d.table = s.name).map RowDelete.rowid ++ _ = _
      rw [hkeeps]
      show acc.2.goneOf s.name ++ _ = _
      have hnone : acc.2.goneOf s.name = [] := congrArg (map RowDelete.rowid) hdels
      rw [hnone, nil_append]

theorem diffTable_gives_nothing {blind : Bool} (hold : comparableState acc.1 s blind = none)
    (hrowid : s.withoutRowid = false) (h : diffTable f size blind s acc = .ok acc')
    (hdels : acc.2.deletesOf s.name = []) : acc'.2.goneOf s.name = [] := by
  unfold diffTable at h
  rw [if_neg (by rw [hrowid]; decide), hold] at h
  simp only at h
  split at h
  · cases h
  next w hrun =>
    cases h
    obtain ⟨leaves, hleaves, hrun⟩ := bind_eq_ok.mp hrun
    have hkeeps := foldlM_keeps Work.deletes (fun _ _ _ => diffLeaf_deletes) hrun
    show (w.deletes.filter fun d => d.table = s.name).map RowDelete.rowid = _
    rw [hkeeps]
    exact congrArg (map RowDelete.rowid) hdels

/-! ## 4. Rows given up once -/

/-- A row on two pages that are gone or read again is read again itself. -/
def GivenUpOnce (st : TableState) (root : UInt32) (f : PageFetcher) (size : Nat)
    (reread : UInt32 → Prop) : Prop :=
  ∀ leaves, collectLeafPages root f size = .ok leaves → ∀ p q x, p ≠ q → x ∈ trackedOn st p →
    x ∈ trackedOn st q → (p ∉ leaves ∨ reread p) → (q ∉ leaves ∨ reread q) →
    RowRead f size reread leaves x

theorem mem_pagesGivenUp [DecidablePred reread] (hx : x ∈ trackedOn st p) :
    p ∈ pagesGivenUp st reread leaves ↔ p ∉ leaves ∨ reread p := by
  obtain ⟨page, hpage, -⟩ := mem_trackedOn.mp hx
  have hkey : p ∈ st.pages.entries.keys := mem_map_of_mem (entry_iff_lookup.mpr hpage)
  unfold pagesGivenUp
  rw [mem_append, mem_filter, mem_filter, decide_eq_true_iff, decide_eq_true_iff,
    and_iff_right hkey]
  constructor
  · rintro (hgone | ⟨-, href⟩)
    · exact .inl hgone
    · exact .inr href
  · rintro (hgone | href)
    · exact .inl hgone
    · by_cases hleaf : p ∈ leaves
      · exact .inr ⟨hleaf, href⟩
      · exact .inl hleaf

theorem pagesGivenUp_nodup [DecidablePred reread] (hleaves : leaves.Nodup) :
    (pagesGivenUp st reread leaves).Nodup := by
  refine nodup_append.mpr ⟨st.pages.nodupKeys.filter _, hleaves.filter _, ?_⟩
  rintro p hp _ hq rfl
  exact (of_decide_eq_true (mem_filter.mp hp).2) (mem_filter.mp hq).1

theorem updateTable_conflictFree_iff (h : updateTable dirty f size s st acc = .ok acc')
    (hups : acc.2.upsertsOf s.name = []) (hdels : acc.2.deletesOf s.name = []) :
    ((∀ x ∈ (acc'.2.upsertsOf s.name).map Prod.fst, x ∉ acc'.2.goneOf s.name) ∧
        (acc'.2.goneOf s.name).Nodup) ↔
      GivenUpOnce st s.rootPage f size (Refreshed st dirty) := by
  obtain ⟨leaves, U, hleaves, hread, hmade, hgone⟩ := updateTable_gives h hups hdels
  have hapart : ∀ x ∈ (acc'.2.upsertsOf s.name).map Prod.fst, x ∉ acc'.2.goneOf s.name := by
    intro x hx hin
    rw [hgone] at hin
    exact of_decide_eq_true (mem_filter.mp hin).2 ((hmade x).mp hx)
  rw [and_iff_right hapart, hgone, filter_flatMap,
    nodup_gathered_iff (pagesGivenUp_nodup (collectLeafPages_nodup hleaves))
      fun p _ => (trackedOn_nodup st p).filter _]
  simp only [mem_filter, decide_eq_true_eq]
  constructor
  · intro honce leaves' hleaves' p q x hne hp hq hpgone hqgone
    rw [hleaves] at hleaves'
    cases hleaves'
    by_contra hnot
    have hU : x ∉ U := fun hin => hnot ((hread x).mp hin)
    exact honce p ((mem_pagesGivenUp hp).mpr hpgone) q ((mem_pagesGivenUp hq).mpr hqgone) hne x
      ⟨hp, hU⟩ ⟨hq, hU⟩
  · rintro honce p hp q hq hne x ⟨hxp, hU⟩ ⟨hxq, -⟩
    apply hU
    rw [hread x]
    exact honce leaves hleaves p q x hne hxp hxq ((mem_pagesGivenUp hxp).mp hp)
      ((mem_pagesGivenUp hxq).mp hq)

theorem diffTable_conflictFree_iff (hst : acc.1.tables.lookup s.name = some st)
    (hroot : st.rootPage = s.rootPage) (hrowid : s.withoutRowid = false)
    (h : diffTable f size false s acc = .ok acc') (hups : acc.2.upsertsOf s.name = [])
    (hdels : acc.2.deletesOf s.name = []) :
    ((∀ x ∈ (acc'.2.upsertsOf s.name).map Prod.fst, x ∉ acc'.2.goneOf s.name) ∧
        (acc'.2.goneOf s.name).Nodup) ↔
      GivenUpOnce st s.rootPage f size (HashDiffers st f size) := by
  obtain ⟨leaves, w, hleaves, hw, hmade, hgone⟩ :=
    diffTable_gives hst hroot hrowid h hups hdels
  have hapart : ∀ x ∈ (acc'.2.upsertsOf s.name).map Prod.fst, x ∉ acc'.2.goneOf s.name := by
    intro x hx hin
    rw [hgone] at hin
    obtain ⟨e, -, hin⟩ := mem_flatMap.mp hin
    exact (of_decide_eq_true (mem_filter.mp hin).2).2 ((hmade x).mp hx)
  have hentries : st.pages.entries.Nodup := Nodup.of_map Sigma.fst st.pages.nodupKeys
  rw [and_iff_right hapart, hgone, vanishedRows,
    nodup_gathered_iff hentries fun e _ => e.2.nodup.filter _]
  simp only [mem_filter, decide_eq_true_eq]
  constructor
  · intro honce leaves' hleaves' p q x hne hp hq hpgone hqgone
    rw [hleaves] at hleaves'
    cases hleaves'
    obtain ⟨page, hpage, hx⟩ := mem_trackedOn.mp hp
    obtain ⟨page', hpage', hx'⟩ := mem_trackedOn.mp hq
    by_contra hnot
    have hU : x ∉ w.upserted := fun hin => hnot ((hw.upserts.upserted x).mp hin)
    exact honce ⟨p, page⟩ (entry_iff_lookup.mpr hpage) ⟨q, page'⟩ (entry_iff_lookup.mpr hpage')
      (fun heq => hne (congrArg Sigma.fst heq)) x
      ⟨hx, (mem_vanished_iff hw hpage hx).mpr ⟨hpgone, hU⟩⟩
      ⟨hx', (mem_vanished_iff hw hpage' hx').mpr ⟨hqgone, hU⟩⟩
  · rintro honce ⟨p, page⟩ hp ⟨q, page'⟩ hq hne x ⟨hx, hgoneP⟩ ⟨hx', hgoneQ⟩
    have hpage := entry_iff_lookup.mp hp
    have hpage' := entry_iff_lookup.mp hq
    obtain ⟨hpgone, hU⟩ := (mem_vanished_iff hw hpage hx).mp hgoneP
    obtain ⟨hqgone, -⟩ := (mem_vanished_iff hw hpage' hx').mp hgoneQ
    have hpages : p ≠ q := by
      rintro rfl
      rw [hpage] at hpage'
      cases hpage'
      exact hne rfl
    apply hU
    rw [hw.upserts.upserted x]
    exact honce leaves hleaves p q x hpages (mem_trackedOn.mpr ⟨page, hpage, hx⟩)
      (mem_trackedOn.mpr ⟨page', hpage', hx'⟩) hpgone hqgone

end

/-! ## 5. Whole batches -/

def OpBatch.FreeOn (b : OpBatch) (n : String) : Prop :=
  (∀ x ∈ (b.upsertsOf n).map Prod.fst, x ∉ b.goneOf n) ∧ (b.goneOf n).Nodup

theorem freeOn_perm {b' : OpBatch} (hups : (b.upsertsOf n).Perm (b'.upsertsOf n))
    (hdels : (b.deletesOf n).Perm (b'.deletesOf n)) : b.FreeOn n ↔ b'.FreeOn n := by
  have hgone : (b.goneOf n).Perm (b'.goneOf n) := hdels.map RowDelete.rowid
  unfold OpBatch.FreeOn
  rw [hgone.nodup_iff]
  simp only [hgone.mem_iff, (hups.map Prod.fst).mem_iff]

theorem freeOn_of_none (h : b.goneOf n = []) : b.FreeOn n := by
  unfold OpBatch.FreeOn
  rw [h]
  exact ⟨fun _ _ => not_mem_nil, nodup_nil⟩

section

variable {table : TableSchema → OpResolver × OpBatch → Except Halt (OpResolver × OpBatch)}
  {schemas : List TableSchema} {r r' : OpResolver} {batch : OpBatch} {n : String}

theorem flatMap_tableDeletes {es : List (Sigma fun _ : String => TableState)} {st : TableState}
    (hkeys : es.NodupKeys) (hst : ⟨n, st⟩ ∈ es) :
    (es.flatMap fun e => tableDeletes e.1 e.2).filter (fun d => d.table = n) =
      tableDeletes n st := by
  obtain ⟨pre, post, rfl⟩ := append_of_mem hst
  have hother : ∀ es' : List (Sigma fun _ : String => TableState), n ∉ es'.keys →
      (es'.flatMap fun e => tableDeletes e.1 e.2).filter (fun d => d.table = n) = [] := by
    intro es' hn
    rw [filter_eq_nil_iff]
    intro d hd
    obtain ⟨e, he, hd⟩ := mem_flatMap.mp hd
    have htable := tableDeletes_table d hd
    rw [decide_eq_true_iff, htable]
    exact fun heq => hn (heq ▸ mem_map_of_mem he)
  have hself : (tableDeletes n st).filter (fun d => d.table = n) = tableDeletes n st :=
    filter_eq_self.mpr fun d hd => decide_eq_true (tableDeletes_table d hd)
  unfold NodupKeys keys at hkeys
  rw [map_append, map_cons, nodup_append] at hkeys
  obtain ⟨-, hpost, hpre⟩ := hkeys
  rw [flatMap_append, flatMap_cons, filter_append, filter_append, hself,
    hother pre fun hin => hpre n hin n mem_cons_self rfl,
    hother post (nodup_cons.mp hpost).1, nil_append, append_nil]

theorem vanished_freeOn_iff (hkeeps : KeepsOthers table)
    (h : resolveSchemas table schemas r = (.ok batch, r')) (hn : findSchema schemas n = none) :
    batch.FreeOn n ↔ ∀ st, r.tables.lookup n = some st → OnePage st := by
  obtain ⟨b, hrun, rfl⟩ := resolveSchemas_ok_iff.mp h
  have hsame := foldlM_sameFor hkeeps hrun (findSchema_eq_none.mp hn)
  have hbatch := (dropVanished_eq schemas r).2
  have hdropped : b.FreeOn n ↔ (dropVanished schemas r).2.FreeOn n :=
    freeOn_perm (Perm.of_eq hsame.upserts) (Perm.of_eq hsame.deletes)
  rw [freeOn_perm (sorted_upsertsOf b n) (sorted_deletesOf b n), hdropped, hbatch]
  cases hst : r.tables.lookup n with
  | none =>
    apply iff_of_true _ (fun _ h => by cases h)
    apply freeOn_of_none
    show ((flatMap _ _).filter _).map RowDelete.rowid = []
    rw [map_eq_nil_iff, filter_eq_nil_iff]
    intro d hd
    obtain ⟨⟨m, st⟩, hmem, hd⟩ := mem_flatMap.mp hd
    have htable := tableDeletes_table d hd
    rw [decide_eq_true_iff, htable]
    rintro rfl
    rw [(mem_vanishedEntries.mp hmem).1] at hst
    cases hst
  | some st =>
    have hkeys : (vanishedEntries schemas r).NodupKeys :=
      r.tables.nodupKeys.sublist filter_sublist
    have hgone : OpBatch.goneOf
        { droppedTables := (vanishedEntries schemas r).map Sigma.fst
          deletes := (vanishedEntries schemas r).flatMap fun e => tableDeletes e.1 e.2 } n =
        st.trackedRowids := by
      show ((flatMap _ _).filter _).map RowDelete.rowid = _
      rw [flatMap_tableDeletes hkeys (mem_vanishedEntries.mpr ⟨hst, hn⟩)]
      exact goneOf_tableDeletes n st
    unfold OpBatch.FreeOn
    rw [hgone, trackedRowids_nodup_iff]
    constructor
    · rintro ⟨-, hone⟩ st' hst'
      cases hst'
      exact hone
    · intro hone
      exact ⟨fun x hx => absurd hx not_mem_nil, hone st rfl⟩

theorem resolveSchemas_conflictFree_iff (hkeeps : KeepsOthers table)
    (hskips : ∀ s acc, s.withoutRowid = true → table s acc = .ok (skipTable s acc))
    (hnames : (schemas.map TableSchema.name).Nodup)
    (h : resolveSchemas table schemas r = (.ok batch, r')) (Cond : TableSchema → TableState → Prop)
    (hround : ∀ s ∈ schemas, s.withoutRowid = false → ∀ acc acc', table s acc = .ok acc' →
      acc.2.upsertsOf s.name = [] → acc.2.deletesOf s.name = [] →
      (acc'.2.FreeOn s.name ↔ ∀ st, acc.1.tables.lookup s.name = some st → Cond s st)) :
    batch.ConflictFree ↔
      (∀ n st, r.tables.lookup n = some st → findSchema schemas n = none → OnePage st) ∧
      ∀ s ∈ schemas, s.withoutRowid = false → ∀ st, r.tables.lookup s.name = some st →
        Cond s st := by
  have hlisted : ∀ s ∈ schemas, s.withoutRowid = false →
      (batch.FreeOn s.name ↔ ∀ st, r.tables.lookup s.name = some st → Cond s st) := by
    intro s hs hrowid
    obtain ⟨acc, acc', hstep, hlookup, hups₀, hdels₀, -, hups, hdels⟩ :=
      resolveSchemas_table hkeeps hnames h hs
    rw [freeOn_perm hups hdels, ← hlookup]
    exact hround s hs hrowid acc acc' hstep hups₀ hdels₀
  rw [conflictFree_iff_tables]
  constructor
  · intro hfree
    refine ⟨fun n st hst hn => ?_, fun s hs hrowid => (hlisted s hs hrowid).mp (hfree s.name)⟩
    exact (vanished_freeOn_iff hkeeps h hn).mp (hfree n) st hst
  · rintro ⟨hvanished, htables⟩ n
    by_cases hn : findSchema schemas n = none
    · exact (vanished_freeOn_iff hkeeps h hn).mpr fun st hst => hvanished n st hst hn
    · rw [findSchema_eq_none, not_forall] at hn
      obtain ⟨s, hlisting⟩ := hn
      obtain ⟨hs, hname⟩ := Classical.not_imp.mp hlisting
      obtain rfl := not_not.mp hname
      cases hrowid : s.withoutRowid with
      | true =>
        obtain ⟨-, -, hnone⟩ := resolveSchemas_skipped hkeeps hskips hnames h hs hrowid
        exact freeOn_of_none (congrArg (map RowDelete.rowid) hnone)
      | false => exact (hlisted s hs hrowid).mpr (htables s hs hrowid)

end

/-- What a call needs of a tracked table to give up each of its rows at most once and none that
it upserts. -/
def ResolverCall.GivesUpOnce (call : ResolverCall) (f : PageFetcher) (size : Nat) (s : TableSchema)
    (st : TableState) : Prop :=
  match call with
  | .bootstrap => True
  | .reconcile =>
    st.rootPage = s.rootPage → GivenUpOnce st s.rootPage f size (HashDiffers st f size)
  | .applyFrames dirty =>
    (st.rootPage = s.rootPage → GivenUpOnce st s.rootPage f size (Refreshed st dirty)) ∧
    (st.rootPage ≠ s.rootPage → OnePage st ∧ ∀ leaves,
      collectLeafPages s.rootPage f size = .ok leaves → ∀ x, st.Knows x →
        ¬ RowRead f size (fun _ => True) leaves x)

section

variable {f : PageFetcher} {size : Nat} {s : TableSchema} {acc acc' : OpResolver × OpBatch}

section

variable (hrowid : s.withoutRowid = false)

include hrowid

theorem applyTable_freeOn_iff {dirty : List UInt32} (h : applyTable dirty f size s acc = .ok acc')
    (hups : acc.2.upsertsOf s.name = []) (hdels : acc.2.deletesOf s.name = []) :
    acc'.2.FreeOn s.name ↔ ∀ st, acc.1.tables.lookup s.name = some st →
      (ResolverCall.applyFrames dirty).GivesUpOnce f size s st := by
  unfold applyTable at h
  rw [if_neg (by rw [hrowid]; decide)] at h
  cases hst : acc.1.tables.lookup s.name with
  | none =>
    rw [hst] at h
    obtain ⟨-, -, -, hgone⟩ := rebuildTable_gives h hups hdels
    exact iff_of_true (freeOn_of_none hgone) fun _ h => by cases h
  | some st =>
    rw [hst] at h
    simp only at h
    have hone : (∀ st', some st = some st' →
        (ResolverCall.applyFrames dirty).GivesUpOnce f size s st') ↔
        (ResolverCall.applyFrames dirty).GivesUpOnce f size s st :=
      ⟨fun h => h st rfl, fun h st' heq => Option.some.inj heq ▸ h⟩
    rw [hone]
    unfold ResolverCall.GivesUpOnce
    by_cases hroot : st.rootPage = s.rootPage
    · rw [if_neg (not_not.mpr hroot)] at h
      simp only [ne_eq, hroot, not_true_eq_false, false_imp_iff, and_true, true_imp_iff]
      exact updateTable_conflictFree_iff h hups hdels
    · rw [if_pos hroot] at h
      obtain ⟨leaves, hleaves, hmade, hgone⟩ := rebuildTable_gives h hups hdels
      have hgone' : acc'.2.goneOf s.name = st.trackedRowids := hgone
      simp only [ne_eq, hroot, not_false_eq_true, false_imp_iff, true_and, true_imp_iff]
      unfold OpBatch.FreeOn
      rw [hgone', trackedRowids_nodup_iff]
      constructor
      · rintro ⟨hapart, hone⟩
        refine ⟨hone, fun leaves' hleaves' x hknows hread => ?_⟩
        rw [hleaves] at hleaves'
        cases hleaves'
        exact hapart x ((hmade x).mpr hread) (knows_iff.mp hknows)
      · rintro ⟨hone, hapart⟩
        refine ⟨fun x hx hin => ?_, hone⟩
        exact hapart leaves hleaves x (knows_iff.mpr hin) ((hmade x).mp hx)

theorem reconcileTable_freeOn_iff (h : diffTable f size false s acc = .ok acc')
    (hups : acc.2.upsertsOf s.name = []) (hdels : acc.2.deletesOf s.name = []) :
    acc'.2.FreeOn s.name ↔ ∀ st, acc.1.tables.lookup s.name = some st →
      ResolverCall.reconcile.GivesUpOnce f size s st := by
  by_cases hsame : ∃ st, acc.1.tables.lookup s.name = some st ∧ st.rootPage = s.rootPage
  · obtain ⟨st, hst, hroot⟩ := hsame
    have hone : (∀ st', acc.1.tables.lookup s.name = some st' →
        ResolverCall.reconcile.GivesUpOnce f size s st') ↔
        GivenUpOnce st s.rootPage f size (HashDiffers st f size) := by
      rw [hst]
      exact ⟨fun h => h st rfl hroot, fun h st' heq _ => Option.some.inj heq ▸ h⟩
    rw [hone]
    exact diffTable_conflictFree_iff hst hroot hrowid h hups hdels
  · have hother : ∀ st ∈ acc.1.tables.lookup s.name, st.rootPage ≠ s.rootPage :=
      fun st hst hroot => hsame ⟨st, hst, hroot⟩
    have hgone := diffTable_gives_nothing (comparableState_other hother) hrowid h hdels
    apply iff_of_true (freeOn_of_none hgone)
    intro st hst hroot
    exact absurd hroot (hother st hst)

theorem bootstrapTable_freeOn_iff (h : diffTable f size true s acc = .ok acc')
    (hdels : acc.2.deletesOf s.name = []) :
    acc'.2.FreeOn s.name ↔ ∀ st, acc.1.tables.lookup s.name = some st →
      ResolverCall.bootstrap.GivesUpOnce f size s st := by
  have hnone : comparableState acc.1 s true = none := if_pos rfl
  have hgone := diffTable_gives_nothing hnone hrowid h hdels
  exact iff_of_true (freeOn_of_none hgone) fun _ _ => trivial

end

end

/-- A batch is free of conflicts exactly when every table that is dropped, or rebuilt under
another root by `applyFrames`, has its rows on one page each and, in the second case, none of
them under the new root, and every other table gives no row up twice. -/
theorem conflictFree_iff (call : ResolverCall) {schemas : List TableSchema} {r r' : OpResolver}
    {f : PageFetcher} {size : Nat} {batch : OpBatch}
    (hnames : (schemas.map TableSchema.name).Nodup)
    (h : call.run r schemas f size = (.ok batch, r')) :
    (batch.ConflictFree ↔
      (∀ n st, r.tables.lookup n = some st → findSchema schemas n = none → OnePage st) ∧
      ∀ s ∈ schemas, s.withoutRowid = false → ∀ st, r.tables.lookup s.name = some st →
        call.GivesUpOnce f size s st) ∧
    (batch.ConflictFree → batch.OrderFree) := by
  refine ⟨?_, OpBatch.ConflictFree.orderFree⟩
  cases call with
  | bootstrap =>
    exact resolveSchemas_conflictFree_iff (diffTable_keeps f size true)
      (diffTable_skips f size true) hnames h _
      fun s _ hrowid acc acc' hstep _ hdels => bootstrapTable_freeOn_iff hrowid hstep hdels
  | reconcile =>
    exact resolveSchemas_conflictFree_iff (diffTable_keeps f size false)
      (diffTable_skips f size false) hnames h _
      fun s _ hrowid acc acc' hstep hups hdels =>
        reconcileTable_freeOn_iff hrowid hstep hups hdels
  | applyFrames dirty =>
    exact resolveSchemas_conflictFree_iff (applyTable_keeps dirty f size)
      (applyTable_skips dirty f size) hnames h _
      fun s _ hrowid acc acc' hstep hups hdels => applyTable_freeOn_iff hrowid hstep hups hdels

-- a call over the table that moved from page 2 to page 3 and kept row 1
theorem conflictFree_iff_rerooted : ∃ batch r',
    ResolverCall.reconcile.run rerootedMemory [rerootedSchema 3] rerootedAfter 512 =
      (.ok batch, r') ∧
    (batch.ConflictFree ↔ (∀ n st, rerootedMemory.tables.lookup n = some st →
        findSchema [rerootedSchema 3] n = none → OnePage st) ∧
      ∀ s ∈ [rerootedSchema 3], s.withoutRowid = false →
        ∀ st, rerootedMemory.tables.lookup s.name = some st →
          ResolverCall.reconcile.GivesUpOnce rerootedAfter 512 s st) := by
  have hok : (ResolverCall.reconcile.run rerootedMemory [rerootedSchema 3]
      rerootedAfter 512).1 = .ok { upserts := [⟨"t", 1, [.integer 5]⟩] } := by decide +kernel
  generalize hrun : ResolverCall.reconcile.run rerootedMemory [rerootedSchema 3]
    rerootedAfter 512 = result at hok
  obtain ⟨outcome, r'⟩ := result
  subst hok
  exact ⟨_, r', rfl, (conflictFree_iff .reconcile (by decide) hrun).1⟩

/-- Row 1 is under the new root and yet deleted: deletes before upserts keep it, upserts before
deletes lose it. -/
theorem rerooted_row_conflicts :
    ((ResolverCall.applyFrames []).run rerootedMemory [rerootedSchema 3] rerootedAfter 512).1 =
      .ok { upserts := [⟨"t", 1, [.integer 5]⟩],
            deletes := [⟨"t", 1, none, none⟩, ⟨"t", 2, none, none⟩] } ∧
    ¬ OpBatch.ConflictFree
      { upserts := [⟨"t", 1, [.integer 5]⟩],
        deletes := [⟨"t", 1, none, none⟩, ⟨"t", 2, none, none⟩] } ∧
    ¬ OpBatch.OrderFree
      { upserts := [⟨"t", 1, [.integer 5]⟩],
        deletes := [⟨"t", 1, none, none⟩, ⟨"t", 2, none, none⟩] } := by
  refine ⟨by decide +kernel, fun h => ?_, fun h => ?_⟩
  · exact h.apart (("t", 1), [.integer 5]) (by decide) (by decide)
  · have hrow := congrFun (h fun _ ↦ none) ("t", 1)
    exact absurd hrow (by decide)

end Ladybug.Sqlite
