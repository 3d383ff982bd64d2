import Ladybug.Sqlite.ResolverConverges

/-!
# What a resolver call emits for one table

The three calls a sync tick can make, and one description of their outcome for a table whose memory
was built from contents `v₀` and which now holds `v`: the upserts cover the change, and the deletes
are those of the rows the call gives up.
-/

namespace Ladybug.Sqlite

open List

inductive ResolverCall where
  | bootstrap
  | reconcile
  | applyFrames (dirtyPages : List UInt32)
  deriving DecidableEq

namespace ResolverCall

def run (call : ResolverCall) (r : OpResolver) (schemas : List TableSchema) (fetcher : PageFetcher)
    (pageSize : Nat) : Except Stop OpBatch × OpResolver :=
  match call with
  | .bootstrap => r.bootstrap schemas fetcher pageSize
  | .reconcile => r.reconcile schemas fetcher pageSize
  | .applyFrames dirtyPages => r.applyFrames schemas dirtyPages fetcher pageSize

/-- Every leaf whose rows differ is read again: it is among the dirty pages, or has another hash. -/
def Sees (call : ResolverCall) (st₀ : TableState) (v₀ v : TableView) (hash : UInt32 → UInt64) :
    Prop :=
  match call with
  | .bootstrap => True
  | .reconcile => TakenOverAgree st₀ v₀ v hash
  | .applyFrames dirtyPages => CleanLeavesAgree v₀ v dirtyPages

/-- The rows of `v₀` the call emits deletes for.  A table under another root is given up whole by
`applyFrames`, and by the full diffs not at all. -/
def Deletes (call : ResolverCall) (sameRoot : Prop) (v₀ v : TableView) (x : Int64) : Prop :=
  v₀.record x ≠ none ∧
    match call with
    | .bootstrap => False
    | .reconcile => sameRoot ∧ v.record x = none
    | .applyFrames _ => sameRoot → v.record x = none

end ResolverCall

/-- The operations of `batch` on table `name`, relative to the contents before and after. -/
structure TableDelta (batch : OpBatch) (name : String) (st₀ : TableState) (v₀ v : TableView)
    (gone : Int64 → Prop) : Prop where
  covers : Covers v₀.record v.record (batch.upsertsOf name)
  nodup : ((batch.upsertsOf name).map Prod.fst).Nodup
  deletes : ∀ d, d ∈ batch.deletesOf name ↔ ∃ x, gone x ∧ d = rowDelete name st₀ x

section

variable {r r' : OpResolver} {schemas : List TableSchema} {f : PageFetcher} {size : Nat}
  {batch : OpBatch} {s : TableSchema} {st₀ st₁ : TableState} {v₀ v : TableView}
  {pages : List UInt32} {goneRows : Int64 → Prop}

theorem rowOps_rowids_nodup {name : String} (hwf : v.Wf) (hnodup : pages.Nodup)
    (hsub : ∀ p ∈ pages, p ∈ v.leaves) :
    (((rowOps name v pages).map RowOp.entry).map Prod.fst).Nodup := by
  have hrowids : ((rowOps name v pages).map RowOp.entry).map Prod.fst =
      pages.flatMap v.rowidsOn := by
    unfold rowOps TableView.rowidsOn
    rw [map_map, map_flatMap]
    simp only [map_map]
    rfl
  rw [hrowids, nodup_flatMap]
  refine ⟨fun p hp => TableView.rowidsOn_nodup hwf (hsub p hp), ?_⟩
  refine hnodup.imp_of_mem ?_
  intro p q hp hq hne x hxp hxq
  exact hne (TableView.leaf_unique hwf (hsub p hp) (hsub q hq) hxp hxq)

theorem TableDelta.of_emits {gone : List Int64}
    (h : Emits r' batch s.name st₁ (rowOps s.name v pages) (gone.map (rowDelete s.name st₀)))
    (hwf₀ : v₀.Wf) (hwf : v.Wf) (hnodup : pages.Nodup) (hsub : ∀ p ∈ pages, p ∈ v.leaves)
    (hsame : ∀ p ∈ v.leaves, p ∉ pages → p ∈ v₀.leaves ∧ v₀.rows p = v.rows p)
    (hgone : ∀ x, x ∈ gone ↔ goneRows x) : TableDelta batch s.name st₀ v₀ v goneRows where
  covers := covers_perm (covers_rowOps s.name hwf₀ hwf hsub hsame) h.upserts
  nodup := ((h.upserts.map Prod.fst).nodup_iff).mpr (rowOps_rowids_nodup hwf hnodup hsub)
  deletes := by
    intro d
    rw [h.deletes.mem_iff, mem_map]
    constructor
    · rintro ⟨x, hx, rfl⟩
      exact ⟨x, (hgone x).mp hx, rfl⟩
    · rintro ⟨x, hx, rfl⟩
      exact ⟨x, (hgone x).mpr hx, rfl⟩

theorem TableDelta.of_fresh (gone : List Int64)
    (h : Emits r' batch s.name st₁ (rowOps s.name v v.leaves) (gone.map (rowDelete s.name st₀)))
    (hwf₀ : v₀.Wf) (hwf : v.Wf) (hread : ReadsTable f size s.rootPage v)
    (hgone : ∀ x, x ∈ gone ↔ goneRows x) : TableDelta batch s.name st₀ v₀ v goneRows :=
  .of_emits h hwf₀ hwf hread.leaves_nodup (fun _ hp => hp) (fun _ hp hnot => absurd hp hnot) hgone

variable (hnames : (schemas.map TableSchema.name).Nodup) (hs : s ∈ schemas)
  (hrowid : s.withoutRowid = false) (hst : r.tables.lookup s.name = some st₀) (htracks : Tracks st₀ v₀)
  (hwf₀ : v₀.Wf) (hread : ReadsTable f size s.rootPage v) (hwf : v.Wf)

include hnames hs hrowid hst htracks hwf₀ hread hwf

theorem applyFrames_delta {dirty : List UInt32}
    (hrun : r.applyFrames schemas dirty f size = (.ok batch, r')) (hclean : CleanLeavesAgree v₀ v dirty) :
    TableDelta batch s.name st₀ v₀ v fun x =>
      v₀.record x ≠ none ∧ (st₀.rootPage = s.rootPage → v.record x = none) := by
  by_cases hroot : st₀.rootPage = s.rootPage
  · obtain ⟨st₁, gone, hupd, hemits⟩ := applyFrames_same_root hnames hrun hs hrowid hst hroot hread
      hwf (htracks.onePage hwf₀)
    refine .of_emits hemits hwf₀ hwf (hread.leaves_nodup.filter _)
      (fun p hp => mem_of_mem_filter hp) ?_ ?_
    · intro p hp hnot
      have hclean := rows_eq_of_not_refreshed htracks hclean hp fun href =>
        hnot (mem_filter.mpr ⟨hp, decide_eq_true href⟩)
      exact ⟨hclean.1, hclean.2.2⟩
    · intro x
      rw [hupd.gone_record htracks hwf₀ hwf hclean x, imp_iff_right hroot]
  · obtain ⟨st₁, -, hemits⟩ := applyFrames_rebuilt hnames hrun hs hrowid
      (fun st hmem => by rwa [Option.mem_unique hmem hst])
      hread hwf (fun st hmem => by rw [Option.mem_unique hmem hst]; exact htracks.onePage hwf₀)
    rw [hst] at hemits
    refine .of_fresh st₀.trackedRowids hemits hwf₀ hwf hread fun x => ?_
    rw [mem_trackedRowids htracks, and_iff_left fun h => absurd h hroot]

theorem reconcile_delta (hrun : r.reconcile schemas f size = (.ok batch, r'))
    (hsame : TakenOverAgree st₀ v₀ v (leafHash f size)) :
    TableDelta batch s.name st₀ v₀ v fun x =>
      v₀.record x ≠ none ∧ st₀.rootPage = s.rootPage ∧ v.record x = none := by
  by_cases hroot : st₀.rootPage = s.rootPage
  · obtain ⟨st₁, gone, hrec, hemits⟩ := fullDiff_same_root hnames hrun hs hrowid
      (comparableState_same hst hroot) hread hwf (htracks.onePage hwf₀)
    refine .of_emits hemits hwf₀ hwf (hread.leaves_nodup.filter _)
      (fun p hp => mem_of_mem_filter hp) ?_ ?_
    · intro p hp hnot
      have hunchanged : ¬ Changed (some st₀) (leafHash f size) p := fun hchanged =>
        hnot (mem_filter.mpr ⟨hp, decide_eq_true hchanged⟩)
      exact ⟨mem_leaves_of_not_changed htracks hunchanged, hsame p hp hunchanged⟩
    · intro x
      rw [hrec.gone_record htracks hwf₀ hwf hsame x, and_iff_right hroot]
  · have hother : comparableState r s false = none :=
      comparableState_other fun st hmem => by rwa [Option.mem_unique hmem hst]
    obtain ⟨st₁, -, hemits⟩ := fullDiff_fresh hnames hrun hs hrowid hother hread hwf
    refine .of_fresh [] hemits hwf₀ hwf hread fun x => ?_
    simp [hroot]

theorem ResolverCall.delta (call : ResolverCall) (hrun : call.run r schemas f size = (.ok batch, r'))
    (hsees : call.Sees st₀ v₀ v (leafHash f size)) :
    TableDelta batch s.name st₀ v₀ v (call.Deletes (st₀.rootPage = s.rootPage) v₀ v) := by
  cases call with
  | bootstrap =>
    obtain ⟨st₁, -, hemits⟩ := fullDiff_fresh hnames hrun hs hrowid rfl hread hwf
    refine .of_fresh [] hemits hwf₀ hwf hread fun x => ?_
    simp [ResolverCall.Deletes]
  | reconcile => exact reconcile_delta hnames hs hrowid hst htracks hwf₀ hread hwf hrun hsees
  | applyFrames dirty =>
    exact applyFrames_delta hnames hs hrowid hst htracks hwf₀ hread hwf hrun hsees

end

end Ladybug.Sqlite
