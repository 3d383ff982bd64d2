import Ladybug.Sqlite.ResolverReconcile

/-!
# Changes on overflow pages only

Change detection is by leaf: `applyFrames` decodes a tracked leaf when its number is among the dirty
pages, `reconcile` when its hash differs.  A row whose overflow chain changes under an unchanged leaf
is emitted exactly when the memory does not know the leaf.
-/

namespace Ladybug.Sqlite

open Bytes List Option

/-- The memory tracks the table under its current root, and `p` as one of its leaves. -/
def KnowsLeaf (r : OpResolver) (s : TableSchema) (p : UInt32) : Prop :=
  ∃ st ∈ r.tables.lookup s.name, st.rootPage = s.rootPage ∧ p ∈ st.pages

/-- It also remembers the leaf with the hash of `image`. -/
def KnowsLeafAs (r : OpResolver) (s : TableSchema) (p : UInt32) (image : Bytes) : Prop :=
  ∃ st ∈ r.tables.lookup s.name, st.rootPage = s.rootPage ∧
    ∃ page ∈ st.pages.lookup p, page.imageHash = hashImage image

section

variable {r r' : OpResolver} {schemas : List TableSchema} {fetcher : PageFetcher} {pageSize : Nat}
  {batch : OpBatch} {s : TableSchema} {v : TableView} {p : UInt32} {row : DecodedRow}

theorem entry_mem_rowOps (hwf : v.Wf) {loaded : List UInt32} (hsub : ∀ q ∈ loaded, q ∈ v.leaves)
    (hp : p ∈ v.leaves) (hrow : row ∈ v.rows p) (name : String) :
    (row.rowid, row.values) ∈ (rowOps name v loaded).map RowOp.entry ↔ p ∈ loaded := by
  constructor
  · intro h
    obtain ⟨op, hop, hentry⟩ := mem_map.mp h
    obtain ⟨q, hq, row', hrow', rfl⟩ := mem_rowOps.mp hop
    have hid : row'.rowid = row.rowid := congrArg Prod.fst hentry
    have hmem : row.rowid ∈ v.rowidsOn q := hid ▸ mem_map_of_mem hrow'
    rwa [TableView.leaf_unique hwf hp (hsub q hq) (mem_map_of_mem hrow) hmem]
  · exact fun h => mem_map.mpr ⟨rowOp name row, mem_rowOps.mpr ⟨p, h, row, hrow, rfl⟩, rfl⟩

section

variable (hnames : (schemas.map TableSchema.name).Nodup) (hs : s ∈ schemas)
  (hrowid : s.withoutRowid = false) (hread : ReadsTable fetcher pageSize s.rootPage v)

include hnames hs hrowid hread

theorem applyFrames_emits_iff {dirty : List UInt32} (hwf : v.Wf)
    (hone : ∀ st ∈ r.tables.lookup s.name, OnePage st) (hp : p ∈ v.leaves) (hrow : row ∈ v.rows p)
    (hclean : p ∉ dirty) (h : r.applyFrames schemas dirty fetcher pageSize = (.ok batch, r')) :
    (row.rowid, row.values) ∈ batch.upsertsOf s.name ↔ ¬ KnowsLeaf r s p := by
  by_cases hroot : ∃ st ∈ r.tables.lookup s.name, st.rootPage = s.rootPage
  · obtain ⟨st, hst, hroot⟩ := hroot
    obtain ⟨st₁, gone, -, hemits⟩ :=
      applyFrames_same_root hnames h hs hrowid hst hroot hread hwf (hone st hst)
    rw [hemits.upserts.mem_iff,
      entry_mem_rowOps hwf (fun q hq => mem_of_mem_filter hq) hp hrow, mem_filter,
      decide_eq_true_iff]
    constructor
    · rintro ⟨-, hnew | hdirty⟩ ⟨st', hst', -, hin⟩
      · rw [mem_unique hst' hst] at hin
        exact hnew hin
      · exact hclean hdirty
    · exact fun hnot => ⟨hp, .inl fun hin => hnot ⟨st, hst, hroot, hin⟩⟩
  · have hother : ∀ st ∈ r.tables.lookup s.name, st.rootPage ≠ s.rootPage :=
      fun st hst heq => hroot ⟨st, hst, heq⟩
    obtain ⟨st₁, -, hemits⟩ := applyFrames_rebuilt hnames h hs hrowid hother hread hwf hone
    rw [hemits.upserts.mem_iff, entry_mem_rowOps hwf (fun q hq => hq) hp hrow]
    refine iff_of_true hp ?_
    rintro ⟨st, hst, heq, -⟩
    exact hother st hst heq

theorem reconcile_emits_iff (hsized : PageSized fetcher pageSize) (hwf : v.Wf)
    (hone : ∀ st ∈ r.tables.lookup s.name, OnePage st) (hp : p ∈ v.leaves) (hrow : row ∈ v.rows p)
    {image : Bytes} (himage : fetcher p = some image)
    (h : r.reconcile schemas fetcher pageSize = (.ok batch, r')) :
    (row.rowid, row.values) ∈ batch.upsertsOf s.name ↔ ¬ KnowsLeafAs r s p image := by
  obtain ⟨image', himage', hhash, -⟩ := leafHash_eq hread hsized hp
  rw [himage] at himage'
  cases himage'
  by_cases hroot : ∃ st ∈ r.tables.lookup s.name, st.rootPage = s.rootPage
  · obtain ⟨st, hst, hroot⟩ := hroot
    obtain ⟨st₁, gone, -, hemits⟩ := fullDiff_same_root hnames h hs hrowid
      (comparableState_same hst hroot) hread hwf (hone st hst)
    rw [hemits.upserts.mem_iff,
      entry_mem_rowOps hwf (fun q hq => mem_of_mem_filter hq) hp hrow, mem_filter,
      decide_eq_true_iff, and_iff_right hp, Changed]
    rw [unchangedPage, filter_eq_none_iff, hhash]
    constructor
    · rintro hno ⟨st', hst', -, page, hpage, heq⟩
      rw [mem_unique hst' hst] at hpage
      exact hno page hpage (decide_eq_true heq)
    · exact fun hnot page hpage heq =>
        hnot ⟨st, hst, hroot, page, hpage, of_decide_eq_true heq⟩
  · have hother : ∀ st ∈ r.tables.lookup s.name, st.rootPage ≠ s.rootPage :=
      fun st hst heq => hroot ⟨st, hst, heq⟩
    obtain ⟨st₁, -, hemits⟩ :=
      fullDiff_fresh hnames h hs hrowid (comparableState_other hother) hread hwf
    rw [hemits.upserts.mem_iff, entry_mem_rowOps hwf (fun q hq => hq) hp hrow]
    refine iff_of_true hp ?_
    rintro ⟨st, hst, heq, -⟩
    exact hother st hst heq

end

/-- A commit that leaves the image of leaf `p` as it was, and so does not list it, whatever it does
to the overflow pages of its rows. -/
theorem overflow_change_emitted_iff {dirty : List UInt32} {image : Bytes}
    (hnames : (schemas.map TableSchema.name).Nodup) (hs : s ∈ schemas)
    (hrowid : s.withoutRowid = false) (hread : ReadsTable fetcher pageSize s.rootPage v)
    (hsized : PageSized fetcher pageSize) (hwf : v.Wf)
    (hone : ∀ st ∈ r.tables.lookup s.name, OnePage st) (hp : p ∈ v.leaves)
    (hrow : row ∈ v.rows p) (himage : fetcher p = some image) (hclean : p ∉ dirty) :
    (∀ batch r', r.applyFrames schemas dirty fetcher pageSize = (.ok batch, r') →
      ((row.rowid, row.values) ∈ batch.upsertsOf s.name ↔ ¬ KnowsLeaf r s p)) ∧
    (∀ batch r', r.reconcile schemas fetcher pageSize = (.ok batch, r') →
      ((row.rowid, row.values) ∈ batch.upsertsOf s.name ↔ ¬ KnowsLeafAs r s p image)) :=
  ⟨fun _ _ h => applyFrames_emits_iff hnames hs hrowid hread hwf hone hp hrow hclean h,
    fun _ _ h => reconcile_emits_iff hnames hs hrowid hread hsized hwf hone hp hrow himage h⟩

end

def largeSchema : TableSchema := { name := "t", rootPage := 2 }

def largeLeaf : Bytes :=
  [0x0D, 0, 0, 0, 1, 0, 0, 0, 1, 0] ++ replicate 246 0 ++
    ([0x83, 0x77, 7, 3, 0x87, 0x74] ++ replicate 36 5 ++ [0, 0, 0, 3]) ++
    replicate 210 0

def largeImage (b : UInt8) : PageFetcher := pagesOf
  [(2, largeLeaf), (3, [0, 0, 0, 0] ++ replicate 464 b ++ replicate 44 0)]

def largeRow (b : UInt8) : DecodedRow where
  rowid := 7
  values := [.blob (replicate 36 5 ++ replicate 464 b)]

def largeMemory : OpResolver := (({} : OpResolver).bootstrap [largeSchema] (largeImage 5) 512).2

/-- Page 3 changes, the leaf does not, and neither call emits the row. -/
theorem overflow_change_missed : largeImage 5 2 = largeImage 6 2 ∧ largeImage 5 3 ≠ largeImage 6 3 ∧
    decodeTableLeafPage largeLeaf 512 512 0 1 (largeImage 5) = .ok [largeRow 5] ∧
    decodeTableLeafPage largeLeaf 512 512 0 1 (largeImage 6) = .ok [largeRow 6] ∧
    largeRow 5 ≠ largeRow 6 ∧
    (largeMemory.applyFrames [largeSchema] [3] (largeImage 6) 512).1 = .ok {} ∧
    (largeMemory.reconcile [largeSchema] (largeImage 6) 512).1 = .ok {} := by
  decide +kernel

def largeView (b : UInt8) : TableView where
  leaves := [2]
  rows := fun _ => [largeRow b]

theorem large_reads_before : ReadsTable (largeImage 5) 512 2 (largeView 5) :=
  .of_all (by decide +kernel) (by decide +kernel)

theorem large_reads_after : ReadsTable (largeImage 6) 512 2 (largeView 6) :=
  .of_all (by decide +kernel) (by decide +kernel)

theorem largeMemory_onePage : ∀ st ∈ largeMemory.tables.lookup largeSchema.name, OnePage st := by
  have himage : ImageOf [largeSchema] (largeImage 5) 512 fun _ => largeView 5 := by
    intro s hs _
    obtain rfl := mem_singleton.mp hs
    exact ⟨large_reads_before, by decide⟩
  obtain ⟨batch, r', h, hdesc, -⟩ := bootstrap_converged {} (by decide) himage
  obtain ⟨st', hst', -, htracks⟩ := hdesc.tracked largeSchema mem_cons_self rfl
  intro st hst
  rw [largeMemory, h] at hst
  rw [mem_unique hst hst']
  exact htracks.onePage (himage largeSchema mem_cons_self rfl).2

theorem overflow_change_emitted_iff_large :
    (∀ batch r', largeMemory.applyFrames [largeSchema] [3] (largeImage 6) 512 = (.ok batch, r') →
      (((largeRow 6).rowid, (largeRow 6).values) ∈ batch.upsertsOf "t" ↔
        ¬ KnowsLeaf largeMemory largeSchema 2)) ∧
    (∀ batch r', largeMemory.reconcile [largeSchema] (largeImage 6) 512 = (.ok batch, r') →
      (((largeRow 6).rowid, (largeRow 6).values) ∈ batch.upsertsOf "t" ↔
        ¬ KnowsLeafAs largeMemory largeSchema 2 largeLeaf)) :=
  overflow_change_emitted_iff (by decide) mem_cons_self rfl large_reads_after
    (pageSized_pagesOf (by decide +kernel)) (by decide) largeMemory_onePage mem_cons_self
    mem_cons_self (by rfl) (by decide)

end Ladybug.Sqlite
