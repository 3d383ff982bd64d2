import Ladybug.Sqlite.ResolverBatch

/-!
# Convergence of the resolver

A memory that describes an image, carried over a commit by `applyFrames`, describes the next image,
and the batch turns the rows of the one into the rows of the other.  The same law for `reconcile`
holds up to tables that moved to another root.
-/

namespace Ladybug.Sqlite

open Bytes List

abbrev Contents := String → TableView

/-- Read through `fetcher`, the rowid tables of `schemas` hold `D`. -/
def ImageOf (schemas : List TableSchema) (fetcher : PageFetcher) (pageSize : Nat)
    (D : Contents) : Prop :=
  ∀ s ∈ schemas, s.withoutRowid = false →
    ReadsTable fetcher pageSize s.rootPage (D s.name) ∧ (D s.name).Wf

structure Describes (r : OpResolver) (schemas : List TableSchema) (D : Contents) : Prop where
  tracked : ∀ s ∈ schemas, s.withoutRowid = false → ∃ st, r.tables.lookup s.name = some st ∧
    st.rootPage = s.rootPage ∧ Tracks st (D s.name)
  only : ∀ n, r.tables.lookup n ≠ none → ∃ s ∈ schemas, s.name = n ∧ s.withoutRowid = false

def KeepsAs (st : TableState) (s : TableSchema) : Prop :=
  st.pkValue = (TableState.ofSchema s).pkValue ∧ st.keptRecord = (TableState.ofSchema s).keptRecord

/-- The retained identities and records are those of `D`. -/
def RetainsAll (r : OpResolver) (schemas : List TableSchema) (D : Contents) : Prop :=
  ∀ s ∈ schemas, s.withoutRowid = false → ∀ st ∈ r.tables.lookup s.name,
    KeepsAs st s ∧ Retains st (D s.name)

/-- They are those of `D`, and in a table with a key column no tracked row is without identity. -/
def CoversAll (r : OpResolver) (schemas : List TableSchema) (D : Contents) : Prop :=
  RetainsAll r schemas D ∧
    ∀ s ∈ schemas, s.withoutRowid = false → ¬ s.pkFromRowid → 0 ≤ s.pkRecordIndex →
      ∀ st ∈ r.tables.lookup s.name, ∀ x, (D s.name).record x ≠ none → st.identities x ≠ none

def ReachPks (schemas : List TableSchema) (D : Contents) : Prop :=
  ∀ s ∈ schemas, s.withoutRowid = false → ReachesPk (TableState.ofSchema s) (D s.name)

theorem pkValue_keyed {s : TableSchema} (hkey : ¬ s.pkFromRowid) (hindex : 0 ≤ s.pkRecordIndex)
    (values : List SqliteValue) :
    (TableState.ofSchema s).pkValue values = values[s.pkRecordIndex.toNat]? :=
  if_pos ⟨hkey, hindex⟩

theorem CoversAll.reachPks {r : OpResolver} {schemas : List TableSchema} {D : Contents}
    (h : CoversAll r schemas D) (hdesc : Describes r schemas D)
    (hwf : ∀ s ∈ schemas, s.withoutRowid = false → (D s.name).Wf) : ReachPks schemas D := by
  intro s hs hrowid hkey hindex row hrow
  obtain ⟨st, hst, -, -⟩ := hdesc.tracked s hs hrowid
  obtain ⟨⟨hpk, -⟩, hretains⟩ := h.1 s hs hrowid st hst
  have hrecord := TableView.record_of_mem (hwf s hs hrowid) hrow
  have hcovered := h.2 s hs hrowid hkey hindex st hst row.rowid
    (by rw [hrecord]; exact Option.some_ne_none _)
  rw [hretains.identities, hrecord, Option.bind_some, hpk, pkValue_keyed hkey hindex, ne_eq,
    getElem?_eq_none_iff, not_le] at hcovered
  exact hcovered

theorem RetainsAll.coversAll {r : OpResolver} {schemas : List TableSchema} {D : Contents}
    (h : RetainsAll r schemas D) (hreach : ReachPks schemas D) : CoversAll r schemas D := by
  refine ⟨h, fun s hs hrowid hkey hindex st hst x hx => ?_⟩
  obtain ⟨⟨hpk, -⟩, hretains⟩ := h s hs hrowid st hst
  obtain ⟨values, hvalues⟩ := Option.ne_none_iff_exists'.mp hx
  obtain ⟨p, hp, hrow⟩ := TableView.mem_of_record hvalues
  have hlong := hreach s hs hrowid hkey hindex _ (TableView.mem_all.mpr ⟨p, hp, hrow⟩)
  rw [hretains.identities, hvalues, Option.bind_some, hpk, pkValue_keyed hkey hindex, ne_eq,
    getElem?_eq_none_iff, not_le]
  exact hlong

/-- The rowid → record map after the batch: upserted rowids replaced, deleted ones erased. -/
def patched (batch : OpBatch) (n : String) (m : Int64 → Option (List SqliteValue)) :
    Int64 → Option (List SqliteValue) :=
  patch (batch.upsertsOf n) ((batch.deletesOf n).map RowDelete.rowid) m

theorem covers_perm {R A : Type} {old new : R → Option A} {ups ups' : List (R × A)}
    (h : Covers old new ups) (hperm : ups'.Perm ups) : Covers old new ups' := by
  refine ⟨fun u hu => h.sound u (hperm.mem_iff.mp hu), fun r a ha hnot => h.complete r a ha ?_⟩
  rwa [← (hperm.map Prod.fst).mem_iff]

variable {r' : OpResolver} {batch : OpBatch} {name : String} {st st₀ : TableState}

theorem rowids_of_emits {ups : List RowOp} {gone : List Int64}
    (h : Emits r' batch name st ups (gone.map (rowDelete name st₀))) (x : Int64) :
    x ∈ (batch.deletesOf name).map RowDelete.rowid ↔ x ∈ gone := by
  rw [(h.deletes.map RowDelete.rowid).mem_iff, map_map, mem_map]
  constructor
  · rintro ⟨y, hy, rfl⟩
    exact hy
  · exact fun hx => ⟨x, hx, rfl⟩

/-- Operations that load some leaves, where every other leaf is as before, and delete exactly the
lost rows, turn the old map into the new one. -/
theorem patched_eq {v₀ v : TableView} {loaded : List UInt32} {gone : List Int64}
    (h : Emits r' batch name st (rowOps name v loaded) (gone.map (rowDelete name st₀)))
    (hwf₀ : v₀.Wf) (hwf : v.Wf) (hsub : ∀ p ∈ loaded, p ∈ v.leaves)
    (hsame : ∀ p ∈ v.leaves, p ∉ loaded → p ∈ v₀.leaves ∧ v₀.rows p = v.rows p)
    (hgone : ∀ r, r ∈ gone ↔ v₀.record r ≠ none ∧ v.record r = none) :
    patched batch name v₀.record = v.record := by
  have hcovers := covers_perm (covers_rowOps name hwf₀ hwf hsub hsame) h.upserts
  refine (patch_eq_iff hcovers _).mpr ⟨?_, ?_⟩
  · intro x hx
    exact ((hgone x).mp ((rowids_of_emits h x).mp hx)).2
  · intro x hold hnew
    exact (rowids_of_emits h x).mpr ((hgone x).mpr ⟨hold, hnew⟩)

structure Converged (schemas : List TableSchema) (D₀ D : Contents) (batch : OpBatch)
    (r r' : OpResolver) : Prop where
  patches : ∀ s ∈ schemas, s.withoutRowid = false →
    patched batch s.name (D₀ s.name).record = (D s.name).record
  others : ∀ n, (∀ s ∈ schemas, s.name = n → s.withoutRowid = true) →
    batch.upsertsOf n = [] ∧ batch.deletesOf n = []
  describes : Describes r' schemas D
  covers : RetainsAll r schemas D₀ → (CoversAll r' schemas D ↔ ReachPks schemas D)

section

variable {r r' : OpResolver} {schemas : List TableSchema} {D₀ D : Contents} {batch : OpBatch}
  {fetcher : PageFetcher} {pageSize : Nat}

theorem applyFrames_succeeds (dirty : List UInt32) (hnames : (schemas.map TableSchema.name).Nodup)
    (hdesc : Describes r schemas D₀)
    (hwf₀ : ∀ s ∈ schemas, s.withoutRowid = false → (D₀ s.name).Wf)
    (himage : ImageOf schemas fetcher pageSize D) :
    ∃ batch r', r.applyFrames schemas dirty fetcher pageSize = (.ok batch, r') := by
  apply resolveSchemas_succeeds (applyTable_keeps dirty fetcher pageSize) hnames
  intro s hs acc hlookup hdels
  unfold applyTable
  cases hrowid : s.withoutRowid with
  | true => exact ⟨_, rfl⟩
  | false =>
    obtain ⟨st, hst, hroot, htracks⟩ := hdesc.tracked s hs hrowid
    obtain ⟨hread, hwf⟩ := himage s hs hrowid
    obtain ⟨st₁, gone, -, hok⟩ := updateTable_ok dirty hread hwf
      (htracks.onePage (hwf₀ s hs hrowid)) (not_mem_deletesOf hdels)
    rw [if_neg (by decide), hlookup, hst]
    exact ⟨_, (if_neg (not_not.mpr hroot)).trans hok⟩

theorem others_of_describes
    {table : TableSchema → OpResolver × OpBatch → Except Halt (OpResolver × OpBatch)}
    (hkeeps : KeepsOthers table)
    (hskips : ∀ s acc, s.withoutRowid = true → table s acc = .ok (skipTable s acc))
    (hnames : (schemas.map TableSchema.name).Nodup) (hdesc : Describes r schemas D₀)
    (h : resolveSchemas table schemas r = (.ok batch, r')) (n : String)
    (hn : ∀ s ∈ schemas, s.name = n → s.withoutRowid = true) :
    batch.upsertsOf n = [] ∧ batch.deletesOf n = [] := by
  by_cases hfind : findSchema schemas n = none
  · obtain ⟨-, hups, hdels⟩ := resolveSchemas_vanished hkeeps h hfind
    refine ⟨hups, ?_⟩
    rw [eq_nil_iff_forall_not_mem]
    intro d hd
    obtain ⟨st, hst, -⟩ := (hdels d).mp hd
    obtain ⟨s, hs, hname, -⟩ := hdesc.only n (by rw [hst]; exact Option.some_ne_none st)
    exact findSchema_eq_none.mp hfind s hs hname
  · obtain ⟨s, hs, rfl⟩ : ∃ s ∈ schemas, s.name = n := by
      by_contra hno
      exact hfind (findSchema_eq_none.mpr fun s hs hname => hno ⟨s, hs, hname⟩)
    exact (resolveSchemas_skipped hkeeps hskips hnames h hs (hn s hs rfl)).2

/-- One commit: every leaf whose rows differ is dirty, so the batch is exact and the memory moves
on to the new contents. -/
theorem applyFrames_converged {dirty : List UInt32} (hnames : (schemas.map TableSchema.name).Nodup)
    (hdesc : Describes r schemas D₀)
    (hwf₀ : ∀ s ∈ schemas, s.withoutRowid = false → (D₀ s.name).Wf)
    (himage : ImageOf schemas fetcher pageSize D)
    (hdirty : ∀ s ∈ schemas, s.withoutRowid = false →
      CleanLeavesAgree (D₀ s.name) (D s.name) dirty) :
    ∃ batch r', r.applyFrames schemas dirty fetcher pageSize = (.ok batch, r') ∧
      Converged schemas D₀ D batch r r' := by
  obtain ⟨batch, r', h⟩ := applyFrames_succeeds dirty hnames hdesc hwf₀ himage
  -- the outcome for each rowid table
  have htable : ∀ s ∈ schemas, s.withoutRowid = false → ∃ st₀ st₁ gone,
      r.tables.lookup s.name = some st₀ ∧ Tracks st₀ (D₀ s.name) ∧ st₀.rootPage = s.rootPage ∧
      Updated st₀ (D s.name) dirty (leafHash fetcher pageSize) gone st₁ ∧
      Emits r' batch s.name st₁
        (rowOps s.name (D s.name) ((D s.name).leaves.filter (Refreshed st₀ dirty)))
        (gone.map (rowDelete s.name st₀)) := by
    intro s hs hrowid
    obtain ⟨st₀, hst₀, hroot, htracks⟩ := hdesc.tracked s hs hrowid
    obtain ⟨hread, hwf⟩ := himage s hs hrowid
    obtain ⟨st₁, gone, hupd, hemits⟩ := applyFrames_same_root hnames h hs hrowid hst₀ hroot hread
      hwf (htracks.onePage (hwf₀ s hs hrowid))
    exact ⟨st₀, st₁, gone, hst₀, htracks, hroot, hupd, hemits⟩
  have hdesc' : Describes r' schemas D := by
    refine ⟨?_, resolveSchemas_only (applyTable_keeps dirty fetcher pageSize)
      (applyTable_skips dirty fetcher pageSize) hnames h⟩
    intro s hs hrowid
    obtain ⟨st₀, st₁, gone, -, htracks, hroot, hupd, hemits⟩ := htable s hs hrowid
    refine ⟨st₁, hemits.lookup, ?_, hupd.tracks htracks (hdirty s hs hrowid)⟩
    exact (congrArg TableState.rootPage hupd.frame).trans hroot
  refine ⟨batch, r', h, ?_, ?_, hdesc', fun hretains => ⟨fun hcovers => ?_, fun hreach => ?_⟩⟩
  · intro s hs hrowid
    obtain ⟨st₀, st₁, gone, -, htracks, -, hupd, hemits⟩ := htable s hs hrowid
    have hwf := (himage s hs hrowid).2
    refine patched_eq hemits (hwf₀ s hs hrowid) hwf (fun p hp => mem_of_mem_filter hp) ?_
      (hupd.gone_record htracks (hwf₀ s hs hrowid) hwf (hdirty s hs hrowid))
    intro p hp hnot
    have hclean := rows_eq_of_not_refreshed htracks (hdirty s hs hrowid) hp fun href =>
      hnot (mem_filter.mpr ⟨hp, decide_eq_true href⟩)
    exact ⟨hclean.1, hclean.2.2⟩
  · exact others_of_describes (applyTable_keeps dirty fetcher pageSize)
      (applyTable_skips dirty fetcher pageSize) hnames hdesc h
  · exact hcovers.reachPks hdesc' fun s hs hrowid => (himage s hs hrowid).2
  · refine RetainsAll.coversAll (fun s hs hrowid st hst => ?_) hreach
    obtain ⟨st₀, st₁, gone, hst₀, htracks, -, hupd, hemits⟩ := htable s hs hrowid
    obtain ⟨⟨hpk, hkept⟩, hr⟩ := hretains s hs hrowid st₀ hst₀
    rw [hemits.lookup] at hst
    cases hst
    obtain ⟨hpk₁, hkept₁⟩ := keep_of_frame hupd.frame
    refine ⟨⟨hpk₁.trans hpk, hkept₁.trans hkept⟩, ?_⟩
    refine hupd.retains htracks (hwf₀ s hs hrowid) (himage s hs hrowid).2 (hdirty s hs hrowid) hr ?_
    rw [hpk]
    exact pkValue_reaches (hreach s hs hrowid)

theorem bootstrap_built (r : OpResolver) (hnames : (schemas.map TableSchema.name).Nodup)
    (himage : ImageOf schemas fetcher pageSize D) :
    ∃ batch r', r.bootstrap schemas fetcher pageSize = (.ok batch, r') ∧
      (∀ s ∈ schemas, s.withoutRowid = false → ∃ st₁,
        Built (TableState.ofSchema s) (D s.name) (leafHash fetcher pageSize) st₁ ∧
        Emits r' batch s.name st₁ (rowOps s.name (D s.name) (D s.name).leaves) []) ∧
      ∀ n, r'.tables.lookup n ≠ none → ∃ s ∈ schemas, s.name = n ∧ s.withoutRowid = false := by
  obtain ⟨batch, r', h⟩ : ∃ batch r', r.bootstrap schemas fetcher pageSize = (.ok batch, r') := by
    apply resolveSchemas_succeeds (diffTable_keeps fetcher pageSize true) hnames
    intro s hs acc _ _
    cases hrowid : s.withoutRowid with
    | true => exact ⟨_, diffTable_skips fetcher pageSize true s acc hrowid⟩
    | false =>
      obtain ⟨hread, hwf⟩ := himage s hs hrowid
      have hblind : comparableState acc.1 s true = none := rfl
      obtain ⟨st₁, -, hok⟩ := diffTable_fresh hrowid hblind hread hwf
      exact ⟨_, hok⟩
  refine ⟨batch, r', h, ?_, resolveSchemas_only (diffTable_keeps fetcher pageSize true)
    (diffTable_skips fetcher pageSize true) hnames h⟩
  intro s hs hrowid
  obtain ⟨hread, hwf⟩ := himage s hs hrowid
  exact fullDiff_fresh hnames h hs hrowid rfl hread hwf

theorem bootstrap_converged (r : OpResolver) (hnames : (schemas.map TableSchema.name).Nodup)
    (himage : ImageOf schemas fetcher pageSize D) :
    ∃ batch r', r.bootstrap schemas fetcher pageSize = (.ok batch, r') ∧
      Describes r' schemas D ∧ (ReachPks schemas D → RetainsAll r' schemas D) ∧
      ∀ s ∈ schemas, s.withoutRowid = false →
        patched batch s.name (fun _ => none) = (D s.name).record := by
  obtain ⟨batch, r', h, htable, honly⟩ := bootstrap_built r hnames himage
  refine ⟨batch, r', h, ⟨?_, honly⟩, ?_, ?_⟩
  · intro s hs hrowid
    obtain ⟨st₁, hbuilt, hemits⟩ := htable s hs hrowid
    exact ⟨st₁, hemits.lookup, congrArg TableState.rootPage hbuilt.frame, hbuilt.tracks⟩
  · intro hreach s hs hrowid st hst
    obtain ⟨st₁, hbuilt, hemits⟩ := htable s hs hrowid
    rw [hemits.lookup] at hst
    cases hst
    exact ⟨keep_of_frame hbuilt.frame, hbuilt.retains (hreach s hs hrowid)⟩
  · intro s hs hrowid
    obtain ⟨st₁, -, hemits⟩ := htable s hs hrowid
    have hempty : (⟨[], fun _ => []⟩ : TableView).record = fun _ => none := rfl
    have hnone : Emits r' batch s.name st₁ (rowOps s.name (D s.name) (D s.name).leaves)
        (([] : List Int64).map (rowDelete s.name st₁)) := hemits
    rw [← hempty]
    refine patched_eq hnone nodup_nil (himage s hs hrowid).2 (fun p hp => hp)
      (fun p hp hnot => absurd hp hnot) ?_
    simp [hempty]

end

structure Commit where
  dirtyPages : List UInt32
  fetcher : PageFetcher
  contents : Contents

def CommitsFrom (schemas : List TableSchema) (pageSize : Nat) : Contents → List Commit → Prop
  | _, [] => True
  | D₀, c :: cs =>
    ImageOf schemas c.fetcher pageSize c.contents ∧
    (∀ s ∈ schemas, s.withoutRowid = false →
      CleanLeavesAgree (D₀ s.name) (c.contents s.name) c.dirtyPages) ∧
    CommitsFrom schemas pageSize c.contents cs

/-- `applyFrames`, commit after commit, succeeds and converges at each of them.  As long as the
records reach the key column, the retained identities and records are those of each image. -/
def ConvergesAlong (schemas : List TableSchema) (pageSize : Nat) :
    Prop → OpResolver → Contents → List Commit → Prop
  | _, _, _, [] => True
  | reached, r, D₀, c :: cs => ∃ batch r',
      r.applyFrames schemas c.dirtyPages c.fetcher pageSize = (.ok batch, r') ∧
      Converged schemas D₀ c.contents batch r r' ∧
      (reached → (CoversAll r' schemas c.contents ↔ ReachPks schemas c.contents)) ∧
      ConvergesAlong schemas pageSize (reached ∧ ReachPks schemas c.contents) r' c.contents cs

theorem convergesAlong {schemas : List TableSchema} {pageSize : Nat} {r : OpResolver}
    {D₀ : Contents} {commits : List Commit} {reached : Prop}
    (hnames : (schemas.map TableSchema.name).Nodup) (hdesc : Describes r schemas D₀)
    (hreached : reached → RetainsAll r schemas D₀)
    (hwf₀ : ∀ s ∈ schemas, s.withoutRowid = false → (D₀ s.name).Wf)
    (hcommits : CommitsFrom schemas pageSize D₀ commits) :
    ConvergesAlong schemas pageSize reached r D₀ commits := by
  induction commits generalizing r D₀ reached with
  | nil => trivial
  | cons c cs ih =>
    obtain ⟨himage, hdirty, hrest⟩ := hcommits
    obtain ⟨batch, r', hstep, hconv⟩ := applyFrames_converged hnames hdesc hwf₀ himage hdirty
    refine ⟨batch, r', hstep, hconv, fun h => hconv.covers (hreached h), ih hconv.describes ?_
      (fun s hs hrowid => (himage s hs hrowid).2) hrest⟩
    exact fun h => ((hconv.covers (hreached h.1)).mpr h.2).1

theorem applyFrames_converges {schemas : List TableSchema} {pageSize : Nat} {r : OpResolver}
    {D₀ : Contents} {commits : List Commit} (hnames : (schemas.map TableSchema.name).Nodup)
    (hdesc : Describes r schemas D₀)
    (hwf₀ : ∀ s ∈ schemas, s.withoutRowid = false → (D₀ s.name).Wf)
    (hcommits : CommitsFrom schemas pageSize D₀ commits) :
    ConvergesAlong schemas pageSize (RetainsAll r schemas D₀) r D₀ commits :=
  convergesAlong hnames hdesc id hwf₀ hcommits

-- row 1 is deleted, row 2 moves from leaf 4 to leaf 3 with a new value, row 3 is inserted
def movingSchema : TableSchema :=
  { name := "t", rootPage := 2, pkRecordIndex := 0, pkFromRowid := false, retainRecords := true }

def movingBefore : PageFetcher := pagesOf
  [(2, smallInterior 3 4), (3, smallLeaf [(1, [2, 1, 5])]), (4, smallLeaf [(2, [2, 1, 6])])]

def movingAfter : PageFetcher := pagesOf
  [(2, smallInterior 3 4), (3, smallLeaf [(2, [2, 1, 7])]), (4, smallLeaf [(3, [2, 1, 8])])]

def movingContents (left right : DecodedRow) : Contents := fun _ =>
  { leaves := [3, 4], rows := fun p => if p = 3 then [left] else [right] }

def movingCommit : Commit where
  dirtyPages := [3, 4]
  fetcher := movingAfter
  contents := movingContents ⟨2, [.integer 7]⟩ ⟨3, [.integer 8]⟩

theorem imageOf_one {s : TableSchema} {fetcher : PageFetcher} {D : Contents}
    (hwalk : collectLeafPages s.rootPage fetcher 512 = .ok (D s.name).leaves)
    (hall : ((D s.name).leaves.all fun p => decodeLeaf p fetcher 512 =
      .ok ((D s.name).rows p, leafHash fetcher 512 p)) = true)
    (hwf : (D s.name).Wf) : ImageOf [s] fetcher 512 D := by
  intro s' hs _
  obtain rfl := mem_singleton.mp hs
  exact ⟨.of_all hwalk hall, hwf⟩

theorem reachPks_one {s : TableSchema} {D : Contents}
    (h : ((D s.name).all.all fun row => s.pkRecordIndex.toNat < row.values.length) = true) :
    ReachPks [s] D := by
  intro s' hs _ _ _ row hrow
  obtain rfl := mem_singleton.mp hs
  exact of_decide_eq_true (all_eq_true.mp h row hrow)

theorem movingBefore_image : ImageOf [movingSchema] movingBefore 512
    (movingContents ⟨1, [.integer 5]⟩ ⟨2, [.integer 6]⟩) :=
  imageOf_one (by decide +kernel) (by decide +kernel) (by decide)

theorem movingAfter_image : ImageOf [movingSchema] movingAfter 512 movingCommit.contents :=
  imageOf_one (by decide +kernel) (by decide +kernel) (by decide)

theorem applyFrames_converges_moving : ∃ r,
    Describes r [movingSchema] (movingContents ⟨1, [.integer 5]⟩ ⟨2, [.integer 6]⟩) ∧
    RetainsAll r [movingSchema] (movingContents ⟨1, [.integer 5]⟩ ⟨2, [.integer 6]⟩) ∧
    ReachPks [movingSchema] movingCommit.contents ∧
    ConvergesAlong [movingSchema] 512
      (RetainsAll r [movingSchema] (movingContents ⟨1, [.integer 5]⟩ ⟨2, [.integer 6]⟩)) r
      (movingContents ⟨1, [.integer 5]⟩ ⟨2, [.integer 6]⟩) [movingCommit] := by
  obtain ⟨_, r, _, hdesc, hretains, _⟩ := bootstrap_converged {} (by decide) movingBefore_image
  refine ⟨r, hdesc, hretains (reachPks_one (by decide)), reachPks_one (by decide),
    applyFrames_converges (by decide) hdesc ?_ ⟨movingAfter_image, ?_, trivial⟩⟩
  · exact fun s hs hrowid => (movingBefore_image s hs hrowid).2
  · exact fun s _ _ p hp _ _ => hp

-- row 1 is written again, without the key column
def shortenedSchema : TableSchema :=
  { name := "t", rootPage := 2, pkRecordIndex := 0, pkFromRowid := false }

def shortenedContents (values : List SqliteValue) : Contents := fun _ =>
  { leaves := [2], rows := fun _ => [⟨1, values⟩] }

def shortenedCommit : Commit where
  dirtyPages := [2]
  fetcher := pagesOf [(2, smallLeaf [(1, [1])])]
  contents := shortenedContents []

def shortenedBefore : PageFetcher := pagesOf [(2, smallLeaf [(1, [2, 1, 5])])]

theorem shortenedBefore_image :
    ImageOf [shortenedSchema] shortenedBefore 512 (shortenedContents [.integer 5]) :=
  imageOf_one (by decide +kernel) (by decide +kernel) (by decide)

theorem shortenedAfter_image :
    ImageOf [shortenedSchema] shortenedCommit.fetcher 512 shortenedCommit.contents :=
  imageOf_one (by decide +kernel) (by decide +kernel) (by decide)

theorem shortened_keeps_identity :
    (((({} : OpResolver).bootstrap [shortenedSchema] shortenedBefore 512).2.applyFrames
      [shortenedSchema] shortenedCommit.dirtyPages shortenedCommit.fetcher 512).2.tables.lookup
        "t").bind (·.identities 1) = some (.integer 5) := by decide +kernel

theorem applyFrames_keeps_stale_identity : ∃ r r' batch,
    Describes r [shortenedSchema] (shortenedContents [.integer 5]) ∧
    CoversAll r [shortenedSchema] (shortenedContents [.integer 5]) ∧
    CommitsFrom [shortenedSchema] 512 (shortenedContents [.integer 5]) [shortenedCommit] ∧
    r.applyFrames [shortenedSchema] shortenedCommit.dirtyPages shortenedCommit.fetcher 512 =
      (.ok batch, r') ∧
    (r'.tables.lookup "t").bind (·.identities 1) = some (.integer 5) ∧
    ¬ CoversAll r' [shortenedSchema] shortenedCommit.contents := by
  obtain ⟨_, r, h, hdesc, hretains, _⟩ := bootstrap_converged {} (by decide) shortenedBefore_image
  have hreach : ReachPks [shortenedSchema] (shortenedContents [.integer 5]) :=
    reachPks_one (by decide)
  have hclean : ∀ s ∈ [shortenedSchema], s.withoutRowid = false →
      CleanLeavesAgree (shortenedContents [.integer 5] s.name) (shortenedCommit.contents s.name)
        shortenedCommit.dirtyPages :=
    fun s _ _ p hp _ _ => hp
  have hwf := fun s hs hrowid => (shortenedBefore_image s hs hrowid).2
  obtain ⟨batch, r', hstep, hconv⟩ :=
    applyFrames_converged (by decide) hdesc hwf shortenedAfter_image hclean
  have hstale := shortened_keeps_identity
  simp only [h, hstep] at hstale
  refine ⟨r, r', batch, hdesc, (hretains hreach).coversAll hreach,
    ⟨shortenedAfter_image, hclean, trivial⟩, hstep, hstale, fun hcovers => ?_⟩
  have hshort := (hconv.covers (hretains hreach)).mp hcovers shortenedSchema mem_cons_self rfl
    (by decide) (by decide) ⟨1, []⟩ mem_cons_self
  exact absurd hshort (by decide)

end Ladybug.Sqlite
