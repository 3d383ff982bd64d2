import Ladybug.Sqlite.ResolverConverges

/-!
# What `reconcile` restores

With locally stored payloads and no hash collision, a leaf taken over on its hash holds the rows it
held before, so a diff against a comparable state is exact.  A table tracked under another root, or
now without rowids, is not compared: the rows it lost stay.
-/

namespace Ladybug.Sqlite

open Bytes List

def cellIsLocal (image : Bytes) (pageSize ci : Nat) : Bool :=
  match readU16BE image (8 + 2 * ci) with
  | .error _ => true
  | .ok off =>
    match readVarint image off.toNat (pageSize - off.toNat) with
    | .ok (some (len, _)) => len.toNat ≤ pageSize - 35
    | _ => true

def LocalPayloads (image : Bytes) (pageSize : Nat) : Prop :=
  ∀ nCell, readU16BE image 3 = .ok nCell → ∀ ci < nCell.toNat, cellIsLocal image pageSize ci

variable {image : Bytes} {pageSize size : Nat}

theorem assembleRecord_local {recordOff payloadLen : Nat} (h : payloadLen ≤ pageSize - 35)
    (f g : PageFetcher) :
    assembleRecord image pageSize pageSize f recordOff payloadLen =
      assembleRecord image pageSize pageSize g recordOff payloadLen := by
  have hlocal : leafLocalPayload pageSize payloadLen = payloadLen := if_pos h
  unfold assembleRecord
  simp only [hlocal, if_true]

theorem decodeCell_local {ci : Nat} {nCell : UInt16} (hlocal : LocalPayloads image pageSize)
    (hcount : readU16BE image 3 = .ok nCell) (hci : ci < nCell.toNat) (f g : PageFetcher) :
    decodeCell image pageSize pageSize 1 f ci = decodeCell image pageSize pageSize 1 g ci := by
  have hfits := hlocal nCell hcount ci hci
  unfold cellIsLocal at hfits
  unfold decodeCell
  simp only [bind, Except.bind]
  cases hoff : readU16BE image (8 + 2 * ci) with
  | error e => rfl
  | ok off =>
    rw [hoff] at hfits
    dsimp only at hfits ⊢
    cases hlen : readVarint image off.toNat (pageSize - off.toNat) with
    | error e => rfl
    | ok res =>
      cases res with
      | none => rfl
      | some lenN =>
        rw [hlen] at hfits
        simp only [assembleRecord_local (of_decide_eq_true hfits) f g]

theorem decodeTableLeafPage_local (hlocal : LocalPayloads image pageSize) (f g : PageFetcher) :
    decodeTableLeafPage image pageSize pageSize 0 1 f =
      decodeTableLeafPage image pageSize pageSize 0 1 g := by
  unfold decodeTableLeafPage
  refine ite_congr rfl (fun _ => rfl) fun _ => ?_
  simp only [bind, Except.bind]
  cases readByte image 0 with
  | error e => rfl
  | ok flags =>
    refine ite_congr rfl (fun _ => rfl) fun _ => ?_
    cases hcount : readU16BE image 3 with
    | error e => rfl
    | ok nCell =>
      have hcells : ∀ cs : List Nat, (∀ ci ∈ cs, ci < nCell.toNat) →
          cs.mapM (decodeCell image pageSize pageSize 1 f) =
            cs.mapM (decodeCell image pageSize pageSize 1 g) := by
        intro cs hcs
        induction cs with
        | nil => rw [mapM_nil, mapM_nil]
        | cons ci cs ih =>
          rw [mapM_cons, mapM_cons, decodeCell_local hlocal hcount (hcs ci mem_cons_self) f g,
            ih fun x hx => hcs x (mem_cons_of_mem ci hx)]
      exact hcells _ fun ci hci => mem_range.mp hci

def PageSized (fetcher : PageFetcher) (pageSize : Nat) : Prop :=
  ∀ p image, fetcher p = some image → image.length = pageSize

def HashesOf (r : OpResolver) (fetcher : PageFetcher) : Prop :=
  ∀ n st p page, r.tables.lookup n = some st → st.pages.lookup p = some page →
    ∃ image, fetcher p = some image ∧ page.imageHash = hashImage image

def NoCollision (f g : PageFetcher) : Prop :=
  ∀ p b c, f p = some b → g p = some c → hashImage b = hashImage c → b = c

theorem readSlice_all {n : Nat} (h : image.length = n) : readSlice image 0 n = .ok image := by
  unfold readSlice
  rw [if_pos (by omega), drop_zero, ← h, take_length]

theorem leafHash_eq {fetcher : PageFetcher} {root : UInt32} {v : TableView}
    (hread : ReadsTable fetcher pageSize root v) (hsized : PageSized fetcher pageSize) {p : UInt32}
    (hp : p ∈ v.leaves) : ∃ image, fetcher p = some image ∧
      leafHash fetcher pageSize p = hashImage image ∧
      decodeTableLeafPage image pageSize pageSize 0 1 fetcher = .ok (v.rows p) := by
  obtain ⟨image, bytes, hfetch, hbytes, hhash, hdecode⟩ := decodeLeaf_ok (hread.decodeLeaf hp)
  rw [readSlice_all (hsized p image hfetch)] at hbytes
  cases hbytes
  exact ⟨image, hfetch, hhash, hdecode⟩

theorem takenOver_agree {f₀ f : PageFetcher} {size₀ : Nat} {root₀ root : UInt32} {r : OpResolver}
    {n : String} {st₀ : TableState} {v₀ v : TableView} (hst : r.tables.lookup n = some st₀)
    (htracks : Tracks st₀ v₀) (hread₀ : ReadsTable f₀ size₀ root₀ v₀)
    (hread : ReadsTable f size root v) (hsized₀ : PageSized f₀ size₀) (hsized : PageSized f size)
    (hhashes : HashesOf r f₀) (hinj : NoCollision f₀ f)
    (hlocal : ∀ p ∈ v₀.leaves, ∀ image, f₀ p = some image → LocalPayloads image size₀) :
    TakenOverAgree st₀ v₀ v (leafHash f size) := by
  intro p hp hnot
  obtain ⟨page, hpage⟩ := Option.ne_none_iff_exists'.mp hnot
  obtain ⟨hlookup, hhash⟩ := unchangedPage_some hpage
  have hp₀ := htracks.mem_leaves hlookup
  obtain ⟨image, hfetch, hnew, hdecode⟩ := leafHash_eq hread hsized hp
  obtain ⟨image₀, hfetch₀, hrecorded⟩ := hhashes n st₀ p page hst hlookup
  obtain ⟨image₀', hfetch₀', -, hdecode₀⟩ := leafHash_eq hread₀ hsized₀ hp₀
  rw [hfetch₀] at hfetch₀'
  cases hfetch₀'
  -- the same bytes, so the same page size and, read locally, the same rows
  have himage : image₀ = image :=
    hinj p image₀ image hfetch₀ hfetch (by rw [← hrecorded, hhash, hnew])
  subst himage
  have hsize : size₀ = size := (hsized₀ p image₀ hfetch₀).symm.trans (hsized p image₀ hfetch)
  subst hsize
  rw [decodeTableLeafPage_local (hlocal p hp₀ image₀ hfetch₀) f₀ f, hdecode] at hdecode₀
  exact (Except.ok.inj hdecode₀).symm

/-- The rowid → record map of table `n`, empty when the schemas list no such rowid table. -/
def rowsOf (schemas : List TableSchema) (D : Contents) (n : String) :
    Int64 → Option (List SqliteValue) :=
  if ∃ s ∈ schemas, s.name = n ∧ s.withoutRowid = false then (D n).record else fun _ => none

/-- Upserts, then deletes, then the dropped tables. -/
def OpBatch.applied (batch : OpBatch) (n : String) (m : Int64 → Option (List SqliteValue)) :
    Int64 → Option (List SqliteValue) :=
  if n ∈ batch.droppedTables then fun _ => none else patched batch n m

section

variable {r r' : OpResolver} {schemas₀ schemas : List TableSchema} {D₀ D : Contents}
  {f₀ f : PageFetcher} {size₀ size : Nat} {batch : OpBatch} {n : String} {st : TableState}
  {s : TableSchema}

theorem Describes.rowsOf_tracked (h : Describes r schemas₀ D₀) (hst : r.tables.lookup n = some st) :
    rowsOf schemas₀ D₀ n = (D₀ n).record :=
  if_pos (h.only n (by rw [hst]; exact Option.some_ne_none st))

theorem Describes.rowsOf_untracked (h : Describes r schemas₀ D₀) (hst : r.tables.lookup n = none) :
    rowsOf schemas₀ D₀ n = fun _ => none := by
  apply if_neg
  rintro ⟨s, hs, rfl, hrowid⟩
  obtain ⟨st, hsome, -⟩ := h.tracked s hs hrowid
  rw [hst] at hsome
  cases hsome

theorem patched_nil {batch : OpBatch} (hups : batch.upsertsOf n = [])
    (hdels : batch.deletesOf n = []) (m : Int64 → Option (List SqliteValue)) :
    patched batch n m = m := by
  unfold patched
  rw [hups, hdels]
  rfl

/-- What a resolution may assume of the image its memory describes and of the new one. -/
structure ReconcileInput (r : OpResolver) (schemas₀ schemas : List TableSchema) (D₀ D : Contents)
    (f₀ f : PageFetcher) (size₀ size : Nat) : Prop where
  names : (schemas.map TableSchema.name).Nodup
  describes : Describes r schemas₀ D₀
  hashes : HashesOf r f₀
  image₀ : ImageOf schemas₀ f₀ size₀ D₀
  image : ImageOf schemas f size D
  sized₀ : PageSized f₀ size₀
  sized : PageSized f size
  noCollision : NoCollision f₀ f
  localPayloads : ∀ s ∈ schemas₀, s.withoutRowid = false → ∀ p ∈ (D₀ s.name).leaves,
    ∀ image, f₀ p = some image → LocalPayloads image size₀

section

variable (h : ReconcileInput r schemas₀ schemas D₀ D f₀ f size₀ size)

include h

theorem ReconcileInput.tracked (hst : r.tables.lookup n = some st) :
    Tracks st (D₀ n) ∧ (D₀ n).Wf ∧ ∀ root v, ReadsTable f size root v →
      TakenOverAgree st (D₀ n) v (leafHash f size) := by
  obtain ⟨s₀, hs₀, rfl, hrowid₀⟩ :=
    h.describes.only n (by rw [hst]; exact Option.some_ne_none st)
  obtain ⟨st', hst', -, htracks⟩ := h.describes.tracked s₀ hs₀ hrowid₀
  rw [hst] at hst'
  cases hst'
  obtain ⟨hread₀, hwf₀⟩ := h.image₀ s₀ hs₀ hrowid₀
  exact ⟨htracks, hwf₀, fun root v hread => takenOver_agree hst htracks hread₀ hread h.sized₀
    h.sized h.hashes h.noCollision (h.localPayloads s₀ hs₀ hrowid₀)⟩

theorem ReconcileInput.succeeds : ∃ batch r', r.reconcile schemas f size = (.ok batch, r') := by
  apply resolveSchemas_succeeds (diffTable_keeps f size false) h.names
  intro s hs acc hlookup _
  cases hrowid : s.withoutRowid with
  | true => exact ⟨_, diffTable_skips f size false s acc hrowid⟩
  | false =>
    obtain ⟨hread, hwf⟩ := h.image s hs hrowid
    cases hold : comparableState acc.1 s false with
    | none =>
      obtain ⟨st₁, -, hok⟩ := diffTable_fresh hrowid hold hread hwf
      exact ⟨_, hok⟩
    | some st =>
      have hst : r.tables.lookup s.name = some st := by
        rw [← hlookup]
        exact (Option.filter_eq_some_iff.mp hold).1
      obtain ⟨htracks, hwf₀, -⟩ := h.tracked hst
      obtain ⟨st₁, gone, -, hok⟩ :=
        diffTable_same hrowid hold hread hwf (htracks.onePage hwf₀)
      exact ⟨_, hok⟩

end

/-- A tracked table the diff cannot compare loses no row. -/
def KeepsUncompared (r : OpResolver) (schemas : List TableSchema) (D₀ D : Contents)
    (n : String) : Prop :=
  ∀ s ∈ schemas, s.name = n → ∀ st ∈ r.tables.lookup n,
    s.withoutRowid = true ∨ st.rootPage ≠ s.rootPage →
    ∀ x, (D₀ n).record x ≠ none → rowsOf schemas D n x ≠ none

section

variable (h : ReconcileInput r schemas₀ schemas D₀ D f₀ f size₀ size)

include h

section

variable (hrun : r.reconcile schemas f size = (.ok batch, r'))

include hrun

theorem applied_vanished (hfind : findSchema schemas n = none) :
    batch.applied n (rowsOf schemas₀ D₀ n) = rowsOf schemas D n := by
  have hnew : rowsOf schemas D n = fun _ => none := by
    apply if_neg
    rintro ⟨s, hs, hname, -⟩
    exact findSchema_eq_none.mp hfind s hs hname
  have hdropped := resolveSchemas_dropped (diffTable_keeps f size false) hrun n
  rw [hnew]
  unfold OpBatch.applied
  cases hst : r.tables.lookup n with
  | some st => exact if_pos (hdropped.mpr ⟨hfind, by rw [hst]; exact Option.some_ne_none st⟩)
  | none =>
    rw [if_neg fun hin => (hdropped.mp hin).2 hst, h.describes.rowsOf_untracked hst]
    obtain ⟨-, hups, hdels⟩ := resolveSchemas_vanished (diffTable_keeps f size false) hrun hfind
    refine patched_nil hups ?_ _
    rw [eq_nil_iff_forall_not_mem]
    intro d hd
    obtain ⟨st, hsome, -⟩ := (hdels d).mp hd
    rw [hst] at hsome
    cases hsome

theorem applied_withoutRowid (hs : s ∈ schemas) (hw : s.withoutRowid = true) :
    patched batch s.name (rowsOf schemas₀ D₀ s.name) = rowsOf schemas D s.name ↔
      ∀ st ∈ r.tables.lookup s.name, ∀ x, (D₀ s.name).record x = none := by
  obtain ⟨-, hups, hdels⟩ := resolveSchemas_skipped (diffTable_keeps f size false)
    (diffTable_skips f size false) h.names hrun hs hw
  have hnew : rowsOf schemas D s.name = fun _ => none := by
    apply if_neg
    rintro ⟨t, ht, hname, hrowid⟩
    rw [inj_on_of_nodup_map h.names ht hs hname, hw] at hrowid
    cases hrowid
  rw [patched_nil hups hdels, hnew]
  cases hst : r.tables.lookup s.name with
  | none =>
    rw [h.describes.rowsOf_untracked hst]
    exact iff_of_true rfl fun st hst => by cases hst
  | some st =>
    rw [h.describes.rowsOf_tracked hst, funext_iff]
    constructor
    · exact fun hall _ _ x => hall x
    · exact fun hall x => hall st rfl x

theorem applied_compared (hs : s ∈ schemas) (hrowid : s.withoutRowid = false)
    (hst : r.tables.lookup s.name = some st) (hroot : st.rootPage = s.rootPage) :
    patched batch s.name (rowsOf schemas₀ D₀ s.name) = rowsOf schemas D s.name := by
  obtain ⟨hread, hwf⟩ := h.image s hs hrowid
  obtain ⟨htracks, hwf₀, hagree⟩ := h.tracked hst
  obtain ⟨st₁, gone, hrec, hemits⟩ := fullDiff_same_root h.names hrun hs hrowid
    (comparableState_same hst hroot) hread hwf (htracks.onePage hwf₀)
  have hsame := hagree s.rootPage _ hread
  rw [h.describes.rowsOf_tracked hst,
    show rowsOf schemas D s.name = (D s.name).record from if_pos ⟨s, hs, rfl, hrowid⟩]
  refine patched_eq hemits hwf₀ hwf (fun p hp => mem_of_mem_filter hp) ?_
    (hrec.gone_record htracks hwf₀ hwf hsame)
  intro p hp hnot
  have hunchanged : ¬ Changed (some st) (leafHash f size) p := fun hchanged =>
    hnot (mem_filter.mpr ⟨hp, decide_eq_true hchanged⟩)
  exact ⟨mem_leaves_of_not_changed htracks hunchanged, hsame p hp hunchanged⟩

theorem applied_uncompared (hs : s ∈ schemas) (hrowid : s.withoutRowid = false)
    (hcomparable : comparableState r s false = none) :
    patched batch s.name (rowsOf schemas₀ D₀ s.name) = rowsOf schemas D s.name ↔
      ∀ x, rowsOf schemas₀ D₀ s.name x ≠ none → rowsOf schemas D s.name x ≠ none := by
  obtain ⟨hread, hwf⟩ := h.image s hs hrowid
  obtain ⟨st₁, -, hemits⟩ := fullDiff_fresh h.names hrun hs hrowid hcomparable hread hwf
  have hnew : rowsOf schemas D s.name = (D s.name).record := if_pos ⟨s, hs, rfl, hrowid⟩
  have hcovers : Covers (rowsOf schemas₀ D₀ s.name) (D s.name).record (batch.upsertsOf s.name) := by
    refine covers_perm ⟨?_, ?_⟩ hemits.upserts
    · intro u hu
      obtain ⟨op, hop, rfl⟩ := mem_map.mp hu
      obtain ⟨p, hp, row, hrow, rfl⟩ := mem_rowOps.mp hop
      exact TableView.record_of_mem hwf (TableView.mem_all.mpr ⟨p, hp, hrow⟩)
    · intro x a ha hnot
      obtain ⟨p, hp, hrow⟩ := TableView.mem_of_record ha
      refine absurd (mem_map.mpr ⟨(x, a), ?_, rfl⟩) hnot
      exact mem_map.mpr ⟨rowOp s.name ⟨x, a⟩, mem_rowOps.mpr ⟨p, hp, ⟨x, a⟩, hrow, rfl⟩, rfl⟩
  have hnone : (batch.deletesOf s.name).map RowDelete.rowid = [] :=
    map_eq_nil_iff.mpr (perm_nil.mp hemits.deletes)
  rw [hnew, patched, hnone, patch_eq_iff hcovers]
  constructor
  · rintro ⟨-, hlost⟩ x hold hnone
    exact absurd (hlost x hold hnone) not_mem_nil
  · intro hkeeps
    refine ⟨fun x hx => absurd hx not_mem_nil, fun x hold hnone => ?_⟩
    exact absurd hnone (hkeeps x hold)

end

end

/-- The batch of a reconcile turns the old maps into the new ones exactly when the tables it
cannot compare lost no row. -/
theorem reconcile_exact_iff (h : ReconcileInput r schemas₀ schemas D₀ D f₀ f size₀ size) :
    ∃ batch r', r.reconcile schemas f size = (.ok batch, r') ∧
      ((∀ n, batch.applied n (rowsOf schemas₀ D₀ n) = rowsOf schemas D n) ↔
        ∀ n, KeepsUncompared r schemas D₀ D n) := by
  obtain ⟨batch, r', hrun⟩ := h.succeeds
  refine ⟨batch, r', hrun, forall_congr' fun n => ?_⟩
  by_cases hfind : findSchema schemas n = none
  · refine iff_of_true (applied_vanished h hrun hfind) ?_
    intro s hs hname
    exact absurd hname (findSchema_eq_none.mp hfind s hs)
  obtain ⟨s, hs, rfl⟩ : ∃ s ∈ schemas, s.name = n := by
    by_contra hno
    exact hfind (findSchema_eq_none.mpr fun s hs hname => hno ⟨s, hs, hname⟩)
  have hlisted : ∀ t ∈ schemas, t.name = s.name → t = s :=
    fun t ht hname => inj_on_of_nodup_map h.names ht hs hname
  have happlied : batch.applied s.name (rowsOf schemas₀ D₀ s.name) =
      patched batch s.name (rowsOf schemas₀ D₀ s.name) := by
    apply if_neg
    exact fun hin =>
      hfind ((resolveSchemas_dropped (diffTable_keeps f size false) hrun s.name).mp hin).1
  rw [happlied]
  cases hw : s.withoutRowid with
  | true =>
    have hnew : ∀ x, rowsOf schemas D s.name x = none := by
      have hnone : rowsOf schemas D s.name = fun _ => none := by
        apply if_neg
        rintro ⟨t, ht, hname, hrowid⟩
        rw [hlisted t ht hname, hw] at hrowid
        cases hrowid
      exact fun x => by rw [hnone]
    rw [applied_withoutRowid h hrun hs hw]
    constructor
    · intro hempty t ht hname st hst _ x hold
      exact absurd (hempty st hst x) hold
    · intro hkeeps st hst x
      by_contra hold
      exact hkeeps s hs rfl st hst (.inl hw) x hold (hnew x)
  | false =>
    cases hst : r.tables.lookup s.name with
    | none =>
      have hcomparable : comparableState r s false = none := by
        apply comparableState_other
        intro st' hst'
        rw [hst] at hst'
        cases hst'
      rw [applied_uncompared h hrun hs hw hcomparable, h.describes.rowsOf_untracked hst]
      refine iff_of_true (fun x hx => absurd rfl hx) ?_
      intro t _ _ st hst'
      rw [hst] at hst'
      cases hst'
    | some st =>
      by_cases hroot : st.rootPage = s.rootPage
      · refine iff_of_true (applied_compared h hrun hs hw hst hroot) ?_
        intro t ht hname st' hst' hcase
        rw [hst] at hst'
        cases hst'
        rw [hlisted t ht hname, hw] at hcase
        rcases hcase with hcase | hcase
        · cases hcase
        · exact absurd hroot hcase
      · have hcomparable : comparableState r s false = none := by
          apply comparableState_other
          intro st' hst'
          rw [hst] at hst'
          cases hst'
          exact hroot
        rw [applied_uncompared h hrun hs hw hcomparable, h.describes.rowsOf_tracked hst]
        constructor
        · intro hkeeps t _ _ st' _ _ x hold
          exact hkeeps x hold
        · intro hkeeps x hold
          exact hkeeps s hs rfl st hst (.inr hroot) x hold

end

theorem bootstrap_hashes {schemas : List TableSchema} {f : PageFetcher} {D : Contents}
    (r : OpResolver) (hnames : (schemas.map TableSchema.name).Nodup)
    (himage : ImageOf schemas f size D) (hsized : PageSized f size) :
    HashesOf (r.bootstrap schemas f size).2 f ∧
      Describes (r.bootstrap schemas f size).2 schemas D := by
  obtain ⟨batch, r', h, htable, honly⟩ := bootstrap_built r hnames himage
  obtain ⟨batch', r'', h', hdesc, -⟩ := bootstrap_converged r hnames himage
  rw [h'] at h ⊢
  cases h
  refine ⟨?_, hdesc⟩
  intro n st p page hst hpage
  obtain ⟨s, hs, rfl, hrowid⟩ := honly n (by rw [hst]; exact Option.some_ne_none st)
  obtain ⟨st₁, hbuilt, hemits⟩ := htable s hs hrowid
  rw [hemits.lookup] at hst
  cases hst
  rw [hbuilt.pages p] at hpage
  split at hpage
  next hp =>
    cases hpage
    obtain ⟨image, hfetch, hhash, -⟩ := leafHash_eq (himage s hs hrowid).1 hsized hp
    exact ⟨image, hfetch, hhash⟩
  · cases hpage

theorem pageSized_pagesOf {pages : List (UInt32 × Bytes)} (h : ∀ page ∈ pages, page.2.length = size) :
    PageSized (pagesOf pages) size :=
  fun _ _ himage => h _ (mem_of_pagesOf himage)

-- table t, dropped and re-created on page 3 without its row 2
def rerootedSchema (root : UInt32) : TableSchema := { name := "t", rootPage := root }

def rerootedBefore : PageFetcher := pagesOf [(2, smallLeaf [(1, [2, 1, 5]), (2, [2, 1, 6])])]

def rerootedAfter : PageFetcher := pagesOf [(3, smallLeaf [(1, [2, 1, 5])])]

def rerootedContents (root : UInt32) (rows : List DecodedRow) : Contents := fun _ =>
  { leaves := [root], rows := fun _ => rows }

def rerootedMemory : OpResolver :=
  (({} : OpResolver).bootstrap [rerootedSchema 2] rerootedBefore 512).2

theorem rerooted_input : ReconcileInput rerootedMemory [rerootedSchema 2] [rerootedSchema 3]
    (rerootedContents 2 [⟨1, [.integer 5]⟩, ⟨2, [.integer 6]⟩])
    (rerootedContents 3 [⟨1, [.integer 5]⟩]) rerootedBefore rerootedAfter 512 512 := by
  have himage₀ : ImageOf [rerootedSchema 2] rerootedBefore 512
      (rerootedContents 2 [⟨1, [.integer 5]⟩, ⟨2, [.integer 6]⟩]) :=
    imageOf_one (by decide +kernel) (by decide +kernel) (by decide)
  have himage : ImageOf [rerootedSchema 3] rerootedAfter 512
      (rerootedContents 3 [⟨1, [.integer 5]⟩]) :=
    imageOf_one (by decide +kernel) (by decide +kernel) (by decide)
  have hsized₀ : PageSized rerootedBefore 512 := pageSized_pagesOf (by decide +kernel)
  obtain ⟨hhashes, hdesc⟩ := bootstrap_hashes {} (by decide) himage₀ hsized₀
  refine ⟨by decide, hdesc, hhashes, himage₀, himage, hsized₀,
    pageSized_pagesOf (by decide +kernel), ?_, ?_⟩
  · intro p b c hb hc
    -- no page number is in both images
    obtain ⟨rfl, -⟩ := Prod.mk.inj (mem_singleton.mp (mem_of_pagesOf hb))
    obtain ⟨hp, -⟩ := Prod.mk.inj (mem_singleton.mp (mem_of_pagesOf hc))
    exact absurd hp (by decide)
  · intro s _ _ p _ image himg nCell hcount
    obtain ⟨-, rfl⟩ := Prod.mk.inj (mem_singleton.mp (mem_of_pagesOf himg))
    have htwo : readU16BE (smallLeaf [(1, [2, 1, 5]), (2, [2, 1, 6])]) 3 = .ok 2 := by
      decide +kernel
    rw [htwo] at hcount
    cases hcount
    decide +kernel

theorem reconcile_exact_iff_rerooted : ∃ batch r',
    rerootedMemory.reconcile [rerootedSchema 3] rerootedAfter 512 = (.ok batch, r') ∧
      ((∀ n, batch.applied n (rowsOf [rerootedSchema 2]
          (rerootedContents 2 [⟨1, [.integer 5]⟩, ⟨2, [.integer 6]⟩]) n) =
          rowsOf [rerootedSchema 3] (rerootedContents 3 [⟨1, [.integer 5]⟩]) n) ↔
        ∀ n, KeepsUncompared rerootedMemory [rerootedSchema 3]
          (rerootedContents 2 [⟨1, [.integer 5]⟩, ⟨2, [.integer 6]⟩])
          (rerootedContents 3 [⟨1, [.integer 5]⟩]) n) :=
  reconcile_exact_iff rerooted_input

/-- Row 2 is gone from the new image and stays in the maintained map. -/
theorem reconcile_keeps_lost_row :
    ReconcileInput rerootedMemory [rerootedSchema 2] [rerootedSchema 3]
      (rerootedContents 2 [⟨1, [.integer 5]⟩, ⟨2, [.integer 6]⟩])
      (rerootedContents 3 [⟨1, [.integer 5]⟩]) rerootedBefore rerootedAfter 512 512 ∧
    (rerootedMemory.reconcile [rerootedSchema 3] rerootedAfter 512).1 =
      .ok { upserts := [⟨"t", 1, [.integer 5]⟩] } ∧
    OpBatch.applied { upserts := [⟨"t", 1, [.integer 5]⟩] } "t" (rowsOf [rerootedSchema 2]
        (rerootedContents 2 [⟨1, [.integer 5]⟩, ⟨2, [.integer 6]⟩]) "t") 2 =
      some [.integer 6] ∧
    rowsOf [rerootedSchema 3] (rerootedContents 3 [⟨1, [.integer 5]⟩]) "t" 2 = none :=
  ⟨rerooted_input, by decide +kernel⟩

end Ladybug.Sqlite
