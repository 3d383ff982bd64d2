import Ladybug.Sqlite.ResolverMemory
import Ladybug.Sqlite.ResolverReconcile
import Mathlib.Data.List.TakeWhile

/-!
# What a failed call leaves behind

A call that stops at a page it cannot read has already dropped the tables that vanished, stored the
tables it was done with, and in `applyFrames` erased a table under another root and updated the
present one leaf by leaf.  The memory is as before exactly when all this changed nothing.
Memories are compared by what they map: pages with their rowids and hashes, identities, records.
-/

namespace Ladybug.Sqlite

open Bytes List Option

/-! ## 1. The same memory -/

structure SamePage (a b : PageState) : Prop where
  hash : a.imageHash = b.imageHash
  rowids : ∀ x, x ∈ a.rowids ↔ x ∈ b.rowids

structure SameState (a b : TableState) : Prop where
  root : a.rootPage = b.rootPage
  pkRecordIndex : a.pkRecordIndex = b.pkRecordIndex
  pkFromRowid : a.pkFromRowid = b.pkFromRowid
  retainRecords : a.retainRecords = b.retainRecords
  pages : ∀ p, Option.Rel SamePage (a.pages.lookup p) (b.pages.lookup p)
  identities : a.identities = b.identities
  records : a.records = b.records

def SameMemory (r r' : OpResolver) : Prop :=
  ∀ n, Option.Rel SameState (r.tables.lookup n) (r'.tables.lookup n)

theorem SamePage.refl (a : PageState) : SamePage a a := ⟨rfl, fun _ => .rfl⟩

variable {α : Type} {R : α → α → Prop} {o : Option α}

theorem rel_refl (hR : ∀ a, R a a) (o : Option α) : Option.Rel R o o := by
  cases o with
  | none => exact .none
  | some a => exact .some (hR a)

theorem SameState.refl (a : TableState) : SameState a a :=
  ⟨rfl, rfl, rfl, rfl, fun _ => rel_refl SamePage.refl _, rfl, rfl⟩

theorem flags_of_frame {a b : TableState}
    (h : { a with pages := b.pages, identities := b.identities, records := b.records } = b) :
    a.rootPage = b.rootPage ∧ a.pkRecordIndex = b.pkRecordIndex ∧ a.pkFromRowid = b.pkFromRowid ∧
      a.retainRecords = b.retainRecords :=
  ⟨(congrArg TableState.rootPage h :), (congrArg TableState.pkRecordIndex h :),
    (congrArg TableState.pkFromRowid h :), (congrArg TableState.retainRecords h :)⟩

theorem rel_none_right : Option.Rel R o none ↔ o = none := by
  constructor
  · intro h
    cases h
    rfl
  · rintro rfl
    exact .none

theorem rel_some_right {b : α} : Option.Rel R o (some b) ↔ ∃ a, o = some a ∧ R a b := by
  constructor
  · intro h
    cases h with
    | some hR => exact ⟨_, rfl, hR⟩
  · rintro ⟨a, rfl, hR⟩
    exact .some hR

/-! ## 2. A table updated in place -/

section

def Reads (f : PageFetcher) (size : Nat) (p : UInt32) : Bool := (decodeLeaf p f size).isOk

theorem reads_iff {f : PageFetcher} {size : Nat} {p : UInt32} :
    Reads f size p = true ↔ ∃ decoded, decodeLeaf p f size = .ok decoded := by
  unfold Reads
  cases decodeLeaf p f size with
  | error e => exact iff_of_false Bool.false_ne_true fun ⟨_, h⟩ => nomatch h
  | ok decoded => exact iff_of_true rfl ⟨decoded, rfl⟩

def readRows (f : PageFetcher) (size : Nat) (p : UInt32) : List DecodedRow :=
  match decodeLeaf p f size with
  | .ok decoded => decoded.1
  | .error _ => []

theorem readRows_of_ok {f : PageFetcher} {size : Nat} {p : UInt32}
    {decoded : List DecodedRow × UInt64} (h : decodeLeaf p f size = .ok decoded) :
    readRows f size p = decoded.1 := by
  unfold readRows
  rw [h]

variable (st : TableState) (dirty : List UInt32) (f : PageFetcher) (size : Nat)

/-- The leaf loop of `applyFrames` gets past the leaf: it is clean or can be read. -/
def GetsPast (p : UInt32) : Prop := ¬ Refreshed st dirty p ∨ Reads f size p = true

instance (p : UInt32) : Decidable (GetsPast st dirty f size p) := inferInstanceAs (Decidable (_ ∨ _))

def rereadRows (done : List UInt32) : List DecodedRow :=
  (done.filter (· ∈ dirty)).flatMap (readRows f size)

def ReadsAsTracked (p : UInt32) : Prop :=
  ∃ page, st.pages.lookup p = some page ∧ (p ∈ dirty → ∀ decoded,
    decodeLeaf p f size = .ok decoded → SamePage page (PageState.ofRows decoded.1 decoded.2))

/-- Nothing changes when the leaves `done` of `leaves` are visited: no tracked page is gone, each
leaf is read as tracked, and the rows read again have the recorded identities and records. -/
structure UnchangedInPlace (leaves done : List UInt32) : Prop where
  sub : ∀ p, p ∈ st.pages → p ∈ leaves
  tracked : ∀ p ∈ done, ReadsAsTracked st dirty f size p
  identities : (rereadRows dirty f size done).foldl (keepRow st.pkValue) st.identities =
    st.identities
  records : (rereadRows dirty f size done).foldl (keepRow st.keptRecord) st.records = st.records

/-- The leaf loop after the leaves `done`. -/
structure Walked (leaves done : List UInt32) (w : Work) : Prop where
  frame : { w.state with
    pages := st.pages, identities := st.identities, records := st.records } = st
  fresh : ∀ p ∈ done, Refreshed st dirty p → ∃ decoded, decodeLeaf p f size = .ok decoded ∧
    w.state.pages.lookup p = some (PageState.ofRows decoded.1 decoded.2)
  rest : ∀ p, ¬ (p ∈ done ∧ Refreshed st dirty p) →
    w.state.pages.lookup p = if p ∈ leaves then st.pages.lookup p else none
  maps : (∀ p, p ∈ st.pages → p ∈ leaves) → (∀ p ∈ done, ReadsAsTracked st dirty f size p) →
    w.state.identities = (rereadRows dirty f size done).foldl (keepRow st.pkValue) st.identities ∧
    w.state.records = (rereadRows dirty f size done).foldl (keepRow st.keptRecord) st.records

variable {st dirty f size} {name : String} {leaves done : List UInt32} {w w' : Work} {p : UInt32}

theorem SameState.tracked_of {a : TableState} {P : Prop} (h : SameState st a)
    (hnone : ¬ P → a.pages.lookup p = none) (hp : p ∈ st.pages) : P := by
  by_contra hout
  have hpage := h.pages p
  rw [hnone hout, rel_none_right, AList.lookup_eq_none] at hpage
  exact hpage hp

theorem SameState.page_read {a : TableState} {decoded : List DecodedRow × UInt64}
    (h : SameState st a) (hdecode : decodeLeaf p f size = .ok decoded)
    (hlookup : a.pages.lookup p = some (PageState.ofRows decoded.1 decoded.2)) :
    ∃ page, st.pages.lookup p = some page ∧ ∀ decoded', decodeLeaf p f size = .ok decoded' →
      SamePage page (PageState.ofRows decoded'.1 decoded'.2) := by
  have hpage := h.pages p
  rw [hlookup] at hpage
  obtain ⟨page, hst, hsame⟩ := rel_some_right.mp hpage
  refine ⟨page, hst, fun decoded' hdecode' => ?_⟩
  rw [hdecode] at hdecode'
  cases hdecode'
  exact hsame

theorem Walked.start (ups : List RowOp) (dels : List RowDelete) : Walked st dirty f size leaves []
      (st.pages.entries.foldl (removePage name leaves) ⟨st, ups, dels, []⟩) := by
  rw [foldl_removePage name leaves st.pages.entries ⟨st, ups, dels, []⟩ rfl]
  have hframe : ∀ (rowids : List Int64) (a : TableState) (dels : List RowDelete),
      { (rowids.foldl (emitDelete name) (a, dels)).1 with
        pages := a.pages, identities := a.identities, records := a.records } = a := by
    intro rowids
    induction rowids with
    | nil => exact fun _ _ => rfl
    | cons x rowids ih =>
      intro a dels
      have hstep := ih (a.forget x) (dels ++ [rowDelete name a x])
      exact congrArg (fun b : TableState => { b with
        pages := a.pages, identities := a.identities, records := a.records }) hstep
  refine ⟨hframe _ st dels, fun _ h => absurd h not_mem_nil, ?_, ?_⟩
  · intro p _
    show (keptPages leaves st.pages.entries st.pages).lookup p = _
    rw [lookup_keptPages]
    by_cases hin : p ∈ leaves
    · rw [if_neg fun h => h.2 hin, if_pos hin]
    · rw [if_neg hin]
      split
      · rfl
      next hnot =>
        rw [AList.lookup_eq_none]
        exact fun hmem => hnot ⟨AList.mem_keys.mp hmem, hin⟩
  · intro hsub _
    have hnone : removedRowids leaves st.pages.entries = [] := by
      rw [eq_nil_iff_forall_not_mem]
      intro x hx
      obtain ⟨p, page, hpage, -, hout⟩ := mem_removedRowids.mp hx
      exact hout (hsub p (AList.lookup_isSome.mp (by rw [hpage]; rfl)))
    rw [hnone]
    exact ⟨rfl, rfl⟩

theorem rereadRows_append (done : List UInt32) (p : UInt32) :
    rereadRows dirty f size (done ++ [p]) =
      rereadRows dirty f size done ++ if p ∈ dirty then readRows f size p else [] := by
  unfold rereadRows
  by_cases hp : p ∈ dirty
  · simp [hp]
  · simp [hp]

theorem Refreshed.isDirty {page : PageState} (h : Refreshed st dirty p)
    (hpage : st.pages.lookup p = some page) : p ∈ dirty := by
  rcases h with hnew | hdirty
  · rw [← AList.lookup_eq_none, hpage] at hnew
    cases hnew
  · exact hdirty

section

variable (h : Walked st dirty f size leaves done w)

include h

theorem Walked.lookup_next (hp : p ∈ leaves) (hdone : p ∉ done) :
    w.state.pages.lookup p = st.pages.lookup p := by
  rw [h.rest p fun hin => hdone hin.1, if_pos hp]

theorem Walked.skip (hp : ¬ Refreshed st dirty p) :
    Walked st dirty f size leaves (done ++ [p]) w := by
  have hclean : p ∉ dirty := fun hin => hp (.inr hin)
  have hmem : ∀ q, q ∈ done ++ [p] ∧ Refreshed st dirty q ↔ q ∈ done ∧ Refreshed st dirty q := by
    intro q
    rw [mem_append, mem_singleton]
    constructor
    · rintro ⟨hin | rfl, href⟩
      · exact ⟨hin, href⟩
      · exact absurd href hp
    · rintro ⟨hin, href⟩
      exact ⟨.inl hin, href⟩
  refine ⟨h.frame, fun q hq href => h.fresh q ((hmem q).mp ⟨hq, href⟩).1 href, ?_, ?_⟩
  · intro q hq
    exact h.rest q fun hin => hq ((hmem q).mpr hin)
  · intro hsub htracked
    rw [rereadRows_append, if_neg hclean, append_nil]
    exact h.maps hsub fun q hq => htracked q (mem_append_left _ hq)

theorem Walked.refresh {decoded : List DecodedRow × UInt64} (hp : p ∈ leaves) (hdone : p ∉ done)
    (href : Refreshed st dirty p) (hdecode : decodeLeaf p f size = .ok decoded) :
    Walked st dirty f size leaves (done ++ [p])
      (refreshLeaf name p (trackedOn w.state p) decoded w) := by
  obtain ⟨hpk, hkept⟩ := keep_of_frame h.frame
  rw [refreshLeaf_eq name p (trackedOn_nodup w.state p)]
  refine ⟨h.frame, ?_, ?_, ?_⟩
  · intro q hq href'
    by_cases hqp : q = p
    · rw [hqp]
      exact ⟨decoded, hdecode, AList.lookup_insert _⟩
    · have hin : q ∈ done := (mem_append.mp hq).resolve_right fun hq =>
        hqp (mem_singleton.mp hq)
      obtain ⟨decoded', hdecode', hlookup⟩ := h.fresh q hin href'
      exact ⟨decoded', hdecode', (AList.lookup_insert_ne hqp).trans hlookup⟩
  · intro q hq
    have hqp : q ≠ p := by
      rintro rfl
      exact hq ⟨mem_append_right _ mem_cons_self, href⟩
    rw [AList.lookup_insert_ne hqp]
    exact h.rest q fun hin => hq ⟨mem_append_left _ hin.1, hin.2⟩
  · intro hsub htracked
    obtain ⟨hids, hrecs⟩ := h.maps hsub fun q hq => htracked q (mem_append_left _ hq)
    obtain ⟨page, hpage, hsame⟩ := htracked p (mem_append_right _ mem_cons_self)
    have hdirty := Refreshed.isDirty href hpage
    -- the page holds the rowids it is tracked with, so none leaves it
    have hleaving : leaving (trackedOn w.state p) decoded.1 w = [] := by
      rw [eq_nil_iff_forall_not_mem]
      intro x hx
      obtain ⟨hin, hout, -⟩ := mem_leaving.mp hx
      obtain ⟨page', hpage', hx'⟩ := mem_trackedOn.mp hin
      rw [h.lookup_next hp hdone, hpage] at hpage'
      cases hpage'
      exact hout (mem_ofRows_rowids.mp (((hsame hdirty decoded hdecode).rowids x).mp hx'))
    rw [rereadRows_append, if_pos hdirty, readRows_of_ok hdecode, foldl_append,
      foldl_append, hleaving, hpk, hkept, hids, hrecs]
    simp only [not_mem_nil, if_false, and_self]

theorem Walked.visit (hp : p ∈ leaves) (hdone : p ∉ done) (hpast : GetsPast st dirty f size p) :
    ∃ w', visitLeaf name dirty f size w p = .ok w' ∧
      Walked st dirty f size leaves (done ++ [p]) w' := by
  have hlookup := h.lookup_next hp hdone
  unfold visitLeaf
  by_cases href : Refreshed st dirty p
  · obtain ⟨decoded, hdecode⟩ := reads_iff.mp (hpast.resolve_left (not_not.mpr href))
    have hnext := @Walked.refresh st dirty f size name leaves done w p h decoded hp hdone href
      hdecode
    unfold trackedOn at hnext
    cases hpage : w.state.pages.lookup p with
    | none =>
      rw [hpage] at hnext
      simp only [hdecode]
      exact ⟨_, rfl, hnext⟩
    | some page =>
      rw [hpage] at hnext
      have hdirty := Refreshed.isDirty href (hlookup.symm.trans hpage)
      simp only [not_not.mpr hdirty, if_false, hdecode]
      exact ⟨_, rfl, hnext⟩
  · have hin : p ∈ st.pages := by
      by_contra hout
      exact href (.inl hout)
    have hclean : p ∉ dirty := fun hin => href (.inr hin)
    obtain ⟨page, hpage⟩ := isSome_iff_exists.mp (AList.lookup_isSome.mpr hin)
    rw [hlookup, hpage]
    simp only [hclean, not_false_eq_true, if_true]
    exact ⟨w, rfl, h.skip href⟩

theorem Walked.stuck (hp : p ∈ leaves) (hdone : p ∉ done) (hpast : ¬ GetsPast st dirty f size p) :
    ∃ stop, visitLeaf name dirty f size w p = .error (stop, w) := by
  have hlookup := h.lookup_next hp hdone
  obtain ⟨href, hread⟩ := not_or.mp hpast
  rw [not_not] at href
  cases hdecode : decodeLeaf p f size with
  | ok decoded => exact absurd (reads_iff.mpr ⟨decoded, hdecode⟩) hread
  | error stop =>
    refine ⟨stop, ?_⟩
    unfold visitLeaf
    cases hpage : w.state.pages.lookup p with
    | none => simp only [hdecode]
    | some page =>
      have hdirty := Refreshed.isDirty href (hlookup.symm.trans hpage)
      simp only [not_not.mpr hdirty, if_false, hdecode]

theorem Walked.same_iff (hdone : ∀ p ∈ done, p ∈ leaves) :
    SameState st w.state ↔ UnchangedInPlace st dirty f size leaves done := by
  obtain ⟨hroot, hindex, hrowid, hretain⟩ := flags_of_frame h.frame
  constructor
  · intro hsame
    have hsub : ∀ p, p ∈ st.pages → p ∈ leaves := fun p => hsame.tracked_of fun hout => by
      rw [h.rest p fun hin => hout (hdone p hin.1), if_neg hout]
    have htracked : ∀ p ∈ done, ReadsAsTracked st dirty f size p := by
      intro p hp
      by_cases href : Refreshed st dirty p
      · obtain ⟨decoded, hdecode, hlookup⟩ := h.fresh p hp href
        obtain ⟨page, hst, hsame'⟩ := hsame.page_read hdecode hlookup
        exact ⟨page, hst, fun _ => hsame'⟩
      · obtain ⟨hin, hclean⟩ := not_or.mp href
        obtain ⟨page, hpage⟩ := isSome_iff_exists.mp (AList.lookup_isSome.mpr (not_not.mp hin))
        exact ⟨page, hpage, fun hdirty => absurd hdirty hclean⟩
    obtain ⟨hids, hrecs⟩ := h.maps hsub htracked
    exact ⟨hsub, htracked, hids ▸ hsame.identities.symm, hrecs ▸ hsame.records.symm⟩
  · intro hun
    obtain ⟨hids, hrecs⟩ := h.maps hun.sub hun.tracked
    refine ⟨hroot.symm, hindex.symm, hrowid.symm, hretain.symm, ?_, ?_, ?_⟩
    · intro p
      by_cases href : p ∈ done ∧ Refreshed st dirty p
      · obtain ⟨page, hpage, hsame⟩ := hun.tracked p href.1
        obtain ⟨decoded, hdecode, hlookup⟩ := h.fresh p href.1 href.2
        have hdirty := Refreshed.isDirty href.2 hpage
        rw [hpage, hlookup]
        exact .some (hsame hdirty decoded hdecode)
      · rw [h.rest p href]
        split
        · exact rel_refl SamePage.refl _
        next hout =>
          rw [rel_none_right, AList.lookup_eq_none]
          exact fun hin => hout (hun.sub p hin)
    · rw [hids, hun.identities]
    · rw [hrecs, hun.records]

end

end

/-! ## 3. A table loaded afresh -/

section

def storedHash (f : PageFetcher) (size : Nat) (p : UInt32) : Option UInt64 :=
  (f p).bind fun image => ((readSlice image 0 size).toOption).map hashImage

variable (old : Option TableState) (f : PageFetcher) (size : Nat)

/-- The tracked page that a diff takes over without decoding it. -/
def takenPage (p : UInt32) : Option PageState :=
  (old.bind fun st => st.pages.lookup p).filter fun page =>
    storedHash f size p = some page.imageHash

def loadedRows (done : List UInt32) : List DecodedRow :=
  (done.filter fun p => takenPage old f size p = none).flatMap (readRows f size)

/-- The leaf loop of a full diff after the leaves `done`, from the state `base`. -/
structure Loading (base : TableState) (done : List UInt32) (w : Work) : Prop where
  frame : { w.state with
    pages := base.pages, identities := base.identities, records := base.records } = base
  rest : ∀ p ∉ done, w.state.pages.lookup p = none
  loaded : ∀ p ∈ done, w.state.pages.lookup p = takenPage old f size p ∧
      (takenPage old f size p).isSome = true ∨
    takenPage old f size p = none ∧ ∃ decoded, decodeLeaf p f size = .ok decoded ∧
      w.state.pages.lookup p = some (PageState.ofRows decoded.1 decoded.2)
  identities : w.state.identities =
    (loadedRows old f size done).foldl (keepRow base.pkValue) fun _ => none
  records : w.state.records =
    (loadedRows old f size done).foldl (keepRow base.keptRecord) fun _ => none

variable {old f size} {base : TableState} {name : String} {done : List UInt32} {w : Work}
  {p : UInt32} {decoded : List DecodedRow × UInt64} {page : PageState}

theorem storedHash_of_decode (h : decodeLeaf p f size = .ok decoded) :
    storedHash f size p = some decoded.2 := by
  obtain ⟨image, bytes, hfetch, hbytes, hhash, -⟩ := @decodeLeaf_ok p f size decoded.1 decoded.2 h
  unfold storedHash
  rw [hfetch, bind_some, hbytes, hhash]
  rfl

theorem loadedRows_append (done : List UInt32) (p : UInt32) :
    loadedRows old f size (done ++ [p]) = loadedRows old f size done ++
      if takenPage old f size p = none then readRows f size p else [] := by
  unfold loadedRows
  by_cases hp : takenPage old f size p = none
  · simp [hp]
  · simp [hp]

theorem takenPage_eq_some : takenPage old f size p = some page ↔
    (old.bind fun st => st.pages.lookup p) = some page ∧
      storedHash f size p = some page.imageHash := by
  unfold takenPage
  rw [filter_eq_some_iff, decide_eq_true_iff]

theorem storedHash_eq_some {hash : UInt64} : storedHash f size p = some hash ↔
    ∃ image bytes, f p = some image ∧ readSlice image 0 size = .ok bytes ∧
      hashImage bytes = hash := by
  unfold storedHash
  cases f p with
  | none => simp
  | some image =>
    cases hbytes : readSlice image 0 size with
    | error | ok => simp [hbytes, Except.toOption]

theorem diffLeaf_taken (h : takenPage old f size p = some page) :
    diffLeaf name f size old w p = .ok (w.setPages (w.state.pages.insert p page)) := by
  obtain ⟨hpage, hstored⟩ := takenPage_eq_some.mp h
  obtain ⟨image, bytes, hfetch, hbytes, hhash⟩ := storedHash_eq_some.mp hstored
  unfold diffLeaf
  simp only [hfetch, hbytes, bind, Except.bind, hpage, hhash, if_true]
  rfl

theorem diffLeaf_not_taken {image bytes : Bytes} (h : takenPage old f size p = none)
    (hfetch : f p = some image) (hbytes : readSlice image 0 size = .ok bytes) :
    diffLeaf name f size old w p = loadPage name f size w p := by
  unfold diffLeaf
  simp only [hfetch, hbytes, bind, Except.bind]
  cases hpage : old.bind fun st => st.pages.lookup p with
  | none => rfl
  | some page =>
    have hne : page.imageHash ≠ hashImage bytes := by
      intro heq
      have htaken := takenPage_eq_some.mpr
        ⟨hpage, storedHash_eq_some.mpr ⟨image, bytes, hfetch, hbytes, heq.symm⟩⟩
      rw [h] at htaken
      cases htaken
    simp only [hne, if_false]

theorem diffLeaf_decoded (h : takenPage old f size p = none)
    (hdecode : decodeLeaf p f size = .ok decoded) :
    diffLeaf name f size old w p = loadPage name f size w p := by
  obtain ⟨image, bytes, hfetch, hbytes, -⟩ := storedHash_eq_some.mp (storedHash_of_decode hdecode)
  exact diffLeaf_not_taken h hfetch hbytes

theorem diffLeaf_stuck (h : takenPage old f size p = none) (hread : ¬ Reads f size p = true) :
    ∃ e, diffLeaf name f size old w p = .error e := by
  have hload : ∃ e, loadPage name f size w p = .error e := by
    unfold loadPage
    cases hdecode : decodeLeaf p f size with
    | ok decoded => exact absurd (reads_iff.mpr ⟨decoded, hdecode⟩) hread
    | error e => exact ⟨e, rfl⟩
  cases hfetch : f p with
  | none =>
    unfold diffLeaf
    rw [hfetch]
    exact ⟨_, rfl⟩
  | some image =>
    cases hbytes : readSlice image 0 size with
    | error e =>
      refine ⟨e, ?_⟩
      unfold diffLeaf
      simp only [hfetch, hbytes, bind, Except.bind]
    | ok bytes =>
      rw [diffLeaf_not_taken h hfetch hbytes]
      exact hload

theorem Loading.start (hpages : base.pages = ∅) (hids : base.identities = fun _ => none)
    (hrecs : base.records = fun _ => none) (ups : List RowOp) (dels : List RowDelete) :
    Loading old f size base [] ⟨base, ups, dels, []⟩ :=
  ⟨rfl, fun p _ => by rw [hpages]; rfl, fun _ h => absurd h not_mem_nil, hids, hrecs⟩

theorem Loading.take (h : Loading old f size base done w)
    (hpage : takenPage old f size p = some page) :
    Loading old f size base (done ++ [p]) (w.setPages (w.state.pages.insert p page)) := by
  have hrows : loadedRows old f size (done ++ [p]) = loadedRows old f size done := by
    rw [loadedRows_append, if_neg (by rw [hpage]; exact some_ne_none page), append_nil]
  refine ⟨h.frame, ?_, ?_, by rw [hrows]; exact h.identities, by rw [hrows]; exact h.records⟩
  · intro q hq
    rw [mem_append, mem_singleton, not_or] at hq
    exact (AList.lookup_insert_ne hq.2).trans (h.rest q hq.1)
  · intro q hq
    by_cases hqp : q = p
    · rw [hqp]
      exact .inl ⟨(AList.lookup_insert _).trans hpage.symm, by rw [hpage]; rfl⟩
    · have hkept : (w.setPages (w.state.pages.insert p page)).state.pages.lookup q =
          w.state.pages.lookup q := AList.lookup_insert_ne hqp
      rw [hkept]
      exact h.loaded q ((mem_append.mp hq).resolve_right fun hq =>
        hqp (mem_singleton.mp hq))

theorem Loading.load (h : Loading old f size base done w) (hpage : takenPage old f size p = none)
    (hdecode : decodeLeaf p f size = .ok decoded) :
    ∃ w', loadPage name f size w p = .ok w' ∧ Loading old f size base (done ++ [p]) w' := by
  obtain ⟨hpk, hkept⟩ := keep_of_frame h.frame
  have hrows : loadedRows old f size (done ++ [p]) = loadedRows old f size done ++ decoded.1 := by
    rw [loadedRows_append, if_pos hpage, readRows_of_ok hdecode]
  unfold loadPage
  rw [hdecode]
  refine ⟨_, rfl, ?_⟩
  simp only [Work.trackRows, Work.emitRows, Work.setPages, foldl_trackRow]
  refine ⟨h.frame, ?_, ?_, ?_, ?_⟩
  · intro q hq
    rw [mem_append, mem_singleton, not_or] at hq
    exact (AList.lookup_insert_ne hq.2).trans (h.rest q hq.1)
  · intro q hq
    by_cases hqp : q = p
    · rw [hqp, AList.lookup_insert]
      exact .inr ⟨hpage, decoded, hdecode, rfl⟩
    · rw [AList.lookup_insert_ne hqp]
      exact h.loaded q ((mem_append.mp hq).resolve_right fun hq =>
        hqp (mem_singleton.mp hq))
  · rw [hrows, foldl_append, hpk, h.identities]
  · rw [hrows, foldl_append, hkept, h.records]

/-- The loop gets past a leaf that it takes over or can read. -/
def DiffsPast (old : Option TableState) (f : PageFetcher) (size : Nat) (p : UInt32) : Prop :=
  takenPage old f size p ≠ none ∨ Reads f size p = true

theorem Loading.diff (h : Loading old f size base done w) (hpast : DiffsPast old f size p) :
    ∃ w', diffLeaf name f size old w p = .ok w' ∧ Loading old f size base (done ++ [p]) w' := by
  cases hpage : takenPage old f size p with
  | some page => exact ⟨_, diffLeaf_taken hpage, h.take hpage⟩
  | none =>
    obtain ⟨decoded, hdecode⟩ := reads_iff.mp (hpast.resolve_left (not_not.mpr hpage))
    rw [diffLeaf_decoded hpage hdecode]
    exact h.load hpage hdecode

theorem diffLeaf_fails (hpast : ¬ DiffsPast old f size p) :
    ∃ e, diffLeaf name f size old w p = .error e := by
  obtain ⟨hpage, hread⟩ := not_or.mp hpast
  exact diffLeaf_stuck (not_not.mp hpage) hread

structure SameFlags (st : TableState) (s : TableSchema) : Prop where
  root : st.rootPage = s.rootPage
  pkRecordIndex : st.pkRecordIndex = s.pkRecordIndex
  pkFromRowid : st.pkFromRowid = s.pkFromRowid
  retainRecords : st.retainRecords = s.retainRecords

structure LoadedAs (st : TableState) (s : TableSchema) (f : PageFetcher) (size : Nat)
    (leaves : List UInt32) : Prop where
  flags : SameFlags st s
  sub : ∀ p, p ∈ st.pages → p ∈ leaves
  pages : ∀ p ∈ leaves, ∃ page, st.pages.lookup p = some page ∧ ∀ decoded,
    decodeLeaf p f size = .ok decoded → SamePage page (PageState.ofRows decoded.1 decoded.2)
  identities : (leaves.flatMap (readRows f size)).foldl (keepRow (TableState.ofSchema s).pkValue)
    (fun _ => none) = st.identities
  records : (leaves.flatMap (readRows f size)).foldl (keepRow (TableState.ofSchema s).keptRecord)
    (fun _ => none) = st.records

/-- A table whose leaves are the tracked ones and have the recorded hashes. -/
structure TakenOver (st : TableState) (s : TableSchema) (f : PageFetcher) (size : Nat)
    (leaves : List UInt32) : Prop where
  flags : SameFlags st s
  sub : ∀ p, p ∈ st.pages → p ∈ leaves
  pages : ∀ p ∈ leaves, ∃ page, st.pages.lookup p = some page ∧
    storedHash f size p = some page.imageHash

variable {st : TableState} {s : TableSchema} {leaves : List UInt32}

theorem SameState.flags {a : TableState} (h : SameState st a) (ha : SameFlags a s) :
    SameFlags st s :=
  ⟨h.root.trans ha.root, h.pkRecordIndex.trans ha.pkRecordIndex,
    h.pkFromRowid.trans ha.pkFromRowid, h.retainRecords.trans ha.retainRecords⟩

theorem SameFlags.same {a : TableState} (h : SameFlags st s) (ha : SameFlags a s)
    (hpages : ∀ p, Option.Rel SamePage (st.pages.lookup p) (a.pages.lookup p))
    (hids : st.identities = a.identities) (hrecs : st.records = a.records) : SameState st a :=
  ⟨h.root.trans ha.root.symm, h.pkRecordIndex.trans ha.pkRecordIndex.symm,
    h.pkFromRowid.trans ha.pkFromRowid.symm, h.retainRecords.trans ha.retainRecords.symm, hpages,
    hids, hrecs⟩

theorem Loading.flags (h : Loading old f size (TableState.ofSchema s) done w) :
    SameFlags w.state s := by
  obtain ⟨hroot, hindex, hrowid, hretain⟩ := flags_of_frame h.frame
  exact ⟨hroot, hindex, hrowid, hretain⟩

theorem Loading.same_iff_blind (h : Loading none f size (TableState.ofSchema s) leaves w) :
    SameState st w.state ↔ LoadedAs st s f size leaves := by
  have hrows : loadedRows none f size leaves = leaves.flatMap (readRows f size) := by
    unfold loadedRows takenPage
    simp
  have hids := h.identities
  have hrecs := h.records
  rw [hrows] at hids hrecs
  have hloaded : ∀ p ∈ leaves, ∃ decoded, decodeLeaf p f size = .ok decoded ∧
      w.state.pages.lookup p = some (PageState.ofRows decoded.1 decoded.2) := by
    intro p hp
    rcases h.loaded p hp with ⟨-, hsome⟩ | ⟨-, hdecoded⟩
    · exact absurd hsome Bool.false_ne_true
    · exact hdecoded
  constructor
  · intro hsame
    refine ⟨hsame.flags h.flags, fun p => hsame.tracked_of (h.rest p), fun p hp => ?_,
      hids.symm.trans hsame.identities.symm, hrecs.symm.trans hsame.records.symm⟩
    obtain ⟨decoded, hdecode, hlookup⟩ := hloaded p hp
    exact hsame.page_read hdecode hlookup
  · intro hload
    refine hload.flags.same h.flags (fun p => ?_) (hload.identities.symm.trans hids.symm)
      (hload.records.symm.trans hrecs.symm)
    by_cases hp : p ∈ leaves
    · obtain ⟨page, hst, hsame⟩ := hload.pages p hp
      obtain ⟨decoded, hdecode, hlookup⟩ := hloaded p hp
      rw [hst, hlookup]
      exact .some (hsame decoded hdecode)
    · rw [h.rest p hp, rel_none_right, AList.lookup_eq_none]
      exact fun hin => hp (hload.sub p hin)

/-- What the diff stores after the loop: carried maps, and the vanished rows forgotten. -/
def compared (name : String) (st : TableState) (w : Work) : Work :=
  (w.carry st).emitDeletes name (vanishedRows st w)

theorem compared_flags (name : String) (st : TableState) (w : Work) :
    { (compared name st w).state with
      identities := w.state.identities, records := w.state.records } = w.state := by
  have hframe : ∀ (rowids : List Int64) (a : TableState) (dels : List RowDelete),
      { (rowids.foldl (emitDelete name) (a, dels)).1 with
        identities := w.state.identities, records := w.state.records } =
      { a with identities := w.state.identities, records := w.state.records } := by
    intro rowids
    induction rowids with
    | nil => exact fun _ _ => rfl
    | cons x rowids ih => exact fun a dels => ih (a.forget x) (dels ++ [rowDelete name a x])
  exact hframe _ (w.carry st).state _

theorem Loading.same_iff_compared (h : Loading (some st) f size (TableState.ofSchema s) leaves w) :
    SameState st (compared name st w).state ↔ TakenOver st s f size leaves := by
  have hframe := compared_flags name st w
  have hpages : (compared name st w).state.pages = w.state.pages :=
    (congrArg TableState.pages hframe :)
  have hflags : SameFlags (compared name st w).state s :=
    ⟨(congrArg TableState.rootPage hframe :).trans h.flags.root,
      (congrArg TableState.pkRecordIndex hframe :).trans h.flags.pkRecordIndex,
      (congrArg TableState.pkFromRowid hframe :).trans h.flags.pkFromRowid,
      (congrArg TableState.retainRecords hframe :).trans h.flags.retainRecords⟩
  constructor
  · intro hsame
    refine ⟨hsame.flags hflags, fun p => hsame.tracked_of fun hout => ?_, ?_⟩
    · rw [hpages, h.rest p hout]
    · intro p hp
      rcases h.loaded p hp with ⟨-, hsome⟩ | ⟨hnone, decoded, hdecode, hlookup⟩
      · obtain ⟨page, htaken⟩ := isSome_iff_exists.mp hsome
        exact ⟨page, takenPage_eq_some.mp htaken⟩
      · -- a page read again with the recorded hash would have been taken over
        rw [← hpages] at hlookup
        obtain ⟨page, hst, hsame'⟩ := hsame.page_read hdecode hlookup
        have htaken : takenPage (some st) f size p = some page :=
          takenPage_eq_some.mpr ⟨hst, (storedHash_of_decode hdecode).trans
            (congrArg some (hsame' decoded hdecode).hash.symm)⟩
        rw [hnone] at htaken
        cases htaken
  · intro htaken
    have hlookup : ∀ p, w.state.pages.lookup p = st.pages.lookup p := by
      intro p
      by_cases hp : p ∈ leaves
      · obtain ⟨page, hst, hhash⟩ := htaken.pages p hp
        have hpage : takenPage (some st) f size p = some page :=
          takenPage_eq_some.mpr ⟨hst, hhash⟩
        rcases h.loaded p hp with ⟨heq, -⟩ | ⟨hnone, -⟩
        · rw [heq, hpage, hst]
        · rw [hpage] at hnone
          cases hnone
      · rw [h.rest p hp, eq_comm, AList.lookup_eq_none]
        exact fun hin => hp (htaken.sub p hin)
    have hrows : loadedRows (some st) f size leaves = [] := by
      unfold loadedRows
      rw [flatMap_eq_nil_iff]
      intro p hp
      obtain ⟨hmem, hnone⟩ := mem_filter.mp hp
      obtain ⟨page, hst, hhash⟩ := htaken.pages p hmem
      have hpage : takenPage (some st) f size p = some page := takenPage_eq_some.mpr ⟨hst, hhash⟩
      rw [hpage] at hnone
      cases of_decide_eq_true hnone
    have hvanished : vanishedRows st w = [] := by
      unfold vanishedRows
      rw [flatMap_eq_nil_iff]
      intro e he
      rw [filter_eq_nil_iff]
      intro x hx hgone
      have hst := entry_iff_lookup.mp he
      exact (of_decide_eq_true hgone).1 ⟨e.2, by rw [hlookup, hst]; rfl, hx⟩
    refine htaken.flags.same hflags (fun p => ?_) ?_ ?_
    · rw [hpages, hlookup]
      exact rel_refl SamePage.refl _
    · unfold compared
      rw [hvanished]
      show st.identities = fun x => (w.state.identities x).or (st.identities x)
      rw [h.identities, hrows]
      rfl
    · unfold compared
      rw [hvanished]
      show st.records = fun x => (w.state.records x).or (st.records x)
      rw [h.records, hrows]
      rfl

end

/-! ## 4. The round of a table -/

section

variable {f : PageFetcher} {size : Nat} {s : TableSchema} {st : TableState}
  {acc : OpResolver × OpBatch} {dirty : List UInt32}

def memoryAfter : Except Halt (OpResolver × OpBatch) → OpResolver
  | .ok acc => acc.1
  | .error (_, r) => r

def AllPast (f : PageFetcher) (size : Nat) (s : TableSchema) (past : UInt32 → Prop) : Prop :=
  ∃ leaves, collectLeafPages s.rootPage f size = .ok leaves ∧ ∀ p ∈ leaves, past p

theorem allPast_iff {leaves : List UInt32} {past : UInt32 → Prop}
    (h : collectLeafPages s.rootPage f size = .ok leaves) :
    AllPast f size s past ↔ ∀ p ∈ leaves, past p := by
  unfold AllPast
  rw [h]
  exact ⟨fun ⟨_, heq, hall⟩ => Except.ok.inj heq ▸ hall, fun hall => ⟨leaves, rfl, hall⟩⟩

theorem forall_ok_iff {ε β : Type} {result : Except ε β} {b : β} {P : β → Prop}
    (h : result = .ok b) : (∀ b', result = .ok b' → P b') ↔ P b :=
  ⟨fun hall => hall b h, fun hP _ heq => Except.ok.inj (h.symm.trans heq) ▸ hP⟩

theorem not_allPast {stop : Stop} {past : UInt32 → Prop}
    (h : collectLeafPages s.rootPage f size = .error stop) : ¬ AllPast f size s past := by
  rintro ⟨leaves, hleaves, -⟩
  rw [h] at hleaves
  cases hleaves

theorem diffTable_round (blind : Bool) (hrowid : s.withoutRowid = false) :
    AllPast f size s (DiffsPast (comparableState acc.1 s blind) f size) ∧
      (∃ leaves w, collectLeafPages s.rootPage f size = .ok leaves ∧
        Loading (comparableState acc.1 s blind) f size (TableState.ofSchema s) leaves w ∧
        diffTable f size blind s acc = .ok ((match comparableState acc.1 s blind with
          | some st => compared s.name st w
          | none => w).store s.name acc)) ∨
    ¬ AllPast f size s (DiffsPast (comparableState acc.1 s blind) f size) ∧
      ∃ stop, diffTable f size blind s acc = .error (stop, acc.1) := by
  unfold diffTable
  rw [if_neg (by rw [hrowid]; decide)]
  cases hleaves : collectLeafPages s.rootPage f size with
  | error stop => exact .inr ⟨not_allPast hleaves, stop, rfl⟩
  | ok leaves =>
    rcases @foldlM_stops _ _ _ (diffLeaf s.name f size (comparableState acc.1 s blind)) leaves
      (Loading (comparableState acc.1 s blind) f size (TableState.ofSchema s))
      (DiffsPast (comparableState acc.1 s blind) f size) (collectLeafPages_nodup hleaves)
      (fun _ _ _ h _ _ hpast => h.diff hpast) (fun _ _ _ _ _ _ hpast => diffLeaf_fails hpast)
      _ (Loading.start rfl rfl rfl acc.2.upserts acc.2.deletes) with
      ⟨hall, w, hrun, hload⟩ | ⟨-, p, -, w, e, -, ⟨hp, -⟩, -, hstuck, hrun, -, -⟩
    · refine .inl ⟨(allPast_iff hleaves).mpr hall, leaves, w, rfl, hload, ?_⟩
      simp only [bind, Except.bind]
      rw [hrun]
      rfl
    · refine .inr ⟨?_, e, ?_⟩
      · exact fun hall => hstuck ((allPast_iff hleaves).mp hall p hp)
      · simp only [bind, Except.bind]
        rw [hrun]

theorem updateTable_round : (∃ stop, collectLeafPages s.rootPage f size = .error stop ∧
      updateTable dirty f size s st acc = .error (stop, acc.1)) ∨
    ∃ leaves w, collectLeafPages s.rootPage f size = .ok leaves ∧
      Walked st dirty f size leaves (leaves.takeWhile fun p => GetsPast st dirty f size p) w ∧
      ((∀ p ∈ leaves, GetsPast st dirty f size p) ∧
          updateTable dirty f size s st acc = .ok ((w.retract s.name).store s.name acc) ∨
        ¬ (∀ p ∈ leaves, GetsPast st dirty f size p) ∧ ∃ stop,
          updateTable dirty f size s st acc = .error (stop, acc.1.setTable s.name w.state)) := by
  unfold updateTable
  cases hleaves : collectLeafPages s.rootPage f size with
  | error stop => exact .inl ⟨stop, rfl, rfl⟩
  | ok leaves =>
    refine .inr ?_
    simp only
    rcases @foldlM_stops _ _ _ (visitLeaf s.name dirty f size) leaves
      (fun done w => (∀ p ∈ done, p ∈ leaves) ∧ Walked st dirty f size leaves done w)
      (GetsPast st dirty f size) (collectLeafPages_nodup hleaves)
      (fun done w p h hp hdone hpast => by
        obtain ⟨w', hvisit, hwalk⟩ := @Walked.visit st dirty f size s.name leaves done w p
          h.2 hp hdone hpast
        refine ⟨w', hvisit, fun q hq => ?_, hwalk⟩
        rcases mem_append.mp hq with hin | hin
        · exact h.1 q hin
        · rw [mem_singleton.mp hin]
          exact hp)
      (fun _ w _ h hp hdone hpast => by
        obtain ⟨stop, hstop⟩ := h.2.stuck hp hdone hpast
        exact ⟨(stop, w), hstop⟩)
      _ ⟨fun _ h => absurd h not_mem_nil,
        @Walked.start st dirty f size s.name leaves acc.2.upserts acc.2.deletes⟩ with
      ⟨hall, w, hrun, -, hwalk⟩ | ⟨done, p, rest, w, e, hsplit, ⟨hp, hnew⟩, hdone, hstuck, hrun,
        ⟨-, hwalk⟩, hstop⟩
    · have htake : leaves.takeWhile (fun p => decide (GetsPast st dirty f size p)) = leaves :=
        takeWhile_eq_self_iff.mpr fun p hp => decide_eq_true (hall p hp)
      refine ⟨leaves, w, rfl, by rw [htake]; exact hwalk, .inl ⟨hall, ?_⟩⟩
      rw [hrun]
    · have htake : leaves.takeWhile (fun p => decide (GetsPast st dirty f size p)) = done := by
        rw [hsplit, takeWhile_append_of_pos fun q hq => decide_eq_true (hdone q hq),
          takeWhile_cons_of_neg (by simpa using hstuck), append_nil]
      -- the work that stops is the one the leaves before it left
      obtain ⟨stop, hstop'⟩ := @Walked.stuck st dirty f size s.name leaves done w p hwalk hp hnew
        hstuck
      rw [hstop'] at hstop
      cases hstop
      refine ⟨leaves, w, rfl, by rw [htake]; exact hwalk, .inr ⟨fun hall => hstuck (hall p hp),
        stop, ?_⟩⟩
      rw [hrun]

theorem rebuildTable_round (old : Option TableState) :
    AllPast f size s (fun p => Reads f size p = true) ∧
      (∃ w : Work, w.state.rootPage = s.rootPage ∧ rebuildTable f size s old acc =
        .ok (w.store s.name (⟨acc.1.tables.erase s.name⟩, acc.2))) ∨
    ¬ AllPast f size s (fun p => Reads f size p = true) ∧
      ∃ stop, rebuildTable f size s old acc = .error (stop, ⟨acc.1.tables.erase s.name⟩) := by
  unfold rebuildTable
  cases hleaves : collectLeafPages s.rootPage f size with
  | error stop => exact .inr ⟨not_allPast hleaves, stop, rfl⟩
  | ok leaves =>
    rcases @foldlM_stops _ _ _ (loadPage s.name f size) leaves
      (fun _ (w : Work) => w.state.rootPage = s.rootPage) (fun p => Reads f size p = true)
      (collectLeafPages_nodup hleaves)
      (fun _ w p h _ _ hread => by
        obtain ⟨decoded, hdecode⟩ := reads_iff.mp hread
        unfold loadPage
        rw [hdecode]
        refine ⟨_, rfl, ?_⟩
        simp only [Work.trackRows, Work.emitRows, Work.setPages, foldl_trackRow]
        exact h)
      (fun _ w p _ _ _ hread => by
        unfold loadPage
        cases hdecode : decodeLeaf p f size with
        | ok decoded => exact absurd (reads_iff.mpr ⟨decoded, hdecode⟩) hread
        | error e => exact ⟨e, rfl⟩)
      ⟨TableState.ofSchema s, acc.2.upserts, emitOld s.name old acc.2.deletes, []⟩ rfl with
      ⟨hall, w, hrun, hroot⟩ | ⟨-, p, -, w, e, -, ⟨hp, -⟩, -, hstuck, hrun, -, -⟩
    · refine .inl ⟨(allPast_iff hleaves).mpr hall, w, hroot, ?_⟩
      simp only [bind, Except.bind]
      rw [hrun]
    · refine .inr ⟨?_, e, ?_⟩
      · exact fun hall => hstuck ((allPast_iff hleaves).mp hall p hp)
      · simp only [bind, Except.bind]
        rw [hrun]

/-- The state of the table that the call consults: the tracked one under the present root, but
none in a bootstrap. -/
def ResolverCall.consulted (call : ResolverCall) (s : TableSchema) (o : Option TableState) :
    Option TableState :=
  match call with
  | .bootstrap => none
  | _ => o.filter fun st => st.rootPage = s.rootPage

/-- The call can get past a leaf of the table tracked as `o`. -/
def ResolverCall.Past (call : ResolverCall) (f : PageFetcher) (size : Nat) (s : TableSchema)
    (o : Option TableState) (p : UInt32) : Prop :=
  match call with
  | .applyFrames dirty =>
    match call.consulted s o with
    | some st => GetsPast st dirty f size p
    | none => Reads f size p = true
  | _ => DiffsPast (call.consulted s o) f size p

def ResolverCall.Succeeds (call : ResolverCall) (f : PageFetcher) (size : Nat) (s : TableSchema)
    (o : Option TableState) : Prop :=
  s.withoutRowid = true ∨ AllPast f size s (call.Past f size s o)

/-- The round of a table tracked as `o` leaves its memory as it was, whether it succeeds or
stops. -/
def ResolverCall.Unchanged (call : ResolverCall) (f : PageFetcher) (size : Nat) (s : TableSchema)
    (o : Option TableState) : Prop :=
  if s.withoutRowid then o = none
  else match call with
    | .bootstrap => call.Succeeds f size s o → ∃ st, o = some st ∧
        ∀ leaves, collectLeafPages s.rootPage f size = .ok leaves → LoadedAs st s f size leaves
    | .reconcile => call.Succeeds f size s o → ∃ st, o = some st ∧
        ∀ leaves, collectLeafPages s.rootPage f size = .ok leaves → TakenOver st s f size leaves
    | .applyFrames dirty =>
      match o with
      | none => ¬ call.Succeeds f size s o
      | some st => st.rootPage = s.rootPage ∧
          ∀ leaves, collectLeafPages s.rootPage f size = .ok leaves →
            UnchangedInPlace st dirty f size leaves
              (leaves.takeWhile fun p => GetsPast st dirty f size p)

def ResolverCall.table (call : ResolverCall) (f : PageFetcher) (size : Nat) :
    TableSchema → OpResolver × OpBatch → Except Halt (OpResolver × OpBatch) :=
  match call with
  | .bootstrap => diffTable f size true
  | .reconcile => diffTable f size false
  | .applyFrames dirty => applyTable dirty f size

/-- What a round does: it succeeds exactly when it can read what it needs, and it touches the
memory of its table only. -/
structure RoundSpec (call : ResolverCall) (f : PageFetcher) (size : Nat) (s : TableSchema)
    (acc : OpResolver × OpBatch) : Prop where
  outcome : call.Succeeds f size s (acc.1.tables.lookup s.name) ∧
      (∃ acc', call.table f size s acc = .ok acc') ∨
    ¬ call.Succeeds f size s (acc.1.tables.lookup s.name) ∧ ∃ e, call.table f size s acc = .error e
  same_iff : Option.Rel SameState (acc.1.tables.lookup s.name)
      ((memoryAfter (call.table f size s acc)).tables.lookup s.name) ↔
    call.Unchanged f size s (acc.1.tables.lookup s.name)
  others : ∀ n, n ≠ s.name →
    (memoryAfter (call.table f size s acc)).tables.lookup n = acc.1.tables.lookup n

theorem round_skipped {call : ResolverCall} (hrowid : s.withoutRowid = true)
    (htable : call.table f size s acc = .ok (skipTable s acc)) : RoundSpec call f size s acc := by
  refine ⟨.inl ⟨.inl hrowid, _, htable⟩, ?_, ?_⟩
  · rw [htable]
    show Option.Rel SameState _ ((acc.1.tables.erase s.name).lookup s.name) ↔ _
    unfold ResolverCall.Unchanged
    rw [AList.lookup_erase, rel_none_right, if_pos hrowid]
  · intro n hn
    rw [htable]
    exact AList.lookup_erase_ne hn

theorem succeeds_iff {call : ResolverCall} {o : Option TableState}
    (hrowid : s.withoutRowid = false) :
    call.Succeeds f size s o ↔ AllPast f size s (call.Past f size s o) := by
  unfold ResolverCall.Succeeds
  rw [hrowid]
  exact or_iff_right Bool.false_ne_true

theorem round_diff (call : ResolverCall) (blind : Bool)
    (hcall : call = if blind then .bootstrap else .reconcile) : RoundSpec call f size s acc := by
  have htable : call.table f size s acc = diffTable f size blind s acc := by
    rw [hcall]
    cases blind <;> rfl
  have hpast : call.Past f size s (acc.1.tables.lookup s.name) =
      DiffsPast (comparableState acc.1 s blind) f size := by
    rw [hcall]
    cases blind <;> rfl
  cases hrowid : s.withoutRowid with
  | true =>
    apply round_skipped hrowid
    rw [htable]
    unfold diffTable
    rw [if_pos hrowid]
  | false =>
    have hsucceeds : call.Succeeds f size s (acc.1.tables.lookup s.name) ↔
        AllPast f size s (DiffsPast (comparableState acc.1 s blind) f size) := by
      rw [succeeds_iff hrowid, hpast]
    rcases @diffTable_round f size s acc blind hrowid with
      ⟨hall, leaves, w, hleaves, hload, hdone⟩ | ⟨hstuck, stop, hstop⟩
    · have hunchanged : call.Unchanged f size s (acc.1.tables.lookup s.name) ↔
          ∃ st, acc.1.tables.lookup s.name = some st ∧
            if blind then LoadedAs st s f size leaves else TakenOver st s f size leaves := by
        unfold ResolverCall.Unchanged
        rw [if_neg (by rw [hrowid]; decide)]
        subst hcall
        cases blind
        all_goals
          refine (imp_iff_right (hsucceeds.mpr hall)).trans ?_
          exact exists_congr fun st => and_congr_right fun _ => forall_ok_iff hleaves
      refine ⟨.inl ⟨hsucceeds.mpr hall, _, htable.trans hdone⟩, ?_, ?_⟩
      · rw [hunchanged, htable, hdone]
        show Option.Rel SameState _ ((acc.1.tables.insert s.name _).lookup s.name) ↔ _
        rw [AList.lookup_insert, rel_some_right]
        apply exists_congr
        intro st
        apply and_congr_right
        intro hst
        cases blind with
        | true => exact hload.same_iff_blind
        | false =>
          by_cases hroot : st.rootPage = s.rootPage
          · rw [comparableState_same hst hroot] at hload ⊢
            exact hload.same_iff_compared
          · have hother : comparableState acc.1 s false = none :=
              comparableState_other fun st' hst' => by rwa [Option.mem_unique hst' hst]
            rw [hother] at hload ⊢
            apply iff_of_false
            · exact fun hsame => hroot (hsame.root.trans hload.flags.root)
            · exact fun htaken => hroot htaken.flags.root
      · intro n hn
        rw [htable, hdone]
        exact AList.lookup_insert_ne hn
    · refine ⟨.inr ⟨fun h => hstuck (hsucceeds.mp h), _, htable.trans hstop⟩, ?_, ?_⟩
      · rw [htable, hstop]
        apply iff_of_true (rel_refl SameState.refl _)
        unfold ResolverCall.Unchanged
        rw [if_neg (by rw [hrowid]; decide)]
        subst hcall
        cases blind
        all_goals exact fun h => absurd (hsucceeds.mp h) hstuck
      · intro n _
        rw [htable, hstop]
        rfl

theorem round_rebuild (hrowid : s.withoutRowid = false)
    (hother : ∀ st, acc.1.tables.lookup s.name = some st → st.rootPage ≠ s.rootPage)
    (htable : (ResolverCall.applyFrames dirty).table f size s acc =
      rebuildTable f size s (acc.1.tables.lookup s.name) acc) :
    RoundSpec (.applyFrames dirty) f size s acc := by
  have hpast : (ResolverCall.applyFrames dirty).Past f size s (acc.1.tables.lookup s.name) =
      fun p => Reads f size p = true := by
    have hnone : (ResolverCall.applyFrames dirty).consulted s (acc.1.tables.lookup s.name) =
        none := @comparableState_other acc.1 s fun st hst => hother st hst
    funext p
    unfold ResolverCall.Past
    simp only [hnone]
  have hsucceeds := @succeeds_iff f size s (.applyFrames dirty) (acc.1.tables.lookup s.name) hrowid
  rw [hpast] at hsucceeds
  have hunchanged : (ResolverCall.applyFrames dirty).Unchanged f size s
      (acc.1.tables.lookup s.name) ↔ acc.1.tables.lookup s.name = none ∧
        ¬ AllPast f size s (fun p => Reads f size p = true) := by
    rw [← hsucceeds]
    unfold ResolverCall.Unchanged
    rw [if_neg (by rw [hrowid]; decide)]
    cases hst : acc.1.tables.lookup s.name with
    | none => exact (and_iff_right rfl).symm
    | some st => exact iff_of_false (fun h => hother st hst h.1) fun h => nomatch h.1
  rcases @rebuildTable_round f size s acc (acc.1.tables.lookup s.name) with ⟨hall, w, hroot, hdone⟩ | ⟨hstuck, stop, hstop⟩
  · refine ⟨.inl ⟨hsucceeds.mpr hall, _, htable.trans hdone⟩, ?_, ?_⟩
    · rw [hunchanged, htable, hdone]
      show Option.Rel SameState _ (((acc.1.tables.erase s.name).insert s.name _).lookup s.name) ↔ _
      rw [AList.lookup_insert]
      apply iff_of_false
      · intro hrel
        obtain ⟨st, hst, hsame⟩ := rel_some_right.mp hrel
        exact hother st hst (hsame.root.trans hroot)
      · exact fun h => h.2 hall
    · intro n hn
      rw [htable, hdone]
      exact (AList.lookup_insert_ne hn).trans (AList.lookup_erase_ne hn)
  · refine ⟨.inr ⟨fun h => hstuck (hsucceeds.mp h), _, htable.trans hstop⟩, ?_, ?_⟩
    · rw [hunchanged, htable, hstop]
      show Option.Rel SameState _ ((acc.1.tables.erase s.name).lookup s.name) ↔ _
      rw [AList.lookup_erase, rel_none_right]
      exact (and_iff_left hstuck).symm
    · intro n hn
      rw [htable, hstop]
      exact AList.lookup_erase_ne hn

theorem round_update (hrowid : s.withoutRowid = false) (hst : acc.1.tables.lookup s.name = some st)
    (hroot : st.rootPage = s.rootPage)
    (htable : (ResolverCall.applyFrames dirty).table f size s acc =
      updateTable dirty f size s st acc) : RoundSpec (.applyFrames dirty) f size s acc := by
  have hpast : (ResolverCall.applyFrames dirty).Past f size s (acc.1.tables.lookup s.name) =
      GetsPast st dirty f size := by
    have hsome : (ResolverCall.applyFrames dirty).consulted s (acc.1.tables.lookup s.name) =
        some st := @comparableState_same acc.1 s st hst hroot
    funext p
    unfold ResolverCall.Past
    simp only [hsome]
  have hsucceeds := @succeeds_iff f size s (.applyFrames dirty) (acc.1.tables.lookup s.name) hrowid
  rw [hpast] at hsucceeds
  have hunchanged : (ResolverCall.applyFrames dirty).Unchanged f size s
      (acc.1.tables.lookup s.name) ↔
      ∀ leaves, collectLeafPages s.rootPage f size = .ok leaves →
        UnchangedInPlace st dirty f size leaves
          (leaves.takeWhile fun p => GetsPast st dirty f size p) := by
    unfold ResolverCall.Unchanged
    rw [if_neg (by rw [hrowid]; decide), hst]
    exact and_iff_right hroot
  rcases @updateTable_round f size s st acc dirty with ⟨stop, hwalk, hstop⟩ | ⟨leaves, w, hleaves, hwalk, hor⟩
  · refine ⟨.inr ⟨fun h => not_allPast hwalk (hsucceeds.mp h), _, htable.trans hstop⟩, ?_, ?_⟩
    · rw [hunchanged, htable, hstop]
      apply iff_of_true (rel_refl SameState.refl _)
      intro leaves hleaves
      rw [hwalk] at hleaves
      cases hleaves
    · intro n _
      rw [htable, hstop]
      rfl
  · rw [allPast_iff hleaves] at hsucceeds
    have hsame : Option.Rel SameState (acc.1.tables.lookup s.name) (some w.state) ↔
        (ResolverCall.applyFrames dirty).Unchanged f size s (acc.1.tables.lookup s.name) := by
      rw [hunchanged, hst, rel_some_some, forall_ok_iff hleaves]
      exact hwalk.same_iff fun p hp => ( takeWhile_prefix _).subset hp
    rcases hor with ⟨hpast', hdone⟩ | ⟨hstuck, stop, hstop⟩
    · refine ⟨.inl ⟨hsucceeds.mpr hpast', _, htable.trans hdone⟩, ?_, ?_⟩
      · rw [htable, hdone, ← hsame]
        show Option.Rel SameState _ ((acc.1.tables.insert s.name w.state).lookup s.name) ↔ _
        rw [AList.lookup_insert]
      · intro n hn
        rw [htable, hdone]
        exact AList.lookup_insert_ne hn
    · refine ⟨.inr ⟨fun h => hstuck (hsucceeds.mp h), _, htable.trans hstop⟩, ?_, ?_⟩
      · rw [htable, hstop, ← hsame]
        show Option.Rel SameState _ ((acc.1.tables.insert s.name w.state).lookup s.name) ↔ _
        rw [AList.lookup_insert]
      · intro n hn
        rw [htable, hstop]
        exact AList.lookup_insert_ne hn

theorem ResolverCall.round (call : ResolverCall) : RoundSpec call f size s acc := by
  cases call with
  | bootstrap => exact round_diff .bootstrap true rfl
  | reconcile => exact round_diff .reconcile false rfl
  | applyFrames dirty =>
    have htable : (ResolverCall.applyFrames dirty).table f size s acc =
        applyTable dirty f size s acc := rfl
    unfold applyTable at htable
    cases hrowid : s.withoutRowid with
    | true =>
      rw [if_pos hrowid] at htable
      exact round_skipped hrowid htable
    | false =>
      rw [if_neg (by rw [hrowid]; decide)] at htable
      cases hst : acc.1.tables.lookup s.name with
      | none =>
        rw [hst] at htable
        refine round_rebuild hrowid (fun st h => ?_) (by rw [hst]; exact htable)
        rw [hst] at h
        cases h
      | some st =>
        rw [hst] at htable
        simp only at htable
        by_cases hroot : st.rootPage = s.rootPage
        · rw [if_neg (not_not.mpr hroot)] at htable
          exact round_update hrowid hst hroot htable
        · rw [if_pos hroot] at htable
          refine round_rebuild hrowid (fun st' h => ?_) (by rw [hst]; exact htable)
          rw [hst] at h
          cases h
          exact hroot

end

/-! ## 5. A call that stops -/

section

variable {call : ResolverCall} {schemas : List TableSchema} {r r' : OpResolver} {f : PageFetcher}
  {size : Nat} {stop : Stop}

theorem run_eq (call : ResolverCall) (r : OpResolver) (schemas : List TableSchema)
    (f : PageFetcher) (size : Nat) :
    call.run r schemas f size = resolveSchemas (call.table f size) schemas r := by
  cases call <;> rfl

/-- The schema loop after the schemas `done`: the others are as after the vanished tables were
dropped. -/
structure ResolvedSoFar (call : ResolverCall) (schemas : List TableSchema) (r : OpResolver)
    (f : PageFetcher) (size : Nat) (done : List TableSchema) (r₁ : OpResolver) : Prop where
  sub : ∀ t ∈ done, t ∈ schemas
  others : ∀ n, n ∉ done.map TableSchema.name →
    r₁.tables.lookup n = (dropVanished schemas r).1.tables.lookup n
  same : ∀ t ∈ done, Option.Rel SameState (r.tables.lookup t.name) (r₁.tables.lookup t.name) ↔
    call.Unchanged f size t (r.tables.lookup t.name)

variable {done : List TableSchema} {s : TableSchema} {acc : OpResolver × OpBatch}

section

variable (h : ResolvedSoFar call schemas r f size done acc.1)
  (hnames : (schemas.map TableSchema.name).Nodup) (hs : s ∈ schemas) (hdone : s ∉ done)

include h hnames hs hdone

theorem ResolvedSoFar.fresh :
    s.name ∉ done.map TableSchema.name ∧ acc.1.tables.lookup s.name = r.tables.lookup s.name := by
  have hnew : s.name ∉ done.map TableSchema.name := by
    intro hin
    obtain ⟨t, ht, hname⟩ := mem_map.mp hin
    have heq := inj_on_of_nodup_map hnames (h.sub t ht) hs hname
    exact hdone (heq ▸ ht)
  refine ⟨hnew, (h.others s.name hnew).trans ?_⟩
  exact (dropVanished_kept (findSchema_ne_none hs)).1

theorem ResolvedSoFar.round :
    ResolvedSoFar call schemas r f size (done ++ [s]) (memoryAfter (call.table f size s acc)) := by
  obtain ⟨hnew, hlookup⟩ := h.fresh hnames hs hdone
  obtain ⟨-, hsame, hothers⟩ := @ResolverCall.round f size s acc call
  rw [hlookup] at hsame
  refine ⟨?_, ?_, ?_⟩
  · intro t ht
    rcases mem_append.mp ht with hin | hin
    · exact h.sub t hin
    · rw [mem_singleton.mp hin]
      exact hs
  · intro n hn
    rw [map_append, mem_append, not_or] at hn
    have hne : n ≠ s.name := fun heq => hn.2 (mem_singleton.mpr heq)
    rw [hothers n hne]
    exact h.others n hn.1
  · intro t ht
    rcases mem_append.mp ht with hin | hin
    · have hne : t.name ≠ s.name := fun heq => hnew (heq ▸ mem_map_of_mem hin)
      rw [hothers t.name hne]
      exact h.same t hin
    · rw [mem_singleton.mp hin]
      exact hsame

end

/-- A call that stops has worked on the schemas up to the first one it cannot read.  Its memory is
as before exactly when no tracked table had vanished and none of these rounds changed its table. -/
theorem failed_call_keeps_iff (hnames : (schemas.map TableSchema.name).Nodup)
    (h : call.run r schemas f size = (.error stop, r')) :
    ∃ done s rest, schemas = done ++ s :: rest ∧
      (∀ t ∈ done, call.Succeeds f size t (r.tables.lookup t.name)) ∧
      ¬ call.Succeeds f size s (r.tables.lookup s.name) ∧
      (SameMemory r r' ↔ (∀ n, findSchema schemas n = none → r.tables.lookup n = none) ∧
        ∀ t ∈ done ++ [s], call.Unchanged f size t (r.tables.lookup t.name)) := by
  rw [run_eq] at h
  unfold resolveSchemas at h
  have hschemas : schemas.Nodup := List.Nodup.of_map _ hnames
  rcases @foldlM_stops _ _ _ (fun acc schema => call.table f size schema acc) schemas
    (fun done acc => ResolvedSoFar call schemas r f size done acc.1)
    (fun t => call.Succeeds f size t (r.tables.lookup t.name)) hschemas
    (fun done acc t hinv ht hdone hok => by
      have hnext := hinv.round hnames ht hdone
      rw [← (hinv.fresh hnames ht hdone).2] at hok
      rcases (@ResolverCall.round f size t acc call).outcome with ⟨-, acc', hacc'⟩ | ⟨hstuck, -⟩
      · rw [hacc'] at hnext
        exact ⟨acc', hacc', hnext⟩
      · exact absurd hok hstuck)
    (fun done acc t hinv ht hdone hfail => by
      rw [← (hinv.fresh hnames ht hdone).2] at hfail
      rcases (@ResolverCall.round f size t acc call).outcome with ⟨hok, -⟩ | ⟨-, herror⟩
      · exact absurd hok hfail
      · exact herror)
    (dropVanished schemas r)
    ⟨fun _ h => absurd h not_mem_nil, fun _ _ => rfl, fun _ h => absurd h not_mem_nil⟩ with
    ⟨-, acc', hrun, -⟩ | ⟨done, s, rest, acc, e, hsplit, ⟨hs, hnew⟩, hdone, hstuck, hrun, hinv, herror⟩
  · rw [hrun] at h
    cases h
  · rw [hrun] at h
    have hlast := hinv.round hnames hs hnew
    rw [herror] at hlast
    obtain ⟨stop', r₁⟩ := e
    cases h
    change ResolvedSoFar call schemas r f size (done ++ [s]) r' at hlast
    refine ⟨done, s, rest, hsplit, hdone, hstuck, ?_⟩
    constructor
    · intro hsame
      constructor
      · intro n hn
        have hout : n ∉ (done ++ [s]).map TableSchema.name := by
          intro hin
          obtain ⟨t, ht, rfl⟩ := mem_map.mp hin
          exact findSchema_ne_none (hlast.sub t ht) hn
        have hrel := hsame n
        rw [hlast.others n hout, (dropVanished_eq schemas r).1 n, if_pos hn, rel_none_right] at hrel
        exact hrel
      · exact fun t ht => (hlast.same t ht).mp (hsame t.name)
    · rintro ⟨hvanished, hrounds⟩ n
      by_cases hin : n ∈ (done ++ [s]).map TableSchema.name
      · obtain ⟨t, ht, rfl⟩ := mem_map.mp hin
        exact (hlast.same t ht).mpr (hrounds t ht)
      · rw [hlast.others n hin, (dropVanished_eq schemas r).1 n]
        split
        next hn =>
          rw [hvanished n hn]
          exact .none
        · exact rel_refl SameState.refl _

-- table t is dropped and table u appears, whose root page cannot be fetched at first
def failedTick : Except Stop OpBatch × OpResolver :=
  ResolverCall.reconcile.run rerootedMemory [{ name := "u", rootPage := 9 }] rerootedBefore 512

def retriedTick : Except Stop OpBatch × OpResolver :=
  ResolverCall.reconcile.run failedTick.2 [{ name := "u", rootPage := 9 }]
    (pagesOf [(9, smallLeaf [(1, [2, 1, 5])])]) 512

theorem failed_call_keeps_iff_dropped : ∃ done s rest,
    [({ name := "u", rootPage := 9 } : TableSchema)] = done ++ s :: rest ∧
      (∀ t ∈ done, ResolverCall.reconcile.Succeeds rerootedBefore 512 t
        (rerootedMemory.tables.lookup t.name)) ∧
      ¬ ResolverCall.reconcile.Succeeds rerootedBefore 512 s (rerootedMemory.tables.lookup s.name) ∧
      (SameMemory rerootedMemory failedTick.2 ↔
        (∀ n, findSchema [({ name := "u", rootPage := 9 } : TableSchema)] n = none →
          rerootedMemory.tables.lookup n = none) ∧
        ∀ t ∈ done ++ [s], ResolverCall.reconcile.Unchanged rerootedBefore 512 t
          (rerootedMemory.tables.lookup t.name)) := by
  have hstop : failedTick.1 = .error (.error "Page 9 unavailable") := by decide +kernel
  have hrun : failedTick = (.error (.error "Page 9 unavailable"), failedTick.2) := by
    rw [← hstop]
  exact failed_call_keeps_iff (by decide) hrun

/-- The call that stops has forgotten table t, and the next one deletes none of its rows. -/
theorem dropped_table_forgotten : failedTick.1 = .error (.error "Page 9 unavailable") ∧
    ¬ SameMemory rerootedMemory failedTick.2 ∧
    retriedTick.1 = .ok { upserts := [⟨"u", 1, [.integer 5]⟩] } := by
  refine ⟨by decide +kernel, fun hsame => ?_, by decide +kernel⟩
  have hbefore : (rerootedMemory.tables.lookup "t").isSome = true := by decide +kernel
  have hafter : (failedTick.2.tables.lookup "t").isNone = true := by decide +kernel
  have hrel := hsame "t"
  rw [isNone_iff_eq_none.mp hafter, rel_none_right] at hrel
  rw [hrel] at hbefore
  cases hbefore

end

end Ladybug.Sqlite
