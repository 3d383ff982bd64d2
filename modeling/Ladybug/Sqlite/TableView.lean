import Ladybug.Base.KeyedDiff
import Ladybug.Base.Runs
import Ladybug.Sqlite.OpResolver

/-!
# Table contents, and what the resolver's memory says about them

A `TableView` is what the tree under a root page holds: its leaves and the rows of each leaf.
`Tracks` and `Retains` say that a table state describes a view.  The rest are the closed forms of
the resolver's inner loops: emitting deletes, tracking rows, and walking the tree.
-/

namespace Ladybug.Sqlite

open Bytes List Option Function

structure TableView where
  leaves : List UInt32
  rows : UInt32 → List DecodedRow

namespace TableView

def all (v : TableView) : List DecodedRow := v.leaves.flatMap v.rows

def rowidsOn (v : TableView) (p : UInt32) : List Int64 := (v.rows p).map DecodedRow.rowid

def record (v : TableView) (r : Int64) : Option (List SqliteValue) :=
  (v.all.find? fun row => row.rowid = r).map DecodedRow.values

-- each rowid is on one leaf only, and once
def Wf (v : TableView) : Prop := (v.all.map DecodedRow.rowid).Nodup

instance (v : TableView) : Decidable v.Wf := inferInstanceAs (Decidable (Nodup _))

variable {v : TableView} {r : Int64} {p : UInt32}

theorem mem_all {row : DecodedRow} : row ∈ v.all ↔ ∃ p ∈ v.leaves, row ∈ v.rows p := mem_flatMap

theorem record_isSome_iff : v.record r ≠ none ↔ ∃ p ∈ v.leaves, r ∈ v.rowidsOn p := by
  unfold record rowidsOn
  rw [ne_eq, map_eq_none_iff, find?_eq_none]
  constructor
  · intro h
    by_contra hno
    apply h
    intro row hrow hr
    obtain ⟨p, hp, hmem⟩ := mem_all.mp hrow
    exact hno ⟨p, hp, mem_map.mpr ⟨row, hmem, of_decide_eq_true hr⟩⟩
  · rintro ⟨p, hp, hr⟩ hnone
    obtain ⟨row, hrow, rfl⟩ := mem_map.mp hr
    exact hnone row (mem_all.mpr ⟨p, hp, hrow⟩) (decide_eq_true rfl)

theorem record_of_mem (hwf : v.Wf) {row : DecodedRow} (h : row ∈ v.all) :
    v.record row.rowid = some row.values := by
  unfold record
  cases hfind : v.all.find? fun x => x.rowid = row.rowid with
  | none =>
    rw [find?_eq_none] at hfind
    exact absurd (decide_eq_true rfl) (hfind row h)
  | some x =>
    have hx := mem_of_find?_eq_some hfind
    have hid : x.rowid = row.rowid := by simpa using find?_some hfind
    rw [inj_on_of_nodup_map hwf hx h hid]
    rfl

theorem mem_of_record {a : List SqliteValue} (h : v.record r = some a) :
    ∃ p ∈ v.leaves, (⟨r, a⟩ : DecodedRow) ∈ v.rows p := by
  obtain ⟨row, hfind, rfl⟩ := map_eq_some_iff.mp h
  obtain rfl : row.rowid = r := by simpa using find?_some hfind
  exact mem_all.mp (mem_of_find?_eq_some hfind)

theorem rowidsOn_nodup (hwf : v.Wf) (hp : p ∈ v.leaves) : (v.rowidsOn p).Nodup := by
  unfold Wf all at hwf
  rw [map_flatMap] at hwf
  exact (nodup_flatMap.mp hwf).1 p hp

theorem leaf_unique (hwf : v.Wf) {q : UInt32} (hp : p ∈ v.leaves) (hq : q ∈ v.leaves)
    (hrp : r ∈ v.rowidsOn p) (hrq : r ∈ v.rowidsOn q) : p = q := by
  unfold Wf all at hwf
  rw [map_flatMap] at hwf
  have hsymm : Std.Symm (onFun List.Disjoint fun a => (v.rows a).map DecodedRow.rowid) :=
    ⟨fun x y h => List.Disjoint.symm h⟩
  by_contra hne
  exact (nodup_flatMap.mp hwf).2.forall hp hq hne hrp hrq

def RowOn (v : TableView) (sel : UInt32 → Prop) (done : List UInt32) (row : DecodedRow) : Prop :=
  ∃ p ∈ done, sel p ∧ row ∈ v.rows p

variable {sel : UInt32 → Prop} {done : List UInt32}

theorem rowOn_append (hp : sel p) (row : DecodedRow) :
    v.RowOn sel (done ++ [p]) row ↔ v.RowOn sel done row ∨ row ∈ v.rows p := by
  unfold RowOn
  simp only [mem_append, mem_singleton]
  constructor
  · rintro ⟨q, hq | rfl, hsel, hrow⟩
    · exact .inl ⟨q, hq, hsel, hrow⟩
    · exact .inr hrow
  · rintro (⟨q, hq, hsel, hrow⟩ | hrow)
    · exact ⟨q, .inl hq, hsel, hrow⟩
    · exact ⟨p, .inr rfl, hp, hrow⟩

theorem rowOn_append_of_not (hp : ¬ sel p) : v.RowOn sel (done ++ [p]) = v.RowOn sel done := by
  funext row
  apply propext
  unfold RowOn
  simp only [mem_append, mem_singleton]
  constructor
  · rintro ⟨q, hq | rfl, hsel, hrow⟩
    · exact ⟨q, hq, hsel, hrow⟩
    · exact absurd hsel hp
  · rintro ⟨q, hq, hsel, hrow⟩
    exact ⟨q, .inl hq, hsel, hrow⟩

end TableView

/-- The tree under `root`, read through `fetcher`, holds `v`. -/
structure ReadsTable (fetcher : PageFetcher) (pageSize : Nat) (root : UInt32) (v : TableView) :
    Prop where
  walk : collectLeafPages root fetcher pageSize = .ok v.leaves
  decode : ∀ p ∈ v.leaves, ∃ hash, decodeLeaf p fetcher pageSize = .ok (v.rows p, hash)

variable {p : UInt32} {v : TableView} {state : TableState} {page : PageState} {r : Int64}

theorem setInsert_nodup {pages : List UInt32} (h : pages.Nodup) : (setInsert p pages).Nodup := by
  unfold setInsert
  split
  · exact h
  next hp => exact (perm_orderedInsert (· ≤ ·) p pages).nodup_iff.mpr (h.cons hp)

variable {fetcher : PageFetcher} {pageSize : Nat} {pages : Pages}

theorem walkPages_nodup {fuel : Nat} {visited : List UInt32} {stack : List (UInt32 × Nat)}
    {leaves out : List UInt32} (hleaves : leaves.Nodup)
    (h : walkPages fetcher pageSize fuel visited stack leaves = .ok out) : out.Nodup := by
  induction fuel generalizing visited stack leaves with
  | zero =>
    cases stack with
    | nil => rw [walkPages] at h; cases h; exact hleaves
    | cons e stack => rw [walkPages] at h; cases h; exact cons_ne_nil _ _
  | succ fuel ih =>
    cases stack with
    | nil => rw [walkPages] at h; cases h; exact hleaves
    | cons e stack =>
      rw [walkPages] at h
      split at h
      · exact ih hleaves h
      · split at h
        · cases h
        · obtain ⟨flags, -, h⟩ := bind_eq_ok.mp h
          split at h
          · exact ih (setInsert_nodup hleaves) h
          · obtain ⟨-, h⟩ := guard_eq_ok.mp h
            obtain ⟨children, -, h⟩ := bind_eq_ok.mp h
            exact ih hleaves h

theorem ReadsTable.leaves_nodup {root : UInt32} (h : ReadsTable fetcher pageSize root v) :
    v.leaves.Nodup := by
  have hwalk := h.walk
  unfold collectLeafPages at hwalk
  split at hwalk
  · cases hwalk
  · exact walkPages_nodup nodup_nil hwalk

structure Tracks (state : TableState) (v : TableView) : Prop where
  leaf_iff : ∀ p, p ∈ state.pages ↔ p ∈ v.leaves
  rowids_iff : ∀ p page, state.pages.lookup p = some page → ∀ r, r ∈ page.rowids ↔ r ∈ v.rowidsOn p

def TableState.keptRecord (state : TableState) (values : List SqliteValue) :
    Option (List SqliteValue) :=
  if state.retainRecords then some values else none

structure Retains (state : TableState) (v : TableView) : Prop where
  identities : ∀ r, state.identities r = (v.record r).bind state.pkValue
  records : ∀ r, state.records r = (v.record r).bind state.keptRecord

-- the record of every row has the column that identifies it
def ReachesPk (state : TableState) (v : TableView) : Prop :=
  ¬ state.pkFromRowid → 0 ≤ state.pkRecordIndex →
    ∀ row ∈ v.all, state.pkRecordIndex.toNat < row.values.length

-- what a state keeps of a record does not depend on its maps
theorem keep_of_frame {st base : TableState} {ids : Int64 → Option SqliteValue}
    {recs : Int64 → Option (List SqliteValue)}
    (h : { st with pages, identities := ids, records := recs } = base) :
    st.pkValue = base.pkValue ∧ st.keptRecord = base.keptRecord := by
  subst h
  exact ⟨rfl, rfl⟩

/-- `keep` finds something in every record of the view, or it never finds anything. -/
def Reaches {X : Type} (keep : List SqliteValue → Option X) (v : TableView) : Prop :=
  (∀ row ∈ v.all, keep row.values ≠ none) ∨ ∀ a, keep a = none

section

variable (h : Tracks state v) (hp : state.pages.lookup p = some page)

include h hp

theorem Tracks.mem_leaves : p ∈ v.leaves := by
  rw [← h.leaf_iff, ← AList.lookup_isSome, hp]
  rfl

theorem Tracks.record_isSome (hr : r ∈ page.rowids) : v.record r ≠ none :=
  TableView.record_isSome_iff.mpr ⟨p, h.mem_leaves hp, (h.rowids_iff p page hp r).mp hr⟩

end

theorem Tracks.page_of_record (h : Tracks state v) (hr : v.record r ≠ none) :
    ∃ p page, state.pages.lookup p = some page ∧ r ∈ page.rowids := by
  obtain ⟨p, hp, hmem⟩ := TableView.record_isSome_iff.mp hr
  rw [← h.leaf_iff, ← AList.lookup_isSome, isSome_iff_exists] at hp
  obtain ⟨page, hpage⟩ := hp
  exact ⟨p, page, hpage, (h.rowids_iff p page hpage r).mpr hmem⟩

/-- No rowid is tracked on two pages. -/
def OnePage (st : TableState) : Prop :=
  ∀ p q pp pq r, st.pages.lookup p = some pp → st.pages.lookup q = some pq →
    r ∈ pp.rowids → r ∈ pq.rowids → p = q

theorem Tracks.onePage (h : Tracks state v) (hwf : v.Wf) : OnePage state := by
  intro p q pp pq r hp hq hrp hrq
  exact TableView.leaf_unique hwf (h.mem_leaves hp) (h.mem_leaves hq)
    ((h.rowids_iff p pp hp r).mp hrp) ((h.rowids_iff q pq hq r).mp hrq)

def TableState.trackedRowids (state : TableState) : List Int64 :=
  state.pages.entries.flatMap fun e => e.2.rowids

def TableState.forgetAll (state : TableState) (rowids : List Int64) : TableState :=
  { state with
    identities := fun r => if r ∈ rowids then none else state.identities r
    records := fun r => if r ∈ rowids then none else state.records r }

theorem forgetAll_nil (state : TableState) : state.forgetAll [] = state := rfl

theorem forgetAll_forget (state : TableState) (r : Int64) (rowids : List Int64) :
    (state.forget r).forgetAll rowids = state.forgetAll (r :: rowids) := by
  have hset {X : Type} (m : Int64 → Option X) (x : Int64) :
      (if x ∈ rowids then none else update m r none x) = if x ∈ r :: rowids then none else m x := by
    rw [update_apply]
    by_cases hx : x = r
    · rw [if_pos hx, ite_self, if_pos (by rw [hx]; exact mem_cons_self)]
    · have hmem : x ∈ r :: rowids ↔ x ∈ rowids := by rw [mem_cons, or_iff_right hx]
      simp only [hmem, if_neg hx]
  unfold TableState.forgetAll TableState.forget
  simp only [hset]

-- a rowid emitted once carries what the state retained before the loop
theorem foldl_emitDelete (table : String) (rowids : List Int64) (hnodup : rowids.Nodup)
    (state : TableState) (deletes : List RowDelete) :
    rowids.foldl (emitDelete table) (state, deletes) =
      (state.forgetAll rowids, deletes ++ rowids.map (rowDelete table state)) := by
  induction rowids generalizing state deletes with
  | nil => rw [foldl_nil, map_nil, append_nil, forgetAll_nil]
  | cons r rowids ih =>
    have hother : rowids.map (rowDelete table (state.forget r)) =
        rowids.map (rowDelete table state) := by
      apply map_congr_left
      intro x hx
      have hne : x ≠ r := fun h => hnodup.notMem (h ▸ hx)
      simp only [rowDelete, TableState.forget, update_of_ne hne]
    rw [foldl_cons, emitDelete, ih hnodup.of_cons, hother, forgetAll_forget, map_cons,
      append_assoc, singleton_append]

theorem entry_iff_lookup : (⟨p, page⟩ : Sigma fun _ : UInt32 => PageState) ∈ pages.entries ↔
      pages.lookup p = some page := by
  unfold AList.lookup
  rw [← mem_def, mem_dlookup_iff pages.nodupKeys]

theorem trackedRowids_nodup (h : OnePage state) : state.trackedRowids.Nodup := by
  unfold TableState.trackedRowids
  rw [nodup_flatMap]
  refine ⟨fun e _ => e.2.nodup, ?_⟩
  have hkeys := nodupKeys_iff_pairwise.mp state.pages.nodupKeys
  refine hkeys.imp_of_mem ?_
  intro e f he hf hne r hre hrf
  exact hne (h e.1 f.1 e.2 f.2 r (entry_iff_lookup.mp he) (entry_iff_lookup.mp hf) hre hrf)

theorem mem_trackedRowids (h : Tracks state v) : r ∈ state.trackedRowids ↔ v.record r ≠ none := by
  unfold TableState.trackedRowids
  rw [mem_flatMap]
  constructor
  · rintro ⟨e, he, hr⟩
    exact h.record_isSome (entry_iff_lookup.mp he) hr
  · intro hr
    obtain ⟨p, page, hp, hmem⟩ := h.page_of_record hr
    exact ⟨⟨p, page⟩, entry_iff_lookup.mpr hp, hmem⟩

section

variable {X : Type}

/-- `trackRow` on one of the two retained maps; `keep` is what it keeps of a record. -/
def keepRow (keep : List SqliteValue → Option X) (m : Int64 → Option X) (row : DecodedRow) :
    Int64 → Option X :=
  match keep row.values with
  | some x => update m row.rowid (some x)
  | none => m

section

variable (keep : List SqliteValue → Option X)

include keep

theorem keepRow_of_ne (m : Int64 → Option X) {row : DecodedRow} {r : Int64} (h : r ≠ row.rowid) :
    keepRow keep m row r = m r := by
  unfold keepRow
  cases keep row.values with
  | none => rfl
  | some x => exact update_of_ne h _ _

theorem foldl_keepRow_of_notMem (rows : List DecodedRow) (m : Int64 → Option X) {r : Int64}
    (h : r ∉ rows.map DecodedRow.rowid) :
    rows.foldl (keepRow keep) m r = m r := by
  induction rows generalizing m with
  | nil => rfl
  | cons row rows ih =>
    rw [map_cons, mem_cons, not_or] at h
    rw [foldl_cons, ih (keepRow keep m row) h.2, keepRow_of_ne keep m h.1]

theorem foldl_keepRow_of_mem {rows : List DecodedRow} (hnodup : (rows.map DecodedRow.rowid).Nodup)
    (m : Int64 → Option X) {row : DecodedRow} (hrow : row ∈ rows) :
    rows.foldl (keepRow keep) m row.rowid = (keep row.values).or (m row.rowid) := by
  induction rows generalizing m with
  | nil => cases hrow
  | cons row' rows ih =>
    rw [map_cons, nodup_cons] at hnodup
    rw [foldl_cons]
    rcases mem_cons.mp hrow with rfl | hmem
    · rw [foldl_keepRow_of_notMem keep rows _ hnodup.1]
      unfold keepRow
      cases hk : keep row.values with
      | none => rfl
      | some x => exact update_self _ _ _
    · have hne : row.rowid ≠ row'.rowid := by
        intro heq
        exact hnodup.1 (heq ▸ mem_map_of_mem hmem)
      rw [ih hnodup.2 _ hmem, keepRow_of_ne keep m hne]

end

end

theorem trackRow_eq (state : TableState) (row : DecodedRow) : trackRow state row = { state with
      identities := keepRow state.pkValue state.identities row
      records := keepRow state.keptRecord state.records row } := by
  have hrec : (if state.retainRecords then update state.records row.rowid (some row.values)
      else state.records) = keepRow state.keptRecord state.records row := by
    unfold keepRow TableState.keptRecord
    cases state.retainRecords <;> rfl
  rw [trackRow, hrec]
  unfold keepRow
  cases state.pkValue row.values <;> rfl

theorem foldl_trackRow (rows : List DecodedRow) (state : TableState) : rows.foldl trackRow state =
      { state with
        identities := rows.foldl (keepRow state.pkValue) state.identities
        records := rows.foldl (keepRow state.keptRecord) state.records } := by
  induction rows generalizing state with
  | nil => rfl
  | cons row rows ih =>
    rw [foldl_cons, ih, trackRow_eq]
    rfl

/-! ## 6. Small images

512-byte pages for closed statements: a leaf with its cells in the second half, and an interior page
with two children.  Rowids and payload lengths are single bytes. -/

def cellPointers : Nat → List Bytes → Bytes
  | _, [] => []
  | off, cell :: cells => beBytes 2 off ++ cellPointers (off + cell.length) cells

def smallLeaf (rows : List (UInt8 × Bytes)) : Bytes :=
  let cells := rows.map fun row => [UInt8.ofNat row.2.length, row.1] ++ row.2
  let head := [0x0D, 0, 0] ++ beBytes 2 rows.length ++ [0, 0, 0] ++ cellPointers 256 cells
  head ++ replicate (256 - head.length) 0 ++ cells.flatten ++
    replicate (256 - cells.flatten.length) 0

def smallInterior (left right : UInt32) : Bytes :=
  [0x05, 0, 0, 0, 1, 0, 0, 0] ++ beBytes 4 right.toNat ++ [1, 0] ++ replicate 242 0 ++
    beBytes 4 left.toNat ++ [1] ++ replicate 251 0

def pagesOf (pages : List (UInt32 × Bytes)) : PageFetcher := fun p =>
  (pages.find? fun page => page.1 = p).map Prod.snd

theorem mem_of_pagesOf {pages : List (UInt32 × Bytes)} {image : Bytes}
    (h : pagesOf pages p = some image) : (p, image) ∈ pages := by
  obtain ⟨page, hfind, rfl⟩ := map_eq_some_iff.mp h
  obtain rfl : page.1 = p := by simpa using find?_some hfind
  exact mem_of_find?_eq_some hfind

end Ladybug.Sqlite
