import Ladybug.Lance.LanceRelTable
import Mathlib.Data.List.GetD

/-!
# What a scan of a relationship table returns

Every row of the dataset has a bound node, which the batch may hold.  The calls of a scan return the rows
whose bound node it holds, in the order of the dataset, each with the position of its bound node.
-/

namespace Ladybug.Lance

open List Option

/-- A monotone `indptr` for this number of rows. -/
structure ValidIndptr (indptr : List Nat) (numRows : Nat) : Prop where
  head : indptr.head? = some 0
  sorted : indptr.Pairwise (· ≤ ·)
  last : indptr.getLastD 0 = numRows

def IsSource (indptr : List Nat) (n row : Nat) : Prop :=
  n + 1 < indptr.length ∧ indptr.getD n 0 ≤ row ∧ row < indptr.getD (n + 1) 0

instance (indptr : List Nat) (n row : Nat) : Decidable (IsSource indptr n row) :=
  inferInstanceAs (Decidable (_ ∧ _))

section

variable {indptr : List Nat} {numRows : Nat} (h : ValidIndptr indptr numRows)

include h

theorem ValidIndptr.mono {n m : Nat} (hnm : n ≤ m) (hm : m < indptr.length) :
    indptr.getD n 0 ≤ indptr.getD m 0 := by
  rcases Nat.eq_or_lt_of_le hnm with rfl | hlt
  · exact Nat.le_refl _
  · rw [getD_eq_getElem _ _ (Nat.lt_trans hlt hm), getD_eq_getElem _ _ hm]
    exact pairwise_iff_getElem.mp h.sorted n m _ hm hlt

theorem ValidIndptr.length_pos : 0 < indptr.length := by
  cases hnil : indptr with
  | nil =>
    have hhead := h.head
    rw [hnil] at hhead
    cases hhead
  | cons => exact Nat.succ_pos _

theorem ValidIndptr.first : indptr.getD 0 0 = 0 := by
  have hhead := h.head
  rw [head?_eq_getElem?] at hhead
  rw [getD_eq_getElem?_getD, hhead]
  rfl

theorem ValidIndptr.at_last : indptr.getD (indptr.length - 1) 0 = numRows := by
  rw [← h.last, getLastD_eq_getLast?, getLast?_eq_getElem?, getD_eq_getElem?_getD]

theorem ValidIndptr.unique {n m row : Nat} (hn : IsSource indptr n row) (hm : IsSource indptr m row) :
    n = m := by
  by_contra hne
  rcases Nat.lt_or_gt_of_ne hne with hlt | hlt
  · have hle := h.mono (Nat.succ_le_of_lt hlt) (Nat.lt_of_succ_lt hm.1)
    have hrow := Nat.lt_of_lt_of_le hn.2.2 hle
    exact absurd hm.2.1 (Nat.not_le_of_lt hrow)
  · have hle := h.mono (Nat.succ_le_of_lt hlt) (Nat.lt_of_succ_lt hn.1)
    have hrow := Nat.lt_of_lt_of_le hm.2.2 hle
    exact absurd hn.2.1 (Nat.not_le_of_lt hrow)

theorem ValidIndptr.moveSource {row c rest : Nat} (hrow : row < numRows) (hc : c < indptr.length)
    (hle : indptr.getD c 0 ≤ row) (hrest : indptr.length ≤ c + rest) :
    IsSource indptr (moveSource indptr row rest c) row := by
  induction rest generalizing c with
  | zero => omega
  | succ rest ih =>
    unfold Lance.moveSource
    by_cases hnext : c + 1 < indptr.length ∧ indptr.getD (c + 1) 0 ≤ row
    · rw [if_pos hnext]
      exact ih hnext.1 hnext.2 (by omega)
    · rw [if_neg hnext]
      have hinside : c + 1 < indptr.length := by
        -- the last entry is behind every row
        by_contra hlast
        have hend := h.at_last
        rw [show indptr.length - 1 = c by omega] at hend
        omega
      exact ⟨hinside, hle, by
        by_contra hbehind
        exact hnext ⟨hinside, Nat.le_of_not_lt hbehind⟩⟩

end

section

variable {V : Type} (q : RelScan V)

def LanceRelTable.indptr (table : LanceRelTable V) : List Nat :=
  table.indptrDataset.rows.map fun row ↦ table.offset (row (table.indptrDataset.schema.getD 0 ""))

theorem indptrData_csr (hcsr : q.table.layout = .csr) : q.indptrData = q.table.indptr := by
  unfold RelScan.indptrData
  rw [hcsr]
  rw [flatMap_def, ← map_flatten, openRange_flatten, rangeRows_eq _ _ (by decide), drop_zero,
    take_of_length_le]
  · rfl
  · have hlt := q.table.indptrDataset.rows_lt
    omega

def LanceRelTable.Valid (table : LanceRelTable V) : Prop :=
  table.layout = .csr → ValidIndptr table.indptr table.dataset.rows.length

def sourceOf (indptr : List Nat) (row : Nat) : Nat :=
  ((range indptr.length).find? fun n => decide (IsSource indptr n row)).getD 0

def LanceRelTable.ends (table : LanceRelTable V) (i : Nat) (row : String → V) : Nat × Nat :=
  match table.layout with
  | .csr => (sourceOf table.indptr i, table.offset (row (table.column 0)))
  | .flat => (table.offset (row (table.column 0)), table.offset (row (table.column 1)))

theorem ValidIndptr.sourceOf_eq {indptr : List Nat} {numRows n row : Nat}
    (h : ValidIndptr indptr numRows) (hn : IsSource indptr n row) : sourceOf indptr row = n := by
  unfold sourceOf
  cases hfind : (range indptr.length).find? fun n => decide (IsSource indptr n row) with
  | none =>
    have hnone := List.find?_eq_none.mp hfind n (mem_range.mpr (Nat.lt_of_succ_lt hn.1))
    exact absurd (decide_eq_true hn) hnone
  | some m =>
    have hm := of_decide_eq_true (@List.find?_some _ (fun n ↦ decide (IsSource indptr n row)) _ _ hfind)
    exact h.unique hm hn

def RelScan.CursorOk (i csrSrcNodeIdx : Nat) : Prop :=
  q.table.layout = .csr → i < q.table.dataset.rows.length →
    csrSrcNodeIdx < q.table.indptr.length ∧ q.table.indptr.getD csrSrcNodeIdx 0 ≤ i

variable {q}

theorem RelScan.CursorOk.succ {i c : Nat} (h : q.CursorOk i c) : q.CursorOk (i + 1) c := by
  intro hcsr hi
  obtain ⟨hc, hle⟩ := h hcsr (by omega)
  exact ⟨hc, by omega⟩

theorem endpoints_spec (hvalid : q.table.Valid) {i c : Nat} (hc : q.CursorOk i c)
    (hi : i < q.table.dataset.rows.length) (row : String → V) :
    ∃ c', q.endpoints i row c = (c', some (q.table.ends i row)) ∧ q.CursorOk i c' := by
  unfold RelScan.endpoints LanceRelTable.ends
  cases hlayout : q.table.layout with
  | flat =>
    refine ⟨c, rfl, fun hcsr => ?_⟩
    rw [hlayout] at hcsr
    cases hcsr
  | csr =>
    have hindptr := hvalid hlayout
    obtain ⟨hlt, hle⟩ := hc hlayout hi
    have hsource := hindptr.moveSource hi hlt hle (Nat.le_add_left _ c)
    have hsome : q.table.indptr ≠ [] := ne_nil_of_length_pos hindptr.length_pos
    simp only [indptrData_csr q hlayout]
    rw [if_neg hsome, hindptr.sourceOf_eq hsource]
    exact ⟨_, rfl, fun _ _ => ⟨Nat.lt_of_succ_lt hsource.1, hsource.2.1⟩⟩

variable (q)

/-- What is returned for a row, which stands with its global index. -/
def RelScan.tag (entry : (String → V) × Nat) : Option (Nat × List (Cell V)) :=
  let ends := q.table.ends entry.2 entry.1
  (q.boundNodeOffsets.lookup (q.direction.bound ends)).map fun position =>
    (position, q.outputRow (q.direction.nbr ends) entry.2 entry.1)

def RelScan.tagged (rows : List (String → V)) (start : Nat) : List (Nat × List (Cell V)) :=
  (rows.zipIdx start).filterMap q.tag

theorem tagged_cons (row : String → V) (rows : List (String → V)) (start : Nat) :
    q.tagged (row :: rows) start = (q.tag (row, start)).toList ++ q.tagged rows (start + 1) := by
  unfold RelScan.tagged
  rw [zipIdx_cons, filterMap_cons]
  cases q.tag (row, start) <;> rfl

theorem tagged_append (rows rows' : List (String → V)) (start : Nat) :
    q.tagged (rows ++ rows') start = q.tagged rows start ++ q.tagged rows' (start + rows.length) := by
  unfold RelScan.tagged
  rw [zipIdx_append, filterMap_append]

/-- The rows that the calls have not seen. -/
def LanceRelTableScanState.rest (s : LanceRelTableScanState V) : List (String → V) :=
  (s.cachedBatchData.getD []).drop s.currentLocalRowIdx ++ s.reader.flatten

def LanceRelTableScanState.row (s : LanceRelTableScanState V) : Nat :=
  s.currentBatchStartOffset + s.currentLocalRowIdx

def RelScan.toCome (s : LanceRelTableScanState V) : List (Nat × List (Cell V)) :=
  q.tagged s.rest s.row

/-- What holds between calls. -/
structure RelScan.Inv (s : LanceRelTableScanState V) : Prop where
  bound : s.boundNodeOffsets = q.boundNodeOffsets
  inside : s.row + s.rest.length ≤ q.table.dataset.rows.length
  cursor : q.CursorOk s.row s.csrSrcNodeIdx
  batches : ∀ batch ∈ s.reader, batch ≠ []
  seen : s.currentLocalRowIdx ≤ (s.cachedBatchData.getD []).length

def LanceRelTableScanState.UsedUp (s : LanceRelTableScanState V) : Prop :=
  (s.cachedBatchData.getD []).drop s.currentLocalRowIdx = []

structure RelScan.Good (c : Collected V) : Prop where
  active : ∀ active, c.active = some active → q.boundNodeOffsets.lookup active.1 = some active.2
  rows : c.active = none ↔ c.rows = []

def Collected.emitted (c : Collected V) : List (Nat × List (Cell V)) :=
  match c.active with
  | none => []
  | some active => c.rows.map fun row => (active.2, row)

/-- Part of a call: what it collects it takes from what was to come. -/
structure RelScan.Scanned (s : LanceRelTableScanState V) (c : Collected V)
    (s' : LanceRelTableScanState V) (c' : Collected V) : Prop where
  inv : q.Inv s'
  good : q.Good c'
  total : c.emitted ++ q.toCome s = c'.emitted ++ q.toCome s'

variable {q} {s : LanceRelTableScanState V} {c : Collected V}

theorem RelScan.Scanned.trans {s' s'' : LanceRelTableScanState V} {c' c'' : Collected V}
    (h : q.Scanned s c s' c') (h' : q.Scanned s' c' s'' c'') : q.Scanned s c s'' c'' :=
  ⟨h'.inv, h'.good, h.total.trans h'.total⟩

theorem RelScan.Good.start : q.Good ⟨none, []⟩ := by
  refine ⟨?_, Iff.intro (fun _ => rfl) (fun _ => rfl)⟩
  intro active hactive
  cases hactive

theorem RelScan.Good.active_of_full (hc : q.Good c) (hmax : maxRowsPerCall ≤ c.rows.length) :
    c.active ≠ none := by
  intro hnone
  rw [hc.rows.mp hnone] at hmax
  exact Nat.not_succ_le_zero 2047 hmax

theorem RelScan.Good.push (hc : q.Good c) {active : Nat × Nat}
    (hactive : c.active = some active ∨ c.active = none)
    (hlookup : q.boundNodeOffsets.lookup active.1 = some active.2) (row : List (Cell V)) :
    q.Good ⟨some active, c.rows ++ [row]⟩ ∧
      Collected.emitted ⟨some active, c.rows ++ [row]⟩ = c.emitted ++ [(active.2, row)] := by
  constructor
  · refine ⟨?_, ?_⟩
    · intro a ha
      cases ha
      exact hlookup
    · simp
  · cases hactive with
    | inl hsome =>
      unfold Collected.emitted
      rw [hsome]
      simp
    | inr hnone =>
      have hrows := hc.rows.mp hnone
      unfold Collected.emitted
      rw [hnone, hrows]
      rfl

theorem RelScan.Inv.next {s : LanceRelTableScanState V} (hs : q.Inv s) {row : String → V}
    {rows : List (String → V)} (hrows : (s.cachedBatchData.getD []).drop s.currentLocalRowIdx = row :: rows)
    {c' : Nat} (hc' : q.CursorOk s.row c') :
    let next := { s with csrSrcNodeIdx := c', currentLocalRowIdx := s.currentLocalRowIdx + 1 }
    q.Inv next ∧ (next.cachedBatchData.getD []).drop next.currentLocalRowIdx = rows ∧
      q.toCome s = (q.tag (row, s.row)).toList ++ q.toCome next := by
  intro next
  have hlt : s.currentLocalRowIdx < (s.cachedBatchData.getD []).length := by
    have hlength := congrArg length hrows
    rw [length_drop, length_cons] at hlength
    omega
  have hdrop : (next.cachedBatchData.getD []).drop next.currentLocalRowIdx = rows := by
    rw [← drop_drop, hrows]
    rfl
  have hrest : s.rest = row :: next.rest := by
    unfold LanceRelTableScanState.rest
    rw [hrows, hdrop]
    rfl
  have hinside := hs.inside
  rw [hrest, length_cons] at hinside
  refine ⟨⟨hs.bound, ?_, ?_, hs.batches, hlt⟩, hdrop, ?_⟩
  · show s.currentBatchStartOffset + (s.currentLocalRowIdx + 1) + next.rest.length ≤ _
    unfold LanceRelTableScanState.row at hinside
    omega
  · exact hc'.succ
  · unfold RelScan.toCome
    rw [hrest, tagged_cons]
    rfl

theorem RelScan.Inv.fill (hs : q.Inv s) (hused : s.UsedUp) {batch : List (String → V)}
    {reader : List (List (String → V))} (hreader : s.reader = batch :: reader) :
    let filled := { s with
      currentBatchStartOffset := s.currentBatchStartOffset + s.currentLocalRowIdx
      currentLocalRowIdx := 0
      cachedBatchData := some batch
      reader := reader }
    q.Inv filled ∧ q.toCome s = q.toCome filled := by
  have hrest : s.rest = batch ++ reader.flatten := by
    unfold LanceRelTableScanState.rest
    rw [hused, hreader]
    rfl
  refine ⟨⟨hs.bound, ?_, hs.cursor, ?_, Nat.zero_le _⟩, ?_⟩
  · have hinside := hs.inside
    rw [hrest] at hinside
    exact hinside
  · intro b hb
    apply hs.batches
    rw [hreader]
    exact mem_cons_of_mem _ hb
  · unfold RelScan.toCome
    rw [hrest]
    rfl

variable (hvalid : q.table.Valid)

include hvalid

theorem scanRows_spec (rows : List (String → V)) (hs : q.Inv s) (hc : q.Good c)
    (hrows : (s.cachedBatchData.getD []).drop s.currentLocalRowIdx = rows) :
    ∃ s' c' different, q.scanRows s c rows = (s', c', different) ∧ q.Scanned s c s' c' ∧
      s'.reader = s.reader ∧ (different = true → c'.active ≠ none) ∧
      (different = false → s'.UsedUp ∨ maxRowsPerCall ≤ c'.rows.length) := by
  induction rows generalizing s c with
  | nil => exact ⟨s, c, false, rfl, ⟨hs, hc, rfl⟩, rfl, Bool.noConfusion, fun _ => .inl hrows⟩
  | cons row rows ih =>
    unfold RelScan.scanRows
    by_cases hmax : maxRowsPerCall ≤ c.rows.length
    · rw [if_pos hmax]
      exact ⟨s, c, false, rfl, ⟨hs, hc, rfl⟩, rfl, Bool.noConfusion, fun _ => .inr hmax⟩
    rw [if_neg hmax]
    have hlt : s.row < q.table.dataset.rows.length := by
      have hinside := hs.inside
      unfold LanceRelTableScanState.rest at hinside
      rw [hrows] at hinside
      simp only [length_append, length_cons] at hinside
      omega
    obtain ⟨cursor, hends, hcursor⟩ := endpoints_spec hvalid hs.cursor hlt row
    obtain ⟨hnext, hdrop, hcome⟩ := hs.next hrows hcursor
    have hends' : q.endpoints (s.currentBatchStartOffset + s.currentLocalRowIdx) row s.csrSrcNodeIdx
        = (cursor, some (q.table.ends s.row row)) := hends
    have htag : q.tag (row, s.row) = (s.boundNodeOffsets.lookup
        (q.direction.bound (q.table.ends s.row row))).map fun position =>
          (position, q.outputRow (q.direction.nbr (q.table.ends s.row row)) s.row row) := by
      rw [hs.bound]
      rfl
    simp only [hends', bind_some]
    cases hlookup : s.boundNodeOffsets.lookup (q.direction.bound (q.table.ends s.row row)) with
    | none =>
      -- the row has no bound node
      rw [htag, hlookup] at hcome
      obtain ⟨s', c', different, hscan, hscanned, hreader, hdiff, hend⟩ := ih hnext hc hdrop
      refine ⟨s', c', different, hscan, ⟨hscanned.inv, hscanned.good, ?_⟩, hreader, hdiff, hend⟩
      rw [hcome]
      exact hscanned.total
    | some position =>
      rw [htag, hlookup] at hcome
      rw [hs.bound] at hlookup
      -- the row goes to the active node
      have hpush : ∀ active, active.1 = q.direction.bound (q.table.ends s.row row) →
          c.active = some active ∨ c.active = none →
          q.boundNodeOffsets.lookup active.1 = some active.2 →
          ∃ s' c' different, q.scanRows
            { s with csrSrcNodeIdx := cursor, currentLocalRowIdx := s.currentLocalRowIdx + 1 }
            ⟨some active, c.rows ++
              [q.outputRow (q.direction.nbr (q.table.ends s.row row)) s.row row]⟩ rows
              = (s', c', different) ∧ q.Scanned s c s' c' ∧
            s'.reader = s.reader ∧ (different = true → c'.active ≠ none) ∧
            (different = false → s'.UsedUp ∨ maxRowsPerCall ≤ c'.rows.length) := by
        intro active hoffset hactive hfound
        obtain ⟨hgood, hemitted⟩ := hc.push hactive hfound
          (q.outputRow (q.direction.nbr (q.table.ends s.row row)) s.row row)
        obtain ⟨s', c', different, hscan, hscanned, hreader, hdiff, hend⟩ := ih hnext hgood hdrop
        refine ⟨s', c', different, hscan, ⟨hscanned.inv, hscanned.good, ?_⟩, hreader, hdiff, hend⟩
        rw [hoffset, hlookup] at hfound
        rw [← hscanned.total, hemitted, hcome, some.inj hfound, append_assoc]
        rfl
      cases hactive : c.active with
      | none => exact hpush (_, position) rfl (.inr hactive) hlookup
      | some active =>
        by_cases hsame : q.direction.bound (q.table.ends s.row row) = active.1
        · simp only [map_some, if_pos hsame]
          exact hpush active hsame.symm (.inl hactive) (hc.active active hactive)
        · -- a different bound node, whose row is left for the next call
          simp only [map_some, if_neg hsame]
          refine ⟨_, c, true, rfl, ⟨⟨hs.bound, hs.inside, hcursor, hs.batches, hs.seen⟩, hc, rfl⟩,
            rfl, ?_, Bool.noConfusion⟩
          intro _ hnone
          rw [hactive] at hnone
          cases hnone

theorem fillAndScan_spec (reader : List (List (String → V))) (hs : q.Inv s) (hc : q.Good c)
    (hreader : s.reader = reader) (hused : s.UsedUp ∨ maxRowsPerCall ≤ c.rows.length) :
    ∃ s' c', q.fillAndScan s c reader = (s', c') ∧ q.Scanned s c s' c' ∧
      (c'.active = none → q.toCome s' = []) := by
  induction reader generalizing s c with
  | nil =>
    unfold RelScan.fillAndScan
    by_cases hmax : maxRowsPerCall ≤ c.rows.length
    · rw [if_pos hmax]
      have hsame : { s with reader := [] } = s := by
        rw [← hreader]
      rw [hsame]
      exact ⟨s, c, rfl, ⟨hs, hc, rfl⟩, fun hnone => absurd hnone (hc.active_of_full hmax)⟩
    rw [if_neg hmax]
    have hused := hused.resolve_right hmax
    have hrest : s.rest = [] := by
      unfold LanceRelTableScanState.rest
      rw [hused, hreader]
      rfl
    have hcome : q.toCome s = [] := by
      unfold RelScan.toCome
      rw [hrest]
      rfl
    refine ⟨_, c, rfl, ⟨⟨hs.bound, ?_, ?_, ?_, Nat.zero_le _⟩, hc, ?_⟩, fun _ => rfl⟩
    · exact Nat.le_trans (Nat.add_le_add_left (Nat.zero_le _) _) hs.inside
    · exact hs.cursor
    · intro batch hbatch
      cases hbatch
    · rw [hcome]
      rfl
  | cons batch reader ih =>
    unfold RelScan.fillAndScan
    by_cases hmax : maxRowsPerCall ≤ c.rows.length
    · rw [if_pos hmax]
      have hsame : { s with reader := batch :: reader } = s := by
        rw [← hreader]
      rw [hsame]
      exact ⟨s, c, rfl, ⟨hs, hc, rfl⟩, fun hnone => absurd hnone (hc.active_of_full hmax)⟩
    have hused := hused.resolve_right hmax
    have hbatch : batch ≠ [] := by
      apply hs.batches
      rw [hreader]
      exact mem_cons_self
    rw [if_neg hmax]
    simp only [if_neg hbatch]
    obtain ⟨hfilled, hcome⟩ := hs.fill hused hreader
    obtain ⟨s₁, c₁, different, hscan, hscanned, hreader₁, hdiff, hend⟩ :=
      scanRows_spec hvalid batch hfilled hc rfl
    have hhere : q.Scanned s c s₁ c₁ := by
      refine ⟨hscanned.inv, hscanned.good, ?_⟩
      rw [hcome]
      exact hscanned.total
    simp only [hscan]
    cases different with
    | true => exact ⟨s₁, c₁, rfl, hhere, fun hnone => absurd hnone (hdiff rfl)⟩
    | false =>
      obtain ⟨s', c', hfill, hrest, hnone⟩ := ih hscanned.inv hscanned.good hreader₁ (hend rfl)
      exact ⟨s', c', hfill, hhere.trans hrest, hnone⟩

theorem scanInternal_spec (hs : q.Inv s) : ∃ s' result, q.scanInternal s = (s', result) ∧ q.Inv s' ∧
      (result = none → q.toCome s = []) ∧
      ∀ position rows, result = some (position, rows) → rows ≠ [] ∧
        q.toCome s = rows.map (fun row => (position, row)) ++ q.toCome s' := by
  unfold RelScan.scanInternal
  by_cases hbound : s.boundNodeOffsets = []
  · rw [if_pos hbound]
    refine ⟨s, none, rfl, hs, fun _ => ?_, by intro _ _ h; cases h⟩
    apply filterMap_eq_nil_iff.mpr
    intro entry _
    unfold RelScan.tag
    rw [← hs.bound, hbound]
    rfl
  rw [if_neg hbound]
  -- what the loops of a call come to
  have hdone : ∀ s' c', q.Scanned s ⟨none, []⟩ s' c' → (c'.active = none → q.toCome s' = []) →
      ∃ result, c'.active.map (fun active => (active.2, c'.rows)) = result ∧ q.Inv s' ∧
      (result = none → q.toCome s = []) ∧
      ∀ position rows, result = some (position, rows) → rows ≠ [] ∧
        q.toCome s = rows.map (fun row => (position, row)) ++ q.toCome s' := by
    intro s' c' hscanned hnone
    have htotal : q.toCome s = c'.emitted ++ q.toCome s' := hscanned.total
    refine ⟨_, rfl, hscanned.inv, ?_, ?_⟩
    · intro hresult
      have hactive := map_eq_none_iff.mp hresult
      rw [htotal, hnone hactive]
      unfold Collected.emitted
      rw [hactive]
      rfl
    · intro position rows hresult
      obtain ⟨active, hactive, hpair⟩ := map_eq_some_iff.mp hresult
      cases hpair
      constructor
      · intro hrows
        rw [hscanned.good.rows.mpr hrows] at hactive
        cases hactive
      · rw [htotal]
        unfold Collected.emitted
        rw [hactive]
  have hfill : s.UsedUp → ∃ s' c', q.fillAndScan s ⟨none, []⟩ s.reader = (s', c') ∧
      q.Scanned s ⟨none, []⟩ s' c' ∧ (c'.active = none → q.toCome s' = []) := fun hused =>
    fillAndScan_spec hvalid s.reader hs .start rfl (.inl hused)
  cases hcached : s.cachedBatchData with
  | none =>
    obtain ⟨s', c', heq, hscanned, hnone⟩ := hfill (by
      unfold LanceRelTableScanState.UsedUp
      rw [hcached]
      exact drop_nil)
    obtain ⟨result, hresult, hrest⟩ := hdone s' c' hscanned hnone
    simp only [heq]
    exact ⟨s', result, Prod.ext rfl hresult, hrest⟩
  | some batch =>
    by_cases hend : s.currentLocalRowIdx = batch.length
    · obtain ⟨s', c', heq, hscanned, hnone⟩ := hfill (by
        unfold LanceRelTableScanState.UsedUp
        rw [hcached, hend]
        exact drop_length)
      obtain ⟨result, hresult, hrest⟩ := hdone s' c' hscanned hnone
      simp only [if_pos hend, heq]
      exact ⟨s', result, Prod.ext rfl hresult, hrest⟩
    · obtain ⟨s₁, c₁, different, hscan, hscanned, _, hdiff, hused⟩ :=
        scanRows_spec hvalid (batch.drop s.currentLocalRowIdx) hs .start (by rw [hcached]; rfl)
      simp only [if_neg hend, hscan]
      cases different with
      | true =>
        obtain ⟨result, hresult, hrest⟩ :=
          hdone s₁ c₁ hscanned fun hnone => absurd hnone (hdiff rfl)
        exact ⟨s₁, result, Prod.ext rfl hresult, hrest⟩
      | false =>
        obtain ⟨s', c', heq, hscanned', hnone⟩ :=
          fillAndScan_spec hvalid s₁.reader hscanned.inv hscanned.good rfl (hused rfl)
        obtain ⟨result, hresult, hrest⟩ := hdone s' c' (hscanned.trans hscanned') hnone
        simp only [heq, Bool.false_eq_true, if_false]
        exact ⟨s', result, Prod.ext rfl hresult, hrest⟩

theorem emits_toCome (hs : q.Inv s) : q.Emits s (q.toCome s) := by
  induction hn : (q.toCome s).length using Nat.strongRecOn generalizing s with
  | ind n ih =>
    obtain ⟨s', result, hscan, hinv, hnone, hsome⟩ := scanInternal_spec hvalid hs
    cases result with
    | none =>
      rw [hnone rfl]
      exact .done hscan
    | some returned =>
      obtain ⟨hrows, hcome⟩ := hsome returned.1 returned.2 rfl
      have hpos : 0 < returned.2.length := length_pos_of_ne_nil hrows
      have hless : (q.toCome s').length < n := by
        rw [← hn, hcome, length_append, length_map]
        omega
      rw [hcome]
      exact .more hscan (ih _ hless hinv rfl)

theorem RelScan.Emits.eq_toCome {emitted : List (Nat × List (Cell V))} (h : q.Emits s emitted)
    (hs : q.Inv s) : emitted = q.toCome s := by
  induction h with
  | @done s s' hscan =>
    obtain ⟨s₁, result, hscan₁, -, hnone, -⟩ := scanInternal_spec hvalid hs
    rw [hscan] at hscan₁
    cases hscan₁
    exact (hnone rfl).symm
  | @more s s' position rows emitted hscan _ ih =>
    obtain ⟨s₁, result, hscan₁, hinv, -, hsome⟩ := scanInternal_spec hvalid hs
    rw [hscan] at hscan₁
    cases hscan₁
    rw [(hsome position rows rfl).2, ih hinv]

end

end Ladybug.Lance
