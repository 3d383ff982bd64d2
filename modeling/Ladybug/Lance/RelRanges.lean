import Ladybug.Lance.RelScanCorrect

/-!
# Where a scan of a relationship table begins

A scan looks up the bound nodes of its batch, and begins at the first row that can hold an edge of one.
-/

namespace Ladybug.Lance

open List

section

variable {V : Type} (q : RelScan V)

theorem lookup_insertNew (bound : List (Nat × Nat)) (offset position n : Nat) :
    (insertNew bound offset position).lookup n =
      (bound.lookup n).or (if offset = n then some position else none) := by
  unfold insertNew
  by_cases hsome : (bound.lookup offset).isSome
  · rw [if_pos hsome]
    by_cases heq : offset = n
    · rw [← heq, Option.or_of_isSome hsome]
    · rw [if_neg heq, Option.or_none]
  · rw [if_neg hsome, lookup_append]
    by_cases heq : offset = n
    · rw [heq, lookup_cons_self, if_pos rfl]
    · have hbeq : (n == offset) = false := beq_false_of_ne (Ne.symm heq)
      rw [if_neg heq, lookup_cons, hbeq]
      rfl

theorem lookup_foldl_insertNew (nodeID : Nat → Nat) (n : Nat) (selected : List Nat)
    (bound : List (Nat × Nat)) :
    (selected.foldl (fun bound i => insertNew bound (nodeID i) i) bound).lookup n =
      (bound.lookup n).or (selected.find? fun i => nodeID i = n) := by
  induction selected generalizing bound with
  | nil => exact Option.or_none.symm
  | cons i selected ih =>
    rw [foldl_cons, ih, lookup_insertNew, Option.or_assoc, find?_cons]
    by_cases heq : nodeID i = n
    · rw [if_pos heq, decide_eq_true heq]
      rfl
    · rw [if_neg heq, decide_eq_false heq]
      rfl

theorem boundNodeOffsets_lookup (n : Nat) :
    q.boundNodeOffsets.lookup n = q.selected.find? fun i => q.nodeID i = n :=
  lookup_foldl_insertNew q.nodeID n q.selected []

variable {q}

theorem mem_of_boundNodeOffsets {n i : Nat} (h : q.boundNodeOffsets.lookup n = some i) :
    i ∈ q.selected ∧ q.nodeID i = n := by
  rw [boundNodeOffsets_lookup] at h
  exact ⟨mem_of_find?_eq_some h,
    of_decide_eq_true (@List.find?_some _ (fun i => decide (q.nodeID i = n)) _ _ h)⟩

theorem boundNodeOffsets_lt {entry : Nat × Nat} (h : entry ∈ q.boundNodeOffsets) :
    entry.1 < 2 ^ 64 - 1 := by
  cases hlookup : q.boundNodeOffsets.lookup entry.1 with
  | none =>
    have hne := lookup_eq_none_iff.mp hlookup entry h
    exact absurd rfl (bne_iff_ne.mp hne)
  | some i =>
    obtain ⟨hi, hnode⟩ := mem_of_boundNodeOffsets hlookup
    rw [← hnode]
    exact q.nodeID_lt i hi

theorem exists_mem_of_lookup {bound : List (Nat × Nat)} {n i : Nat} (h : bound.lookup n = some i) :
    ∃ entry ∈ bound, entry.1 = n := by
  obtain ⟨before, after, heq, -⟩ := lookup_eq_some_iff.mp h
  refine ⟨(n, i), ?_, rfl⟩
  rw [heq]
  exact mem_append_right _ mem_cons_self

theorem foldl_min_le (bound : List (Nat × Nat)) (m : Nat) :
    bound.foldl (fun m entry => min m entry.1) m ≤ m ∧
      ∀ entry ∈ bound, bound.foldl (fun m entry => min m entry.1) m ≤ entry.1 := by
  induction bound generalizing m with
  | nil => exact ⟨Nat.le_refl m, by intro _ h; cases h⟩
  | cons first bound ih =>
    obtain ⟨hm, hentries⟩ := ih (min m first.1)
    refine ⟨Nat.le_trans hm (Nat.min_le_left _ _), ?_⟩
    intro entry hentry
    cases hentry with
    | head => exact Nat.le_trans hm (Nat.min_le_right _ _)
    | tail _ hentry => exact hentries entry hentry

theorem le_foldl_max (bound : List (Nat × Nat)) (m : Nat) :
    m ≤ bound.foldl (fun m entry => max m entry.1) m ∧
      ∀ entry ∈ bound, entry.1 ≤ bound.foldl (fun m entry => max m entry.1) m := by
  induction bound generalizing m with
  | nil => exact ⟨Nat.le_refl m, by intro _ h; cases h⟩
  | cons first bound ih =>
    obtain ⟨hm, hentries⟩ := ih (max m first.1)
    refine ⟨Nat.le_trans (Nat.le_max_left _ _) hm, ?_⟩
    intro entry hentry
    cases hentry with
    | head => exact Nat.le_trans (Nat.le_max_right _ _) hm
    | tail _ hentry => exact hentries entry hentry

theorem foldl_max_lt {bound : List (Nat × Nat)} {m limit : Nat} (hm : m < limit)
    (h : ∀ entry ∈ bound, entry.1 < limit) :
    bound.foldl (fun m entry => max m entry.1) m < limit := by
  induction bound generalizing m with
  | nil => exact hm
  | cons first bound ih =>
    apply ih (Nat.max_lt.mpr ⟨hm, h first mem_cons_self⟩)
    exact fun entry hentry => h entry (mem_cons_of_mem _ hentry)

theorem ValidIndptr.isSource {indptr : List Nat} {numRows row : Nat} (h : ValidIndptr indptr numRows)
    (hrow : row < numRows) : IsSource indptr (sourceOf indptr row) row := by
  have hsource := h.moveSource (c := 0) hrow h.length_pos
    (by rw [h.first]; exact Nat.zero_le row) (Nat.le_add_left _ 0)
  rw [h.sourceOf_eq hsource]
  exact hsource

/-- No row outside of the range has a bound node in the batch. -/
structure RelScan.Covers (q : RelScan V) (start numRows : Nat) : Prop where
  start_le : start ≤ q.table.dataset.rows.length
  numRows_lt : numRows < 2 ^ 64
  outside : ∀ i row, i < q.table.dataset.rows.length → i < start ∨ start + numRows ≤ i →
    q.tag (row, i) = none

theorem covers_all : q.Covers 0 (2 ^ 64 - 1) := by
  refine ⟨Nat.zero_le _, by decide, ?_⟩
  have hlt := q.table.dataset.rows_lt
  omega

theorem range_covers (hvalid : q.table.Valid) : q.Covers q.range.1 q.range.2 := by
  unfold RelScan.range
  by_cases hlimit : q.table.layout = .csr ∧ q.direction = .fwd ∧ q.indptrData ≠ [] ∧
      q.boundNodeOffsets ≠ []
  · simp only [if_pos hlimit]
    obtain ⟨hcsr, hfwd, -, hsome⟩ := hlimit
    rw [indptrData_csr q hcsr]
    have h := hvalid hcsr
    obtain ⟨first, hfirst⟩ := exists_mem_of_ne_nil _ hsome
    have hmin := (foldl_min_le q.boundNodeOffsets (2 ^ 64 - 1)).2
    have hmax := (le_foldl_max q.boundNodeOffsets 0).2
    have hmaxlt := foldl_max_lt (m := 0) (by decide) fun entry hentry =>
      boundNodeOffsets_lt (q := q) hentry
    have hminmax := Nat.le_trans (hmin first hfirst) (hmax first hfirst)
    generalize q.boundNodeOffsets.foldl (fun m entry => min m entry.1) (2 ^ 64 - 1) = minNode at *
    generalize q.boundNodeOffsets.foldl (fun m entry => max m entry.1) 0 = maxNode at *
    rw [Nat.mod_eq_of_lt (show minNode + 1 < 2 ^ 64 by omega),
      Nat.mod_eq_of_lt (show maxNode + 1 < 2 ^ 64 by omega)]
    by_cases hinside : minNode + 1 < q.table.indptr.length
    · rw [if_pos hinside]
      have hendIdx : min (maxNode + 1) (q.table.indptr.length - 1) < q.table.indptr.length := by omega
      have hbegin := h.mono
        (show minNode ≤ min (maxNode + 1) (q.table.indptr.length - 1) by omega) hendIdx
      have hend := h.mono (Nat.min_le_right (maxNode + 1) (q.table.indptr.length - 1)) (by omega)
      rw [h.at_last] at hend
      have hrows := q.table.dataset.rows_lt
      refine ⟨by omega, Nat.mod_lt _ (by decide), ?_⟩
      intro i row hi hout
      cases hlookup : q.boundNodeOffsets.lookup (q.direction.bound (q.table.ends i row)) with
      | none =>
        show Option.map _ (q.boundNodeOffsets.lookup (q.direction.bound (q.table.ends i row))) = none
        rw [hlookup]
        rfl
      | some position =>
        -- the source of the row is between the least and the greatest bound node
        obtain ⟨entry, hentry, hbound⟩ := exists_mem_of_lookup hlookup
        have hsourceOf : q.direction.bound (q.table.ends i row) = sourceOf q.table.indptr i := by
          unfold LanceRelTable.ends RelDataDirection.bound
          rw [hcsr, if_pos hfwd]
        have hsource := h.isSource hi
        rw [← hsourceOf, ← hbound] at hsource
        have hfrom := h.mono (hmin entry hentry) (Nat.lt_of_succ_lt hsource.1)
        have hto := h.mono (show entry.1 + 1 ≤ min (maxNode + 1) (q.table.indptr.length - 1) by
          have hle := hmax entry hentry
          have hlast := hsource.1
          omega) hendIdx
        have hrow := hsource.2
        omega
    · rw [if_neg hinside]
      exact covers_all
  · rw [if_neg hlimit]
    exact covers_all

theorem tagged_eq_nil {rows : List (String → V)} {start : Nat}
    (h : ∀ i row, start ≤ i → i < start + rows.length → q.tag (row, i) = none) :
    q.tagged rows start = [] := by
  apply filterMap_eq_nil_iff.mpr
  intro entry hentry
  have hindex := mem_zipIdx hentry
  exact h entry.2 entry.1 hindex.1 hindex.2.1

theorem RelScan.Covers.tagged {start numRows : Nat} (h : q.Covers start numRows) :
    q.tagged (rangeRows q.table.dataset start numRows) start = q.tagged q.table.dataset.rows 0 := by
  rw [rangeRows_eq _ _ h.numRows_lt]
  have hlength : (q.table.dataset.rows.take start).length = start := by
    rw [length_take, Nat.min_eq_left h.start_le]
  have hbefore : q.tagged (q.table.dataset.rows.take start) 0 = [] := by
    apply tagged_eq_nil
    intro i row _ hi
    have hle := h.start_le
    exact h.outside i row (by omega) (.inl (by omega))
  have hbehind : q.tagged ((q.table.dataset.rows.drop start).drop numRows)
      (start + ((q.table.dataset.rows.drop start).take numRows).length) = [] := by
    apply tagged_eq_nil
    intro i row hfrom hi
    simp only [length_take, length_drop] at hfrom hi
    exact h.outside i row (by omega) (.inr (by omega))
  have hall : q.table.dataset.rows = q.table.dataset.rows.take start ++
      ((q.table.dataset.rows.drop start).take numRows ++
        (q.table.dataset.rows.drop start).drop numRows) := by
    rw [take_append_drop, take_append_drop]
  calc q.tagged ((q.table.dataset.rows.drop start).take numRows) start
    _ = q.tagged (q.table.dataset.rows.take start ++
        ((q.table.dataset.rows.drop start).take numRows ++
          (q.table.dataset.rows.drop start).drop numRows)) 0 := by
        rw [tagged_append, tagged_append, hbefore, hlength, Nat.zero_add, hbehind]
        simp
    _ = q.tagged q.table.dataset.rows 0 := by rw [← hall]

theorem initScanState_inv (hvalid : q.table.Valid) (scan : Nat) (s : LanceRelTableScanState V) :
    q.Inv (q.initScanState scan s) ∧
      q.toCome (q.initScanState scan s) = q.tagged q.table.dataset.rows 0 := by
  have hcovers := range_covers hvalid
  have hcached : (q.initScanState scan s).cachedBatchData = none :=
    q.base.reset_cached s.toColumnarRelTableScanState q.boundNodeOffsets
  have hrow : (q.initScanState scan s).row = q.range.1 := rfl
  have hrest : (q.initScanState scan s).rest = rangeRows q.table.dataset q.range.1 q.range.2 := by
    unfold LanceRelTableScanState.rest
    rw [hcached]
    exact openRange_flatten q.table.dataset q.slicing scan _ _
  refine ⟨⟨?_, ?_, ?_, ?_, Nat.zero_le _⟩, ?_⟩
  · exact q.base.reset_bound s.toColumnarRelTableScanState q.boundNodeOffsets
  · have hstart := hcovers.start_le
    rw [hrow, hrest, rangeRows_eq _ _ hcovers.numRows_lt, length_take, length_drop]
    omega
  · intro hcsr hi
    have h := hvalid hcsr
    have hsome : q.indptrData ≠ [] := by
      rw [indptrData_csr q hcsr]
      exact ne_nil_of_length_pos h.length_pos
    have hlast : q.range.1 < q.indptrData.getLastD 0 := by
      rw [indptrData_csr q hcsr, h.last]
      exact hi
    have hcursor : (q.initScanState scan s).csrSrcNodeIdx =
        q.base.findSourceNodeForRowInternal q.range.1 q.indptrData := if_pos ⟨hcsr, hsome, hlast⟩
    rw [hcursor, hrow, indptrData_csr q hcsr]
    exact q.base.find_source _ _ h.head h.sorted (by rw [h.last]; exact hi)
  · intro batch hbatch
    exact (q.slicing.slice _ scan _ batch hbatch).1
  · unfold RelScan.toCome
    rw [hrest, hrow, hcovers.tagged]

end

end Ladybug.Lance
