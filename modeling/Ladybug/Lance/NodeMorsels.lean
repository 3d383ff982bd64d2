import Ladybug.Base.KeyedMaps
import Ladybug.Lance.LanceNodeTable
import Mathlib.Data.List.Sort

/-!
# What the threads of a node scan emit

At every time the rows that have been emitted, those that the threads still have to read and those of the
morsels that nobody has pulled are together the rows of all morsels.  The morsels end at row `2 ^ 25`.
-/

namespace Ladybug.Lance

open List

section

variable {V : Type} (q : NodeScan V)

/-- The rows that the mask keeps, the first of them being at the given offset. -/
def maskedRows (start : Nat) (rows : List (String → V)) : List (Nat × (String → V)) :=
  (rows.zipIdx start).filterMap fun r => if q.semiMask r.2 then some (r.2, r.1) else none

theorem maskedRows_append (start : Nat) (xs ys : List (String → V)) :
    maskedRows q start (xs ++ ys) = maskedRows q start xs ++ maskedRows q (start + xs.length) ys := by
  unfold maskedRows
  rw [zipIdx_append, filterMap_append]

theorem mem_maskedRows {start : Nat} {rows : List (String → V)} {r : Nat × (String → V)} :
    r ∈ maskedRows q start rows ↔
      q.semiMask r.1 = true ∧ start ≤ r.1 ∧ rows[r.1 - start]? = some r.2 := by
  unfold maskedRows
  rw [mem_filterMap]
  constructor
  · rintro ⟨⟨row, i⟩, hin, hr⟩
    obtain ⟨hle, hrow⟩ := mk_mem_zipIdx_iff_le_and_getElem?_sub.mp hin
    split at hr
    next hmask =>
      cases hr
      exact ⟨hmask, hle, hrow⟩
    · cases hr
  · rintro ⟨hmask, hle, hrow⟩
    exact ⟨(r.2, r.1), mk_mem_zipIdx_iff_le_and_getElem?_sub.mpr ⟨hle, hrow⟩, if_pos hmask⟩

theorem maskedRows_nodup (start : Nat) (rows : List (String → V)) :
    ((maskedRows q start rows).map Prod.fst).Nodup := by
  have hsub : Sublist ((maskedRows q start rows).map Prod.fst) ((rows.zipIdx start).map Prod.snd) := by
    apply filterMap_keys_sublist
    intro r r' hr
    split at hr
    · cases hr
      rfl
    · cases hr
  apply Nodup.sublist hsub
  rw [zipIdx_map_snd]
  exact nodup_range'

theorem applySemiMaskFilter_eq (start rowsRead : Nat) : q.applySemiMaskFilter start rowsRead =
    (range rowsRead).filter fun i => q.semiMask (start + i) := by
  apply (q.applySemiMaskFilter_lt start rowsRead).eq_of_mem_iff (pairwise_lt_range.filter _)
  intro i
  rw [q.mem_applySemiMaskFilter, mem_filter, mem_range]

theorem selectedRows_eq (start : Nat) (batch : List (String → V)) :
    selectedRows q start batch = maskedRows q start batch := by
  unfold selectedRows maskedRows
  rw [applySemiMaskFilter_eq, filterMap_filter]
  induction batch generalizing start with
  | nil => rfl
  | cons row batch ih =>
    have htail := ih (start + 1)
    have hshift : (fun x => if q.semiMask (start + x) = true then
          Option.map (fun row => (start + x, row)) (row :: batch)[x]? else none) ∘ Nat.succ =
        fun x => if q.semiMask (start + 1 + x) = true then
          Option.map (fun row => (start + 1 + x, row)) batch[x]? else none := by
      funext x
      show (if q.semiMask (start + (x + 1)) = true then
        Option.map (fun row => (start + (x + 1), row)) batch[x]? else none) = _
      rw [show start + (x + 1) = start + 1 + x by omega]
    rw [length_cons, range_succ_eq_map, filterMap_cons, filterMap_map,
      zipIdx_cons, filterMap_cons, ← htail, hshift]
    rfl

end

section

variable {V : Type} (q : NodeScan V)

def morselRows (m : Nat) : List (Nat × (String → V)) :=
  maskedRows q (morselStart m)
    (rangeRows q.dataset (morselStart m) (morselLimit q.dataset.rows.length m))

theorem morselRows_eq (m : Nat) : morselRows q m =
    maskedRows q (morselStart m) ((q.dataset.rows.drop (morselStart m)).take morselTargetRows) := by
  have hrows := q.dataset.rows_lt
  have hlimit : morselLimit q.dataset.rows.length m =
      min morselTargetRows (q.dataset.rows.length - morselStart m) := by
    unfold morselLimit
    split
    · rfl
    · rw [Nat.sub_eq_zero_of_le (by omega), Nat.min_zero]
  unfold morselRows
  rw [rangeRows_eq q.dataset _ (by rw [hlimit]; omega), hlimit, ← length_drop, ← take_eq_take_min]

theorem morsels_front (count : Nat) : (range count).flatMap (morselRows q) =
    maskedRows q 0 (q.dataset.rows.take (morselStart count)) := by
  induction count with
  | zero =>
    rfl
  | succ m ih =>
    have hnext : morselStart (m + 1) = morselStart m + morselTargetRows := Nat.succ_mul _ _
    rw [range_succ, flatMap_append, ih, flatMap_singleton, hnext, take_add,
      maskedRows_append, morselRows_eq, Nat.zero_add]
    congr 1
    -- behind the last row there is nothing
    by_cases hle : morselStart m ≤ q.dataset.rows.length
    · rw [length_take, Nat.min_eq_left hle]
    · rw [drop_of_length_le (by omega), take_nil]
      rfl

theorem morsels_eq : (range (getNumBatches q.dataset.rows.length)).flatMap (morselRows q) =
    maskedRows q 0 (q.dataset.rows.take (2 ^ 25)) := by
  rw [morsels_front]
  unfold getNumBatches morselStart morselTargetRows maxMorsels
  split
  next hzero =>
    rw [length_eq_zero_iff.mp hzero, take_nil, take_nil]
  next =>
    by_cases hle : q.dataset.rows.length ≤ 2 ^ 25
    · rw [take_of_length_le (by omega), take_of_length_le hle]
    · rw [Nat.min_eq_right (by omega), show 4096 * 8192 = 2 ^ 25 by decide]

end

section

variable {V : Type} {q : NodeScan V}

/-- What a thread still has to read of its morsel. -/
def LanceNodeTableScanState.pending (q : NodeScan V) (st : LanceNodeTableScanState V) :
    List (Nat × (String → V)) :=
  if st.scanCompleted then [] else maskedRows q (st.morselStart + st.morselConsumed) st.reader.flatten

def SharedState.unpulled (q : NodeScan V) (s : SharedState) : List (Nat × (String → V)) :=
  (range' s.currentMorselIdx (s.numMorsels - s.currentMorselIdx)).flatMap (morselRows q)

theorem scanInternal_pending (start consumed : Nat) (reader : List (List (String → V))) :
    maskedRows q (start + consumed) reader.flatten =
      (scanInternal q start consumed reader).1 ++ (scanInternal q start consumed reader).2.pending q := by
  induction reader generalizing consumed with
  | nil => rfl
  | cons batch reader ih =>
    have hbatch := selectedRows_eq q (start + consumed) batch
    rw [flatten_cons, maskedRows_append, Nat.add_assoc]
    unfold scanInternal
    by_cases hnil : selectedRows q (start + consumed) batch = []
    · simp only [if_pos hnil]
      rw [← hbatch, hnil, nil_append, ih]
    · simp only [if_neg hnil]
      rw [hbatch]
      rfl

theorem getNextMorsel_unpulled {s s' : SharedState} {m : Nat} (h : s.getNextMorsel = some (m, s')) :
    s.unpulled q = morselRows q m ++ s'.unpulled q ∧
      (s.currentMorselIdx ≤ s.numMorsels → s'.currentMorselIdx ≤ s'.numMorsels) := by
  unfold SharedState.getNextMorsel at h
  split at h
  next hlt =>
    cases h
    constructor
    · unfold SharedState.unpulled
      rw [show s.numMorsels - s.currentMorselIdx = s.numMorsels - (s.currentMorselIdx + 1) + 1 by omega,
        range'_succ, flatMap_cons]
    · exact fun _ => hlt
  · cases h

variable {i threads : Nat} {r : ScanRun V}

theorem flatMap_set_perm {α β : Type} (f : α → List β) {xs : List α} {x : α} (hx : xs[i]? = some x)
    (y : α) : ((xs.set i y).flatMap f ++ f x).Perm (xs.flatMap f ++ f y) := by
  induction xs generalizing i with
  | nil => cases hx
  | cons a xs ih =>
    cases i with
    | zero =>
      cases hx
      rw [set_cons_zero, flatMap_cons, flatMap_cons]
      -- the two ends change places
      apply perm_append_comm.trans
      rw [append_assoc]
      exact perm_append_comm.append_left _
    | succ i =>
      rw [set_cons_succ, flatMap_cons, flatMap_cons, append_assoc, append_assoc]
      exact (ih hx).append_left _

structure Inv (q : NodeScan V) (r : ScanRun V) : Prop where
  numMorsels : r.shared.numMorsels = getNumBatches q.dataset.rows.length
  le : r.shared.currentMorselIdx ≤ r.shared.numMorsels
  rows : (r.emitted ++ ((r.threads.flatMap fun st => st.pending q) ++ r.shared.unpulled q).map
    q.output).Perm ((maskedRows q 0 (q.dataset.rows.take (2 ^ 25))).map q.output)

theorem Inv.start (threads : Nat) : Inv q (q.start threads) where
  numMorsels := rfl
  le := Nat.zero_le _
  rows := by
    have hpending : ((replicate threads (.created : LanceNodeTableScanState V)).flatMap fun st ↦
        st.pending q) = [] := by
      rw [flatMap_eq_nil_iff]
      intro st hst
      rw [eq_of_mem_replicate hst]
      rfl
    have hunpulled : (q.start threads).shared.unpulled q =
        (range (getNumBatches q.dataset.rows.length)).flatMap (morselRows q) := by
      rw [range_eq_range']
      rfl
    show ([] ++ (((replicate threads (.created : LanceNodeTableScanState V)).flatMap
      fun st : LanceNodeTableScanState V => st.pending q) ++ _).map q.output).Perm _
    rw [hpending, hunpulled, morsels_eq, nil_append, nil_append]

theorem Inv.replace (h : Inv q r) {st : LanceNodeTableScanState V} (hst : r.threads[i]? = some st)
    (st' : LanceNodeTableScanState V) (selected : List (Nat × (String → V))) {shared : SharedState}
    (hshared : shared.numMorsels = r.shared.numMorsels ∧ shared.currentMorselIdx ≤ shared.numMorsels)
    (hrows : st.pending q ++ r.shared.unpulled q = selected ++ st'.pending q ++ shared.unpulled q) :
    Inv q ⟨shared, r.threads.set i st', r.emitted ++ selected.map q.output⟩ where
  numMorsels := hshared.1.trans h.numMorsels
  le := hshared.2
  rows := by
    have hset := flatMap_set_perm (fun st : LanceNodeTableScanState V => st.pending q) hst st'
    refine Perm.trans ?_ h.rows
    rw [append_assoc, ← map_append]
    apply Perm.append_left
    apply Perm.map
    -- the part of the thread is taken out on both sides
    apply (perm_append_right_iff (st.pending q)).mp
    have hleft : (selected ++ (((r.threads.set i st').flatMap fun st => st.pending q) ++
        shared.unpulled q) ++ st.pending q).Perm
        (((r.threads.set i st').flatMap fun st => st.pending q) ++ st.pending q ++
          (selected ++ shared.unpulled q)) := by
      rw [append_assoc, append_assoc, append_assoc]
      apply perm_append_comm_assoc _ _ _ |>.trans
      apply Perm.append_left
      rw [← append_assoc selected]
      exact perm_append_comm
    have hright : ((r.threads.flatMap fun st => st.pending q) ++ st'.pending q ++
        (selected ++ shared.unpulled q)).Perm
        ((r.threads.flatMap fun st => st.pending q) ++ r.shared.unpulled q ++ st.pending q) := by
      rw [append_assoc, append_assoc]
      apply Perm.append_left
      apply Perm.trans _ perm_append_comm
      rw [hrows, ← append_assoc]
      exact perm_append_comm.append_right _
    exact hleft.trans ((hset.append_right _).trans hright)

theorem Inv.step {r : ScanRun V} (h : Inv q r) {a : ScanStep} (ha : Allowed r a) :
    Inv q (q.step r a) := by
  cases a with
  | initScanState i scan =>
    unfold NodeScan.step
    simp only []
    cases hst : r.threads[i]? with
    | none => exact h
    | some st =>
      have hdone : st.scanCompleted = true := ha st hst
      have hpending : st.pending q = [] := if_pos hdone
      show Inv q ⟨(initReaderForMorsel q scan r.shared st).1,
        r.threads.set i (initReaderForMorsel q scan r.shared st).2, r.emitted⟩
      cases hnext : r.shared.getNextMorsel with
      | none =>
        have hinit : initReaderForMorsel q scan r.shared st =
            (r.shared, { st with scanCompleted := true }) := by
          unfold initReaderForMorsel
          rw [hnext]
        have hinv := h.replace hst { st with scanCompleted := true } []
          ⟨rfl, h.le⟩ (by rw [hpending]; rfl)
        rw [map_nil, append_nil] at hinv
        rw [hinit]
        exact hinv
      | some next =>
        obtain ⟨m, shared⟩ := next
        obtain ⟨hunpulled, hle⟩ := getNextMorsel_unpulled (q := q) hnext
        have hnum : shared.numMorsels = r.shared.numMorsels := by
          unfold SharedState.getNextMorsel at hnext
          split at hnext
          · cases hnext
            rfl
          · cases hnext
        obtain ⟨st', hst'⟩ : ∃ st' : LanceNodeTableScanState V,
          st' = ⟨openRange q.dataset q.slicing scan (morselStart m)
            (morselLimit q.dataset.rows.length m), morselStart m, 0, false⟩ := ⟨_, rfl⟩
        have hinit : initReaderForMorsel q scan r.shared st = (shared, st') := by
          unfold initReaderForMorsel
          rw [hnext, hst']
        have hmorsel : st'.pending q = morselRows q m := by
          rw [hst']
          unfold LanceNodeTableScanState.pending morselRows
          rw [if_neg Bool.false_ne_true, openRange_flatten, Nat.add_zero]
        have hinv := h.replace hst st' [] ⟨hnum, hle h.le⟩
          (by rw [hpending, hunpulled, hmorsel, nil_append, nil_append])
        rw [map_nil, append_nil] at hinv
        rw [hinit]
        exact hinv
  | scanInternal i =>
    unfold NodeScan.step
    simp only []
    cases hst : r.threads[i]? with
    | none => exact h
    | some st =>
      show Inv q (if st.scanCompleted = true then r else _)
      split
      · exact h
      next hopen =>
        apply h.replace hst _ _ ⟨rfl, h.le⟩
        rw [← scanInternal_pending]
        unfold LanceNodeTableScanState.pending
        rw [if_neg hopen]

theorem Inv.reaches (hrun : Reaches q.step Allowed (q.start threads) r) : Inv q r :=
  hrun.invariant (Inv.start threads) fun _ _ hinv ha => hinv.step ha

theorem Inv.complete (h : Inv q r) (hdone : r.Complete) :
    r.emitted.Perm ((maskedRows q 0 (q.dataset.rows.take (2 ^ 25))).map q.output) := by
  have hpending : (r.threads.flatMap fun st => st.pending q) = [] := by
    rw [flatMap_eq_nil_iff]
    exact fun st hst => if_pos (hdone.2 st hst)
  have hunpulled : r.shared.unpulled q = [] := by
    unfold SharedState.unpulled
    rw [hdone.1, Nat.sub_self]
    rfl
  have hrows := h.rows
  rw [hpending, hunpulled, append_nil, map_nil, append_nil] at hrows
  exact hrows

theorem maskedRows_split (q : NodeScan V) : maskedRows q 0 q.dataset.rows =
    maskedRows q 0 (q.dataset.rows.take (2 ^ 25)) ++
      maskedRows q (2 ^ 25) (q.dataset.rows.drop (2 ^ 25)) := by
  by_cases hle : q.dataset.rows.length ≤ 2 ^ 25
  · rw [take_of_length_le hle, drop_of_length_le hle]
    exact (append_nil _).symm
  · have happend := maskedRows_append q 0 (q.dataset.rows.take (2 ^ 25)) (q.dataset.rows.drop (2 ^ 25))
    rw [take_append_drop, length_take, Nat.min_eq_left (by omega), Nat.zero_add] at happend
    exact happend

/-- In every run the offsets that have been emitted are the positions of the rows, and none occurs
twice. -/
theorem emitted_positions (hrun : Reaches q.step Allowed (q.start threads) r) :
    (∀ e ∈ r.emitted, ∃ row, q.dataset.rows[e.1]? = some row ∧ q.semiMask e.1 = true ∧
      e = q.output (e.1, row)) ∧ (r.emitted.map Prod.fst).Nodup := by
  have hrows := (Inv.reaches hrun).rows
  constructor
  · intro e he
    obtain ⟨x, hx, rfl⟩ := mem_map.mp (hrows.mem_iff.mp (mem_append_left _ he))
    obtain ⟨hmask, -, hrow⟩ := (mem_maskedRows q).mp hx
    rw [getElem?_take] at hrow
    split at hrow
    · exact ⟨x.2, hrow, hmask, rfl⟩
    · cases hrow
  · have hnodup : (((maskedRows q 0 (q.dataset.rows.take (2 ^ 25))).map q.output).map Prod.fst).Nodup := by
      rw [map_map]
      exact maskedRows_nodup q 0 _
    have hall := ((hrows.map Prod.fst).nodup_iff.mpr hnodup)
    rw [map_append, nodup_append] at hall
    exact hall.1

/-- When all morsels are done, every row that the mask keeps has been emitted exactly if the mask keeps
no row from `2 ^ 25` on. -/
theorem morsels_cover_iff (hrun : Reaches q.step Allowed (q.start threads) r) (hdone : r.Complete) :
    r.emitted.Perm ((maskedRows q 0 q.dataset.rows).map q.output) ↔
      ∀ i, 2 ^ 25 ≤ i → i < q.dataset.rows.length → q.semiMask i = false := by
  have hemitted := (Inv.reaches hrun).complete hdone
  have hrest : maskedRows q (2 ^ 25) (q.dataset.rows.drop (2 ^ 25)) = [] ↔
      ∀ i, 2 ^ 25 ≤ i → i < q.dataset.rows.length → q.semiMask i = false := by
    rw [eq_nil_iff_forall_not_mem]
    constructor
    · intro h i hle hlt
      by_contra hmask
      apply h (i, q.dataset.rows[i])
      rw [mem_maskedRows]
      refine ⟨(Bool.not_eq_false _).mp hmask, hle, ?_⟩
      rw [getElem?_drop, Nat.add_sub_cancel' hle, getElem?_eq_getElem hlt]
    · intro h x hx
      obtain ⟨hmask, hle, hrow⟩ := (mem_maskedRows q).mp hx
      rw [getElem?_drop, Nat.add_sub_cancel' hle] at hrow
      rw [h x.1 hle (List.getElem?_eq_some_iff.mp hrow).1] at hmask
      cases hmask
  rw [← hrest]
  constructor
  · intro h
    have hlength := (hemitted.symm.trans h).length_eq
    rw [maskedRows_split, map_append, length_append, length_map, length_map] at hlength
    apply eq_nil_of_length_eq_zero
    omega
  · intro h
    rw [maskedRows_split, h, append_nil]
    exact hemitted

/-- What holds of the emitted rows at any time, and when all morsels are done. -/
theorem node_scan_exact {threads : Nat} {r : ScanRun V}
    (hrun : Reaches q.step Allowed (q.start threads) r) :
    (∀ e ∈ r.emitted, ∃ row, q.dataset.rows[e.1]? = some row ∧ q.semiMask e.1 = true ∧
      e = q.output (e.1, row)) ∧ (r.emitted.map Prod.fst).Nodup ∧
    (r.Complete → (r.emitted.Perm ((maskedRows q 0 q.dataset.rows).map q.output) ↔
      ∀ i, 2 ^ 25 ≤ i → i < q.dataset.rows.length → q.semiMask i = false)) :=
  ⟨(emitted_positions hrun).1, (emitted_positions hrun).2, fun hdone ↦ morsels_cover_iff hrun hdone⟩

end

/-- A table with one column, and a mask. -/
def maskedScan (rows : List (String → Nat)) (rows_lt : rows.length < 2 ^ 63)
    (semiMask : Nat → Bool) : NodeScan Nat where
  dataset := ⟨["id"], rows, rows_lt⟩
  slicing := singleRows
  properties := [⟨"id", 0⟩]
  columnIDs := [some 0]
  semiMask
  applySemiMaskFilter startOffset rowsRead :=
    (range rowsRead).filter fun i => semiMask (startOffset + i)
  mem_applySemiMaskFilter := by
    intro startOffset rowsRead i
    rw [mem_filter, mem_range]
  applySemiMaskFilter_lt := fun _ _ => pairwise_lt_range.filter _

def longScan : NodeScan Nat :=
  maskedScan (replicate 33554433 fun _ => 7) (by rw [length_replicate]; decide) fun _ => true

/-- No run emits the last one of `2 ^ 25 + 1` rows. -/
theorem last_row_skipped : longScan.dataset.rows.length = 33554433 ∧
    ∀ threads r, Reaches longScan.step Allowed (longScan.start threads) r →
      33554432 ∉ r.emitted.map Prod.fst := by
  refine ⟨length_replicate, fun threads r hrun hmem => ?_⟩
  obtain ⟨e, he, hlast⟩ := mem_map.mp hmem
  obtain ⟨x, hx, rfl⟩ := mem_map.mp
    ((Inv.reaches hrun).rows.mem_iff.mp (mem_append_left _ he))
  obtain ⟨-, -, hrow⟩ := (mem_maskedRows longScan).mp hx
  obtain ⟨hlt, -⟩ := List.getElem?_eq_some_iff.mp hrow
  rw [length_take] at hlt
  have hoffset : x.1 = 33554432 := hlast
  omega

/-- Of two rows the mask keeps the second. -/
def twoRows : NodeScan Nat := maskedScan [fun _ => 7, fun _ => 8] (by decide) fun i => i == 1

def twoRowsRun : ScanRun Nat :=
  twoRows.step (twoRows.step (twoRows.step (twoRows.start 1) (.initScanState 0 0)) (.scanInternal 0))
    (.scanInternal 0)

theorem node_scan_exact_twoRows : Reaches twoRows.step Allowed (twoRows.start 1) twoRowsRun ∧
    twoRowsRun.emitted = [(1, [some 8])] ∧
    (twoRowsRun.emitted.Perm ((maskedRows twoRows 0 twoRows.dataset.rows).map twoRows.output) ↔
      ∀ i, 2 ^ 25 ≤ i → i < twoRows.dataset.rows.length → twoRows.semiMask i = false) := by
  have hrun : Reaches twoRows.step Allowed (twoRows.start 1) twoRowsRun := by
    refine .step (.step (.step .start ?_) trivial) trivial
    intro st hst
    cases hst
    rfl
  refine ⟨hrun, by decide, (node_scan_exact hrun).2.2 ⟨by decide, ?_⟩⟩
  intro st hst
  have hthreads : twoRowsRun.threads.all (fun st => st.scanCompleted) = true := by decide
  exact all_eq_true.mp hthreads st hst

end Ladybug.Lance
