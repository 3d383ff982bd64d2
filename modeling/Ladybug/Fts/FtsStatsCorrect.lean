import Ladybug.Fts.FtsBuild
import Ladybug.Fts.FtsStats
import Mathlib.Algebra.BigOperators.Ring.Finset
import Mathlib.Algebra.Order.BigOperators.Group.Finset
import Mathlib.Tactic.Linarith

/-!
# When the statistics are those of the snapshot

The counters are those of the committed documents, and what a transaction adds to them is what it has
changed in its own view.  A transaction therefore reads the counts of its view as long as the committed
documents are those of its snapshot.
-/

namespace Ladybug.Fts

open List Option Function

section

variable {T : Type} {n m o : Nat} {c : Nat → List T}

/-! ## 1. Counting documents -/

theorem numDocsOf_mono (hle : n ≤ m) (hc : ∀ o, n ≤ o → c o = []) : numDocsOf m c = numDocsOf n c := by
  symm
  apply Finset.sum_subset (Finset.range_mono hle)
  intro o _ ho
  rw [Finset.mem_range, not_lt] at ho
  rw [if_pos (hc o ho)]

theorem totalLenOf_mono (hle : n ≤ m) (hc : ∀ o, n ≤ o → c o = []) :
    totalLenOf m c = totalLenOf n c := by
  symm
  apply Finset.sum_subset (Finset.range_mono hle)
  intro o _ ho
  rw [Finset.mem_range, not_lt] at ho
  rw [hc o ho, length_nil]

theorem totalLenOf_eq_zero (h : numDocsOf n c = 0) : totalLenOf n c = 0 := by
  unfold numDocsOf at h
  unfold totalLenOf
  rw [Finset.sum_eq_zero_iff] at h ⊢
  intro o ho
  have hterms := h o ho
  by_cases hnil : c o = []
  · rw [hnil, length_nil]
  · rw [if_neg hnil] at hterms
    omega

theorem toIdx_of_lt {k : Nat} (h : k < idxBound) : toIdx (k : Int) = k := by
  unfold toIdx idxBound at *
  omega

/-! ## 2. What a call does to the view of its transaction -/

/-- A transaction goes on by writing some of the given rows; its documents and their total length grow
by the given amounts. -/
structure Advances (n : Nat) (Rows : Nat → Prop) (t t' : Txn Nat (List T)) (numDocs totalDocLen : Int) :
    Prop where
  snapshot : t'.snapshot = t.snapshot
  writes : ∀ k, t'.writes k ≠ none → t.writes k ≠ none ∨ Rows k
  view : ∀ k, ¬ Rows k → t'.view k = t.view k
  numDocs : (numDocsOf n t'.view : Int) = numDocsOf n t.view + numDocs
  totalDocLen : (totalLenOf n t'.view : Int) = totalLenOf n t.view + totalDocLen

theorem Advances.refl (n : Nat) (Rows : Nat → Prop) (t : Txn Nat (List T)) : Advances n Rows t t 0 0 where
  snapshot := rfl
  writes := fun _ hk => .inl hk
  view := fun _ _ => rfl
  numDocs := (Int.add_zero _).symm
  totalDocLen := (Int.add_zero _).symm

theorem Advances.trans {Rows : Nat → Prop} {t t' t'' : Txn Nat (List T)} {a b a' b' : Int}
    (h : Advances n Rows t t' a b) (h' : Advances n Rows t' t'' a' b') :
    Advances n Rows t t'' (a + a') (b + b') where
  snapshot := h'.snapshot.trans h.snapshot
  writes := by
    intro k hk
    rcases h'.writes k hk with hold | hnew
    · exact h.writes k hold
    · exact .inr hnew
  view := fun k hk => (h'.view k hk).trans (h.view k hk)
  numDocs := by
    rw [h'.numDocs, h.numDocs]
    omega
  totalDocLen := by
    rw [h'.totalDocLen, h.totalDocLen]
    omega

theorem Advances.write (ho : o < n) {Rows : Nat → Prop} (hrow : Rows o) (t : Txn Nat (List T))
    (ts : List T) :
    Advances n Rows t (t.write o ts) ((if ts = [] then 0 else 1) - (if t.view o = [] then 0 else 1))
      ((ts.length : Int) - (t.view o).length) where
  snapshot := rfl
  writes := by
    intro k hk
    rw [Txn.write_writes] at hk
    by_cases hko : k = o
    · exact .inr (hko ▸ hrow)
    · rw [if_neg hko] at hk
      exact .inl hk
  view := by
    intro k hk
    have hko : k ≠ o := fun hko => hk (hko ▸ hrow)
    rw [Txn.view_write, update_of_ne hko]
  numDocs := by
    have hsum := t.sum_write (Finset.mem_range.mpr ho) ts (fun v => if v = [] then 0 else 1)
    unfold numDocsOf
    split_ifs at hsum ⊢ <;> omega
  totalDocLen := by
    have hsum := t.sum_write (Finset.mem_range.mpr ho) ts length
    unfold totalLenOf
    omega

theorem insertLoop_advances (Rows : Nat → Prop) (rows : List (Nat × List T)) (l : InsertLoop T)
    (hn : ∀ r ∈ rows, r.1 < n) (hnodup : (rows.map Prod.fst).Nodup)
    (hrows : ∀ r ∈ rows, r.2 ≠ [] → Rows r.1) (hfree : ∀ r ∈ rows, r.2 ≠ [] → l.txn.view r.1 = [])
    (hnum : l.numInsertedDocs + rows.length < idxBound)
    (hlen : l.totalInsertedDocLen + (rows.map fun r => r.2.length).sum < 2 ^ 32) :
    Advances n Rows l.txn (rows.foldl InsertLoop.row l).txn
      ((rows.foldl InsertLoop.row l).numInsertedDocs - l.numInsertedDocs)
      ((rows.foldl InsertLoop.row l).totalInsertedDocLen - l.totalInsertedDocLen) := by
  induction rows generalizing l with
  | nil =>
    rw [foldl_nil, Int.sub_self, Int.sub_self]
    exact Advances.refl n _ _
  | cons r rows ih =>
    rw [map_cons, nodup_cons] at hnodup
    rw [length_cons] at hnum
    rw [map_cons, sum_cons] at hlen
    have hrest : ∀ r' ∈ rows, r' ∈ r :: rows := fun r' hr' => mem_cons_of_mem r hr'
    rw [foldl_cons]
    by_cases hr : r.2 = []
    · -- a row without terms is skipped
      have hskip : InsertLoop.row l r =
          { l with numCheckpointedNodes := max l.numCheckpointedNodes (r.1 + 1) } := if_pos hr
      rw [hskip]
      exact ih { l with numCheckpointedNodes := max l.numCheckpointedNodes (r.1 + 1) }
        (fun r' hr' => hn r' (hrest r' hr')) hnodup.2
        (fun r' hr' => hrows r' (hrest r' hr')) (fun r' hr' => hfree r' (hrest r' hr'))
        (by show l.numInsertedDocs + rows.length < idxBound; omega)
        (by show l.totalInsertedDocLen + _ < 2 ^ 32; omega)
    · have hstep : InsertLoop.row l r =
          { txn := l.txn.write r.1 r.2
            numInsertedDocs := l.numInsertedDocs + 1
            totalInsertedDocLen := l.totalInsertedDocLen + r.2.length
            numCheckpointedNodes := max l.numCheckpointedNodes (r.1 + 1) } := by
        unfold InsertLoop.row
        rw [if_neg hr, Nat.mod_eq_of_lt (by omega : l.totalInsertedDocLen + r.2.length < 2 ^ 32),
          Nat.mod_eq_of_lt (by omega : l.numInsertedDocs + 1 < idxBound)]
      have hfirst := Advances.write (hn r mem_cons_self) (hrows r mem_cons_self hr) l.txn r.2
      rw [if_neg hr, if_pos (hfree r mem_cons_self hr), hfree r mem_cons_self hr] at hfirst
      -- the other rows are other offsets
      have hother := ih (InsertLoop.row l r) (fun r' hr' => hn r' (hrest r' hr')) hnodup.2
        (fun r' hr' => hrows r' (hrest r' hr'))
        (by
          intro r' hr' hne
          have hoff : r'.1 ≠ r.1 := fun heq => hnodup.1 (heq ▸ mem_map_of_mem hr')
          rw [hstep]
          rw [Txn.view_write, update_of_ne hoff]
          exact hfree r' (hrest r' hr') hne)
        (by rw [hstep]; show l.numInsertedDocs + 1 + rows.length < idxBound; omega)
        (by rw [hstep]; show l.totalInsertedDocLen + r.2.length + _ < 2 ^ 32; omega)
      rw [hstep] at hother ⊢
      have hboth := hfirst.trans hother
      convert hboth using 1
      · push_cast
        ring
      · rw [length_nil]
        push_cast
        ring

theorem deleteLoop_advances (Rows : Nat → Prop) (offsets : List Nat) (l : DeleteLoop T)
    (hn : ∀ o, l.txn.view o ≠ [] → o < n) (hrows : ∀ o ∈ offsets, l.txn.view o ≠ [] → Rows o)
    (hnum : l.numDeletedDocs + offsets.length < idxBound) :
    Advances n Rows l.txn (offsets.foldl DeleteLoop.row l).txn
      (l.numDeletedDocs - (offsets.foldl DeleteLoop.row l).numDeletedDocs)
      (l.totalDeletedDocLen - (offsets.foldl DeleteLoop.row l).totalDeletedDocLen) := by
  induction offsets generalizing l with
  | nil =>
    rw [foldl_nil, Int.sub_self, Int.sub_self]
    exact Advances.refl n _ _
  | cons o offsets ih =>
    rw [length_cons] at hnum
    rw [foldl_cons]
    by_cases ho : l.txn.view o = []
    · have hskip : DeleteLoop.row l o = l := if_pos ho
      rw [hskip]
      exact ih l hn (fun o' ho' => hrows o' (mem_cons_of_mem o ho')) (by omega)
    · have hstep : DeleteLoop.row l o =
          { txn := l.txn.write o []
            numDeletedDocs := l.numDeletedDocs + 1
            totalDeletedDocLen := l.totalDeletedDocLen + (l.txn.view o).length } := by
        unfold DeleteLoop.row
        rw [if_neg ho, Nat.mod_eq_of_lt (by omega : l.numDeletedDocs + 1 < idxBound)]
      have hfirst := Advances.write (hn o ho) (hrows o mem_cons_self ho) l.txn []
      rw [if_pos rfl, if_neg ho] at hfirst
      have hview : ∀ o', (l.txn.write o []).view o' ≠ [] → l.txn.view o' ≠ [] := by
        intro o' ho' hnil
        rw [Txn.view_write, update_apply] at ho'
        split_ifs at ho'
        · exact ho' rfl
        · exact ho' hnil
      have hother := ih (DeleteLoop.row l o)
        (by rw [hstep]; exact fun o' ho' => hn o' (hview o' ho'))
        (by
          rw [hstep]
          exact fun o' hin ho' => hrows o' (mem_cons_of_mem o hin) (hview o' ho'))
        (by rw [hstep]; show l.numDeletedDocs + 1 + offsets.length < idxBound; omega)
      rw [hstep] at hother ⊢
      have hboth := hfirst.trans hother
      convert hboth using 1
      · push_cast
        ring
      · rw [length_nil]
        push_cast
        ring

end

/-! ## 3. The invariant -/

section

variable {I T : Type} [DecidableEq I] {s : StatsSystem I T} {i : I}

/-- What a transaction has added to the statistics. -/
def deltaOf (stats : FtsStatsState I) (i : I) : FtsStatsDelta := (stats.deltas i).getD {}

structure StatsInv (s : StatsSystem I T) : Prop where
  isolated : s.docs.Isolated
  committed_bound : ∀ o, s.numTotalRows ≤ o → s.docs.committed o = []
  txn_bound : ∀ i t, s.docs.txns i = some t → ∀ o, s.numTotalRows ≤ o →
    t.snapshot o = [] ∧ t.view o = []
  numDocs : s.stats.numDocs = numDocsOf s.numTotalRows s.docs.committed
  totalDocLen : s.stats.avgDocLen * s.stats.numDocs = totalLenOf s.numTotalRows s.docs.committed
  delta_numDocs : ∀ i t, s.docs.txns i = some t → (deltaOf s.stats i).numDocs =
    (numDocsOf s.numTotalRows t.view : Int) - numDocsOf s.numTotalRows t.snapshot
  delta_totalDocLen : ∀ i t, s.docs.txns i = some t → (deltaOf s.stats i).totalDocLen =
    (totalLenOf s.numTotalRows t.view : ℚ) - totalLenOf s.numTotalRows t.snapshot
  idle : ∀ i, s.docs.txns i = none → s.stats.deltas i = none

variable {rows : List (List T)} {t : Txn Nat (List T)}

theorem rowTerms_of_le {o : Nat} (ho : rows.length ≤ o) : rowTerms rows o = [] := by
  unfold rowTerms
  rw [getD_eq_getElem?_getD, getElem?_eq_none ho]
  rfl

theorem avg_mul_num (n : Nat) (c : Nat → List T) :
    (if numDocsOf n c = 0 then (0 : ℚ) else (totalLenOf n c : ℚ) / (numDocsOf n c : ℚ)) *
      (numDocsOf n c : ℚ) = totalLenOf n c := by
  by_cases hzero : numDocsOf n c = 0
  · simp only [hzero, totalLenOf_eq_zero hzero, Nat.cast_zero, mul_zero]
  · rw [if_neg hzero, div_mul_cancel₀ _ (Nat.cast_ne_zero.mpr hzero)]

omit [DecidableEq I] in
theorem StatsInv.created (hlt : numDocsOf rows.length (rowTerms rows) < idxBound) :
    StatsInv (StatsSystem.created (I := I) rows) where
  isolated := ⟨fun _ _ ht => absurd ht nofun, fun _ _ _ _ _ ht => absurd ht nofun⟩
  committed_bound := fun _ ho => rowTerms_of_le ho
  txn_bound := fun _ _ ht => absurd ht nofun
  numDocs := Nat.mod_eq_of_lt hlt
  totalDocLen := by
    unfold StatsSystem.created
    simp only [Nat.mod_eq_of_lt hlt]
    exact avg_mul_num _ _
  delta_numDocs := fun _ _ ht => absurd ht nofun
  delta_totalDocLen := fun _ _ ht => absurd ht nofun
  idle := fun _ _ => rfl

omit [DecidableEq I] in
theorem StatsInv.grow (h : StatsInv s) {n : Nat} (hle : s.numTotalRows ≤ n) :
    StatsInv { s with numTotalRows := n } where
  isolated := h.isolated
  committed_bound := fun o ho => h.committed_bound o (Nat.le_trans hle ho)
  txn_bound := fun i t ht o ho => h.txn_bound i t ht o (Nat.le_trans hle ho)
  numDocs := by
    rw [numDocsOf_mono hle h.committed_bound]
    exact h.numDocs
  totalDocLen := by
    rw [totalLenOf_mono hle h.committed_bound]
    exact h.totalDocLen
  delta_numDocs := by
    intro i t ht
    rw [numDocsOf_mono hle (fun o ho => (h.txn_bound i t ht o ho).1),
      numDocsOf_mono hle (fun o ho => (h.txn_bound i t ht o ho).2)]
    exact h.delta_numDocs i t ht
  delta_totalDocLen := by
    intro i t ht
    rw [totalLenOf_mono hle (fun o ho => (h.txn_bound i t ht o ho).1),
      totalLenOf_mono hle (fun o ho => (h.txn_bound i t ht o ho).2)]
    exact h.delta_totalDocLen i t ht
  idle := h.idle

/-! ## 4. One step -/

theorem deltaOf_updateStats (stats : FtsStatsState I) (i j : I) (numDocs : Int) (totalDocLen : ℚ)
    (numCheckpointedNodes : Nat) :
    (deltaOf (updateStats stats i numDocs totalDocLen numCheckpointedNodes) j).numDocs =
        (deltaOf stats j).numDocs + (if j = i then numDocs else 0) ∧
      (deltaOf (updateStats stats i numDocs totalDocLen numCheckpointedNodes) j).totalDocLen =
        (deltaOf stats j).totalDocLen + (if j = i then totalDocLen else 0) := by
  unfold updateStats
  by_cases hzero : numDocs = 0 ∧ totalDocLen = 0 ∧ numCheckpointedNodes = 0
  · rw [if_pos hzero, hzero.1, hzero.2.1, ite_self, ite_self, Int.add_zero, add_zero]
    exact ⟨rfl, rfl⟩
  · rw [if_neg hzero]
    unfold deltaOf
    by_cases hj : j = i
    · rw [hj, if_pos rfl, if_pos rfl]
      simp only [update_self, getD_some, and_self]
    · rw [if_neg hj, if_neg hj, Int.add_zero, add_zero]
      simp only [update_of_ne hj, and_self]

theorem updateStats_numDocs (stats : FtsStatsState I) (i : I) (numDocs : Int) (totalDocLen : ℚ)
    (numCheckpointedNodes : Nat) :
    (updateStats stats i numDocs totalDocLen numCheckpointedNodes).numDocs = stats.numDocs ∧
      (updateStats stats i numDocs totalDocLen numCheckpointedNodes).avgDocLen = stats.avgDocLen := by
  unfold updateStats
  split_ifs
  all_goals exact ⟨rfl, rfl⟩

theorem updateStats_idle {stats : FtsStatsState I} {i j : I} (hj : j ≠ i) (numDocs : Int)
    (totalDocLen : ℚ) (numCheckpointedNodes : Nat) :
    (updateStats stats i numDocs totalDocLen numCheckpointedNodes).deltas j = stats.deltas j := by
  unfold updateStats
  split_ifs
  · rfl
  · exact update_of_ne hj _ _

theorem StatsInv.advance (h : StatsInv s) {t' : Txn Nat (List T)} (ht : s.docs.txns i = some t)
    {Rows : Nat → Prop} {numDocs totalDocLen : Int}
    (hadv : Advances s.numTotalRows Rows t t' numDocs totalDocLen)
    (hrows : ∀ o, Rows o → s.docs.Writable i t o ∧ o < s.numTotalRows) {totalDocLen' : ℚ}
    (htotal : totalDocLen' = totalDocLen) (mark : Nat) :
    StatsInv { s with
      docs := s.docs.set i t'
      stats := updateStats s.stats i numDocs totalDocLen' mark } where
  isolated := h.isolated.set ht hadv.snapshot fun k hk =>
    (hadv.writes k hk).imp_right fun hrow => (hrows k hrow).1
  committed_bound := h.committed_bound
  txn_bound := by
    intro j u hu o ho
    rw [Snapshots.set_txns] at hu
    by_cases hj : j = i
    · rw [if_pos hj] at hu
      cases hu
      rw [hadv.snapshot, hadv.view o (fun hrow => absurd (hrows o hrow).2 (not_lt.mpr ho))]
      exact h.txn_bound i t ht o ho
    · rw [if_neg hj] at hu
      exact h.txn_bound j u hu o ho
  numDocs := by
    rw [(updateStats_numDocs _ _ _ _ _).1]
    exact h.numDocs
  totalDocLen := by
    rw [(updateStats_numDocs _ _ _ _ _).1, (updateStats_numDocs _ _ _ _ _).2]
    exact h.totalDocLen
  delta_numDocs := by
    intro j u hu
    show (deltaOf (updateStats s.stats i numDocs totalDocLen' mark) j).numDocs =
      (numDocsOf s.numTotalRows u.view : Int) - numDocsOf s.numTotalRows u.snapshot
    rw [Snapshots.set_txns] at hu
    rw [(deltaOf_updateStats _ _ _ _ _ _).1]
    by_cases hj : j = i
    · rw [if_pos hj] at hu ⊢
      cases hu
      rw [hj, h.delta_numDocs i t ht, hadv.snapshot, hadv.numDocs]
      omega
    · rw [if_neg hj] at hu ⊢
      rw [Int.add_zero]
      exact h.delta_numDocs j u hu
  delta_totalDocLen := by
    intro j u hu
    rw [Snapshots.set_txns] at hu
    rw [(deltaOf_updateStats _ _ _ _ _ _).2]
    by_cases hj : j = i
    · rw [if_pos hj] at hu ⊢
      cases hu
      have hlen : (totalLenOf s.numTotalRows t'.view : ℚ) =
          totalLenOf s.numTotalRows t.view + totalDocLen := by exact_mod_cast hadv.totalDocLen
      rw [hj, h.delta_totalDocLen i t ht, hadv.snapshot, hlen, htotal]
      ring
    · rw [if_neg hj] at hu ⊢
      rw [add_zero]
      exact h.delta_totalDocLen j u hu
  idle := by
    intro j hnone
    rw [Snapshots.set_txns] at hnone
    by_cases hj : j = i
    · rw [if_pos hj] at hnone
      exact absurd hnone nofun
    · rw [if_neg hj] at hnone
      rw [updateStats_idle hj]
      exact h.idle j hnone

section

variable {t : Txn Nat (List T)}

section

variable (ht : s.docs.txns i = some t)

include ht

theorem step_insert (rows : List (Nat × List T)) :
    s.step (.insert i rows) = ⟨s.docs.set i (rows.foldl InsertLoop.row { txn := t }).txn,
        max s.numTotalRows (rows.foldl InsertLoop.row { txn := t }).numCheckpointedNodes,
        updateStats s.stats i (rows.foldl InsertLoop.row { txn := t }).numInsertedDocs
          (rows.foldl InsertLoop.row { txn := t }).totalInsertedDocLen
          (rows.foldl InsertLoop.row { txn := t }).numCheckpointedNodes⟩ := by
  simp only [StatsSystem.step, ht]

theorem step_delete (offsets : List Nat) :
    s.step (.delete i offsets) =
      ⟨s.docs.set i (offsets.foldl DeleteLoop.row { txn := t }).txn, s.numTotalRows,
        updateStats s.stats i (-(offsets.foldl DeleteLoop.row { txn := t }).numDeletedDocs)
          (-(offsets.foldl DeleteLoop.row { txn := t }).totalDeletedDocLen) 0⟩ := by
  simp only [StatsSystem.step, ht]

theorem step_commit :
    s.step (.commit i) = ⟨s.docs.commit i t, s.numTotalRows, commitStats s.stats i⟩ := by
  simp only [StatsSystem.step, ht]

end

end

theorem insertLoop_mark (rows : List (Nat × List T)) (l : InsertLoop T) :
    l.numCheckpointedNodes ≤ (rows.foldl InsertLoop.row l).numCheckpointedNodes ∧
      ∀ r ∈ rows, r.1 < (rows.foldl InsertLoop.row l).numCheckpointedNodes := by
  induction rows generalizing l with
  | nil => exact ⟨Nat.le_refl _, fun r hr => absurd hr not_mem_nil⟩
  | cons r rows ih =>
    obtain ⟨hle, hlt⟩ := ih (InsertLoop.row l r)
    have hmark : (InsertLoop.row l r).numCheckpointedNodes = max l.numCheckpointedNodes (r.1 + 1) := by
      unfold InsertLoop.row
      split_ifs
      · rfl
      · rfl
    rw [foldl_cons]
    refine ⟨by omega, ?_⟩
    intro r' hr'
    rcases mem_cons.mp hr' with rfl | hr'
    · omega
    · exact hlt r' hr'

theorem StatsInv.insert (h : StatsInv s) {rows : List (Nat × List T)}
    (hadm : s.Admissible (.insert i rows)) (hnum : rows.length < idxBound)
    (hlen : (rows.map fun r => r.2.length).sum < 2 ^ 32) : StatsInv (s.step (.insert i rows)) := by
  obtain ⟨t, ht, hnodup, hrows⟩ := hadm
  obtain ⟨-, hmark⟩ := insertLoop_mark rows { txn := t }
  rw [step_insert ht]
  have hn : ∀ r ∈ rows, r.1 <
      max s.numTotalRows (rows.foldl InsertLoop.row { txn := t }).numCheckpointedNodes :=
    fun r hr => Nat.lt_of_lt_of_le (hmark r hr) (Nat.le_max_right _ _)
  -- the rows are below the new size of the table
  have hgrow := h.grow (Nat.le_max_left s.numTotalRows
    (rows.foldl InsertLoop.row { txn := t }).numCheckpointedNodes)
  have hadv := insertLoop_advances (fun o => ∃ r ∈ rows, r.2 ≠ [] ∧ r.1 = o) rows { txn := t }
    hn hnodup (fun r hr hne => ⟨r, hr, hne, rfl⟩) (fun r hr hne => (hrows r hr hne).1)
    (by rw [Nat.zero_add]; exact hnum) (by rw [Nat.zero_add]; exact hlen)
  rw [Int.natCast_zero, Int.sub_zero, Int.sub_zero] at hadv
  exact hgrow.advance ht hadv (by
    rintro o ⟨r, hr, hne, rfl⟩
    exact ⟨(hrows r hr hne).2, hn r hr⟩) (by rw [Int.cast_natCast]) _

theorem StatsInv.delete (h : StatsInv s) {offsets : List Nat}
    (hadm : s.Admissible (.delete i offsets)) (hnum : offsets.length < idxBound) :
    StatsInv (s.step (.delete i offsets)) := by
  obtain ⟨t, ht, hrows⟩ := hadm
  have hn : ∀ o, t.view o ≠ [] → o < s.numTotalRows := by
    intro o ho
    by_contra hge
    exact ho (h.txn_bound i t ht o (not_lt.mp hge)).2
  rw [step_delete ht]
  have hadv := deleteLoop_advances (fun o => o ∈ offsets ∧ t.view o ≠ []) offsets { txn := t }
    hn (fun o ho hne => ⟨ho, hne⟩) (by rw [Nat.zero_add]; exact hnum)
  rw [Int.natCast_zero, Int.zero_sub, Int.zero_sub] at hadv
  exact h.advance ht hadv (fun o ho => ⟨hrows o ho.1 ho.2, hn o ho.2⟩)
    (by rw [Int.cast_neg, Int.cast_natCast]) _

theorem StatsInv.begin (h : StatsInv s) (hidle : s.docs.txns i = none) : StatsInv (s.step (.begin i)) := by
  exact { h with
    isolated := h.isolated.start i
    txn_bound := by
      intro j u hu o ho
      obtain ⟨-, rfl⟩ | hu := Snapshots.txns_start hu
      · exact ⟨h.committed_bound o ho, h.committed_bound o ho⟩
      · exact h.txn_bound j u hu o ho
    delta_numDocs := by
      intro j u hu
      obtain ⟨rfl, rfl⟩ | hu := Snapshots.txns_start hu
      · show (deltaOf s.stats j).numDocs = _
        unfold deltaOf
        rw [h.idle j hidle]
        exact (Int.sub_self _).symm
      · exact h.delta_numDocs j u hu
    delta_totalDocLen := by
      intro j u hu
      obtain ⟨rfl, rfl⟩ | hu := Snapshots.txns_start hu
      · show (deltaOf s.stats j).totalDocLen = _
        unfold deltaOf
        rw [h.idle j hidle]
        exact (sub_self _).symm
      · exact h.delta_totalDocLen j u hu
    idle := by
      intro j hnone
      change (s.docs.start i).txns j = none at hnone
      rw [Snapshots.start_txns] at hnone
      split_ifs at hnone
      exact h.idle j hnone }

theorem StatsInv.rollback (h : StatsInv s) (i : I) : StatsInv (s.step (.rollback i)) := by
  have hleft : ∀ j u, (s.docs.rollback i).txns j = some u → j ≠ i ∧ s.docs.txns j = some u := by
    intro j u hu
    rw [Snapshots.rollback_txns] at hu
    split_ifs at hu with hj
    exact ⟨hj, hu⟩
  have hdelta : ∀ j, j ≠ i → deltaOf (rollbackStats s.stats i) j = deltaOf s.stats j := by
    intro j hj
    show (update s.stats.deltas i none j).getD _ = _
    rw [update_of_ne hj]
    rfl
  exact { h with
    isolated := h.isolated.rollback i
    txn_bound := fun j u hu => h.txn_bound j u (hleft j u hu).2
    delta_numDocs := by
      intro j u hu
      obtain ⟨hj, hu⟩ := hleft j u hu
      show (deltaOf (rollbackStats s.stats i) j).numDocs = _
      rw [hdelta j hj]
      exact h.delta_numDocs j u hu
    delta_totalDocLen := by
      intro j u hu
      obtain ⟨hj, hu⟩ := hleft j u hu
      show (deltaOf (rollbackStats s.stats i) j).totalDocLen = _
      rw [hdelta j hj]
      exact h.delta_totalDocLen j u hu
    idle := by
      intro j (hnone : (s.docs.rollback i).txns j = none)
      show update s.stats.deltas i none j = none
      rw [Snapshots.rollback_txns] at hnone
      rw [update_apply]
      split_ifs at hnone ⊢ with hj
      · rfl
      · exact h.idle j hnone }

omit [DecidableEq I] in
theorem StatsInv.committed (h : StatsInv s) (ht : s.docs.txns i = some t) :
    (s.stats.numDocs : Int) + (deltaOf s.stats i).numDocs =
        numDocsOf s.numTotalRows (t.overlay s.docs.committed) ∧
      s.stats.avgDocLen * s.stats.numDocs + (deltaOf s.stats i).totalDocLen =
        totalLenOf s.numTotalRows (t.overlay s.docs.committed) := by
  have hown := h.isolated.own i t ht
  constructor
  · have hsum := t.sum_overlay_sub hown (Finset.range s.numTotalRows)
      (fun v => if v = [] then (0 : Int) else 1)
    rw [h.numDocs, h.delta_numDocs i t ht]
    unfold numDocsOf
    push_cast
    linarith
  · have hsum := t.sum_overlay_sub hown (Finset.range s.numTotalRows) (fun v => (v.length : ℚ))
    rw [h.totalDocLen, h.delta_totalDocLen i t ht]
    unfold totalLenOf
    push_cast
    linarith

theorem StatsInv.commit (h : StatsInv s) (ht : s.docs.txns i = some t)
    (hlt : numDocsOf s.numTotalRows (t.overlay s.docs.committed) < idxBound) :
    StatsInv (s.step (.commit i)) := by
  obtain ⟨hnum, htotal⟩ := h.committed ht
  have hleft : ∀ j u, (s.docs.commit i t).txns j = some u → j ≠ i ∧ s.docs.txns j = some u := by
    intro j u hu
    rw [Snapshots.commit_txns] at hu
    split_ifs at hu with hj
    exact ⟨hj, hu⟩
  have hdeltas : ∀ j, (commitStats s.stats i).deltas j = if j = i then none else s.stats.deltas j := by
    intro j
    unfold commitStats
    cases hd : s.stats.deltas i with
    | none =>
      split_ifs with hj
      · rw [hj]
        exact hd
      · rfl
    | some d => exact update_apply s.stats.deltas i none j
  have hdelta : ∀ j, j ≠ i → deltaOf (commitStats s.stats i) j = deltaOf s.stats j := by
    intro j hj
    unfold deltaOf
    rw [hdeltas, if_neg hj]
  -- without a delta there is no callback, and nothing to add
  have hstats : (commitStats s.stats i).numDocs =
        numDocsOf s.numTotalRows (t.overlay s.docs.committed) ∧
      (commitStats s.stats i).avgDocLen * (commitStats s.stats i).numDocs =
        totalLenOf s.numTotalRows (t.overlay s.docs.committed) := by
    unfold commitStats
    unfold deltaOf at hnum htotal
    cases hd : s.stats.deltas i with
    | none =>
      rw [hd] at hnum htotal
      rw [getD_none, Int.add_zero] at hnum
      rw [getD_none, add_zero] at htotal
      exact ⟨by exact_mod_cast hnum, htotal⟩
    | some d =>
      rw [hd, getD_some] at hnum htotal
      simp only [hnum, htotal, toIdx_of_lt hlt, Int.natCast_eq_zero, Int.cast_natCast, true_and]
      exact avg_mul_num _ _
  rw [step_commit ht]
  exact {
    isolated := h.isolated.commit ht
    committed_bound := by
      intro o ho
      show (t.writes o).getD (s.docs.committed o) = []
      have hview := (h.txn_bound i t ht o ho).2
      unfold Txn.view Txn.overlay at hview
      cases hw : t.writes o with
      | none => exact h.committed_bound o ho
      | some v =>
        rw [hw] at hview
        exact hview
    txn_bound := fun j u hu => h.txn_bound j u (hleft j u hu).2
    numDocs := hstats.1
    totalDocLen := hstats.2
    delta_numDocs := by
      intro j u hu
      obtain ⟨hj, hu⟩ := hleft j u hu
      rw [hdelta j hj]
      exact h.delta_numDocs j u hu
    delta_totalDocLen := by
      intro j u hu
      obtain ⟨hj, hu⟩ := hleft j u hu
      rw [hdelta j hj]
      exact h.delta_totalDocLen j u hu
    idle := by
      intro j (hnone : (s.docs.commit i t).txns j = none)
      rw [Snapshots.commit_txns] at hnone
      rw [hdeltas]
      split_ifs at hnone ⊢ with hj
      · rfl
      · exact h.idle j hnone }

/-! ## 5. Runs -/

/-- A call has fewer than `2^32` rows and an insertion fewer than `2^32` terms; the documents can be
counted by an `idx_t`; and a transaction reads the statistics only while the committed documents are
those of its snapshot. -/
def StatsSystem.Steady (s : StatsSystem I T) : StatsAction I T → Prop
  | .begin _ => True
  | .insert _ rows => rows.length < idxBound ∧ (rows.map fun r => r.2.length).sum < 2 ^ 32
  | .delete _ offsets => offsets.length < idxBound
  | .getStats i => ∀ t, s.docs.txns i = some t → s.docs.committed = t.snapshot ∧
      numDocsOf s.numTotalRows t.view < idxBound
  | .commit i => ∀ t, s.docs.txns i = some t →
      numDocsOf s.numTotalRows (t.overlay s.docs.committed) < idxBound
  | .rollback _ => True

theorem StatsInv.step (h : StatsInv s) {a : StatsAction I T} (hadm : s.Admissible a)
    (hsteady : s.Steady a) : StatsInv (s.step a) := by
  cases a with
  | begin i => exact h.begin hadm
  | insert i rows => exact h.insert hadm hsteady.1 hsteady.2
  | delete i offsets => exact h.delete hadm hsteady
  | getStats i => exact h
  | commit i =>
    obtain ⟨t, ht⟩ := hadm
    exact h.commit ht (hsteady t ht)
  | rollback i => exact h.rollback i

omit [DecidableEq I] in
theorem StatsInv.getStats (h : StatsInv s) (ht : s.docs.txns i = some t)
    (hsnap : s.docs.committed = t.snapshot) (hlt : numDocsOf s.numTotalRows t.view < idxBound) :
    (s.stats.numDocs : Int) + (deltaOf s.stats i).numDocs = numDocsOf s.numTotalRows t.view ∧
      (getStats s.stats i).1 = numDocsOf s.numTotalRows t.view ∧
      (getStats s.stats i).2 * (getStats s.stats i).1 = totalLenOf s.numTotalRows t.view := by
  obtain ⟨hnum, htotal⟩ := h.committed ht
  rw [hsnap] at hnum htotal
  have hview : t.overlay t.snapshot = t.view := rfl
  rw [hview] at hnum htotal
  refine ⟨hnum, ?_⟩
  unfold Fts.getStats
  unfold deltaOf at hnum htotal
  simp only [hnum, htotal, toIdx_of_lt hlt, Int.natCast_eq_zero, Int.cast_natCast, true_and]
  exact avg_mul_num _ _

end

section

variable {I T : Type} [DecidableEq I] [DecidableEq T]

/-- The rows of the `docs` table, and the sum of their lengths. -/
def numDocRows (n : Nat) (x : FtsIndex T) : Nat :=
  ∑ o ∈ Finset.range n, if (x.docs.row o).isSome then 1 else 0

def totalDocRows (n : Nat) (x : FtsIndex T) : Nat :=
  ∑ o ∈ Finset.range n, ((x.docs.row o).map Prod.snd).getD 0

variable {c : Nat → List T} {n : Nat} {x : FtsIndex T}

theorem Exact.docRows (h : Exact c n x) :
    numDocRows n x = numDocsOf n c ∧ totalDocRows n x = totalLenOf n c := by
  constructor
  · apply Finset.sum_congr rfl
    intro o _
    have hdoc := h.docs o
    by_cases ho : c o = []
    · rw [if_pos ho, map_eq_none_iff] at hdoc
      rw [if_pos ho, hdoc]
      rfl
    · rw [if_neg ho] at hdoc
      obtain ⟨p, hp, -⟩ := map_eq_some_iff.mp hdoc
      rw [if_neg ho, hp]
      rfl
  · apply Finset.sum_congr rfl
    intro o _
    rw [h.docs o]
    by_cases ho : c o = []
    · rw [if_pos ho, ho]
      rfl
    · rw [if_neg ho]
      rfl

theorem Exact.df_le (h : Exact c n x) {t : T} {p : Nat × Nat} (hp : x.terms.row t = some p) :
    p.2 ≤ numDocsOf n c := by
  have hterm := h.terms t
  rw [hp, map_some] at hterm
  have hcard : p.2 = (holders c n t).card := by
    split_ifs at hterm
    exact some.inj hterm
  have hdocs : numDocsOf n c = ((Finset.range n).filter fun o => c o ≠ []).card := by
    rw [Finset.card_filter]
    apply Finset.sum_congr rfl
    intro o _
    by_cases ho : c o = []
    · rw [if_pos ho, if_neg (not_not.mpr ho)]
    · rw [if_neg ho, if_pos ho]
  rw [hcard, hdocs]
  apply Finset.card_le_card
  intro o ho
  obtain ⟨hlt, hin⟩ := Finset.mem_filter.mp ho
  exact Finset.mem_filter.mpr ⟨hlt, ne_nil_of_mem hin⟩

theorem docsWithout_of_le {numDocs df : Nat} (hle : df ≤ numDocs) (hlt : numDocs < idxBound) :
    docsWithout numDocs df = numDocs - df := by
  unfold docsWithout
  unfold idxBound at hlt
  omega

/-- In every run in which the statistics are read only while the committed documents are those of the
snapshot (and the counts fit), a transaction reads the number and the total length of the documents in
the tables that it sees, and the score does not wrap. -/
theorem stats_transactional {rows : List (List T)}
    (hcreated : numDocsOf rows.length (rowTerms rows) < idxBound) {s : StatsSystem I T}
    (hrun : Reaches StatsSystem.step (fun s a => s.Admissible a ∧ s.Steady a)
      (StatsSystem.created rows) s)
    {i : I} {t : Txn Nat (List T)} (ht : s.docs.txns i = some t) (hread : s.Steady (.getStats i))
    {n : Nat} {x : FtsIndex T} (hx : Exact t.view n x) :
    0 ≤ (s.stats.numDocs : Int) + (deltaOf s.stats i).numDocs ∧
      (getStats s.stats i).1 = numDocRows n x ∧
      (getStats s.stats i).2 * (getStats s.stats i).1 = totalDocRows n x ∧
      ∀ term p, x.terms.row term = some p → p.2 ≤ (getStats s.stats i).1 ∧
        docsWithout (getStats s.stats i).1 p.2 = (getStats s.stats i).1 - p.2 := by
  have hinv : StatsInv s := hrun.invariant (StatsInv.created hcreated)
    fun s a h ha => h.step ha.1 ha.2
  obtain ⟨hsnap, hlt⟩ := hread t ht
  obtain ⟨hsum, hnum, htotal⟩ := hinv.getStats ht hsnap hlt
  -- the tables and the system may have different bounds; no document is beyond either
  have hbound : ∀ o, s.numTotalRows ≤ o → t.view o = [] := fun o ho ↦ (hinv.txn_bound i t ht o ho).2
  have hdocs : numDocsOf s.numTotalRows t.view = numDocsOf n t.view := by
    rw [← numDocsOf_mono (Nat.le_max_left _ n) hbound,
      ← numDocsOf_mono (Nat.le_max_right s.numTotalRows n) hx.bounded]
  have hlens : totalLenOf s.numTotalRows t.view = totalLenOf n t.view := by
    rw [← totalLenOf_mono (Nat.le_max_left _ n) hbound,
      ← totalLenOf_mono (Nat.le_max_right s.numTotalRows n) hx.bounded]
  obtain ⟨hrowsNum, hrowsLen⟩ := hx.docRows
  refine ⟨?_, ?_, ?_, ?_⟩
  · rw [hsum]
    exact Int.natCast_nonneg _
  · rw [hnum, hdocs, hrowsNum]
  · rw [htotal, hlens, hrowsLen]
  · intro term p hp
    have hle : p.2 ≤ (Fts.getStats s.stats i).1 := by
      rw [hnum, hdocs]
      exact hx.df_le hp
    exact ⟨hle, docsWithout_of_le hle (by rw [hnum]; exact hlt)⟩

end

/-! ## 6. A reader that overlaps a commit -/

/-- A table with one document, with the term `7`. -/
def oneDoc : StatsSystem Nat Nat := StatsSystem.created [[7]]

theorem rows_exact (rows : List (List Nat)) :
    Exact (rowTerms rows) rows.length (createFTSIndex (fun r => r) (rows.map some)).index := by
  have hcontent : content (fun r => r) (tableOf (rows.map some)) = rowTerms rows := by
    funext o
    unfold content tableOf rowTerms
    rw [getD_eq_getElem?_getD, List.getElem?_map]
    cases rows[o]? <;> rfl
  have h := createFTSIndex_exact (fun r => r) (rows.map some)
  rw [hcontent, length_map] at h
  exact h

/-- Transaction 0 inserts a second document and commits, and transaction 1 begins. -/
def secondDoc : StatsSystem Nat Nat :=
  (((oneDoc.step (.begin 0)).step (.insert 0 [(1, [7])])).step (.commit 0)).step (.begin 1)

/-- Transaction 1 then reads two documents. -/
theorem stats_transactional_secondDoc : (getStats secondDoc.stats 1).1 = 2 ∧
    (getStats secondDoc.stats 1).1 =
      numDocRows 2 (createFTSIndex (fun r => r) [some [7], some [7]]).index := by
  have hbegun : Reaches StatsSystem.step (fun s a => s.Admissible a ∧ s.Steady a)
      (StatsSystem.created [[7]]) (oneDoc.step (.begin 0)) :=
    Reaches.step (a := StatsAction.begin 0) Reaches.start ⟨rfl, trivial⟩
  have hinsert : (oneDoc.step (.begin 0)).Admissible (.insert 0 [(1, [7])]) := by
    refine ⟨_, rfl, by decide, fun r hr _ => ?_⟩
    cases mem_singleton.mp hr
    refine ⟨rfl, rfl, fun j u hj hu => ?_⟩
    have hu' : (oneDoc.docs.start 0).txns j = some u := hu
    rw [Snapshots.start_txns, if_neg hj] at hu'
    cases hu'
  have hview : Exact (Txn.view ⟨secondDoc.docs.committed, fun _ => none⟩) 2
      (createFTSIndex (fun r => r) [some [7], some [7]]).index := by
    have hcommitted : secondDoc.docs.committed = rowTerms [[7], [7]] := by
      funext o
      match o with
      | 0 | 1 | o + 2 => rfl
    rw [hcommitted]
    exact rows_exact [[7], [7]]
  have hcommit : ∀ t, ((oneDoc.step (.begin 0)).step (.insert 0 [(1, [7])])).docs.txns 0 = some t →
      numDocsOf 2 (t.overlay (rowTerms [[7]])) < idxBound := by
    intro t ht
    cases ht
    decide
  have hrun := ((hbegun.step ⟨hinsert, by decide, by decide⟩).step (a := StatsAction.commit 0)
    ⟨⟨_, rfl⟩, hcommit⟩).step (a := StatsAction.begin 1) ⟨rfl, trivial⟩
  refine ⟨by decide, (stats_transactional (by decide) hrun rfl ?_ hview).2.1⟩
  intro t ht
  cases ht
  exact ⟨rfl, by decide⟩

/-- A second transaction deletes the document and commits while the first one is active. -/
theorem stats_of_another_snapshot : ∃ (s : StatsSystem Nat Nat) (t : Txn Nat (List Nat)) (x : FtsIndex Nat),
    Reaches StatsSystem.step StatsSystem.Admissible oneDoc s ∧ s.docs.txns 0 = some t ∧
      Exact t.view 1 x ∧ numDocRows 1 x = 1 ∧ (getStats s.stats 0).1 = 0 ∧
      x.terms.row 7 = some (0, 1) ∧ docsWithout (getStats s.stats 0).1 1 = 2 ^ 64 - 1 := by
  refine ⟨(((oneDoc.step (.begin 0)).step (.begin 1)).step (.delete 1 [0])).step (.commit 1),
    ⟨rowTerms [[7]], fun _ => none⟩, (createFTSIndex (fun r => r) [some [7]]).index, ?_, rfl,
    rows_exact [[7]], by decide, by decide, by decide, by decide⟩
  apply Reaches.step
  · apply Reaches.step
    · apply Reaches.step
      · apply Reaches.step
        · exact Reaches.start
        · rfl
      · rfl
    · refine ⟨_, rfl, fun o _ _ => ⟨rfl, ?_⟩⟩
      -- the first transaction has written nothing
      intro j u hj hu
      have hu' : ((oneDoc.docs.start 0).start 1).txns j = some u := hu
      rw [Snapshots.start_txns, if_neg hj, Snapshots.start_txns] at hu'
      split_ifs at hu'
      · cases hu'
        rfl
      · exact absurd hu' nofun
  · exact ⟨_, rfl⟩

end Ladybug.Fts
