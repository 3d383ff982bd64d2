import Ladybug.Vector.QuantizedCache

/-!
# What queries read from the shared cache

A cache that is not dirty holds the committed rows, and a transaction that may use it sees all of
them.  Behind them it holds what the transaction that built it saw there, its own rows at the time,
and nothing keeps another transaction from reading them.
-/

namespace Ladybug.Vector.CachedIndex

open List Option Function

variable {V Q : Type} {quantizeEmbedding : V → Q} {s : CachedIndex V Q} {t : Nat} {T T' : CacheTxn V}

/-- A commit whose rows are visible and whose callback has not run yet. -/
def Published (s : CachedIndex V Q) (w ts : Nat) : Prop :=
  ∃ W, s.txns w = some W ∧ W.phase = .committed ts ∧ W.inserted ≠ []

def CachesRows (quantizeEmbedding : V → Q) (rows : List (Option V)) (n : Nat)
    (cache : CachedQuantizedColumn Q) : Prop :=
  ∀ o < n, ∀ q, cache.records o = some q → ∃ v, rows[o]? = some (some v) ∧ q = quantizeEmbedding v

/-- A transaction that does not see all rows is too old for the cache, or some commit still keeps it
dirty. -/
structure TxnInv (s : CachedIndex V Q) (t : Nat) (T : CacheTxn V) : Prop where
  seen : T.seen ≤ s.rows.length
  base : T.inserted ≠ [] →
    T.seen ≤ T.minUncommittedNodeOffset ∧ T.minUncommittedNodeOffset ≤ s.rows.length
  started : T.startTS ≤ s.lastTS
  committing : T.phase ≠ .active → T.inserted ≠ [] → t ∈ s.cacheState.dirtyTransactions
  current : T.seen = s.rows.length ∨ T.startTS < s.cacheState.version ∨
    ∃ w ts, s.Published w ts ∧ T.startTS < ts

/-- The invariant of all interleavings.  A cache that lacks rows is kept dirty by some commit. -/
structure Inv (quantizeEmbedding : V → Q) (s : CachedIndex V Q) : Prop where
  quantized : s.quantized = s.rows.map fun v => v.map quantizeEmbedding
  txns : ∀ t T, s.txns t = some T → s.TxnInv t T
  dirty : s.cacheState.dirty = !s.cacheState.dirtyTransactions.isEmpty
  cache : ∀ c, s.cacheState.cache = some c → ∃ n ≤ s.rows.length,
    CachesRows quantizeEmbedding s.rows n c ∧ (n = s.rows.length ∨ ∃ w ts, s.Published w ts)

variable {w ts o : Nat} {W : CacheTxn V} {rows more : List (Option V)} {v : V} {q : Q}
  {f : CacheTxn V → CachedIndex V Q}

theorem Inv.not_published (h : Inv quantizeEmbedding s) (hdirty : s.cacheState.dirty = false) :
    ¬ s.Published w ts := by
  intro hpub
  obtain ⟨W, hW, hphase, hrows⟩ := hpub
  have hmem := (h.txns w W hW).committing (by rw [hphase]; exact fun h => nomatch h) hrows
  rw [h.dirty, Bool.not_eq_false', List.isEmpty_iff] at hdirty
  rw [hdirty] at hmem
  cases hmem

/-! ## Transactions -/

variable {txn : Option (CacheTxn V)}

theorem txns_update (h : Function.update s.txns t txn w = some W) :
    (w = t ∧ txn = some W) ∨ (w ≠ t ∧ s.txns w = some W) := by
  by_cases hw : w = t
  · rw [hw, update_self] at h
    exact .inl ⟨hw, h⟩
  · rw [update_of_ne hw] at h
    exact .inr ⟨hw, h⟩

theorem txns_endTxn (h : (s.endTxn t).txns w = some W) : w ≠ t ∧ s.txns w = some W :=
  (txns_update h).resolve_left fun hsome => nomatch hsome.2

theorem Published.update (h : s.Published w ts) (hw : w ≠ t) :
    Published { s with txns := Function.update s.txns t txn } w ts := by
  obtain ⟨W, hW, hrest⟩ := h
  exact ⟨W, (update_of_ne hw _ _).trans hW, hrest⟩

section

variable (h : Inv quantizeEmbedding s) (hold : ∀ ts, ¬ s.Published t ts)

include h hold

theorem Inv.update (hnew : ∀ T, txn = some T → s.TxnInv t T) :
    Inv quantizeEmbedding { s with txns := Function.update s.txns t txn } := by
  have hkeep : ∀ w ts, s.Published w ts →
      Published { s with txns := Function.update s.txns t txn } w ts := by
    intro w ts hpub
    apply hpub.update
    rintro rfl
    exact hold ts hpub
  refine { h with txns := ?_, cache := ?_ }
  · intro w W hW
    have hW' : s.TxnInv w W := by
      rcases txns_update hW with ⟨rfl, hsome⟩ | ⟨_, hW⟩
      · exact hnew W hsome
      · exact h.txns w W hW
    refine { hW' with current := hW'.current.imp_right (Or.imp_right ?_) }
    exact fun ⟨w, ts, hpub, hlt⟩ => ⟨w, ts, hkeep w ts hpub, hlt⟩
  · intro c hc
    obtain ⟨n, hn, hrows, hpub⟩ := h.cache c hc
    exact ⟨n, hn, hrows, hpub.imp_right fun ⟨w, ts, hpub⟩ => ⟨w, ts, hkeep w ts hpub⟩⟩

theorem Inv.setTxn (hT : s.TxnInv t T) : Inv quantizeEmbedding (s.setTxn t T) :=
  h.update hold fun _ hsome => some.inj hsome ▸ hT

theorem Inv.endTxn : Inv quantizeEmbedding (s.endTxn t) := h.update hold nofun

end

theorem not_published_of_phase (hT : s.txns t = some T) (hphase : ∀ ts, T.phase ≠ .committed ts)
    (ts : Nat) : ¬ s.Published t ts := by
  intro hpub
  obtain ⟨W, hW, hcommitted, _⟩ := hpub
  rw [hT] at hW
  cases hW
  exact hphase ts hcommitted

/-! ## Marks -/

theorem Inv.markDirty (h : Inv quantizeEmbedding s) (t : Nat) :
    Inv quantizeEmbedding (s.markDirty t) where
  quantized := h.quantized
  txns := fun w W hW => { h.txns w W hW with
    committing := fun hphase hrows =>
      mem_insert_of_mem ((h.txns w W hW).committing hphase hrows) }
  dirty := by
    show true = !(s.cacheState.dirtyTransactions.insert t).isEmpty
    have hmem : t ∈ s.cacheState.dirtyTransactions.insert t := mem_insert_self
    cases hlist : s.cacheState.dirtyTransactions.insert t with
    | nil =>
      rw [hlist] at hmem
      cases hmem
    | cons _ _ => rfl
  cache := h.cache

theorem Inv.eraseDirty (h : Inv quantizeEmbedding s) (ht : s.txns t = none) :
    Inv quantizeEmbedding (s.eraseDirty t) where
  quantized := h.quantized
  txns := by
    intro w W hW
    refine { h.txns w W hW with committing := fun hphase hrows => mem_filter.mpr ?_ }
    refine ⟨(h.txns w W hW).committing hphase hrows, ?_⟩
    rw [decide_eq_true_iff]
    rintro rfl
    cases ht.symm.trans hW
  dirty := rfl
  cache := h.cache

/-! ## Events of one transaction -/

theorem Inv.begin (h : Inv quantizeEmbedding s) (t : Nat) : Inv quantizeEmbedding (s.begin t) := by
  unfold CachedIndex.begin
  cases hT : s.txns t with
  | some T => exact h
  | none =>
    apply h.setTxn
    · intro ts hpub
      obtain ⟨W, hW, _⟩ := hpub
      rw [hT] at hW
      cases hW
    · exact {
        seen := Nat.le_refl _
        base := fun hrows => absurd rfl hrows
        started := Nat.le_refl _
        committing := fun _ hrows => absurd rfl hrows
        current := .inl rfl }

theorem not_published_of_active (hT : s.txns t = some T) (hphase : T.phase = .active) (ts : Nat) :
    ¬ s.Published t ts := by
  apply not_published_of_phase hT
  intro ts' hcommitted
  rw [hphase] at hcommitted
  cases hcommitted

section

variable (h : Inv quantizeEmbedding s) (hT : s.txns t = some T) (hphase : T.phase = .active)

include h hT hphase

theorem Inv.insert (vector : Option V) :
    Inv quantizeEmbedding (s.setTxn t (s.insertRow T vector)) := by
  have hinv := h.txns t T hT
  apply h.setTxn (not_published_of_active hT hphase)
  refine { hinv with base := fun _ => ?_, committing := fun hnot => absurd hphase hnot }
  show T.seen ≤ (if T.inserted.isEmpty then s.rows.length else T.minUncommittedNodeOffset) ∧
    (if T.inserted.isEmpty then s.rows.length else T.minUncommittedNodeOffset) ≤ s.rows.length
  split
  · exact ⟨hinv.seen, Nat.le_refl _⟩
  next hrows =>
    apply hinv.base
    intro hnil
    rw [hnil] at hrows
    exact hrows rfl

theorem Inv.delete (offset : Nat) :
    Inv quantizeEmbedding (s.setTxn t { T with deleted := offset :: T.deleted }) :=
  h.setTxn (not_published_of_active hT hphase) { h.txns t T hT with }

theorem Inv.updateRow (offset : Nat) (vector : Option V) :
    Inv quantizeEmbedding (s.update t T offset vector) := by
  have hnot := not_published_of_active hT hphase
  unfold CachedIndex.update
  split
  · exact h
  · split
    next huncommitted =>
      have hrows : T.inserted ≠ [] := by
        intro hnil
        unfold CacheTxn.isUnCommitted at huncommitted
        rw [hnil] at huncommitted
        cases huncommitted
      exact h.setTxn hnot { h.txns t T hT with
        base := fun _ => (h.txns t T hT).base hrows
        committing := fun hactive => absurd hphase hactive }
    · unfold CachedIndex.rollback
      rw [hphase]
      exact h.endTxn hnot

theorem Inv.commitInsertTxn : Inv quantizeEmbedding (s.commitInsertTxn t T) := by
  have hnot := not_published_of_active hT hphase
  unfold CachedIndex.commitInsertTxn
  split
  next hempty =>
    have hnil : T.inserted = [] := List.isEmpty_iff.mp hempty
    exact h.setTxn hnot { h.txns t T hT with committing := fun _ hrows => absurd hnil hrows }
  · -- the mark and the phase are set in either order
    exact (h.markDirty t).setTxn hnot
      { (h.markDirty t).txns t T hT with committing := fun _ _ => mem_insert_self }

end

/-! ## Commits -/

theorem rows_append_getElem (h : rows[o]? = some (some v)) :
    (rows ++ more)[o]? = some (some v) := by
  rw [getElem?_append_left (List.getElem?_eq_some_iff.mp h).1]
  exact h

theorem CachesRows.append {n : Nat} {c : CachedQuantizedColumn Q}
    (h : CachesRows quantizeEmbedding rows n c) :
    CachesRows quantizeEmbedding (rows ++ more) n c := by
  intro o ho q hq
  obtain ⟨v, hv, heq⟩ := h o ho q hq
  exact ⟨v, rows_append_getElem hv, heq⟩

section

variable (h : Inv quantizeEmbedding s) (hT : s.txns t = some T)

include h hT

theorem Inv.publish (hphase : T.phase = .committing) :
    Inv quantizeEmbedding (s.publish quantizeEmbedding t T) := by
  have hnot : ∀ ts, ¬ s.Published t ts := by
    apply not_published_of_phase hT
    intro ts hcommitted
    rw [hphase] at hcommitted
    cases hcommitted
  have hlen : s.rows.length ≤ (s.rows ++ T.inserted).length := by
    rw [length_append]
    omega
  have hkeep : ∀ w ts, s.Published w ts → (s.publish quantizeEmbedding t T).Published w ts := by
    intro w ts hpub
    apply Published.update hpub
    rintro rfl
    exact hnot ts hpub
  -- the rows of the transaction are new unless it has none
  have hnew : (s.rows ++ T.inserted).length = s.rows.length ∨
      (s.publish quantizeEmbedding t T).Published t (s.lastTS + 1) := by
    by_cases hrows : T.inserted = []
    · left
      rw [hrows, append_nil]
    · right
      refine ⟨{ T with phase := .committed (s.lastTS + 1) }, ?_, rfl, hrows⟩
      exact update_self _ _ _
  refine { quantized := ?_, txns := ?_, dirty := h.dirty, cache := ?_ }
  · show s.quantized ++ _ = (s.rows ++ T.inserted).map _
    rw [map_append, h.quantized]
  · intro w W hW
    have hinv : s.TxnInv w W := by
      rcases txns_update hW with ⟨rfl, hsome⟩ | ⟨_, hW⟩
      · cases hsome
        exact { h.txns w T hT with
          committing := fun _ => (h.txns w T hT).committing (by rw [hphase]; nofun) }
      · exact h.txns w W hW
    refine { hinv with seen := ?_, base := ?_, started := ?_, current := ?_ }
    · exact Nat.le_trans hinv.seen hlen
    · exact fun hrows => (hinv.base hrows).imp_right fun hle => Nat.le_trans hle hlen
    · exact Nat.le_succ_of_le hinv.started
    · rcases hnew with hsame | hpub
      · rcases hinv.current with hall | hold | ⟨w', ts, hpub, hlt⟩
        · exact .inl (hall.trans hsame.symm)
        · exact .inr (.inl hold)
        · exact .inr (.inr ⟨w', ts, hkeep w' ts hpub, hlt⟩)
      · exact .inr (.inr ⟨t, s.lastTS + 1, hpub, Nat.lt_succ_of_le hinv.started⟩)
  · intro c hc
    obtain ⟨n, hn, hrows, hpub⟩ := h.cache c hc
    refine ⟨n, Nat.le_trans hn hlen, hrows.append, ?_⟩
    rcases hnew with hsame | hpub'
    · rcases hpub with heq | ⟨w, ts, hpub⟩
      · exact .inl (heq.trans hsame.symm)
      · exact .inr ⟨w, ts, hkeep w ts hpub⟩
    · exact .inr ⟨t, _, hpub'⟩

theorem Inv.commitCallback (hphase : T.phase = .committed ts) :
    Inv quantizeEmbedding (s.commitCallback t T ts) := by
  unfold CachedIndex.commitCallback
  split
  next hempty =>
    apply h.endTxn
    intro ts' hpub
    obtain ⟨W, hW, _, hrows⟩ := hpub
    rw [hT] at hW
    cases hW
    exact hrows (List.isEmpty_iff.mp hempty)
  · refine { quantized := h.quantized, txns := ?_, dirty := rfl, cache := nofun }
    intro w W hW
    obtain ⟨hw, hW⟩ := txns_endTxn hW
    have hinv := h.txns w W hW
    refine { hinv with committing := ?_, current := ?_ }
    · intro hphase' hrows
      exact mem_filter.mpr ⟨hinv.committing hphase' hrows, decide_eq_true hw⟩
    · rcases hinv.current with hall | hold | ⟨w', ts', hpub, hlt⟩
      · exact .inl hall
      · exact .inr (.inl (Nat.lt_of_lt_of_le hold (Nat.le_max_left _ _)))
      · by_cases hw' : w' = t
        · -- the version now covers this commit
          obtain ⟨W', hW', hcommitted, _⟩ := hpub
          rw [hw', hT] at hW'
          cases hW'
          rw [hphase] at hcommitted
          cases hcommitted
          exact .inr (.inl (Nat.lt_of_lt_of_le hlt (Nat.le_max_right _ _)))
        · exact .inr (.inr ⟨w', ts', hpub.update hw', hlt⟩)

theorem Inv.rollback : Inv quantizeEmbedding (s.rollback t T) := by
  unfold CachedIndex.rollback
  cases hphase : T.phase with
  | active => exact h.endTxn (not_published_of_active hT hphase)
  | committed ts => exact h
  | committing =>
    have hend : Inv quantizeEmbedding (s.endTxn t) := by
      apply h.endTxn
      apply not_published_of_phase hT
      intro ts hcommitted
      rw [hphase] at hcommitted
      cases hcommitted
    dsimp only
    split
    · exact hend
    · exact hend.eraseDirty (update_self _ _ _)

end

/-! ## Queries -/

section

variable (h : Inv quantizeEmbedding s)

include h

theorem lookupQuantized_eq_some (hq : s.lookupQuantized T o = some q) :
    o < T.seen ∧ ∃ v, s.rows[o]? = some (some v) ∧ q = quantizeEmbedding v := by
  obtain ⟨hlt, hq⟩ := ite_none_right_eq_some.mp hq
  refine ⟨hlt, ?_⟩
  rw [h.quantized, getElem?_map] at hq
  cases hrow : s.rows[o]? with
  | none =>
    rw [hrow] at hq
    cases hq
  | some v =>
    rw [hrow] at hq
    cases v with
    | none => cases hq
    | some v =>
      cases hq
      exact ⟨v, rfl, rfl⟩

theorem cachesRows_build (T : CacheTxn V) (numNodes : Nat) :
    CachesRows quantizeEmbedding s.rows s.rows.length
      (s.buildCachedColumn quantizeEmbedding T numNodes) := by
  intro o ho q hq
  have hlen : o < s.quantized.length := by
    rw [h.quantized, length_map]
    exact ho
  have hlookup : s.lookupQuantized T o = some q := by
    rw [← hq]
    exact (if_pos hlen).symm
  exact (lookupQuantized_eq_some h hlookup).2

theorem Inv.query (T : CacheTxn V) : Inv quantizeEmbedding (s.query quantizeEmbedding T) := by
  unfold CachedIndex.query
  split
  · have hbuilt : ∀ numNodes, ∃ n ≤ s.rows.length, CachesRows quantizeEmbedding s.rows n
        (s.buildCachedColumn quantizeEmbedding T numNodes) ∧
          (n = s.rows.length ∨ ∃ w ts, s.Published w ts) := fun numNodes =>
      ⟨s.rows.length, Nat.le_refl _, cachesRows_build h T numNodes, .inl rfl⟩
    exact
      { h with
        txns := fun w W hW => { h.txns w W hW with }
        cache := by
          intro c hc
          have hc' : s.cacheFor quantizeEmbedding T = c := some.inj hc
          unfold cacheFor at hc'
          rw [← hc']
          cases hcache : s.cacheState.cache with
          | none => exact hbuilt _
          | some cache =>
            dsimp only
            split
            · exact hbuilt _
            · exact h.cache cache hcache }
  · exact h

theorem snapshotVector_of_lt (hT : s.txns t = some T) (hvisible : T.isVisible o = true)
    (hlt : o < T.seen) (hrow : s.rows[o]? = some (some v)) : s.snapshotVector T o = some v := by
  have hcommitted : T.isUnCommitted o = false := by
    unfold CacheTxn.isUnCommitted
    cases hempty : T.inserted.isEmpty with
    | true => rfl
    | false =>
      have hrows : T.inserted ≠ [] := by
        intro hnil
        rw [hnil] at hempty
        cases hempty
      have hbase := ((h.txns t T hT).base hrows).1
      rw [Bool.not_false, Bool.true_and, decide_eq_false_iff_not]
      omega
  unfold snapshotVector
  rw [hvisible, hcommitted, hrow]
  rfl

theorem Inv.seen_eq (hT : s.txns t = some T) (huse : s.shouldUseCache T = true) :
    s.cacheState.dirty = false ∧ T.seen = s.rows.length := by
  unfold shouldUseCache at huse
  rw [Bool.and_eq_true, Bool.not_eq_true', decide_eq_true_iff] at huse
  refine ⟨huse.1, ?_⟩
  rcases (h.txns t T hT).current with hall | hold | ⟨w, ts, hpub, _⟩
  · exact hall
  · exact absurd huse.2 (Nat.not_le_of_lt hold)
  · exact absurd hpub (h.not_published huse.1)

end

theorem lt_seen_of_visible (hvisible : T.isVisible o = true) (hown : T.isUnCommitted o = false) :
    o < T.seen := by
  unfold CacheTxn.isVisible at hvisible
  rw [hown, if_neg Bool.false_ne_true, Bool.and_eq_true, Bool.and_eq_true,
    decide_eq_true_iff, decide_eq_true_iff] at hvisible
  exact hvisible.2.1

section

variable (h : Inv quantizeEmbedding s) (hT : s.txns t = some T)

include h hT

theorem readsSnapshot_built {numNodes : Nat} (hvisible : T.isVisible o = true)
    (hq : (s.buildCachedColumn quantizeEmbedding T numNodes).records o = some q) :
    ∃ v, s.snapshotVector T o = some v ∧ q = quantizeEmbedding v := by
  have hrecord : (if o < s.quantized.length then s.lookupQuantized T o
      else if o < numNodes then (s.snapshotVector T o).map quantizeEmbedding else none) = some q := hq
  split at hrecord
  · obtain ⟨hlt, v, hrow, heq⟩ := lookupQuantized_eq_some h hrecord
    exact ⟨v, snapshotVector_of_lt h hT hvisible hlt hrow, heq⟩
  · split at hrecord
    · obtain ⟨v, hv, heq⟩ := map_eq_some_iff.mp hrecord
      exact ⟨v, hv, heq.symm⟩
    · cases hrecord

theorem readsSnapshot_reused (huse : s.shouldUseCache T = true) (hown : T.isUnCommitted o = false)
    {cache : CachedQuantizedColumn Q} (hcache : s.cacheState.cache = some cache)
    (hvisible : T.isVisible o = true) (hq : cache.records o = some q) :
    ∃ v, s.snapshotVector T o = some v ∧ q = quantizeEmbedding v := by
  obtain ⟨hdirty, hseen⟩ := h.seen_eq hT huse
  obtain ⟨n, _, hcaches, hn⟩ := h.cache cache hcache
  have hlen : n = s.rows.length := by
    rcases hn with heq | ⟨w, ts, hpub⟩
    · exact heq
    · exact absurd hpub (h.not_published hdirty)
  have hlt := lt_seen_of_visible hvisible hown
  obtain ⟨v, hrow, heq⟩ := hcaches o (by omega) q hq
  exact ⟨v, snapshotVector_of_lt h hT hvisible hlt hrow, heq⟩

-- the rows of the transaction itself come after all committed ones
theorem own_bounds (huse : s.shouldUseCache T = true) (hvisible : T.isVisible o = true)
    (hown : T.isUnCommitted o = true) : s.rows.length ≤ o ∧ o < s.getNumTotalRows T := by
  have hseen := (h.seen_eq hT huse).2
  unfold CacheTxn.isVisible at hvisible
  rw [hown, if_pos rfl, Bool.and_eq_true, decide_eq_true_iff, decide_eq_true_iff] at hvisible
  unfold CacheTxn.isUnCommitted at hown
  rw [Bool.and_eq_true, Bool.not_eq_true', decide_eq_true_iff] at hown
  have hrows : T.inserted ≠ [] := by
    intro hnil
    rw [hnil] at hown
    exact absurd hown.1 nofun
  have hbase := (h.txns t T hT).base hrows
  unfold getNumTotalRows
  omega

end

theorem cacheFor_of_builds (h : s.builds T = true) : s.cacheFor quantizeEmbedding T =
      s.buildCachedColumn quantizeEmbedding T (s.getNumTotalRows T) := by
  have hall := (Bool.and_eq_true_iff.mp h).2
  unfold cacheFor
  cases hcache : s.cacheState.cache with
  | none => rfl
  | some cache =>
    rw [hcache] at hall
    exact if_pos (of_decide_eq_true hall)

theorem Reuses.cacheFor {cache : CachedQuantizedColumn Q} (h : s.Reuses T cache) :
    s.cacheFor quantizeEmbedding T = cache := by
  obtain ⟨-, hcache, hlarge⟩ := h
  unfold CachedIndex.cacheFor
  rw [hcache]
  exact if_neg (Nat.not_lt_of_le hlarge)

theorem builds_or_reuses (huse : s.shouldUseCache T = true) :
    s.builds T = true ∨ ∃ cache, s.Reuses T cache := by
  unfold builds
  rw [huse, Bool.true_and]
  cases hcache : s.cacheState.cache with
  | none => exact .inl rfl
  | some cache =>
    rcases Nat.lt_or_ge cache.numNodes (s.getNumTotalRows T) with hlt | hge
    · exact .inl (decide_eq_true hlt)
    · exact .inr ⟨cache, huse, hcache, hge⟩

theorem query_rows (T : CacheTxn V) : (s.query quantizeEmbedding T).rows = s.rows := by
  unfold CachedIndex.query
  split <;> rfl

theorem query_cache (T : CacheTxn V) : (s.query quantizeEmbedding T).cacheState.cache =
      if s.builds T = true then
        some (s.buildCachedColumn quantizeEmbedding T (s.getNumTotalRows T))
      else s.cacheState.cache := by
  unfold CachedIndex.query
  split
  next huse =>
    show some (s.cacheFor quantizeEmbedding T) = _
    rcases builds_or_reuses huse with hbuilds | ⟨cache, hreuses⟩
    · rw [if_pos hbuilds, cacheFor_of_builds hbuilds]
    · have hbuilds : ¬ s.builds T = true := by
        unfold builds
        rw [hreuses.2.1, Bool.and_eq_true, not_and]
        intro _ hlt
        exact absurd (of_decide_eq_true hlt) (Nat.not_lt_of_le hreuses.2.2)
      rw [if_neg hbuilds, hreuses.cacheFor, hreuses.2.1]
  next huse =>
    have hbuilds : ¬ s.builds T = true := fun h => huse (Bool.and_eq_true_iff.mp h).1
    rw [if_neg hbuilds]

/-! ## The builder of the cache -/

variable {r : Traced V Q}

/-- Behind the committed rows the cache has what its builder saw there. -/
structure TracedInv (quantizeEmbedding : V → Q) (r : Traced V Q) : Prop where
  index : Inv quantizeEmbedding r.index
  built : ∀ cache, r.index.cacheState.cache = some cache → ∀ o, r.index.rows.length ≤ o →
    o < cache.numNodes → cache.records o = (r.builtFrom o).map quantizeEmbedding

/-- The committed rows stay, and so does the cache unless it is dropped. -/
def Keeps (s s' : CachedIndex V Q) : Prop :=
  s.rows.length ≤ s'.rows.length ∧
    ∀ cache, s'.cacheState.cache = some cache → s.cacheState.cache = some cache

theorem Keeps.refl (s : CachedIndex V Q) : s.Keeps s := ⟨Nat.le_refl _, fun _ hc => hc⟩

theorem keeps_whenTxn (hf : ∀ T, s.Keeps (f T)) : s.Keeps (s.whenTxn t f) := by
  unfold CachedIndex.whenTxn
  cases s.txns t with
  | none => exact .refl s
  | some T => exact hf T

theorem keeps_whenActive (hf : ∀ T, s.Keeps (f T)) : s.Keeps (s.whenActive t f) := by
  apply keeps_whenTxn
  intro T
  split
  · exact hf T
  · exact .refl s

theorem keeps_rollback (t : Nat) (T : CacheTxn V) : s.Keeps (s.rollback t T) := by
  unfold CachedIndex.rollback
  cases T.phase with
  | active | committed _ => exact .refl s
  | committing =>
    dsimp only
    split <;> exact .refl s

theorem keeps_step {e : CacheEvent V} (hquery : ∀ t, e ≠ .query t) :
    s.Keeps (s.step quantizeEmbedding e) := by
  cases e with
  | query t => exact absurd rfl (hquery t)
  | begin t =>
    show s.Keeps (s.begin t)
    unfold CachedIndex.begin
    split <;> exact .refl s
  | insert t vector => exact keeps_whenActive fun T => .refl s
  | update t offset vector =>
    apply keeps_whenActive
    intro T
    unfold CachedIndex.update
    split
    · exact .refl s
    · split
      · exact .refl s
      · exact keeps_rollback t T
  | delete t offset =>
    apply keeps_whenActive
    intro T
    split <;> exact .refl s
  | commitInsert t =>
    apply keeps_whenActive
    intro T
    unfold CachedIndex.commitInsertTxn
    dsimp only
    split <;> exact .refl s
  | publish t =>
    apply keeps_whenTxn
    intro T
    split
    · refine ⟨?_, fun _ hc => hc⟩
      show s.rows.length ≤ (s.rows ++ T.inserted).length
      rw [length_append]
      omega
    · exact .refl s
  | commitCallback t =>
    apply keeps_whenTxn
    intro T
    split
    · unfold CachedIndex.commitCallback
      split
      · exact .refl s
      · exact ⟨Nat.le_refl _, nofun⟩
    · exact .refl s
  | rollback t => exact keeps_whenTxn (keeps_rollback t)

section

variable (h : TracedInv quantizeEmbedding r) (hT : r.index.txns t = some T)

include h hT

/-- A query with its own rows in reach reads the snapshot exactly where the builder of the cache had
the same vectors. -/
theorem TracedInv.readsSnapshot_iff :
    r.index.ReadsSnapshot quantizeEmbedding T ↔ r.OwnRowsBuilt quantizeEmbedding T := by
  constructor
  · intro hreads cache hreuses o hvisible hown built hbuilt
    obtain ⟨hfirst, hlast⟩ := own_bounds h.index hT hreuses.1 hvisible hown
    have hrecord : cache.records o = some (quantizeEmbedding built) := by
      rw [h.built cache hreuses.2.1 o hfirst (Nat.lt_of_lt_of_le hlast hreuses.2.2), hbuilt]
      rfl
    apply hreads o
    unfold queryEmbedding
    rw [if_pos hreuses.1, hreuses.cacheFor]
    unfold cachedEmbedding
    rw [if_neg (Nat.not_le_of_lt (Nat.lt_of_lt_of_le hlast hreuses.2.2)), hvisible]
    exact hrecord
  · intro hbuilder o q hq
    unfold queryEmbedding at hq
    split at hq
    next huse =>
      obtain ⟨hlt, hq⟩ := ite_none_left_eq_some.mp hq
      obtain ⟨hvisible, hq⟩ := ite_none_left_eq_some.mp hq
      have hvisible' : T.isVisible o = true := by simpa using hvisible
      rcases builds_or_reuses huse with hbuilds | ⟨cache, hreuses⟩
      · rw [cacheFor_of_builds hbuilds] at hq
        exact readsSnapshot_built h.index hT hvisible' hq
      · rw [hreuses.cacheFor] at hq hlt
        cases hown : T.isUnCommitted o with
        | false => exact readsSnapshot_reused h.index hT huse hown hreuses.2.1 hvisible' hq
        | true =>
          have hfirst := (own_bounds h.index hT huse hvisible' hown).1
          rw [h.built cache hreuses.2.1 o hfirst (Nat.lt_of_not_le hlt)] at hq
          obtain ⟨built, hbuilt, rfl⟩ := map_eq_some_iff.mp hq
          exact hbuilder cache hreuses o hvisible' hown built hbuilt
    · unfold tableBackedEmbedding at hq
      obtain ⟨-, hq⟩ := ite_none_left_eq_some.mp hq
      obtain ⟨hvisible, hq⟩ := ite_none_left_eq_some.mp hq
      obtain ⟨hlt, v, hrow, heq⟩ := lookupQuantized_eq_some h.index hq
      exact ⟨v, snapshotVector_of_lt h.index hT (by simpa using hvisible) hlt hrow, heq⟩

end

/-! ## Runs -/

section

variable (h : Inv quantizeEmbedding s)

include h

theorem Inv.whenTxn (t : Nat) (hf : ∀ T, s.txns t = some T → Inv quantizeEmbedding (f T)) :
    Inv quantizeEmbedding (s.whenTxn t f) := by
  unfold CachedIndex.whenTxn
  cases hT : s.txns t with
  | none => exact h
  | some T => exact hf T hT

theorem Inv.whenActive (t : Nat)
    (hf : ∀ T, s.txns t = some T → T.phase = .active → Inv quantizeEmbedding (f T)) :
    Inv quantizeEmbedding (s.whenActive t f) := by
  apply h.whenTxn t
  intro T hT
  split
  next hphase => exact hf T hT hphase
  · exact h

theorem Inv.step (e : CacheEvent V) : Inv quantizeEmbedding (s.step quantizeEmbedding e) := by
  cases e with
  | begin t => exact h.begin t
  | insert t vector => exact h.whenActive t fun T hT hphase => h.insert hT hphase vector
  | update t offset vector =>
    exact h.whenActive t fun T hT hphase => h.updateRow hT hphase offset vector
  | delete t offset =>
    apply h.whenActive t
    intro T hT hphase
    split
    · exact h.delete hT hphase offset
    · exact h
  | query t => exact h.whenActive t fun T _ _ => h.query T
  | commitInsert t => exact h.whenActive t fun T hT hphase => h.commitInsertTxn hT hphase
  | publish t =>
    apply h.whenTxn t
    intro T hT
    split
    next hphase => exact h.publish hT hphase
    · exact h
  | commitCallback t =>
    apply h.whenTxn t
    intro T hT
    split
    next ts hphase => exact h.commitCallback hT hphase
    · exact h
  | rollback t => exact h.whenTxn t fun T hT => h.rollback hT

end

theorem created_inv (rows : List (Option V)) :
    Inv quantizeEmbedding (created quantizeEmbedding rows) where
  quantized := rfl
  txns := fun _ _ hT => nomatch hT
  dirty := rfl
  cache := fun _ hc => nomatch hc

theorem TracedInv.step (h : TracedInv quantizeEmbedding r) (e : CacheEvent V) :
    TracedInv quantizeEmbedding (r.step quantizeEmbedding e) := by
  have hkeep : r.index.Keeps (r.index.step quantizeEmbedding e) →
      (r.step quantizeEmbedding e).builtFrom = r.builtFrom →
      TracedInv quantizeEmbedding (r.step quantizeEmbedding e) := by
    rintro ⟨hrows, hcache⟩ hbuilt
    refine ⟨h.index.step e, fun cache hc o ho hlt => ?_⟩
    rw [hbuilt]
    exact h.built cache (hcache cache hc) o (Nat.le_trans hrows ho) hlt
  cases e with
  | query t =>
    cases hT : r.index.txns t with
    | none =>
      apply hkeep
      · show r.index.Keeps (r.index.whenTxn t _)
        unfold CachedIndex.whenTxn
        rw [hT]
        exact .refl _
      · simp only [Traced.step, hT]
    | some T =>
      have hstep : (r.step quantizeEmbedding (.query t)).index =
          if T.phase = .active then r.index.query quantizeEmbedding T else r.index := by
        show r.index.whenTxn t _ = _
        unfold CachedIndex.whenTxn
        rw [hT]
      have hfrom : (r.step quantizeEmbedding (.query t)).builtFrom =
          if T.phase = .active ∧ r.index.builds T = true then r.index.snapshotVector T
          else r.builtFrom := by
        simp only [Traced.step, hT]
      by_cases hactive : T.phase = .active
      · rw [if_pos hactive] at hstep
        by_cases hbuilds : r.index.builds T = true
        · refine ⟨h.index.step (.query t), fun cache hc o ho hlt => ?_⟩
          rw [hstep, query_cache, if_pos hbuilds] at hc
          rw [hstep, query_rows] at ho
          cases hc
          have hlen : ¬ o < r.index.quantized.length := by
            rw [h.index.quantized, length_map]
            exact Nat.not_lt_of_le ho
          rw [hfrom, if_pos ⟨hactive, hbuilds⟩]
          show (if _ then _ else if _ then _ else none) = _
          rw [if_neg hlen]
          exact if_pos hlt
        · rw [if_neg fun hb => hbuilds hb.2] at hfrom
          refine hkeep ⟨?_, fun cache hc => ?_⟩ hfrom
          · exact Nat.le_of_eq (congrArg List.length (by rw [hstep, query_rows] :
              (r.step quantizeEmbedding (.query t)).index.rows = _)).symm
          · have hc' : (r.step quantizeEmbedding (.query t)).index.cacheState.cache = some cache := hc
            rw [hstep, query_cache, if_neg hbuilds] at hc'
            exact hc'
      · rw [if_neg hactive] at hstep
        rw [if_neg fun hb => hactive hb.1] at hfrom
        refine hkeep ?_ hfrom
        show r.index.Keeps (r.step quantizeEmbedding (.query t)).index
        rw [hstep]
        exact .refl _
  | begin _ | insert _ _ | update _ _ _ | delete _ _ | commitInsert _ | publish _
  | commitCallback _ | rollback _ => exact hkeep (keeps_step fun _ he => by cases he) rfl

theorem traced_inv (rows : List (Option V)) (events : List (CacheEvent V)) :
    TracedInv quantizeEmbedding
      (events.foldl (Traced.step quantizeEmbedding) (Traced.created quantizeEmbedding rows)) := by
  have hrun : ∀ r, TracedInv quantizeEmbedding r →
      TracedInv quantizeEmbedding (events.foldl (Traced.step quantizeEmbedding) r) := by
    induction events with
    | nil => exact fun r hr => hr
    | cons e events ih => exact fun r hr => ih _ (hr.step e)
  exact hrun _ ⟨created_inv rows, nofun⟩

/-- After any events, the vectors that a query reads are the quantized ones of its own snapshot
exactly when the cache that it reuses was built over the same own rows. -/
theorem query_reads_snapshot (quantizeEmbedding : V → Q) (rows : List (Option V))
    (events : List (CacheEvent V)) (t : Nat) (T : CacheTxn V)
    (hT : (events.foldl (Traced.step quantizeEmbedding)
      (Traced.created quantizeEmbedding rows)).index.txns t = some T) :
    (events.foldl (Traced.step quantizeEmbedding)
      (Traced.created quantizeEmbedding rows)).index.ReadsSnapshot quantizeEmbedding T ↔
    (events.foldl (Traced.step quantizeEmbedding)
      (Traced.created quantizeEmbedding rows)).OwnRowsBuilt quantizeEmbedding T :=
  (traced_inv rows events).readsSnapshot_iff hT

/-- Transaction 0 inserts a vector and builds the cache with a query, and transaction 1 queries after
a deletion. -/
def builderEvents : List (CacheEvent Nat) :=
  [.begin 0, .insert 0 (some 5), .query 0, .begin 1, .delete 1 0, .query 1]

/-- The builder then reads its own vector in the cache that it built. -/
theorem query_reads_own_cache : ∃ s T cache,
    s = builderEvents.foldl (Traced.step fun v => v) (Traced.created (fun v : Nat => v) [some 1]) ∧
      s.index.txns 0 = some T ∧ s.index.Reuses T cache ∧
      s.index.queryEmbedding (fun v => v) T 1 = some 5 ∧ s.index.ReadsSnapshot (fun v => v) T := by
  refine ⟨_, _, _, rfl, rfl, ⟨rfl, rfl, by decide⟩, rfl, ?_⟩
  refine (query_reads_snapshot (fun v : Nat => v) [some 1] builderEvents 0 _ rfl).mpr ?_
  intro cache hreuses o hvisible hown built hbuilt
  have ho : o = 1 := by
    have hle : 1 ≤ o := of_decide_eq_true hown
    have hlt := (Bool.and_eq_true_iff.mp hvisible).2
    rw [hown, if_pos rfl] at hlt
    have hlt' : o - 1 < 1 := of_decide_eq_true hlt
    omega
  subst ho
  cases hbuilt
  exact ⟨5, rfl, rfl⟩

/-- Transaction 0 inserts a vector, builds the cache with a query and rolls back.  Transaction 1
inserts another vector. -/
def rolledBackBuilder : CachedIndex Nat Nat :=
  [.begin 0, .insert 0 (some 1), .query 0, .rollback 0, .begin 1, .insert 1 (some 2)].foldl
    (CachedIndex.step fun v => v) (created (fun v : Nat => v) [])

/-- Its query then reads the vector that was rolled back. -/
theorem query_reads_rolled_back_vector : ∃ T, rolledBackBuilder.txns 1 = some T ∧
      rolledBackBuilder.queryEmbedding (fun v => v) T 0 = some 1 ∧
      rolledBackBuilder.snapshotVector T 0 = some 2 :=
  ⟨_, rfl, rfl, rfl⟩

end Ladybug.Vector.CachedIndex
