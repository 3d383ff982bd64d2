import Ladybug.Fts.FtsMaintenance
import Mathlib.Data.List.Range

/-!
# The bulk build is exact

The statements of `CREATE_FTS_INDEX` group the rows of `appears_info` in three ways; each group is a
document, a term, or a term of a document.
-/

namespace Ladybug.Fts

open List Function

section

variable {C T : Type} [DecidableEq T] {bulkTerms : List C → List T} {rows : List (Option (List C))}

def tableOf (rows : List (Option (List C))) : Nat → Option (List C) := fun o => (rows[o]?).join

theorem tableOf_of_le {o : Nat} (ho : rows.length ≤ o) : tableOf rows o = none := by
  unfold tableOf
  rw [getElem?_eq_none ho]
  rfl

omit [DecidableEq T] in
theorem appearsInfo_append (bulkTerms : List C → List T) (rows : List (Option (List C)))
    (row : Option (List C)) :
    appearsInfo bulkTerms (rows ++ [row]) = appearsInfo bulkTerms rows ++ (match row with
        | none => []
        | some row => (bulkTerms row).map fun t => (t, rows.length)) := by
  unfold appearsInfo
  rw [zipIdx_append, flatMap_append, zipIdx_singleton, flatMap_singleton]
  cases row with
  | none => rfl
  | some row =>
    rw [Nat.zero_add]

omit [DecidableEq T] in
theorem content_append (bulkTerms : List C → List T) (rows : List (Option (List C)))
    (row : Option (List C)) :
    content bulkTerms (tableOf (rows ++ [row])) =
      update (content bulkTerms (tableOf rows)) rows.length (match row with
          | none => []
          | some row => bulkTerms row) := by
  funext o
  rw [update_apply]
  unfold content tableOf
  by_cases ho : o = rows.length
  · rw [if_pos ho, ho, getElem?_concat_length]
    cases row with
    | none | some => rfl
  · rw [if_neg ho]
    by_cases hlt : o < rows.length
    · rw [getElem?_append_left hlt]
    · rw [getElem?_eq_none (by rw [length_append, length_singleton]; omega),
        getElem?_eq_none (by omega)]

theorem count_appearsInfo (bulkTerms : List C → List T) (rows : List (Option (List C))) (t : T)
    (o : Nat) :
    (appearsInfo bulkTerms rows).count (t, o) = (content bulkTerms (tableOf rows) o).count t := by
  induction rows using reverseRecOn with
  | nil => rfl
  | append_singleton rows row ih =>
    rw [appearsInfo_append, content_append, count_append, ih, update_apply]
    have hlast : content bulkTerms (tableOf rows) rows.length = [] := by
      unfold content
      rw [tableOf_of_le (Nat.le_refl _)]
    by_cases ho : o = rows.length
    · rw [if_pos ho, ho, hlast, count_nil, Nat.zero_add]
      cases row with
      | none => rfl
      | some row =>
        apply count_map_of_injective (bulkTerms row) fun t => (t, rows.length)
        exact fun t t' heq => (Prod.mk.inj heq).1
    · rw [if_neg ho, Nat.add_eq_left]
      apply count_eq_zero_of_not_mem
      cases row with
      | none => exact not_mem_nil
      | some row =>
        intro hin
        obtain ⟨t', -, heq⟩ := mem_map.mp hin
        exact ho (Prod.mk.inj heq).2.symm

theorem mem_appearsInfo {t : T} {o : Nat} :
    (t, o) ∈ appearsInfo bulkTerms rows ↔ t ∈ content bulkTerms (tableOf rows) o := by
  rw [← count_pos_iff, count_appearsInfo, count_pos_iff]

omit [DecidableEq T] in
theorem count_docs (bulkTerms : List C → List T) (rows : List (Option (List C))) (o : Nat) :
    ((appearsInfo bulkTerms rows).map Prod.snd).count o =
      (content bulkTerms (tableOf rows) o).length := by
  induction rows using reverseRecOn with
  | nil => rfl
  | append_singleton rows row ih =>
    rw [appearsInfo_append, content_append, map_append, count_append, ih, update_apply]
    have hlast : content bulkTerms (tableOf rows) rows.length = [] := by
      unfold content
      rw [tableOf_of_le (Nat.le_refl _)]
    by_cases ho : o = rows.length
    · rw [if_pos ho, ho, hlast, length_nil, Nat.zero_add]
      cases row with
      | none => rfl
      | some row =>
        rw [map_map]
        show ((bulkTerms row).map fun _ => rows.length).count rows.length = _
        rw [map_const', count_replicate_self]
    · rw [if_neg ho, Nat.add_eq_left]
      apply count_eq_zero_of_not_mem
      cases row with
      | none => exact not_mem_nil
      | some row =>
        intro hin
        obtain ⟨r, hr, heq⟩ := mem_map.mp hin
        obtain ⟨t', -, rfl⟩ := mem_map.mp hr
        exact ho heq.symm

section

variable {K : Type} [DecidableEq K] {keys : List K} {aggregate : K → Nat} {k : K}

theorem copyGroups_row_of_mem (hk : k ∈ keys) :
    (copyGroups keys aggregate).row k = some (keys.dedup.idxOf k, aggregate k) := if_pos hk

theorem copyGroups_row {p : Nat × Nat} (h : (copyGroups keys aggregate).row k = some p) :
    k ∈ keys ∧ p = (keys.dedup.idxOf k, aggregate k) := by
  unfold copyGroups at h
  by_cases hk : k ∈ keys
  · simp only [hk, if_true, Option.some.injEq] at h
    exact ⟨hk, h.symm⟩
  · simp only [hk, if_false] at h
    exact absurd h nofun

theorem copyGroups_keyed (keys : List K) (aggregate : K → Nat) : (copyGroups keys aggregate).Keyed := by
  constructor
  · intro k p hp
    obtain ⟨hk, rfl⟩ := copyGroups_row hp
    exact idxOf_lt_length_of_mem (mem_dedup.mpr hk)
  · intro k k' p p' hp hp' heq
    obtain ⟨hk, rfl⟩ := copyGroups_row hp
    obtain ⟨hk', rfl⟩ := copyGroups_row hp'
    exact (idxOf_inj (mem_dedup.mpr hk)).mp heq

theorem copyGroups_aggregate (keys : List K) (aggregate : K → Nat) (k : K) :
    ((copyGroups keys aggregate).row k).map Prod.snd =
      if k ∈ keys then some (aggregate k) else none := by
  unfold copyGroups
  by_cases hk : k ∈ keys
  · simp [hk]
  · simp [hk]

end

omit [DecidableEq T] in
theorem mem_docs {o : Nat} : o ∈ (appearsInfo bulkTerms rows).map Prod.snd ↔
    content bulkTerms (tableOf rows) o ≠ [] := by
  rw [← count_pos_iff, count_docs, length_pos_iff]

theorem docs_of_term (bulkTerms : List C → List T) (rows : List (Option (List C))) (t : T) :
    (((appearsInfo bulkTerms rows).filter fun r => r.1 = t).map Prod.snd).toFinset =
      holders (content bulkTerms (tableOf rows)) rows.length t := by
  ext o
  unfold holders
  rw [mem_toFinset, mem_map, Finset.mem_filter, Finset.mem_range, ← mem_appearsInfo]
  constructor
  · rintro ⟨r, hr, rfl⟩
    obtain ⟨hin, ht⟩ := mem_filter.mp hr
    have hin' : (t, r.2) ∈ appearsInfo bulkTerms rows := by
      rw [← of_decide_eq_true ht]
      exact hin
    refine ⟨?_, hin'⟩
    by_contra hge
    rw [mem_appearsInfo] at hin'
    unfold content at hin'
    rw [tableOf_of_le (not_lt.mp hge)] at hin'
    exact absurd hin' not_mem_nil
  · rintro ⟨-, hin⟩
    exact ⟨(t, o), mem_filter.mpr ⟨hin, decide_eq_true rfl⟩, rfl⟩

theorem mem_terms {t : T} : t ∈ (appearsInfo bulkTerms rows).map Prod.fst ↔
    holders (content bulkTerms (tableOf rows)) rows.length t ≠ ∅ := by
  rw [← docs_of_term, ne_eq, toFinset_eq_empty_iff, map_eq_nil_iff, filter_eq_nil_iff, mem_map]
  push Not
  constructor
  · rintro ⟨r, hr, rfl⟩
    exact ⟨r, hr, decide_eq_true rfl⟩
  · rintro ⟨r, hr, ht⟩
    exact ⟨r, hr, of_decide_eq_true ht⟩

theorem createFTSIndex_exact (bulkTerms : List C → List T) (rows : List (Option (List C))) :
    Exact (content bulkTerms (tableOf rows)) rows.length (createFTSIndex bulkTerms rows).index where
  bounded := by
    intro o ho
    unfold content
    rw [tableOf_of_le ho]
  docs_keyed := copyGroups_keyed _ _
  docs := by
    intro o
    refine (copyGroups_aggregate _ _ o).trans ?_
    rw [count_docs]
    by_cases ho : content bulkTerms (tableOf rows) o = []
    · rw [if_pos ho, if_neg (fun hin => mem_docs.mp hin ho)]
    · rw [if_neg ho, if_pos (mem_docs.mpr ho)]
  terms_keyed := copyGroups_keyed _ _
  terms := by
    intro t
    refine (copyGroups_aggregate _ _ t).trans ?_
    rw [← card_toFinset, docs_of_term]
    by_cases ht : holders (content bulkTerms (tableOf rows)) rows.length t = ∅
    · rw [if_pos ht, if_neg (fun hin => mem_terms.mp hin ht)]
    · rw [if_neg ht, if_pos (mem_terms.mpr ht)]
  mem_appearsIn := by
    intro e
    constructor
    · intro he
      obtain ⟨⟨t, o⟩, hr, rfl⟩ := mem_map.mp he
      have hin := mem_dedup.mp hr
      refine ⟨t, o, _, _, copyGroups_row_of_mem (mem_map_of_mem hin),
        copyGroups_row_of_mem (mem_map_of_mem hin), mem_appearsInfo.mp hin, ?_⟩
      rw [count_appearsInfo]
    · rintro ⟨t, o, p, q, hp, hq, ht, rfl⟩
      obtain ⟨-, rfl⟩ := copyGroups_row hp
      obtain ⟨-, rfl⟩ := copyGroups_row hq
      refine mem_map.mpr ⟨(t, o), mem_dedup.mpr (mem_appearsInfo.mpr ht), ?_⟩
      rw [count_appearsInfo]
  once := by
    show (List.map _ (List.map _ _)).Nodup
    rw [map_map]
    apply (nodup_dedup _).map_on
    rintro ⟨t, o⟩ hr ⟨t', o'⟩ hr' heq
    -- a group is determined by its offsets in the two tables
    have hterm := (idxOf_inj (mem_dedup.mpr
      (mem_map_of_mem (mem_dedup.mp hr)))).mp (Prod.mk.inj heq).1
    have hdoc := (idxOf_inj (mem_dedup.mpr
      (mem_map_of_mem (mem_dedup.mp hr)))).mp (Prod.mk.inj heq).2
    exact Prod.ext hterm hdoc

theorem createFTSIndex_maintained (bulkTerms : List C → List T) (rows : List (Option (List C))) :
    Maintained bulkTerms (createFTSIndex bulkTerms rows) where
  rows_lt := fun _ ho => tableOf_of_le ho
  marked := by
    intro o (hlive : (tableOf rows o).isSome = true)
    by_contra hge
    rw [tableOf_of_le (not_lt.mp hge)] at hlive
    exact absurd hlive Bool.false_ne_true
  mark_le := Nat.le_refl _
  exact := createFTSIndex_exact bulkTerms rows

/-- The rows of the table after an operation; a deleted row leaves its place empty. -/
def Op.rowsAfter (rows : List (Option (List C))) : Op C → List (Option (List C))
  | .insert new => rows ++ new.map some
  | .update offset columnIdx value => rows.modify offset (Option.map fun row => row.set columnIdx value)
  | .delete offsets => rows.mapIdx fun offset row => if offset ∈ offsets then none else row
  | .copy new => rows ++ new.map fun r => if r.2 then some r.1 else none

theorem Op.apply_rows {getTerms : List C → List T} {ord : TermOrder T} {d d' : Indexed C T}
    {op : Op C} (h : op.apply getTerms ord d = .ok d')
    (htable : d.table = tableOf rows) (hrows : d.numTotalRows = rows.length) :
    d'.table = tableOf (op.rowsAfter rows) ∧ d'.numTotalRows = (op.rowsAfter rows).length := by
  cases op with
  | insert new =>
    obtain ⟨index, -, h⟩ := bind_eq_ok.mp h
    cases h
    refine ⟨?_, by simp [Op.rowsAfter, hrows]⟩
    funext o
    simp only [Op.rowsAfter, tableOf, appendRows, htable, hrows, getElem?_append]
    grind
  | update offset columnIdx value =>
    have hlength : ((Op.update offset columnIdx value).rowsAfter rows).length = rows.length :=
      length_modify _ _ _
    simp only [Op.apply] at h
    cases hrow : d.table offset with
    | none =>
      rw [hrow] at h
      cases h
      refine ⟨?_, hrows.trans hlength.symm⟩
      funext o
      rw [htable] at hrow
      simp only [htable, tableOf, Op.rowsAfter, getElem?_modify] at hrow ⊢
      grind
    | some row =>
      rw [hrow] at h
      obtain ⟨index, -, h⟩ := bind_eq_ok.mp h
      cases h
      refine ⟨?_, hrows.trans hlength.symm⟩
      funext o
      rw [htable] at hrow
      simp only [htable, tableOf, Op.rowsAfter, getElem?_modify, update_apply] at hrow ⊢
      grind
  | delete offsets =>
    obtain ⟨index, -, h⟩ := bind_eq_ok.mp h
    cases h
    refine ⟨?_, by simp [Op.rowsAfter, hrows]⟩
    funext o
    simp only [deleteRows, tableOf, Op.rowsAfter, htable, getElem?_mapIdx, mem_dedup, mem_filter]
    cases rows[o]? with
    | none => simp
    | some row => cases row <;> simp
  | copy new =>
    obtain ⟨index, -, h⟩ := bind_eq_ok.mp h
    obtain ⟨index', -, h⟩ := bind_eq_ok.mp h
    cases h
    refine ⟨?_, by simp [Op.rowsAfter, hrows]⟩
    funext o
    simp only [Op.rowsAfter, tableOf, deleteRows, appendRows, htable, hrows, mem_filter,
      mem_range'_1, getElem?_append]
    grind

theorem runOps_rows {getTerms : List C → List T} {ord : TermOrder T} {d d' : Indexed C T}
    {ops : List (Op C)} (h : runOps getTerms ord d ops = .ok d') (htable : d.table = tableOf rows)
    (hrows : d.numTotalRows = rows.length) :
    d'.table = tableOf (ops.foldl Op.rowsAfter rows) := by
  induction ops generalizing d rows with
  | nil =>
    cases h
    exact htable
  | cons op ops ih =>
    obtain ⟨d₁, happly, hrest⟩ := bind_eq_ok.mp h
    obtain ⟨htable₁, hrows₁⟩ := Op.apply_rows happly htable hrows
    exact ih hrest htable₁ hrows₁

/-- An index that is created over any rows, by any tokenisation, is exact after any operations: none
of them fails, the live rows are those that the operations leave, and the three tables are those of
the live rows. -/
theorem maintenance_exact (getTerms : List C → List T) (ord : TermOrder T)
    (rows : List (Option (List C))) (ops : List (Op C)) :
    ∃ d, runOps getTerms ord (createFTSIndex getTerms rows) ops = .ok d ∧
      d.table = tableOf (ops.foldl Op.rowsAfter rows) ∧
      Exact (content getTerms d.table) d.numTotalRows d.index := by
  obtain ⟨d, hrun, hd⟩ := (createFTSIndex_maintained getTerms rows).runOps ord ops
  exact ⟨d, hrun, runOps_rows hrun rfl rfl, hd.exact⟩

end

end Ladybug.Fts
