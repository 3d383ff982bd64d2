import Mathlib.Data.List.Nodup
import Ladybug.Foreign.ForeignScan

/-!
# Internal IDs of foreign nodes

A row's internal ID is its position in the result of the query that was pushed down.  Two scans agree on
the rows' IDs exactly when one result is the beginning of the other.
-/

namespace Ladybug.ForeignScan

open List

open Markup (ascii)

section

variable {Row Cell : Type}

def ProducesIds (c : Connector) (b : ScanBindData) : Prop :=
  hasInternalIDColumn c b = true ∧ 0 < b.numColumns

variable {b : ScanBindData} {c : Connector} {vectorCapacity : Nat} {s : ScanState}

theorem selected_cons (h : hasInternalIDColumn .sqlite b = true) :
    ∃ rest, getColumnIndicesToSelect b = 0 :: rest := by
  unfold getColumnIndicesToSelect
  split
  · exact ⟨[], rfl⟩
  · have hpos : 0 < b.columns.length := by
      simp only [hasInternalIDColumn] at h
      by_contra hzero
      rw [if_pos (by omega)] at h
      cases h
    rw [show b.columns.length = b.columns.length - 1 + 1 by omega, range_succ_eq_map,
      filter_cons_of_pos (by simp [h])]
    exact ⟨_, rfl⟩

theorem lookup_fill (h : ProducesIds c b) (result : QueryResult Cell) (start size : Nat) :
    (fill c b result start size).lookup 0 = some (.internalId (range' start size)) := by
  cases c with
  | sqlite =>
    rcases selected_cons h.1 with ⟨rest, hselected⟩
    have hcolumns : ∀ compactOutput : Bool, ∃ more : List (Nat × ColumnData Cell),
        sqliteColumns b result start size compactOutput (0 :: rest) 0 0 =
          (0, .internalId (range' start size)) :: more := by
      intro compactOutput
      refine ⟨sqliteColumns b result start size compactOutput rest 0 1, ?_⟩
      have hplace : (if compactOutput then 0 else 0) = 0 := ite_self 0
      have hroom : ¬b.numColumns ≤ 0 := Nat.not_le.mpr h.2
      rw [sqliteColumns, hplace]
      simp only [h.1, decide_true, Bool.and_self, hroom, if_false, if_true]
    simp only [fill, hselected]
    rcases hcolumns (decide (b.numColumns < b.columns.length)) with ⟨more, hmore⟩
    rw [hmore, cons_append]
    rfl
  | pgClient =>
    simp only [fill]
    rw [show b.numColumns = b.numColumns - 1 + 1 by have := h.2; omega, range_succ_eq_map]
    have hfirst : pgColumn b result start size 0 = .internalId (range' start size) := by
      unfold pgColumn
      simp only [h.1, decide_true, Bool.and_self, if_true]
    rw [map_cons, hfirst]
    rfl

theorem mem_identitiesOf (h : ProducesIds c b) (result : QueryResult Cell) (m : Morsel)
    (x : Identity) :
    x ∈ identitiesOf (fill c b result m.startOffset m.batchSize) result m ↔
      m.startOffset ≤ x.id ∧ x.id < m.startOffset + m.batchSize ∧
        (result.rows.map Prod.snd)[x.id]? = some x.row := by
  have hrows : ∀ k < m.batchSize, ((result.rows.drop m.startOffset).take m.batchSize)[k]? =
      result.rows[m.startOffset + k]? := by
    intro k hk
    rw [getElem?_take_of_lt hk, getElem?_drop]
  have hids : ∀ k < m.batchSize, (range' m.startOffset m.batchSize)[k]? =
      some (m.startOffset + k) := by
    intro k hk
    rw [getElem?_range' hk, Nat.one_mul]
  unfold identitiesOf
  rw [lookup_fill h]
  rw [mem_iff_getElem?]
  simp only [getElem?_zipWith_eq_some]
  constructor
  · rintro ⟨k, row, id, hrow, hid, rfl⟩
    have hk : k < m.batchSize := by
      have hlt := (List.getElem?_eq_some_iff.mp hid).1
      rwa [length_range'] at hlt
    rw [hids k hk, Option.some.injEq] at hid
    rw [hrows k hk] at hrow
    show m.startOffset ≤ id ∧ id < m.startOffset + m.batchSize ∧
      (result.rows.map Prod.snd)[id]? = some row.2
    rw [← hid, getElem?_map, hrow]
    refine ⟨?_, ?_, rfl⟩
    · omega
    · omega
  · rintro ⟨hle, hlt, hrow⟩
    rw [getElem?_map, Option.map_eq_some_iff] at hrow
    rcases hrow with ⟨row, hrow, hnumber⟩
    have hk : x.id - m.startOffset < m.batchSize := by omega
    have hplace : m.startOffset + (x.id - m.startOffset) = x.id := by omega
    refine ⟨x.id - m.startOffset, row, x.id, ?_, ?_, ?_⟩
    · rw [hrows _ hk, hplace]
      exact hrow
    · rw [hids _ hk, hplace]
    · rw [hnumber]

/-- What holds in every state of a scan: rows are returned under their positions, and each position below
the offset is returned or in a morsel that some worker still holds. -/
structure ScanInv (result : QueryResult Cell) (s : ScanState) : Prop where
  placed : ∀ x ∈ s.returned, (result.rows.map Prod.snd)[x.id]? = some x.row
  covered : ∀ p < s.currentOffset, (∃ x ∈ s.returned, x.id = p) ∨
    ∃ m ∈ s.claimed, m.startOffset ≤ p ∧ p < m.startOffset + m.batchSize
  bounded : s.currentOffset ≤ result.rows.length

variable {result : QueryResult Cell}

theorem scanInv_claim {s' : ScanState} (h : ScanInv result s)
    (step : claim vectorCapacity result s = some s') : ScanInv result s' := by
  unfold claim at step
  split at step
  · cases step
  · rw [← Option.some.inj step]
    constructor
    · exact h.placed
    · intro p hp
      by_cases hold : p < s.currentOffset
      · rcases h.covered p hold with hreturned | ⟨m, hm, hbounds⟩
        · exact .inl hreturned
        · exact .inr ⟨m, mem_cons_of_mem _ hm, hbounds⟩
      · -- the new morsel
        exact .inr ⟨_, mem_cons_self, Nat.le_of_not_lt hold, hp⟩
    · show s.currentOffset + min (result.rows.length - s.currentOffset) vectorCapacity ≤ _
      omega

theorem scanInv_fill (hids : ProducesIds c b) {m : Morsel} (h : ScanInv result s) :
    ScanInv result { s with
      claimed := s.claimed.erase m
      returned := s.returned ++
        identitiesOf (fill c b result m.startOffset m.batchSize) result m } := by
  constructor
  · intro x hx
    rcases mem_append.mp hx with hx | hx
    · exact h.placed x hx
    · exact ((mem_identitiesOf hids result m x).mp hx).2.2
  · intro p hp
    rcases h.covered p hp with ⟨x, hx, hid⟩ | ⟨m', hm', hlo, hhi⟩
    · exact .inl ⟨x, mem_append_left _ hx, hid⟩
    · by_cases heq : m' = m
      · -- the morsel that is filled
        left
        have hlt : p < (result.rows.map Prod.snd).length := by
          have hoffset : p < s.currentOffset := hp
          have hbounded := h.bounded
          rw [length_map]
          omega
        refine ⟨⟨(result.rows.map Prod.snd)[p], p⟩, mem_append_right _ ?_, rfl⟩
        rw [heq] at hlo hhi
        exact (mem_identitiesOf hids result m _).mpr ⟨hlo, hhi, getElem?_eq_getElem hlt⟩
      · exact .inr ⟨m', (mem_erase_of_ne heq).mpr hm', hlo, hhi⟩
  · exact h.bounded

section

variable (hids : ProducesIds c b) (run : ScanRun c b vectorCapacity result s)

include hids run

theorem scanInv_run : ScanInv result s := by
  induction run with
  | start =>
    constructor
    · exact fun x hx => absurd hx not_mem_nil
    · exact fun p hp => absurd hp (Nat.not_lt_zero p)
    · exact Nat.zero_le _
  | claim run step ih => exact scanInv_claim ih step
  | fill run mine ih => exact scanInv_fill hids ih

theorem mem_returned_iff (finished : s.Finished result) (x : Identity) :
    x ∈ s.returned ↔ (result.rows.map Prod.snd)[x.id]? = some x.row := by
  have hinv := scanInv_run hids run
  refine ⟨hinv.placed x, fun hx => ?_⟩
  have hlt : x.id < s.currentOffset := by
    have hlen := (List.getElem?_eq_some_iff.mp hx).1
    rw [length_map] at hlen
    exact Nat.lt_of_lt_of_le hlen finished.1
  rcases hinv.covered x.id hlt with ⟨y, hy, hid⟩ | ⟨m, hm, -⟩
  · have hrow := hinv.placed y hy
    rw [hid, hx, Option.some.injEq] at hrow
    have heq : x = y := by
      cases x with
      | mk row id =>
        cases y with
        | mk row' id' =>
          have hid' : id' = id := hid
          have hrow' : row = row' := hrow
          rw [hid', hrow']
    exact heq ▸ hy
  · rw [finished.2] at hm
    exact absurd hm not_mem_nil

end

def SameIdentities (xs ys : List Identity) : Prop := ∀ x ∈ xs, ∀ y ∈ ys, x.row = y.row ↔ x.id = y.id

theorem nodup_numbersOf (db : Database Row Cell) (table : List Row) (s : Select) :
    (db.numbersOf table s).Nodup := by
  have hkept : ((table.zipIdx.filter fun row => s.predicates.all fun p => db.holds p row.1).map
      Prod.snd).Nodup := by
    have hsub := (filter_sublist (l := table.zipIdx)
      (p := fun row => s.predicates.all fun p => db.holds p row.1)).map Prod.snd
    rw [zipIdx_map_snd] at hsub
    exact hsub.nodup nodup_range'
  have harranged := ((db.arrange_perm s.orderBy _).map Prod.snd).nodup_iff.mpr hkept
  unfold Database.numbersOf Database.rowsOf
  split
  · exact harranged
  · exact (take_sublist _ _).map Prod.snd |>.nodup harranged

theorem numbers_executeQuery (db : Database Row Cell) (table : List Row) (s : Select) :
    (db.executeQuery table s).rows.map Prod.snd = db.numbersOf table s := by
  unfold Database.executeQuery Database.numbersOf
  rw [map_map]
  rfl

theorem getElem?_longer {xs ys : List Nat} (h : xs <+: ys) {p n : Nat} (hp : xs[p]? = some n) :
    ys[p]? = some n := by
  rcases h with ⟨rest, rfl⟩
  rw [getElem?_append_left (List.getElem?_eq_some_iff.mp hp).1]
  exact hp

theorem prefix_or_prefix {xs ys : List Nat}
    (h : ∀ p, p < xs.length → p < ys.length → xs[p]? = ys[p]?) : xs <+: ys ∨ ys <+: xs := by
  have hshorter : ∀ {as bs : List Nat}, as.length ≤ bs.length →
      (∀ p, p < as.length → as[p]? = bs[p]?) → as <+: bs := by
    intro as bs hle hall
    rw [prefix_iff_eq_take]
    apply ext_getElem?
    intro p
    by_cases hp : p < as.length
    · rw [getElem?_take_of_lt hp]
      exact hall p hp
    · rw [getElem?_eq_none (Nat.le_of_not_lt hp), getElem?_eq_none]
      rw [length_take]
      omega
  rcases Nat.le_total xs.length ys.length with hle | hle
  · exact .inl (hshorter hle (fun p hp => h p hp (by omega)))
  · exact .inr (hshorter hle (fun p hp => (h p (by omega) hp).symm))

/-- For every table, every two scans of it that produce internal IDs, and every run of each to its end:
rows and IDs agree if and only if one scan's result is the beginning of the other's. -/
theorem node_identity_iff (db : Database Row Cell) (table : List Row) (c : Connector)
    (vectorCapacity : Nat) (a b : ScanBindData) (sa sb : ScanState) (ha : ProducesIds c a)
    (hb : ProducesIds c b)
    (ra : ScanRun c a vectorCapacity (db.executeQuery table (select c a)) sa)
    (rb : ScanRun c b vectorCapacity (db.executeQuery table (select c b)) sb)
    (fa : sa.Finished (db.executeQuery table (select c a)))
    (fb : sb.Finished (db.executeQuery table (select c b))) :
    SameIdentities sa.returned sb.returned ↔
      db.numbersOf table (select c a) <+: db.numbersOf table (select c b) ∨
        db.numbersOf table (select c b) <+: db.numbersOf table (select c a) := by
  have hmema := mem_returned_iff ha ra fa
  have hmemb := mem_returned_iff hb rb fb
  rw [numbers_executeQuery] at hmema hmemb
  have hnodupa := nodup_numbersOf db table (select c a)
  have hnodupb := nodup_numbersOf db table (select c b)
  generalize db.numbersOf table (select c a) = xs at *
  generalize db.numbersOf table (select c b) = ys at *
  constructor
  · intro hsame
    apply prefix_or_prefix
    intro p hpx hpy
    have hx := (hmema ⟨xs[p], p⟩).mpr (getElem?_eq_getElem hpx)
    have hy := (hmemb ⟨ys[p], p⟩).mpr (getElem?_eq_getElem hpy)
    have hrow : xs[p] = ys[p] := (hsame _ hx _ hy).mpr rfl
    rw [getElem?_eq_getElem hpx, getElem?_eq_getElem hpy, hrow]
  · intro hprefix x hx y hy
    have hx := (hmema x).mp hx
    have hy := (hmemb y).mp hy
    -- both positions are in the longer result
    have hlonger : ∀ {zs : List Nat}, zs.Nodup → zs[x.id]? = some x.row → zs[y.id]? = some y.row →
        (x.row = y.row ↔ x.id = y.id) := by
      intro zs hnodup hzx hzy
      constructor
      · intro hrow
        rw [← hrow] at hzy
        have hlt := (List.getElem?_eq_some_iff.mp hzx).1
        exact (getElem?_inj hlt hnodup).mp (hzx.trans hzy.symm)
      · intro hid
        rw [hid, hzy] at hzx
        exact (Option.some.inj hzx).symm
    rcases hprefix with hprefix | hprefix
    · exact hlonger hnodupb (getElem?_longer hprefix hx) hy
    · exact hlonger hnodupa hx (getElem?_longer hprefix hy)

end

def numbers : Database Nat Nat where
  holds := fun text row => decide (text = decimal row)
  evaluate := fun _ row => row
  columnName := id
  arrange := fun _ rows => rows
  arrange_perm := fun _ rows => List.Perm.refl rows

/-- A scan of the column `k` under a node pattern. -/
def scanOf (predicates : List (Option Bytes)) (limitNum : Option Nat) (skipped : Bool) :
    ScanBindData where
  query := ascii "SELECT \x7b\x7d FROM \"t\""
  columnNames := [ascii "k"]
  columns := [ascii "n._ID", ascii "n.k"]
  pushDown := ⟨predicates, [], limitNum, [false, skipped]⟩
  numColumns := 2

def wholeScan : ScanBindData := scanOf [] none false

def filteredScan : ScanBindData := scanOf [some (ascii "2")] none false

/-- Another limit, and the column skipped. -/
def limitedScan : ScanBindData := scanOf [] (some 1) true

theorem producesIds_scanOf (predicates : List (Option Bytes)) (limitNum : Option Nat)
    (skipped : Bool) : ProducesIds .sqlite (scanOf predicates limitNum skipped) := by
  constructor
  · show hasInternalIDColumn .sqlite wholeScan = true
    decide
  · exact Nat.two_pos

def resultOf (b : ScanBindData) : QueryResult Nat := numbers.executeQuery [1, 2] (select .sqlite b)

def oneMorsel (b : ScanBindData) : ScanState :=
  let result := resultOf b
  ⟨result.rows.length, [], identitiesOf (fill .sqlite b result 0 result.rows.length) result
    ⟨0, result.rows.length⟩⟩

theorem run_oneMorsel {b : ScanBindData} (hpos : 0 < (resultOf b).rows.length)
    (hfits : (resultOf b).rows.length ≤ 2048) :
    ScanRun .sqlite b 2048 (resultOf b) (oneMorsel b) := by
  have hclaim : claim 2048 (resultOf b) ⟨0, [], []⟩ =
      some ⟨(resultOf b).rows.length, [⟨0, (resultOf b).rows.length⟩], []⟩ := by
    unfold claim
    rw [if_neg (Nat.not_le.mpr hpos)]
    simp only [Nat.sub_zero, Nat.zero_add, Nat.min_eq_left hfits]
  have hrun := ScanRun.fill (ScanRun.claim (@ScanRun.start Nat .sqlite b 2048 _) hclaim)
    mem_cons_self
  rw [erase_cons_head, nil_append] at hrun
  exact hrun

theorem node_identity_iff_limited :
    SameIdentities (oneMorsel limitedScan).returned (oneMorsel wholeScan).returned :=
  (node_identity_iff numbers [1, 2] .sqlite 2048 limitedScan wholeScan (oneMorsel limitedScan)
    (oneMorsel wholeScan) (producesIds_scanOf _ _ _) (producesIds_scanOf _ _ _)
    (run_oneMorsel (by decide) (by decide)) (run_oneMorsel (by decide) (by decide))
    ⟨Nat.le_refl _, rfl⟩ ⟨Nat.le_refl _, rfl⟩).mpr (.inl (by decide))

/-- The second row has the ID one in a scan of the whole table, and zero in a scan for it. -/
theorem filtered_scan_renumbers :
    ScanRun .sqlite wholeScan 2048 (resultOf wholeScan) (oneMorsel wholeScan) ∧
    ScanRun .sqlite filteredScan 2048 (resultOf filteredScan) (oneMorsel filteredScan) ∧
    (oneMorsel wholeScan).Finished (resultOf wholeScan) ∧
    (oneMorsel filteredScan).Finished (resultOf filteredScan) ∧
    ¬SameIdentities (oneMorsel wholeScan).returned (oneMorsel filteredScan).returned := by
  have hrows : (resultOf filteredScan).rows.length = 1 := by decide +kernel
  refine ⟨run_oneMorsel (by decide) (by decide), run_oneMorsel ?_ ?_, ⟨Nat.le_refl _, rfl⟩,
    ⟨Nat.le_refl _, rfl⟩, fun h => ?_⟩
  · omega
  · omega
  · have hwhole : (⟨1, 1⟩ : Identity) ∈ (oneMorsel wholeScan).returned := by
      decide +kernel
    have hfiltered : (⟨1, 0⟩ : Identity) ∈ (oneMorsel filteredScan).returned := by
      decide +kernel
    have hids : (1 : Nat) = 0 := (h _ hwhole _ hfiltered).mp rfl
    exact absurd hids Nat.one_ne_zero

end Ladybug.ForeignScan
