import Mathlib.Data.List.Nodup
import Ladybug.Foreign.ForeignScan

/-!
# The columns of a PostgreSQL scan

The select list is made of the names in the bind data, and the vectors are matched with the answer
by these names.  The server folds names that are not quoted, and a name that is not in the answer
leaves its vector null.
-/

namespace Ladybug.ForeignScan

open List
open Markup (ascii)

variable {Row Cell : Type}

/-- A column of a table or an item of a query: its name and its value in a row. -/
structure BoundItem (Row Cell : Type) where
  name : Bytes
  value : Row → Cell

def foldByte (c : UInt8) : UInt8 := if 0x41 ≤ c ∧ c ≤ 0x5a then c + 0x20 else c

/-- What the server makes of an identifier that is not quoted. -/
def foldName (name : Bytes) : Bytes := name.map foldByte

structure PgTable (Row Cell : Type) where
  columns : List Bytes
  distinct : columns.Nodup
  cell : Bytes → Row → Cell

/-- An item of a rewritten query; its name is the alias. -/
structure SelectItem (Row Cell : Type) extends BoundItem Row Cell where
  expr : Bytes

def SelectItem.text (item : SelectItem Row Cell) : Bytes := item.expr ++ ascii " AS " ++ item.name

/-- The bind data that the catalog registers for a table, and that of a rewritten query. -/
inductive PgBindKind (Row Cell : Type) where
  | nodeTable (t : PgTable Row Cell)
  | relTable (t : PgTable Row Cell)
  | copyWithQuery (items : List (SelectItem Row Cell))

namespace PgBindKind

/-- The bound columns, with the values that they stand for. -/
def boundItems : PgBindKind Row Cell → List (BoundItem Row Cell)
  | nodeTable t => t.columns.map fun name => ⟨name, t.cell name⟩
  | relTable t => t.columns.map fun name => ⟨name, t.cell name⟩
  | copyWithQuery items => items.map SelectItem.toBoundItem

/-- `createForeignRelTable` has moved the names into its scan info before, and `copyWithQuery` keeps
whole items. -/
def columnNamesInPg : PgBindKind Row Cell → List Bytes
  | nodeTable t => t.columns
  | relTable _ => []
  | copyWithQuery items => items.map SelectItem.text

/-- The columns of the answer; a column that is not there is an error. -/
def answer : PgBindKind Row Cell → Option (List (BoundItem Row Cell))
  | nodeTable t =>
    if t.columns.all fun name => t.columns.contains (foldName name) then
      some (t.columns.map fun name => ⟨foldName name, t.cell (foldName name)⟩)
    else none
  | relTable _ => some []
  | copyWithQuery items => some (items.map fun item => ⟨foldName item.name, item.value⟩)

/-- The chunk has a vector for each bound column, behind one for the internal ID or not. -/
def bindData (kind : PgBindKind Row Cell) (withId : Bool) : ScanBindData where
  query := []
  columnNames := kind.columnNamesInPg
  columns := kind.boundItems.map BoundItem.name
  pushDown := ⟨[], [], none, []⟩
  numColumns := kind.boundItems.length + withId.toNat

end PgBindKind

def boundResult (items : List (BoundItem Row Cell)) (rows : List Row) : QueryResult Cell where
  columnNames := items.map BoundItem.name
  rows := rows.zipIdx.map fun row => (items.map fun item => item.value row.1, row.2)

/-- In every batch that is claimed, the vector of a bound column holds the values of this column. -/
def HoldsOwn (kind : PgBindKind Row Cell) (withId : Bool) (rows : List Row) : Prop :=
  ∀ items, kind.answer = some items → ∀ start size, start < rows.length →
    ∀ i item, kind.boundItems[i]? = some item →
    (i + withId.toNat, ColumnData.cells
        (((rows.drop start).take size).map fun row => some (item.value row))) ∈
      fill .pgClient (kind.bindData withId) (boundResult items rows) start size

/-- Every name in the bind data is the name that the server reports.  An item is never its own alias. -/
def NamesFound : PgBindKind Row Cell → Prop
  | .nodeTable t => (∀ name ∈ t.columns, foldName name ∈ t.columns) →
      ∀ name ∈ t.columns, foldName name = name
  | .relTable t => t.columns = []
  | .copyWithQuery items => items = []

variable {kind : PgBindKind Row Cell} {withId : Bool} {rows : List Row}
  {items : List (BoundItem Row Cell)} {item : BoundItem Row Cell} {i start size : Nat}

theorem foldName_foldName (name : Bytes) : foldName (foldName name) = foldName name := by
  have hbyte : ∀ c, foldByte (foldByte c) = foldByte c := by
    intro c
    unfold foldByte
    split
    next h =>
      rw [if_neg]
      simp only [UInt8.le_iff_toNat_le, UInt8.toNat_add, UInt8.reduceToNat] at h ⊢
      omega
    next => rfl
  unfold foldName
  rw [map_map]
  exact map_congr_left fun c _ => hbyte c

variable {result : QueryResult Cell}

theorem resultColMap_of_nodup {name : Bytes} (hnodup : result.columnNames.Nodup)
    (h : result.columnNames[i]? = some name) :
    resultColMap result name = some i := by
  have hin : (name, i) ∈ result.columnNames.zipIdx.reverse :=
    mem_reverse.mpr (mem_zipIdx_iff_getElem?.mpr h)
  unfold resultColMap
  cases hfind : find? (fun entry => decide (entry.1 = name)) result.columnNames.zipIdx.reverse with
  | none =>
    have hnot := find?_eq_none.mp hfind _ hin
    simp at hnot
  | some entry =>
    have hentry := mem_zipIdx_iff_getElem?.mp (mem_reverse.mp (mem_of_find?_eq_some hfind))
    have hfound := find?_some hfind
    have hname : entry.1 = name := of_decide_eq_true hfound
    rw [hname, ← h] at hentry
    have hlt := (List.getElem?_eq_some_iff.mp h).1
    exact congrArg some ((getElem?_inj hlt hnodup).mp hentry.symm).symm

theorem resultColMap_of_not_mem {name : Bytes} (h : name ∉ result.columnNames) :
    resultColMap result name = none := by
  unfold resultColMap
  rw [Option.map_eq_none_iff, find?_eq_none]
  intro entry hentry heq
  have hin := fst_mem_of_mem_zipIdx (mem_reverse.mp hentry)
  exact h (of_decide_eq_true heq ▸ hin)

theorem columnOf_boundResult (hitem : items[i]? = some item) :
    columnOf (boundResult items rows) start size i =
      .cells (((rows.drop start).take size).map fun row => some (item.value row)) := by
  have hvalues : (boundResult items rows).rows.map (fun row => row.1[i]?) =
      rows.map fun row => some (item.value row) := by
    unfold boundResult
    rw [map_map]
    conv_rhs => rw [← zipIdx_map_fst 0 rows, map_map]
    apply map_congr_left
    intro row _
    show (items.map fun item => item.value row.1)[i]? = _
    rw [getElem?_map, hitem]
    rfl
  unfold columnOf
  rw [map_take, map_drop, hvalues, ← map_drop, ← map_take]

theorem mem_fill {b : ScanBindData} {data : ColumnData Cell} :
    (i, data) ∈ fill .pgClient b result start size ↔
      i < b.numColumns ∧ data = pgColumn b result start size i := by
  show (i, data) ∈ (range b.numColumns).map (fun i => (i, pgColumn b result start size i)) ↔ _
  rw [mem_map]
  constructor
  · rintro ⟨j, hj, heq⟩
    cases heq
    exact ⟨mem_range.mp hj, rfl⟩
  · rintro ⟨hi, rfl⟩
    exact ⟨i, mem_range.mpr hi, rfl⟩

/-- The vector of a bound column, where the bind data has a name for each. -/
theorem pgColumn_named {name : Bytes} (hlength : kind.columnNamesInPg.length = kind.boundItems.length)
    (hname : kind.columnNamesInPg[i]? = some name) :
    pgColumn (kind.bindData withId) result start size (i + withId.toNat) =
      (resultColMap result name).elim .nulls (columnOf result start size) := by
  have hid : hasInternalIDColumn .pgClient (kind.bindData withId) = withId := by
    show decide (kind.columnNamesInPg.length < kind.boundItems.length + withId.toNat) = withId
    rw [hlength]
    cases withId with
    | false | true => simp
  have hplace (withId : Bool) : (kind.bindData withId).columnNames[i]? = some name := hname
  unfold pgColumn
  rw [hid]
  cases withId with
  | false =>
    simp only [Bool.false_and, Bool.toNat_false, Nat.add_zero, Bool.false_eq_true, if_false, hplace]
    cases resultColMap result name with
    | none | some => rfl
  | true =>
    simp only [Bool.true_and, Bool.toNat_true, Nat.add_eq_zero_iff, one_ne_zero, and_false,
      decide_false, if_true, Nat.add_sub_cancel, hplace]
    cases resultColMap result name with
    | none | some => rfl

theorem not_mem_folded {α : Type} {name : Bytes} (h : foldName name ≠ name) (f : α → Bytes)
    (xs : List α) : name ∉ xs.map fun x => foldName (f x) := by
  intro hin
  obtain ⟨x, -, rfl⟩ := mem_map.mp hin
  exact h (foldName_foldName (f x))

-- an item has the letters of its AS
theorem foldName_text (item : SelectItem Row Cell) : foldName item.text ≠ item.text := by
  unfold foldName
  intro h
  have hfold : foldByte 0x41 = 0x41 := by
    refine map_inj_left.mp (h.trans (map_id _).symm) 0x41 ?_
    unfold SelectItem.text
    exact mem_append_left _ (mem_append_right _ (by decide))
  exact absurd hfold (by decide)

/-- The server reports the bound columns, in their order and under the folded names. -/
structure Reports (kind : PgBindKind Row Cell) (items : List (BoundItem Row Cell)) : Prop where
  answered : kind.answer = some items
  named : kind.columnNamesInPg = kind.boundItems.map BoundItem.name
  distinct : (kind.boundItems.map BoundItem.name).Nodup
  folded : items.map BoundItem.name = kind.boundItems.map fun item => foldName item.name
  same : (∀ item ∈ kind.boundItems, foldName item.name = item.name) → items = kind.boundItems

theorem Reports.name_at (h : Reports kind items) (hitem : kind.boundItems[i]? = some item) :
    kind.columnNamesInPg[i]? = some item.name := by
  rw [h.named, getElem?_map, hitem]
  rfl

theorem holdsOwn_iff_folded (h : Reports kind items) (hrows : rows ≠ []) :
    HoldsOwn kind withId rows ↔ ∀ item ∈ kind.boundItems, foldName item.name = item.name := by
  have hlength : kind.columnNamesInPg.length = kind.boundItems.length := by rw [h.named, length_map]
  constructor
  · intro hholds item hitem
    obtain ⟨i, hi⟩ := mem_iff_getElem?.mp hitem
    have hvector :=
      (mem_fill.mp (hholds items h.answered 0 0 (length_pos_iff.mpr hrows) i item hi)).2
    by_contra hfold
    -- no folded name is a name that folding changes
    have hout : item.name ∉ (boundResult items rows).columnNames := by
      show item.name ∉ items.map BoundItem.name
      rw [h.folded]
      exact not_mem_folded hfold _ _
    rw [pgColumn_named hlength (h.name_at hi), resultColMap_of_not_mem hout] at hvector
    cases hvector
  · intro hfold items' hanswer start size _ i item hitem
    obtain rfl : items' = kind.boundItems :=
      (Option.some.inj (hanswer.symm.trans h.answered)).trans (h.same hfold)
    have hname : (kind.boundItems.map BoundItem.name)[i]? = some item.name := by
      rw [getElem?_map, hitem]
      rfl
    apply mem_fill.mpr
    constructor
    · show _ < kind.boundItems.length + withId.toNat
      have hlt := (List.getElem?_eq_some_iff.mp hitem).1
      omega
    · rw [pgColumn_named hlength (h.name_at hitem)]
      rw [@resultColMap_of_nodup _ i (boundResult kind.boundItems rows) _ h.distinct hname]
      exact (columnOf_boundResult hitem).symm

theorem holdsOwn_copyWithQuery {items : List (SelectItem Row Cell)} (hrows : rows ≠ []) :
    HoldsOwn (.copyWithQuery items) withId rows ↔ items = [] := by
  constructor
  · intro hholds
    by_contra hsome
    obtain ⟨item, rest, rfl⟩ := exists_cons_of_ne_nil hsome
    have hvector := (mem_fill.mp (hholds _ rfl 0 0 (length_pos_iff.mpr hrows) 0 _ rfl)).2
    have hout : item.text ∉ (boundResult ((item :: rest).map fun item =>
        (⟨foldName item.name, item.value⟩ : BoundItem Row Cell)) rows).columnNames := by
      unfold boundResult
      rw [map_map]
      exact not_mem_folded (foldName_text item) (BoundItem.name ∘ SelectItem.toBoundItem) _
    rw [pgColumn_named (by simp [PgBindKind.columnNamesInPg, PgBindKind.boundItems]) rfl,
      resultColMap_of_not_mem hout] at hvector
    cases hvector
  · rintro rfl items _ start size _ i item hitem
    cases hitem

theorem holdsOwn_relTable {t : PgTable Row Cell} (hrows : rows ≠ []) :
    HoldsOwn (.relTable t) withId rows ↔ t.columns = [] := by
  constructor
  · intro hholds
    by_contra hsome
    obtain ⟨name, names, hcolumns⟩ := exists_cons_of_ne_nil hsome
    have hfirst : (PgBindKind.relTable t).boundItems[0]? = some ⟨name, t.cell name⟩ := by
      show (t.columns.map _)[0]? = _
      rw [hcolumns]
      rfl
    have hvector := (mem_fill.mp (hholds [] rfl 0 0 (length_pos_iff.mpr hrows) 0 _ hfirst)).2
    have hid : hasInternalIDColumn .pgClient ((PgBindKind.relTable t).bindData withId) = true := by
      show decide (0 < (t.columns.map _).length + withId.toNat) = true
      rw [hcolumns]
      simp
    unfold pgColumn at hvector
    rw [hid] at hvector
    cases withId with
    | false | true => cases hvector
  · intro hnone items _ start size _ i item hitem
    have hlt := (List.getElem?_eq_some_iff.mp hitem).1
    have hlength : (t.columns.map fun name => (⟨name, t.cell name⟩ : BoundItem Row Cell)).length = 0 := by
      rw [hnone]
      rfl
    exact absurd (hlength ▸ hlt) (Nat.not_lt_zero i)

def knowsTable : PgTable Nat (Bytes × Nat) where
  columns := [Markup.ascii "src", Markup.ascii "dst"]
  distinct := by decide
  cell := fun name row => (name, row)

end Ladybug.ForeignScan
