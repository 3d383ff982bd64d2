import Ladybug.Sqlite.SyncEngine

/-!
# Node tables with a primary key of their own

The resolver knows a row by its rowid, the graph by its primary key.  A node table is carried over
exactly when the two agree on which rows are gone: the key of an old row is free in the new contents
precisely when the row itself was given up.
-/

namespace Ladybug.Sqlite

open List

/-! ## 1. Fields of a struct literal -/

section

variable {V : Type} [RenderDouble] (lits : Literals V)

def columnLit (values : List SqliteValue) (col : BoundColumn) : Option String :=
  values[col.recordIndex]?.bind fun v => (renderCypherValue v col.type).toOption

/-- The value of a column in a record; null where the record lacks it or it does not render. -/
def columnValue (values : List SqliteValue) (col : BoundColumn) : V :=
  match columnLit values col with
  | some lit => lits.denote lit
  | none => lits.null

def namedValue (cols : List BoundColumn) (values : List SqliteValue) (q : String) : V :=
  match cols.find? fun col => col.name = q with
  | some col => columnValue lits values col
  | none => lits.null

variable {cols : List BoundColumn}

theorem namedValue_of_notMem {values : List SqliteValue} {q : String}
    (h : q ∉ cols.map BoundColumn.name) : namedValue lits cols values q = lits.null := by
  have hnone : cols.find? (fun col => col.name = q) = none := by
    rw [find?_eq_none]
    intro col hcol heq
    exact h (mem_map.mpr ⟨col, hcol, of_decide_eq_true heq⟩)
  unfold namedValue
  rw [hnone]

theorem field_filterMap (hnodup : (cols.map BoundColumn.name).Nodup) (values : List SqliteValue)
    (q : String) :
    lits.field (cols.filterMap fun col => (columnLit values col).map fun lit => (col.name, lit)) q =
      namedValue lits cols values q := by
  induction cols with
  | nil => rfl
  | cons col cols ih =>
    rw [map_cons, nodup_cons] at hnodup
    have hfind : namedValue lits (col :: cols) values q =
        if col.name = q then columnValue lits values col else namedValue lits cols values q := by
      unfold namedValue
      rw [find?_cons]
      by_cases hq : col.name = q
      · rw [decide_eq_true hq, if_pos hq]
      · rw [decide_eq_false hq, if_neg hq]
    rw [hfind, filterMap_cons]
    cases hlit : columnLit values col with
    | none =>
      -- a column that does not render has no field, and no other column has its name
      rw [Option.map_none]
      rw [ih hnodup.2]
      by_cases hq : col.name = q
      · rw [if_pos hq, namedValue_of_notMem lits (hq ▸ hnodup.1)]
        unfold columnValue
        rw [hlit]
      · rw [if_neg hq]
    | some lit =>
      rw [Option.map_some]
      rw [field_cons, ih hnodup.2]
      unfold columnValue
      rw [hlit]
      simp only [eq_comm]

theorem field_propFields {target : BoundTarget}
    (hnodup : (target.props.map BoundColumn.name).Nodup) (values : List SqliteValue) (q : String) :
    lits.field (target.propFields values) q = namedValue lits target.props values q := by
  rw [← field_filterMap lits hnodup]
  unfold BoundTarget.propFields
  congr 2
  funext col
  unfold columnLit
  cases values[col.recordIndex]? <;> rfl

end

/-! ## 2. Rows as nodes -/

section

variable {V : Type} [RenderDouble] (lits : Literals V) (target : BoundTarget)

def nodeKey (x : Int64) (values : List SqliteValue) : V :=
  match renderIdentity target ⟨target.mapping.sqliteTable, x, values⟩ with
  | .ok lit => lits.denote lit
  | .error _ => lits.null

def nodeProps (_ : Int64) (values : List SqliteValue) : String → V :=
  namedValue lits target.props values

/-- The graph holds exactly one node per row of `v`, under its key and with its values. -/
def HoldsNodes (g : Graph V) (v : TableView) : Prop :=
  Indexes (nodeKey lits target) (nodeProps lits target) (g.nodes target.mapping.label) v.record

/-- Every row of `v` has a key of its own. -/
structure Keyed (v : TableView) : Prop where
  ne_null : ∀ x a, v.record x = some a → nodeKey lits target x a ≠ lits.null
  inj : KeyInj (nodeKey lits target) v.record

/-- Distinct property columns, none of them the identity. -/
structure PropNames : Prop where
  nodup : (target.props.map BoundColumn.name).Nodup
  identity : target.mapping.idColumn ∉ target.props.map BoundColumn.name

end

section

variable {V : Type} [RenderDouble] {lits : Literals V} {target : BoundTarget}

theorem nodeRow_of_key {op : RowOp} (hkey : nodeKey lits target op.rowid op.values ≠ lits.null) :
    ∃ lit, nodeRow target op = some ((target.mapping.idColumn, lit) :: target.propFields op.values) ∧
      lits.denote lit = nodeKey lits target op.rowid op.values := by
  have hrender : renderIdentity target op =
      renderIdentity target ⟨target.mapping.sqliteTable, op.rowid, op.values⟩ := rfl
  unfold nodeKey at hkey ⊢
  unfold nodeRow
  rw [hrender]
  cases hlit : renderIdentity target ⟨target.mapping.sqliteTable, op.rowid, op.values⟩ with
  | error e =>
    rw [hlit] at hkey
    exact absurd rfl hkey
  | ok lit => exact ⟨lit, rfl, rfl⟩

/-- Properties outside the mapped ones are null. -/
def Tidy (lits : Literals V) (target : BoundTarget) (g : Graph V) : Prop :=
  ∀ k old, g.nodes target.mapping.label k = some old →
    ∀ q, q ∉ target.props.map BoundColumn.name → old q = lits.null

variable {g : Graph V}

theorem tidy_of_holds {v : TableView} (h : HoldsNodes lits target g v) : Tidy lits target g := by
  intro k old hk q hq
  obtain ⟨x, a, -, -, rfl⟩ := (h k old).mp hk
  exact namedValue_of_notMem lits hq

variable [DecidableEq V]

theorem mergeRow_eq (hnames : PropNames target) (htidy : Tidy lits target g) {op : RowOp}
    {lit : String} (hkey : lits.denote lit = nodeKey lits target op.rowid op.values)
    (hne : nodeKey lits target op.rowid op.values ≠ lits.null) :
    mergeRow lits target.mapping.label target.mapping.idColumn (target.props.map BoundColumn.name) g
        ((target.mapping.idColumn, lit) :: target.propFields op.values) =
      g.setNode target.mapping.label (nodeKey lits target op.rowid op.values)
        (nodeProps lits target op.rowid op.values) := by
  have hid : lits.field ((target.mapping.idColumn, lit) :: target.propFields op.values)
      target.mapping.idColumn = nodeKey lits target op.rowid op.values := by
    rw [field_cons, if_pos rfl, hkey]
  unfold mergeRow
  rw [hid, if_neg hne]
  congr 1
  funext q
  by_cases hq : q ∈ target.props.map BoundColumn.name
  · have hother : q ≠ target.mapping.idColumn := fun heq => hnames.identity (heq ▸ hq)
    rw [if_pos hq, field_cons, if_neg hother, field_propFields lits hnames.nodup]
    rfl
  · have hnull : nodeProps lits target op.rowid op.values q = lits.null :=
      namedValue_of_notMem lits hq
    rw [if_neg hq, hnull]
    cases hold : g.nodes target.mapping.label (nodeKey lits target op.rowid op.values) with
    | none => rfl
    | some old => exact htidy _ old hold q hq

theorem Tidy.setNode (h : Tidy lits target g) (k : V) (x : Int64) (values : List SqliteValue) :
    Tidy lits target (g.setNode target.mapping.label k (nodeProps lits target x values)) := by
  intro k' old hk q hq
  rw [setNode_nodes, Function.update_apply] at hk
  split at hk
  · cases hk
    exact namedValue_of_notMem lits hq
  · exact h k' old hk q hq

theorem upserts_nodes (hnames : PropNames target) {ops : List RowOp} (htidy : Tidy lits target g)
    (hkeys : ∀ op ∈ ops, nodeKey lits target op.rowid op.values ≠ lits.null) :
    (runAll lits (buildNodeUpserts target ops) g).nodes target.mapping.label =
      setAll ((ops.map RowOp.entry).map (rekey (nodeKey lits target) (nodeProps lits target)))
        (g.nodes target.mapping.label) := by
  unfold buildNodeUpserts
  rw [runAll_batched lits 500 (nodeRow target) (fun _ _ => rfl)]
  unfold setAll
  -- row by row; the nodes stay tidy on the way
  induction ops generalizing g with
  | nil => rfl
  | cons op ops ih =>
    have hne := hkeys op mem_cons_self
    obtain ⟨lit, hrow, hlit⟩ := nodeRow_of_key hne
    rw [filterMap_cons_some hrow, foldl_cons, mergeRow_eq hnames htidy hlit hne,
      ih (htidy.setNode _ op.rowid op.values)
        (fun op' hop' => hkeys op' (mem_cons_of_mem op hop')), setNode_nodes]
    rfl

theorem deletes_nodes {dels : List RowDelete}
    (hids : ∀ d ∈ dels, ∀ lit, deleteId target d = some lit → lits.denote lit ≠ lits.null) :
    (runAll lits (buildNodeDeletes target dels) g).nodes target.mapping.label =
      eraseAll ((dels.filterMap (deleteId target)).map lits.denote)
        (g.nodes target.mapping.label) := by
  unfold buildNodeDeletes
  rw [runAll_batched lits 2000 (deleteId target) (fun _ _ => rfl)]
  have hne : ∀ lit ∈ dels.filterMap (deleteId target), lits.denote lit ≠ lits.null := by
    intro lit hlit
    obtain ⟨d, hd, hid⟩ := mem_filterMap.mp hlit
    exact hids d hd lit hid
  generalize dels.filterMap (deleteId target) = ids at hne ⊢
  induction ids generalizing g with
  | nil => rfl
  | cons lit ids ih =>
    have hstep : deleteRow lits target.mapping.label g lit =
        g.detachNode target.mapping.label (lits.denote lit) :=
      if_neg (hne lit mem_cons_self)
    rw [foldl_cons, hstep, ih fun lit' hlit' => hne lit' (mem_cons_of_mem lit hlit'),
      detachNode_nodes]
    rfl

end

/-! ## 3. Primary keys -/

structure PkTable (s : TableSchema) (mapping : TableMapping) (columns : List SyncColumn) : Prop where
  kind : mapping.kind = .node
  idFromRowid : mapping.idFromRowid = false
  table : mapping.sqliteTable = s.name
  withoutRowid : s.withoutRowid = false
  pkFromRowid : s.pkFromRowid = false
  pkRecordIndex : s.pkRecordIndex = mapping.idRecordIndex
  idColumn : columns[mapping.idRecordIndex]?.map SyncColumn.name = some mapping.idColumn
  names : (columns.map SyncColumn.name).Nodup

theorem boundColumn_names (columns : List SyncColumn) :
    (columns.zipIdx.map boundColumn).map BoundColumn.name = columns.map SyncColumn.name := by
  rw [map_map]
  have hname : BoundColumn.name ∘ boundColumn = SyncColumn.name ∘ Prod.fst := rfl
  rw [hname, ← map_map, zipIdx_map_fst]

variable {columns : List SyncColumn} {v : TableView}

theorem props_nodup (mapping : TableMapping) (hnames : (columns.map SyncColumn.name).Nodup) :
    ((bindTarget mapping columns).props.map BoundColumn.name).Nodup := by
  have hall := boundColumn_names columns ▸ hnames
  exact hall.sublist (filter_sublist.map BoundColumn.name)

variable {mapping : TableMapping} {V : Type} {lits : Literals V}

theorem mem_props {col : BoundColumn} (h : col ∈ (bindTarget mapping columns).props) :
    columns[col.recordIndex]?.map SyncColumn.name = some col.name ∧ isProp mapping col := by
  obtain ⟨hmem, hprop⟩ := mem_filter.mp h
  obtain ⟨c, hc, rfl⟩ := mem_map.mp hmem
  refine ⟨?_, hprop⟩
  rw [mem_zipIdx_iff_getElem?] at hc
  exact congrArg (Option.map SyncColumn.name) hc

theorem index_of_name (hnames : (columns.map SyncColumn.name).Nodup) {i j : Nat} {n : String}
    (hi : columns[i]?.map SyncColumn.name = some n) (hj : columns[j]?.map SyncColumn.name = some n) :
    i = j := by
  rw [← getElem?_map] at hi hj
  have hlen : i < (columns.map SyncColumn.name).length := by
    by_contra hle
    rw [getElem?_eq_none (not_lt.mp hle)] at hi
    cases hi
  exact (getElem?_inj hlen hnames).mp (hi.trans hj.symm)

theorem PkTable.propNames {s : TableSchema} (h : PkTable s mapping columns) :
    PropNames (bindTarget mapping columns) where
  nodup := props_nodup mapping h.names
  identity := by
    intro hmem
    obtain ⟨col, hcol, hname⟩ := mem_map.mp hmem
    obtain ⟨hat, hprop⟩ := mem_props hcol
    have hindex : col.recordIndex = mapping.idRecordIndex :=
      index_of_name h.names hat (hname ▸ h.idColumn)
    unfold isProp at hprop
    rw [h.kind] at hprop
    simp [h.idFromRowid, hindex] at hprop

structure BuiltFrom (st₀ : TableState) (s : TableSchema) (v₀ : TableView) : Prop where
  wf : v₀.Wf
  tracks : Tracks st₀ v₀
  keeps : KeepsAs st₀ s
  retains : Retains st₀ v₀

section

variable {V : Type} [RenderDouble] {lits : Literals V} {s : TableSchema} {mapping : TableMapping}
  {columns : List SyncColumn} {st₀ : TableState} {v₀ v : TableView} {batch : OpBatch}

theorem deleteId_rowDelete (hpk : PkTable s mapping columns) (hbuilt : BuiltFrom st₀ s v₀)
    {x : Int64} {a : List SqliteValue} (hx : v₀.record x = some a)
    (hkey : nodeKey lits (bindTarget mapping columns) x a ≠ lits.null) :
    ∃ lit, deleteId (bindTarget mapping columns) (rowDelete s.name st₀ x) = some lit ∧
      lits.denote lit = nodeKey lits (bindTarget mapping columns) x a := by
  have hpkValue : (TableState.ofSchema s).pkValue a = a[mapping.idRecordIndex]? := by
    unfold TableState.pkValue TableState.ofSchema
    simp [hpk.pkFromRowid, hpk.pkRecordIndex]
  have hidentity : (rowDelete s.name st₀ x).identity = a[mapping.idRecordIndex]? := by
    unfold rowDelete
    rw [hbuilt.retains.identities x, hx, Option.bind_some, hbuilt.keeps.1, hpkValue]
  have hsource : (bindTarget mapping columns).mapping.idFromRowid = false := hpk.idFromRowid
  have hindex : (bindTarget mapping columns).mapping.idRecordIndex = mapping.idRecordIndex := rfl
  unfold nodeKey renderIdentity at hkey ⊢
  unfold deleteId
  rw [hidentity]
  simp only [hsource, hindex, Bool.false_eq_true, if_false] at hkey ⊢
  cases hv : a[mapping.idRecordIndex]? with
  | none =>
    rw [hv] at hkey
    exact absurd rfl hkey
  | some value =>
    rw [hv] at hkey
    simp only at hkey ⊢
    cases hlit : renderCypherValue value (bindTarget mapping columns).idType with
    | error e =>
      rw [hlit] at hkey
      exact absurd rfl hkey
    | ok lit => exact ⟨lit, rfl, rfl⟩

variable [DecidableEq V] {g : Graph V} {gone : Int64 → Prop}

/-- The statements of a delta leave one node per new row exactly when the keys that became free are
those of the rows given up. -/
theorem nodeStatements_iff (hpk : PkTable s mapping columns) (hbuilt : BuiltFrom st₀ s v₀)
    (hdelta : TableDelta batch s.name st₀ v₀ v gone) (hgone : ∀ x, gone x → v₀.record x ≠ none)
    (hkeys₀ : Keyed lits (bindTarget mapping columns) v₀)
    (hkeys : Keyed lits (bindTarget mapping columns) v)
    (hold : HoldsNodes lits (bindTarget mapping columns) g v₀) :
    HoldsNodes lits (bindTarget mapping columns)
        (runAll lits (nodeStatements (bindTarget mapping columns) batch) g) v ↔
      ∀ x a, v₀.record x = some a → (gone x ↔ ∀ y b, v.record y = some b →
        nodeKey lits (bindTarget mapping columns) y b ≠
          nodeKey lits (bindTarget mapping columns) x a) := by
  have htable : (bindTarget mapping columns).mapping.sqliteTable = s.name := hpk.table
  have hops : ((bindTarget mapping columns).opsOf batch).map RowOp.entry =
      batch.upsertsOf s.name := by
    unfold BoundTarget.opsOf OpBatch.upsertsOf
    rw [htable]
  have hdels : (bindTarget mapping columns).deletesOf batch = batch.deletesOf s.name := by
    unfold BoundTarget.deletesOf OpBatch.deletesOf
    rw [htable]
  -- a delete in the batch is that of an old row, which had a key
  have hid : ∀ d ∈ batch.deletesOf s.name, ∃ x a lit, gone x ∧ v₀.record x = some a ∧
      deleteId (bindTarget mapping columns) d = some lit ∧
      lits.denote lit = nodeKey lits (bindTarget mapping columns) x a := by
    intro d hd
    obtain ⟨x, hx, rfl⟩ := (hdelta.deletes d).mp hd
    obtain ⟨a, ha⟩ := Option.ne_none_iff_exists'.mp (hgone x hx)
    obtain ⟨lit, hlit, hkey⟩ := deleteId_rowDelete hpk hbuilt ha (hkeys₀.ne_null x a ha)
    exact ⟨x, a, lit, hx, ha, hlit, hkey⟩
  have hnodes : (runAll lits (nodeStatements (bindTarget mapping columns) batch) g).nodes
      (bindTarget mapping columns).mapping.label =
      patch ((batch.upsertsOf s.name).map (rekey (nodeKey lits (bindTarget mapping columns))
          (nodeProps lits (bindTarget mapping columns))))
        (((batch.deletesOf s.name).filterMap (deleteId (bindTarget mapping columns))).map
          lits.denote) (g.nodes (bindTarget mapping columns).mapping.label) := by
    unfold nodeStatements patch
    rw [runAll_append, hdels, deletes_nodes, upserts_nodes hpk.propNames (tidy_of_holds hold), hops]
    · intro op hop
      have hentry : op.entry ∈ batch.upsertsOf s.name := by
        rw [← hops]
        exact mem_map_of_mem hop
      exact hkeys.ne_null op.rowid op.values (hdelta.covers.sound op.entry hentry)
    · intro d hd lit hlit
      obtain ⟨x, a, lit', -, ha, hlit', hkey⟩ := hid d hd
      rw [hlit] at hlit'
      cases hlit'
      rw [hkey]
      exact hkeys₀.ne_null x a ha
  have hkeysOf : ∀ k, k ∈ ((batch.deletesOf s.name).filterMap
      (deleteId (bindTarget mapping columns))).map lits.denote ↔
      ∃ x a, v₀.record x = some a ∧ gone x ∧ nodeKey lits (bindTarget mapping columns) x a = k := by
    intro k
    rw [mem_map]
    constructor
    · rintro ⟨lit, hlit, rfl⟩
      obtain ⟨d, hd, hd'⟩ := mem_filterMap.mp hlit
      obtain ⟨x, a, lit', hx, ha, hlit', hkey⟩ := hid d hd
      rw [hd'] at hlit'
      cases hlit'
      exact ⟨x, a, ha, hx, hkey.symm⟩
    · rintro ⟨x, a, ha, hx, rfl⟩
      obtain ⟨lit, hlit, hkey⟩ := deleteId_rowDelete hpk hbuilt ha (hkeys₀.ne_null x a ha)
      refine ⟨lit, mem_filterMap.mpr ⟨rowDelete s.name st₀ x, ?_, hlit⟩, hkey⟩
      exact (hdelta.deletes _).mpr ⟨x, hx, rfl⟩
  obtain ⟨newK, hnewK⟩ := exists_indexes (nodeProps lits (bindTarget mapping columns)) hkeys.inj
  rw [← rekeyed_patch_iff hdelta.covers hold hnewK hkeys₀.inj hkeysOf, ← hnodes]
  constructor
  · exact fun hholds => Indexes.unique hholds hnewK
  · intro heq
    unfold HoldsNodes
    rw [heq]
    exact hnewK

end

/-! ## 4. A table of persons

Persons are keyed by a one-letter name and have an age, on leaf page 2. -/

theorem keyed_of_rows [RenderDouble] {target : BoundTarget}
    (hne : ∀ row ∈ v.all, nodeKey lits target row.rowid row.values ≠ lits.null)
    (hnodup : (v.all.map fun row => nodeKey lits target row.rowid row.values).Nodup) :
    Keyed lits target v := by
  have hrow : ∀ x a, v.record x = some a → (⟨x, a⟩ : DecodedRow) ∈ v.all := fun x a hx =>
    TableView.mem_all.mpr (TableView.mem_of_record hx)
  refine ⟨fun x a hx => hne ⟨x, a⟩ (hrow x a hx), ?_⟩
  intro x y a b hx hy hkey
  have heq := inj_on_of_nodup_map hnodup (hrow x a hx) (hrow y b hy) hkey
  exact congrArg DecodedRow.rowid heq

theorem exists_holdsNodes [RenderDouble] {target : BoundTarget} (h : Keyed lits target v) :
    ∃ g : Graph V, HoldsNodes lits target g v := by
  obtain ⟨T, hT⟩ := exists_indexes (nodeProps lits target) h.inj
  exact ⟨⟨fun _ => T, 0, fun _ => none, fun e he => absurd he (Multiset.notMem_zero e)⟩, hT⟩

def personSchema : TableSchema :=
  { name := "node_person", rootPage := 2, pkRecordIndex := 0, pkFromRowid := false }

def personMapping : TableMapping :=
  { sqliteTable := "node_person", label := "node_person", idColumn := "name" }

def personColumns : List SyncColumn := [⟨"name", "TEXT"⟩, ⟨"age", "INT"⟩]

structure Person where
  rowid : UInt8
  name : UInt8
  age : UInt8

def personPages (persons : List Person) : PageFetcher :=
  pagesOf [(2, smallLeaf (persons.map fun p => (p.rowid, [3, 15, 1, p.name, p.age])))]

def personView (persons : List Person) : TableView where
  leaves := [2]
  rows := fun _ => persons.map fun p =>
    ⟨Int64.ofNat p.rowid.toNat, [.text [p.name], .integer (Int64.ofNat p.age.toNat)]⟩

theorem personTable : PkTable personSchema personMapping personColumns where
  kind := rfl
  idFromRowid := rfl
  table := rfl
  withoutRowid := rfl
  pkFromRowid := rfl
  pkRecordIndex := rfl
  idColumn := rfl
  names := by decide

/-- A memory built from the old contents of a table, and the batch of the commit that leaves the new
ones. -/
theorem exists_commit (s : TableSchema) (dirty : List UInt32) {f₀ f : PageFetcher} {size : Nat}
    {v₀ : TableView} (hrowid : s.withoutRowid = false) (hread₀ : ReadsTable f₀ size s.rootPage v₀)
    (hwf₀ : v₀.Wf) (hpk : ReachesPk (TableState.ofSchema s) v₀)
    (hread : ReadsTable f size s.rootPage v) (hwf : v.Wf) :
    ∃ r st₀ batch r', r.tables.lookup s.name = some st₀ ∧ st₀.rootPage = s.rootPage ∧
      BuiltFrom st₀ s v₀ ∧
      (ResolverCall.applyFrames dirty).run r [s] f size = (.ok batch, r') := by
  have hone : ([s].map TableSchema.name).Nodup := nodup_singleton _
  have himage₀ : ImageOf [s] f₀ size fun _ => v₀ := by
    intro s' hs' _
    obtain rfl := mem_singleton.mp hs'
    exact ⟨hread₀, hwf₀⟩
  have himage : ImageOf [s] f size fun _ => v := by
    intro s' hs' _
    obtain rfl := mem_singleton.mp hs'
    exact ⟨hread, hwf⟩
  have hreach : ReachPks [s] fun _ => v₀ := by
    intro s' hs' _
    obtain rfl := mem_singleton.mp hs'
    exact hpk
  obtain ⟨-, r, -, hdesc, hretains, -⟩ := bootstrap_converged {} hone himage₀
  obtain ⟨st₀, hst, hroot, htracks⟩ := hdesc.tracked s mem_cons_self hrowid
  obtain ⟨hkeeps, hret⟩ := hretains hreach s mem_cons_self hrowid st₀ hst
  obtain ⟨batch, r', hrun⟩ := applyFrames_succeeds dirty hone hdesc (fun _ _ _ => hwf₀) himage
  exact ⟨r, st₀, batch, r', hst, hroot, ⟨hwf₀, htracks, hkeeps, hret⟩, hrun⟩

theorem personCommit {old new : List Person}
    (hread₀ : ReadsTable (personPages old) 512 2 (personView old)) (hwf₀ : (personView old).Wf)
    (hread : ReadsTable (personPages new) 512 2 (personView new)) (hwf : (personView new).Wf) :
    ∃ r st₀ batch r', r.tables.lookup "node_person" = some st₀ ∧ st₀.rootPage = 2 ∧
      BuiltFrom st₀ personSchema (personView old) ∧
      (ResolverCall.applyFrames [2]).run r [personSchema] (personPages new) 512 =
        (.ok batch, r') := by
  apply exists_commit personSchema [2] rfl hread₀ hwf₀ _ hread hwf
  intro _ _ row hrow
  obtain ⟨p, -, hmem⟩ := TableView.mem_all.mp hrow
  obtain ⟨person, -, rfl⟩ := mem_map.mp hmem
  exact Nat.zero_lt_two

theorem personPages_read (persons : List Person)
    (hwalk : collectLeafPages 2 (personPages persons) 512 = .ok [2])
    (hdecode : decodeLeaf 2 (personPages persons) 512 =
      .ok ((personView persons).rows 2, leafHash (personPages persons) 512 2)) :
    ReadsTable (personPages persons) 512 2 (personView persons) := by
  refine ⟨hwalk, ?_⟩
  intro p hp
  obtain rfl := mem_singleton.mp hp
  exact ⟨_, hdecode⟩

def personsBefore : List Person := [⟨1, 0x61, 7⟩, ⟨2, 0x62, 8⟩]

-- person 1 leaves, person 2 gets older, person 3 comes
def personsMoved : List Person := [⟨2, 0x62, 9⟩, ⟨3, 0x63, 1⟩]

-- the name of person 1 changes in place
def personsRenamed : List Person := [⟨1, 0x63, 7⟩, ⟨2, 0x62, 8⟩]

-- person 1 leaves and person 3 takes over the name
def personsTakenOver : List Person := [⟨2, 0x62, 8⟩, ⟨3, 0x61, 7⟩]

def personTables : List (List Person) :=
  [personsBefore, personsMoved, personsRenamed, personsTakenOver]

theorem personTables_decode : ∀ persons ∈ personTables,
    collectLeafPages 2 (personPages persons) 512 = .ok [2] ∧
      decodeLeaf 2 (personPages persons) 512 =
        .ok ((personView persons).rows 2, leafHash (personPages persons) 512 2) ∧
      (personView persons).Wf := by
  decide +kernel

variable {persons : List Person}

theorem personTables_read (h : persons ∈ personTables) :
    ReadsTable (personPages persons) 512 2 (personView persons) :=
  personPages_read persons (personTables_decode persons h).1 (personTables_decode persons h).2.1

theorem personTables_wf (h : persons ∈ personTables) : (personView persons).Wf :=
  (personTables_decode persons h).2.2

theorem personsBefore_mem : personsBefore ∈ personTables := by simp [personTables]

theorem personsMoved_mem : personsMoved ∈ personTables := by simp [personTables]

theorem personsRenamed_mem : personsRenamed ∈ personTables := by simp [personTables]

theorem personsTakenOver_mem : personsTakenOver ∈ personTables := by simp [personTables]

/-- No person has a real, so no double is ever rendered. -/
@[reducible]
def noDoubles : RenderDouble := ⟨fun _ ↦ ""⟩

/-! ## 5. The node table after a tick -/

/-- An explicit-key node table after a resolver call and the execution of its batch: the target
holds one node per new row exactly when every old row was given up by the call if and only if its
key is free in the new contents. -/
theorem node_sync_iff {V : Type} [DecidableEq V] [RenderDouble] {lits : Literals V}
    {session : Session (Graph V)} (hlaw : session.Lawful lits) {call : ResolverCall} {r r' : OpResolver}
    {schemas : List TableSchema} {s : TableSchema} {mapping : TableMapping}
    {columns : List SyncColumn} {f : PageFetcher} {size : Nat} {batch : OpBatch} {st₀ : TableState}
    {v₀ v : TableView} {g g' : Graph V} {stats stats' : SyncStats}
    (hpk : PkTable s mapping columns) (hnames : (schemas.map TableSchema.name).Nodup)
    (hs : s ∈ schemas) (hst : r.tables.lookup s.name = some st₀) (hbuilt : BuiltFrom st₀ s v₀)
    (hread : ReadsTable f size s.rootPage v) (hwf : v.Wf)
    (hsees : call.Sees st₀ v₀ v (leafHash f size))
    (hkeys₀ : Keyed lits (bindTarget mapping columns) v₀)
    (hkeys : Keyed lits (bindTarget mapping columns) v)
    (hold : HoldsNodes lits (bindTarget mapping columns) g v₀)
    (hrun : call.run r schemas f size = (.ok batch, r'))
    (hexec : applyNodes session batch (g, stats) (bindTarget mapping columns) = .ok (g', stats')) :
    HoldsNodes lits (bindTarget mapping columns) g' v ↔ ∀ x a, v₀.record x = some a →
        (call.Deletes (st₀.rootPage = s.rootPage) v₀ v x ↔ ∀ y b, v.record y = some b →
          nodeKey lits (bindTarget mapping columns) y b ≠
            nodeKey lits (bindTarget mapping columns) x a) := by
  have hdelta := call.delta hnames hs hpk.withoutRowid hst hbuilt.tracks hbuilt.wf hread hwf hrun
    hsees
  have hg : g' = runAll lits (nodeStatements (bindTarget mapping columns) batch) g :=
    applyNodes_ok hlaw hexec
  rw [hg]
  exact nodeStatements_iff hpk hbuilt hdelta (fun x hx => hx.1) hkeys₀ hkeys hold

section

attribute [local instance] noDoubles

abbrev personTarget : BoundTarget := bindTarget personMapping personColumns

theorem personTables_keys : ∀ persons ∈ personTables, (∀ row ∈ (personView persons).all,
      nodeKey plainLiterals personTarget row.rowid row.values ≠ plainLiterals.null) ∧
      ((personView persons).all.map fun row =>
        nodeKey plainLiterals personTarget row.rowid row.values).Nodup := by
  decide +kernel

variable {persons : List Person} {x : Int64} {a : List SqliteValue}

theorem personTables_keyed (h : persons ∈ personTables) :
    Keyed plainLiterals personTarget (personView persons) :=
  keyed_of_rows (personTables_keys persons h).1 (personTables_keys persons h).2

theorem mem_personView (h : (personView persons).record x = some a) :
    (⟨x, a⟩ : DecodedRow) ∈ (personView persons).rows 2 := by
  obtain ⟨p, hp, hmem⟩ := TableView.mem_of_record h
  exact hmem

theorem applyNodes_faultless (batch : OpBatch) (g : Graph (Option String)) :
    ∃ g' stats', applyNodes (faultlessSession plainLiterals) batch (g, {}) personTarget =
      .ok (g', stats') := by
  unfold applyNodes
  simp only [execAll_faultless, bind, Except.bind]
  exact ⟨_, _, rfl⟩

theorem node_sync_iff_moved : ∃ (r r' : OpResolver) (batch : OpBatch)
    (g g' : Graph (Option String)) (stats' : SyncStats),
    HoldsNodes plainLiterals personTarget g (personView personsBefore) ∧
    (ResolverCall.applyFrames [2]).run r [personSchema] (personPages personsMoved) 512 =
      (.ok batch, r') ∧
    applyNodes (faultlessSession plainLiterals) batch (g, {}) personTarget = .ok (g', stats') ∧
    HoldsNodes plainLiterals personTarget g' (personView personsMoved) := by
  have hread := personTables_read personsMoved_mem
  have hwf := personTables_wf personsMoved_mem
  have hkeys₀ := personTables_keyed personsBefore_mem
  obtain ⟨r, st₀, batch, r', hst, hroot, hbuilt, hrun⟩ := personCommit
    (personTables_read personsBefore_mem) (personTables_wf personsBefore_mem) hread hwf
  obtain ⟨g, hold⟩ := exists_holdsNodes hkeys₀
  obtain ⟨g', stats', hexec⟩ := applyNodes_faultless batch g
  refine ⟨r, r', batch, g, g', stats', hold, hrun, hexec, ?_⟩
  refine (node_sync_iff (faultlessSession_lawful plainLiterals) personTable (by decide)
    mem_cons_self hst hbuilt hread hwf (fun p hp _ _ => hp) hkeys₀
    (personTables_keyed personsMoved_mem) hold hrun hexec).mpr ?_
  intro x a hx
  have hmem := mem_personView hx
  rcases mem_cons.mp hmem with hrow | hmem
  · -- row 1 is given up, and its name is free
    cases hrow
    refine iff_of_true ⟨by decide +kernel, fun _ => by decide +kernel⟩ ?_
    intro y b hy
    have hall : ∀ row ∈ (personView personsMoved).rows 2,
        nodeKey plainLiterals personTarget row.rowid row.values ≠
          nodeKey plainLiterals personTarget 1 [.text [0x61], .integer 7] := by decide +kernel
    exact hall ⟨y, b⟩ (mem_personView hy)
  · -- row 2 stays, and so does its name
    obtain hrow := mem_singleton.mp hmem
    cases hrow
    refine iff_of_false (fun hdel => absurd (hdel.2 hroot) (by decide +kernel)) ?_
    intro hfree
    exact hfree 2 [.text [0x62], .integer 9] (by decide +kernel) (by decide +kernel)

/-- The commit turns the one table of persons into the other, but the target does not follow. -/
def PersonSyncFails (old new : List Person) : Prop :=
  ∃ (r r' : OpResolver) (st₀ : TableState) (batch : OpBatch) (g g' : Graph (Option String))
    (stats' : SyncStats),
    r.tables.lookup "node_person" = some st₀ ∧ BuiltFrom st₀ personSchema (personView old) ∧
    ReadsTable (personPages new) 512 2 (personView new) ∧
    Keyed plainLiterals personTarget (personView old) ∧
    Keyed plainLiterals personTarget (personView new) ∧
    HoldsNodes plainLiterals personTarget g (personView old) ∧
    r.applyFrames [personSchema] [2] (personPages new) 512 = (.ok batch, r') ∧
    applyNodes (faultlessSession plainLiterals) batch (g, {}) personTarget = .ok (g', stats') ∧
    ¬ HoldsNodes plainLiterals personTarget g' (personView new)

theorem personSyncFails_of {old new : List Person} (hmem₀ : old ∈ personTables)
    (hmem : new ∈ personTables) (hx : (personView old).record x = some a)
    (hmismatch : ¬ ((personView new).record x = none ↔ ∀ row ∈ (personView new).rows 2,
      nodeKey plainLiterals personTarget row.rowid row.values ≠
        nodeKey plainLiterals personTarget x a)) : PersonSyncFails old new := by
  have hread := personTables_read hmem
  have hwf₀ := personTables_wf hmem₀
  have hwf := personTables_wf hmem
  have hkeys₀ := personTables_keyed hmem₀
  have hkeys := personTables_keyed hmem
  obtain ⟨r, st₀, batch, r', hst, hroot, hbuilt, hrun⟩ :=
    personCommit (personTables_read hmem₀) hwf₀ hread hwf
  obtain ⟨g, hold⟩ := exists_holdsNodes hkeys₀
  obtain ⟨g', stats', hexec⟩ := applyNodes_faultless batch g
  refine ⟨r, r', st₀, batch, g, g', stats', hst, hbuilt, hread, hkeys₀, hkeys, hold, hrun, hexec, ?_⟩
  have hdelta := (ResolverCall.applyFrames [2]).delta (by decide)
    (mem_singleton_self personSchema) rfl hst hbuilt.tracks hwf₀ hread hwf hrun fun p hp _ _ => hp
  have hg : g' = runAll plainLiterals (nodeStatements personTarget batch) g :=
    applyNodes_ok (faultlessSession_lawful plainLiterals) hexec
  rw [hg, nodeStatements_iff personTable hbuilt hdelta (fun x hx => hx.1) hkeys₀ hkeys hold]
  intro hall
  apply hmismatch
  have hcase := hall x a hx
  have hdeletes : (ResolverCall.applyFrames [2]).Deletes (st₀.rootPage = personSchema.rootPage)
      (personView old) (personView new) x ↔ (personView new).record x = none := by
    constructor
    · exact fun h => h.2 hroot
    · exact fun h => ⟨by rw [hx]; exact Option.some_ne_none a, fun _ => h⟩
  rw [hdeletes] at hcase
  rw [hcase]
  constructor
  · intro hfree row hrow
    exact hfree row.rowid row.values (TableView.record_of_mem hwf
      (TableView.mem_all.mpr ⟨2, mem_cons_self, hrow⟩))
  · exact fun hfree y b hy => hfree ⟨y, b⟩ (mem_personView hy)

/-- A renamed row leaves its old node behind, and a name that moves to another row takes the node of
the new row with it. -/
theorem node_sync_misses_key_moves : PersonSyncFails personsBefore personsRenamed ∧
      PersonSyncFails personsBefore personsTakenOver := by
  constructor
  · exact personSyncFails_of (a := [.text [0x61], .integer 7]) (x := 1) personsBefore_mem
      personsRenamed_mem (by decide +kernel) (by decide +kernel)
  · exact personSyncFails_of (a := [.text [0x61], .integer 7]) (x := 1) personsBefore_mem
      personsTakenOver_mem (by decide +kernel) (by decide +kernel)

end

end Ladybug.Sqlite
