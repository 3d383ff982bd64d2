import Ladybug.Sqlite.MappingMerge

/-!
# Where the identity of a node comes from

SQLite's rowid alias is a single primary key column declared exactly `INTEGER`.  The schema loop, the
inference and the explicit rows each look for `INT` inside the declared type instead, and the column
the resolver retains for deletes is set apart from the one a registration names.  Here is which
tables and registrations come out right all the same.
-/

namespace Ladybug.Sqlite.Planning

open List Option

/-! ## 1. Key columns -/

def keyColumns (columns : List SyncColumn) : List (SyncColumn × Nat) :=
  columns.zipIdx.filter fun col => col.1.isPrimaryKey

def MasterRow.keys (row : MasterRow) : List (SyncColumn × Nat) :=
  keyColumns (row.columns.map syncColumn)

section

variable {columns : List SyncColumn} {key : SyncColumn × Nat}

def PkScan.count (scan : PkScan) (key : SyncColumn × Nat) : PkScan where
  pkCols := scan.pkCols + 1
  pkIdx := key.2
  pkIsInt := isIntDecl key.1.decltype

theorem scanPrimaryKey_eq (columns : List SyncColumn) :
    scanPrimaryKey columns = (keyColumns columns).foldl PkScan.count {} := by
  unfold keyColumns
  rw [foldl_filter]
  rfl

theorem foldl_count_pkCols (keys : List (SyncColumn × Nat)) (scan : PkScan) :
    (keys.foldl PkScan.count scan).pkCols = scan.pkCols + keys.length := by
  induction keys generalizing scan with
  | nil => rfl
  | cons key keys ih =>
    rw [foldl_cons, ih, length_cons]
    show scan.pkCols + 1 + keys.length = _
    omega

theorem scanPrimaryKey_pkCols (columns : List SyncColumn) :
    (scanPrimaryKey columns).pkCols = (keyColumns columns).length := by
  rw [scanPrimaryKey_eq, foldl_count_pkCols]
  exact Nat.zero_add _

theorem scanPrimaryKey_single (h : keyColumns columns = [key]) :
    scanPrimaryKey columns = ⟨1, key.2, isIntDecl key.1.decltype⟩ := by
  rw [scanPrimaryKey_eq, h]
  rfl

theorem scanPrimaryKey_not_single (h : ∀ key, keyColumns columns ≠ [key]) :
    (scanPrimaryKey columns).pkCols ≠ 1 := by
  rw [scanPrimaryKey_pkCols]
  intro hlen
  obtain ⟨key, hkey⟩ := length_eq_one_iff.mp hlen
  exact h key hkey

theorem keyColumns_getElem? (h : keyColumns columns = [key]) : columns[key.2]? = some key.1 := by
  have hmem : key ∈ keyColumns columns := by rw [h]; exact mem_singleton_self key
  exact mem_zipIdx_iff_getElem?.mp (mem_filter.mp hmem).1

end

/-! ## 2. What comes out right -/

def RowidAlias (row : MasterRow) (column : String) : Prop :=
  ∃ col, (row.columns.filter fun c => 0 < c.pkOrder) = [col] ∧ col.name = column ∧
    col.declaredType.toUpper = "INTEGER"

def upsertKey (m : Sqlite.TableMapping) (op : RowOp) : Option SqliteValue :=
  if m.idFromRowid then some (.integer op.rowid) else op.values[m.idRecordIndex]?

def deleteKey (m : Sqlite.TableMapping) (d : RowDelete) : Option SqliteValue :=
  if m.idFromRowid then some (.integer d.rowid) else d.identity

def trackedDelete (schema : TableSchema) (row : DecodedRow) : RowDelete :=
  rowDelete schema.name (trackRow (TableState.ofSchema schema) row) row.rowid

/-- The identity of a node mapping is sourced by SQLite's rule, and deletes reach what upserts made.
The resolver reads no rows of a table without rowids. -/
structure IdentitySound (row : MasterRow) (schema : TableSchema) (m : TableMapping) : Prop where
  rowid : m.idFromRowid = true ↔ RowidAlias row m.idColumn
  keys : schema.withoutRowid = false → ∀ r : DecodedRow,
    deleteKey m.toTableMapping (trackedDelete schema r) =
      upsertKey m.toTableMapping (rowOp schema.name r)

/-! ## 3. One table -/

section

variable {row : MasterRow} {schema : TableSchema} {t : SyncTable} {m : TableMapping}
  {key : SyncColumn × Nat}

theorem keys_fst (row : MasterRow) :
    row.keys.map Prod.fst = (row.columns.filter fun c => 0 < c.pkOrder).map syncColumn := by
  have hfst (columns : List SyncColumn) (n : Nat) :
      ((columns.zipIdx n).filter fun col => col.1.isPrimaryKey).map Prod.fst =
        columns.filter fun col => col.isPrimaryKey := by
    induction columns generalizing n with
    | nil => rfl
    | cons col columns ih =>
      rw [zipIdx_cons, filter_cons, filter_cons]
      split
      · rw [map_cons, ih]
      · exact ih (n + 1)
  unfold MasterRow.keys keyColumns
  rw [hfst, List.filter_map]
  congr 1

theorem rowidAlias_iff {column : String} :
    RowidAlias row column ↔ ∃ key, row.keys = [key] ∧ key.1.name = column ∧
      key.1.decltype.toUpper = "INTEGER" := by
  have hfst := keys_fst row
  constructor
  · intro h
    obtain ⟨col, hcol, hname, htype⟩ := h
    rw [hcol, map_singleton, map_eq_singleton_iff] at hfst
    obtain ⟨key, hkey, hsync⟩ := hfst
    exact ⟨key, hkey, by rw [hsync]; exact hname, by rw [hsync]; exact htype⟩
  · intro h
    obtain ⟨key, hkey, hname, htype⟩ := h
    rw [hkey, map_singleton, eq_comm, map_eq_singleton_iff] at hfst
    obtain ⟨col, hcol, hsync⟩ := hfst
    rw [← hsync] at hname htype
    exact ⟨col, hcol, hname, htype⟩

theorem isIntDecl_integer {decltype : String} (h : decltype.toUpper = "INTEGER") :
    isIntDecl decltype = true := by
  unfold isIntDecl
  rw [h]
  decide +kernel

theorem trackedDelete_identity (schema : TableSchema) (r : DecodedRow) :
    (trackedDelete schema r).identity = (TableState.ofSchema schema).pkValue r.values := by
  unfold trackedDelete rowDelete trackRow
  cases (TableState.ofSchema schema).pkValue r.values with
  | none => rfl
  | some v => exact Function.update_self _ _ _

theorem getElem?_marked (n i : Nat) :
    (replicate n SqliteValue.null ++ [.integer 1])[i]? = some (.integer 1) ↔ i = n := by
  constructor
  · intro h
    by_cases hlt : i < n
    · rw [getElem?_append_left (by simpa using hlt), getElem?_replicate, if_pos hlt] at h
      cases h
    · obtain ⟨hi, -⟩ := List.getElem?_eq_some_iff.mp h
      rw [length_append, length_replicate, length_singleton] at hi
      omega
  · intro h
    subst h
    simp

theorem keys_agree_iff : (∀ r : DecodedRow, deleteKey m.toTableMapping (trackedDelete schema r) =
      upsertKey m.toTableMapping (rowOp schema.name r)) ↔
    m.idFromRowid = true ∨
      (schema.pkFromRowid = false ∧ schema.pkRecordIndex = m.idRecordIndex) := by
  unfold deleteKey upsertKey
  by_cases hrowid : m.idFromRowid = true
  · apply iff_of_true
    · intro r
      rw [if_pos hrowid, if_pos hrowid]
      rfl
    · exact .inl hrowid
  · rw [or_iff_right hrowid]
    constructor
    · intro h
      -- a record whose only value that is not null stands in the id column
      have hvalue := h ⟨0, replicate m.idRecordIndex .null ++ [.integer 1]⟩
      rw [if_neg hrowid, if_neg hrowid, trackedDelete_identity] at hvalue
      rw [show (rowOp schema.name ⟨0, replicate m.idRecordIndex .null ++
        [.integer 1]⟩).values[m.idRecordIndex]? = some (.integer 1) from
        (getElem?_marked _ _).mpr rfl] at hvalue
      unfold TableState.pkValue TableState.ofSchema at hvalue
      split at hvalue
      · rename_i hpk
        have hpos : 0 ≤ schema.pkRecordIndex := hpk.2
        have hindex : schema.pkRecordIndex.toNat = m.idRecordIndex :=
          (getElem?_marked _ _).mp hvalue
        exact ⟨by simpa using hpk.1, by omega⟩
      · cases hvalue
    · intro h r
      rw [if_neg hrowid, if_neg hrowid, trackedDelete_identity]
      have hpos : 0 ≤ schema.pkRecordIndex := by omega
      have hindex : schema.pkRecordIndex.toNat = m.idRecordIndex := by omega
      show (if ¬ schema.pkFromRowid ∧ 0 ≤ schema.pkRecordIndex then
        r.values[schema.pkRecordIndex.toNat]? else none) = r.values[m.idRecordIndex]?
      rw [if_pos ⟨by simp [h.1], hpos⟩, hindex]

/-! What the schema loop sets for a table with one key column, and for the others. -/

section

variable (h : loadTable row = some (t, schema))

include h

theorem loadTable_some :
    t.name = row.name ∧ schema.name = row.name ∧ t.columns = row.columns.map syncColumn ∧
      t.withoutRowid = containsWord row.sql "WITHOUT ROWID" ∧
      schema.withoutRowid = containsWord row.sql "WITHOUT ROWID" := by
  unfold loadTable at h
  split at h
  · cases h
  · cases h
    exact ⟨rfl, rfl, rfl, rfl, rfl⟩

theorem loadTable_single (hkey : row.keys = [key]) :
    t.ipkIndex = (if isIntDecl key.1.decltype then (key.2 : Int) else -1) ∧
      schema.pkRecordIndex = key.2 ∧ schema.pkFromRowid = isIntDecl key.1.decltype := by
  unfold loadTable at h
  split at h
  · cases h
  · dsimp only at h
    rw [scanPrimaryKey_single hkey] at h
    cases h
    simp

theorem loadTable_not_single (hkeys : ∀ key, row.keys ≠ [key]) :
    t.ipkIndex = -1 ∧ schema.pkFromRowid = true := by
  have hne := scanPrimaryKey_not_single hkeys
  unfold loadTable at h
  split at h
  · cases h
  · cases h
    dsimp only
    rw [if_neg fun hand => hne hand.1, if_neg hne]
    exact ⟨rfl, rfl⟩

theorem keys_agree_of_loaded : (∀ r : DecodedRow,
    deleteKey m.toTableMapping (trackedDelete schema r) =
      upsertKey m.toTableMapping (rowOp schema.name r)) ↔
    m.idFromRowid = true ∨
      ∃ key, row.keys = [key] ∧ isIntDecl key.1.decltype = false ∧ key.2 = m.idRecordIndex := by
  rw [keys_agree_iff]
  apply or_congr_right
  by_cases hsingle : ∃ key, row.keys = [key]
  · obtain ⟨key, hkey⟩ := hsingle
    obtain ⟨-, hindex, hint⟩ := loadTable_single h hkey
    rw [hindex, hint]
    constructor
    · intro hand
      exact ⟨key, hkey, hand.1, by omega⟩
    · intro hex
      obtain ⟨key', hkey', hfalse, heq⟩ := hex
      rw [hkey] at hkey'
      cases hkey'
      exact ⟨hfalse, by omega⟩
  · have hnone : ∀ key, row.keys ≠ [key] := fun key hkey => hsingle ⟨key, hkey⟩
    rw [(loadTable_not_single h hnone).2]
    apply iff_of_false
    · simp
    · exact fun hex => hsingle ⟨hex.choose, hex.choose_spec.1⟩

end

/-! ## 4. The identity of the mapping -/

structure Identity where
  idColumn : String
  idRecordIndex : Nat
  idFromRowid : Bool
  deriving DecidableEq

def TableMapping.identity (m : TableMapping) : Identity :=
  ⟨m.idColumn, m.idRecordIndex, m.idFromRowid⟩

def conventionKey (row : MasterRow) : Option (SyncColumn × Nat) :=
  if isNodeName row.name ∧ ¬ containsWord row.sql "WITHOUT ROWID" then
    match row.keys with
    | [key] => some key
    | _ => none
  else none

def keyIdentity (key : SyncColumn × Nat) : Identity :=
  ⟨key.1.name, key.2, isIntDecl key.1.decltype⟩

def hasIntKey (row : MasterRow) : Bool :=
  match row.keys with
  | [key] => isIntDecl key.1.decltype
  | _ => false

def namedIdentity (row : MasterRow) (idColumn : String) : Identity :=
  ⟨idColumn, idIndexOf (row.columns.map syncColumn) idColumn, hasIntKey row⟩

/-- The registration leaves the column of the convention in place. -/
def keepsKey (exp : ExplicitMapping) (idColumn : String) : Bool :=
  exp.idColumn = "" ∨ exp.idColumn = idColumn

def registeredIdentity (row : MasterRow) (exp : ExplicitMapping) : Identity :=
  match (conventionKey row).filter fun key => keepsKey exp key.1.name with
  | some key => keyIdentity key
  | none => namedIdentity row exp.idColumn

def nodeIdentity (row : MasterRow) : Option ExplicitMapping → Option Identity
  | none => (conventionKey row).map keyIdentity
  | some exp => if exp.kind = "edge" then none else some (registeredIdentity row exp)

theorem conventionKey_keys (h : conventionKey row = some key) : row.keys = [key] := by
  unfold conventionKey at h
  split at h
  · split at h
    · rename_i key' hkeys
      cases h
      exact hkeys
    · cases h
  · cases h

theorem conventionKey_of_node (hnode : isNodeName row.name = true)
    (hwithout : containsWord row.sql "WITHOUT ROWID" = false) (hkey : row.keys = [key]) :
    conventionKey row = some key := by
  unfold conventionKey
  rw [if_pos ⟨hnode, by simpa using hwithout⟩, hkey]

section

variable (h : loadTable row = some (t, schema))

include h

theorem mapNode_single (hwithout : containsWord row.sql "WITHOUT ROWID" = false)
    (hkey : row.keys = [key]) :
    (mapNode t).toOption.map TableMapping.identity = some (keyIdentity key) := by
  obtain ⟨-, -, hcols, hrowid, -⟩ := loadTable_some h
  have hcolumn : columnName t.columns key.2 = key.1.name := by
    unfold columnName
    rw [hcols, keyColumns_getElem? hkey]
  unfold mapNode keyIdentity
  rw [hrowid, if_neg (by simpa using hwithout), (loadTable_single h hkey).1]
  cases hint : isIntDecl key.1.decltype with
  | true =>
    show some (⟨columnName t.columns (key.2 : Int).toNat, (key.2 : Int).toNat, true⟩ : Identity) = _
    rw [Int.toNat_natCast, hcolumn]
  | false =>
    rw [if_neg (show ¬ (0 : Int) ≤ if false = true then (key.2 : Int) else -1 by simp), hcols,
      scanPrimaryKey_single hkey]
    show some (⟨columnName (row.columns.map syncColumn) (key.2 : Int).toNat, (key.2 : Int).toNat,
      false⟩ : Identity) = _
    rw [Int.toNat_natCast, ← hcols, hcolumn]

theorem mapNode_not_single (hkeys : ∀ key, row.keys ≠ [key]) : (mapNode t).toOption = none := by
  obtain ⟨-, -, hcols, -, -⟩ := loadTable_some h
  unfold mapNode
  split
  · rfl
  · rw [(loadTable_not_single h hkeys).1, if_neg (by decide), hcols]
    rw [if_pos (scanPrimaryKey_not_single hkeys)]
    rfl

theorem nodeOf_loaded :
    (nodeOf t).map TableMapping.identity = (conventionKey row).map keyIdentity := by
  obtain ⟨hname, -, -, hrowid, -⟩ := loadTable_some h
  unfold nodeOf
  rw [hname]
  by_cases hnode : isNodeName row.name = true
  · rw [if_pos hnode]
    by_cases hwithout : containsWord row.sql "WITHOUT ROWID" = true
    · unfold mapNode conventionKey
      rw [hrowid, if_pos hwithout, if_neg fun hand => hand.2 hwithout]
      rfl
    · have hfalse : containsWord row.sql "WITHOUT ROWID" = false := by simpa using hwithout
      by_cases hsingle : ∃ key, row.keys = [key]
      · obtain ⟨key, hkey⟩ := hsingle
        rw [mapNode_single h hfalse hkey, conventionKey_of_node hnode hfalse hkey]
        rfl
      · have hnone : ∀ key, row.keys ≠ [key] := fun key hkey => hsingle ⟨key, hkey⟩
        rw [mapNode_not_single h hnone]
        cases hconv : conventionKey row with
        | none => rfl
        | some key => exact absurd (conventionKey_keys hconv) (hnone key)
  · unfold conventionKey
    rw [if_neg hnode, if_neg fun hand => hnode hand.1]
    rfl

end

theorem hasIntKey_scan (row : MasterRow) :
    decide ((scanPrimaryKey (row.columns.map syncColumn)).pkCols = 1 ∧
      (scanPrimaryKey (row.columns.map syncColumn)).pkIsInt) = hasIntKey row := by
  unfold hasIntKey
  by_cases hsingle : ∃ key, row.keys = [key]
  · obtain ⟨key, hkey⟩ := hsingle
    rw [scanPrimaryKey_single hkey, hkey]
    simp
  · have hnone : ∀ key, row.keys ≠ [key] := fun key hkey => hsingle ⟨key, hkey⟩
    rw [decide_eq_false fun hand => scanPrimaryKey_not_single hnone hand.1]
    split
    · rename_i key hkey
      exact absurd hkey (hnone key)
    · rfl

theorem registeredIdentity_kept {exp : ExplicitMapping}
    (h : ((conventionKey row).filter fun key => keepsKey exp key.1.name) = some key) :
    registeredIdentity row exp = keyIdentity key := by
  unfold registeredIdentity
  rw [h]

theorem registeredIdentity_named {exp : ExplicitMapping}
    (h : ((conventionKey row).filter fun key => keepsKey exp key.1.name) = none) :
    registeredIdentity row exp = namedIdentity row exp.idColumn := by
  unfold registeredIdentity
  rw [h]

theorem explicitIdentity_identity (h : loadTable row = some (t, schema))
    {found : Option TableMapping}
    (hfound : (found.filter fun m => m.kind = .node).map TableMapping.identity =
      (conventionKey row).map keyIdentity) (exp : ExplicitMapping) (m : TableMapping) :
    (explicitIdentity found t exp m).identity = registeredIdentity row exp := by
  obtain ⟨-, -, hcols, -, -⟩ := loadTable_some h
  have hnamed : (⟨exp.idColumn, idIndexOf t.columns exp.idColumn,
      decide ((scanPrimaryKey t.columns).pkCols = 1 ∧ (scanPrimaryKey t.columns).pkIsInt)⟩ :
      Identity) = namedIdentity row exp.idColumn := by
    rw [hcols, hasIntKey_scan]
    rfl
  unfold explicitIdentity
  cases found with
  | none =>
    rw [filter_none, map_none, eq_comm, map_eq_none_iff] at hfound
    rw [registeredIdentity_named (by rw [hfound, filter_none])]
    exact hnamed
  | some inf =>
    by_cases hkind : inf.kind = .node
    · rw [filter_some, if_pos (by simpa using hkind), map_some, eq_comm,
        map_eq_some_iff] at hfound
      obtain ⟨key, hkey, hid⟩ := hfound
      have hcolumn : inf.idColumn = key.1.name := (congrArg Identity.idColumn hid).symm
      dsimp only
      by_cases hkeeps : keepsKey exp key.1.name = true
      · rw [if_pos ⟨hkind, by simpa [keepsKey, hcolumn] using hkeeps⟩,
          registeredIdentity_kept (by rw [hkey, filter_some, if_pos hkeeps])]
        exact hid.symm
      · rw [if_neg fun hand => hkeeps (by simpa [keepsKey, hcolumn] using hand.2),
          registeredIdentity_named (by rw [hkey, filter_some, if_neg hkeeps])]
        exact hnamed
    · rw [filter_some, if_neg (by simpa using hkind), map_none, eq_comm,
        map_eq_none_iff] at hfound
      dsimp only
      rw [if_neg fun hand => hkind hand.1,
        registeredIdentity_named (by rw [hfound, filter_none])]
      exact hnamed

/-! ## 5. Which tables come out right -/

/-- The declared type holds `INT` only as the whole of `INTEGER`. -/
def IntMeansRowid (column : SyncColumn) : Prop :=
  isIntDecl column.decltype = true → column.decltype.toUpper = "INTEGER"

def NamedKeySound (row : MasterRow) (idColumn : String) : Prop :=
  (containsWord row.sql "WITHOUT ROWID" ∨ ∃ key, row.keys = [key]) ∧ ∀ key, row.keys = [key] →
      if isIntDecl key.1.decltype then
        key.1.decltype.toUpper = "INTEGER" ∧ key.1.name = idColumn
      else containsWord row.sql "WITHOUT ROWID" ∨
        idIndexOf (row.columns.map syncColumn) idColumn = key.2

/-- The declared types and the registration of the table give its node a sound identity. -/
def SoundSourcing (row : MasterRow) : Option ExplicitMapping → Prop
  | none => ∀ key, conventionKey row = some key → IntMeansRowid key.1
  | some exp => exp.kind = "edge" ∨
      match (conventionKey row).filter fun key => keepsKey exp key.1.name with
      | some key => IntMeansRowid key.1
      | none => NamedKeySound row exp.idColumn

/-- `IdentitySound`, of what the mapping takes from the table. -/
def SoundIdentity (row : MasterRow) (id : Identity) : Prop :=
  (id.idFromRowid = true ↔ RowidAlias row id.idColumn) ∧
    (containsWord row.sql "WITHOUT ROWID" = false → id.idFromRowid = true ∨
      ∃ key, row.keys = [key] ∧ isIntDecl key.1.decltype = false ∧ key.2 = id.idRecordIndex)

theorem identitySound_iff (h : loadTable row = some (t, schema)) :
    IdentitySound row schema m ↔ SoundIdentity row m.identity := by
  obtain ⟨-, -, -, -, hrowid⟩ := loadTable_some h
  constructor
  · intro hs
    exact ⟨hs.rowid, fun hwithout => (keys_agree_of_loaded h).mp (hs.keys (hrowid.trans hwithout))⟩
  · intro hs
    exact ⟨hs.1, fun hwithout => (keys_agree_of_loaded h).mpr (hs.2 (hrowid.symm.trans hwithout))⟩

theorem soundIdentity_key (hkey : row.keys = [key]) :
    SoundIdentity row (keyIdentity key) ↔ IntMeansRowid key.1 := by
  have halias : RowidAlias row key.1.name ↔ key.1.decltype.toUpper = "INTEGER" := by
    rw [rowidAlias_iff]
    constructor
    · intro hex
      obtain ⟨key', hkey', -, htype⟩ := hex
      rw [hkey] at hkey'
      cases hkey'
      exact htype
    · exact fun htype => ⟨key, hkey, rfl, htype⟩
  show (isIntDecl key.1.decltype = true ↔ RowidAlias row key.1.name) ∧ (_ → _) ↔ _
  rw [halias]
  constructor
  · intro hs hint
    exact hs.1.mp hint
  · intro hint
    refine ⟨⟨hint, isIntDecl_integer⟩, fun _ => ?_⟩
    show isIntDecl key.1.decltype = true ∨ _
    cases hdecl : isIntDecl key.1.decltype with
    | true => exact .inl rfl
    | false => exact .inr ⟨key, hkey, hdecl, rfl⟩

theorem soundIdentity_named (idColumn : String) :
    SoundIdentity row (namedIdentity row idColumn) ↔ NamedKeySound row idColumn := by
  show (hasIntKey row = true ↔ RowidAlias row idColumn) ∧
    (_ → hasIntKey row = true ∨ ∃ key, row.keys = [key] ∧ _ ∧
      key.2 = idIndexOf (row.columns.map syncColumn) idColumn) ↔ _
  rw [rowidAlias_iff]
  unfold NamedKeySound hasIntKey
  by_cases hsingle : ∃ key, row.keys = [key]
  · obtain ⟨key, hkey⟩ := hsingle
    have hall {P : SyncColumn × Nat → Prop} : (∃ key, row.keys = [key] ∧ P key) ↔ P key := by
      rw [hkey]
      simp
    have hall' {P : SyncColumn × Nat → Prop} : (∀ key, row.keys = [key] → P key) ↔ P key := by
      rw [hkey]
      simp
    rw [hall, hall, hall', hkey]
    dsimp only
    cases hint : isIntDecl key.1.decltype with
    | true =>
      rw [if_pos rfl, and_comm (a := key.1.name = idColumn)]
      simp
    | false =>
      have hne : key.1.decltype.toUpper ≠ "INTEGER" := by
        intro htype
        rw [isIntDecl_integer htype] at hint
        cases hint
      cases containsWord row.sql "WITHOUT ROWID" <;> simp [hne, eq_comm]
  · have hnone : ∀ key, row.keys ≠ [key] := fun key hkey => hsingle ⟨key, hkey⟩
    simp [hnone]

variable {exp : Option ExplicitMapping}

theorem soundIdentity_node {id : Identity} (h : nodeIdentity row exp = some id) :
    SoundIdentity row id ↔ SoundSourcing row exp := by
  unfold SoundSourcing
  cases exp with
  | none =>
    obtain ⟨key, hkey, hid⟩ := map_eq_some_iff.mp h
    subst hid
    rw [soundIdentity_key (conventionKey_keys hkey), hkey]
    simp
  | some exp =>
    dsimp only at h ⊢
    obtain ⟨hkind, h⟩ := ite_none_left_eq_some.mp h
    cases h
    rw [or_iff_right hkind]
    cases hfilter : (conventionKey row).filter fun key => keepsKey exp key.1.name with
    | some key =>
      rw [registeredIdentity_kept hfilter,
        soundIdentity_key (conventionKey_keys (filter_eq_some_iff.mp hfilter).1)]
    | none => rw [registeredIdentity_named hfilter, soundIdentity_named]

theorem soundSourcing_of_unmapped (h : nodeIdentity row exp = none) : SoundSourcing row exp := by
  unfold nodeIdentity at h
  unfold SoundSourcing
  cases exp with
  | none =>
    rw [map_eq_none_iff] at h
    rw [h]
    exact fun key hkey => nomatch hkey
  | some exp =>
    dsimp only at h
    split at h
    · rename_i hkind
      exact .inl hkind
    · cases h

end

/-! ## 6. The tables of a file -/

/-- The tables of one SQLite file.  SQLite takes no second table of a name. -/
structure LiveTables where
  rows : List MasterRow
  unique : (rows.map MasterRow.name).Nodup

section

variable {live : LiveTables} {explicit_ rows : ByTable ExplicitMapping}
  {inferred : ByTable TableMapping} {row : MasterRow} {t : SyncTable} {schema : TableSchema}
  {m : TableMapping}

section

variable (hrow : row ∈ live.rows)

include hrow

section

variable (h : loadTable row = some (t, schema))

include h

theorem mem_syncTables : t ∈ syncTables live.rows :=
  mem_map.mpr ⟨(t, schema), mem_filterMap.mpr ⟨row, hrow, h⟩, rfl⟩

theorem eq_of_name {t' : SyncTable} (ht' : t' ∈ syncTables live.rows) (hname : t'.name = row.name) :
    t' = t := by
  obtain ⟨⟨t'', schema'⟩, hmem, rfl⟩ := mem_map.mp ht'
  obtain ⟨row', hrow', h'⟩ := mem_filterMap.mp hmem
  have hsame : row' = row := inj_on_of_nodup_map live.unique hrow' hrow
    ((loadTable_some h').1.symm.trans hname)
  rw [hsame, h] at h'
  cases h'
  rfl

theorem lookup_tableByName : (tableByName (syncTables live.rows)).lookup row.name = some t := by
  unfold tableByName
  rw [lookup_indexed]
  have hne : ((syncTables live.rows).filter fun u => u.name = row.name) ≠ [] :=
    ne_nil_of_mem (mem_filter.mpr ⟨mem_syncTables hrow h, by simpa using (loadTable_some h).1⟩)
  rw [getLast?_eq_some_getLast hne]
  have hmem := mem_filter.mp (getLast_mem hne)
  exact congrArg some (eq_of_name hrow h hmem.1 (by simpa using hmem.2))

theorem inferredAt_loaded :
    ((inferredAt (syncTables live.rows) row.name).filter fun m => m.kind = .node) = nodeOf t := by
  have ht := mem_syncTables hrow h
  have hname := (loadTable_some h).1
  -- a node of this name can only come from `t`
  cases hnode : nodeOf t with
  | some m =>
    obtain ⟨m', hat, hkind⟩ := nodeByName_inferredAt
      (⟨t, ht, hname, by rw [hnode]; rfl⟩ : NodeByName (syncTables live.rows) row.name)
    rw [hat, filter_some, if_pos (by simpa using hkind)]
    cases mem_inferMappings hat with
    | inl hfrom =>
      obtain ⟨t', ht', hname', hnode'⟩ := hfrom
      rw [eq_of_name hrow h ht' hname', hnode] at hnode'
      exact hnode'.symm
    | inr hfrom =>
      obtain ⟨t', -, -, hedge⟩ := hfrom
      have := (edgeOf_some hedge).2.1
      rw [hkind] at this
      cases this
  | none =>
    rw [filter_eq_none_iff]
    intro m hat hkind
    obtain ⟨t', ht', hname', hsome⟩ := inferredAt_node hat (of_decide_eq_true hkind)
    rw [eq_of_name hrow h ht' hname', hnode] at hsome
    cases hsome

end

end

theorem Held.node_identity (held : Held (syncTables live.rows) explicit_ inferred rows)
    (hrow : row ∈ live.rows) (h : loadTable row = some (t, schema)) (id : Identity) :
    (∃ m ∈ mergeMappings (syncTables live.rows) inferred rows, m.kind = .node ∧
      m.sqliteTable = row.name ∧ m.identity = id) ↔
      nodeIdentity row (explicit_.lookup row.name) = some id := by
  have hnode := nodeOf_loaded h
  rw [← inferredAt_loaded hrow h] at hnode
  have hlist : (∃ m ∈ mergeMappings (syncTables live.rows) inferred rows, m.kind = .node ∧
      m.sqliteTable = row.name ∧ m.identity = id) ↔
      ¬ RegisteredAsEdge explicit_ row.name ∧
        ((nodePool (syncTables live.rows) inferred rows).lookup row.name).map
          TableMapping.identity = some id := by
    rw [map_eq_some_iff]
    constructor
    · intro hex
      obtain ⟨m, hm, hkind, htable, hid⟩ := hex
      have hmem := (held.node_mem_iff hkind).mp hm
      rw [htable] at hmem
      exact ⟨hmem.2, m, hmem.1, hid⟩
    · intro hand
      obtain ⟨hreg, m, hm, hid⟩ := hand
      obtain ⟨hkind, htable⟩ := held.pool_node hm
      exact ⟨m, (held.node_mem_iff hkind).mpr (by rw [htable]; exact ⟨hm, hreg⟩), hkind, htable, hid⟩
  rw [hlist, lookup_nodePool, held.rows, held.inferred]
  unfold RegisteredAsEdge nodeIdentity
  cases explicit_.lookup row.name with
  | none =>
    rw [bind_none, none_or, hnode]
    simp
  | some exp =>
    dsimp only
    by_cases hkind : exp.kind = "edge"
    · rw [if_pos hkind]
      apply iff_of_false
      · exact fun hand => hand.1 ⟨exp, rfl, hkind⟩
      · exact fun hid => nomatch hid
    · rw [if_neg hkind, bind_some, and_iff_right]
      · unfold explicitNode
        rw [if_neg hkind, lookup_tableByName hrow h, map_some, some_or,
          map_some, held.inferred, explicitIdentity_identity h hnode]
      · intro hreg
        obtain ⟨exp', hexp', hedge⟩ := hreg
        cases hexp'
        exact hkind hedge

theorem identities_sound_iff (live : LiveTables) (explicit_ : ByTable ExplicitMapping) :
    (∀ l, FinalMappings (syncTables live.rows) explicit_ l → ∀ row ∈ live.rows, ∀ t schema,
      loadTable row = some (t, schema) → ∀ m ∈ l, m.kind = .node → m.sqliteTable = row.name →
        IdentitySound row schema m) ↔
    ∀ row ∈ live.rows, (loadTable row).isSome → SoundSourcing row (explicit_.lookup row.name) := by
  constructor
  · intro hall row hrow hload
    obtain ⟨⟨t, schema⟩, h⟩ := isSome_iff_exists.mp hload
    obtain ⟨l, hl⟩ := finalMappings_exists (syncTables live.rows) explicit_
    have hl' := hl
    obtain ⟨inferred, rows, held, rfl⟩ := finalMappings_held hl'
    cases hid : nodeIdentity row (explicit_.lookup row.name) with
    | none => exact soundSourcing_of_unmapped hid
    | some id =>
      obtain ⟨m, hm, hkind, htable, rfl⟩ := (held.node_identity hrow h id).mpr hid
      rw [← soundIdentity_node hid, ← identitySound_iff h]
      exact hall _ hl row hrow t schema h m hm hkind htable
  · intro hall l hl row hrow t schema h m hm hkind htable
    obtain ⟨inferred, rows, held, rfl⟩ := finalMappings_held hl
    have hid := (held.node_identity hrow h m.identity).mp ⟨m, hm, hkind, htable, rfl⟩
    rw [identitySound_iff h, soundIdentity_node hid]
    exact hall row hrow (by rw [h]; rfl)

end

/-! A `BIGINT` primary key is a column like any other: its value is not the rowid. -/

def bigintTables : LiveTables where
  rows := [{ name := "node_p", rootpage := 2, columns := [⟨"id", "BIGINT", 1⟩] }]
  unique := by decide

/-- The node of `node_p` is keyed by the rowid of the row. -/
theorem bigint_key_taken_for_rowid :
    ¬ ∀ l, FinalMappings (syncTables bigintTables.rows) ∅ l → ∀ row ∈ bigintTables.rows,
      ∀ t schema, loadTable row = some (t, schema) → ∀ m ∈ l, m.kind = .node →
        m.sqliteTable = row.name → IdentitySound row schema m := by
  intro h
  have hsound := h _ ⟨_, _, Perm.refl _, Perm.refl _, rfl⟩ _ mem_cons_self _ _ rfl
    { sqliteTable := "node_p", label := "node_p", idFromRowid := true, idColumn := "id" }
    (by decide +kernel) rfl rfl
  obtain ⟨col, hcol, -, htype⟩ := hsound.rowid.mp rfl
  cases hcol
  revert htype
  decide +kernel

end Ladybug.Sqlite.Planning
