import Ladybug.Sqlite.NodeSync

/-!
# Operations that reach no statement

`applyBatch` runs the statements the builders make of a batch.  The builders leave out rows whose
identity, endpoints or properties do not render, and deletes without the value that addresses the
row; the operations of a table without a mapping have no statement at all.  Nothing is reported.
-/

namespace Ladybug.Sqlite

open List

/-- The storage class of the value suits the column type.  Null suits every type. -/
def SqliteValue.Fits (value : SqliteValue) : CypherType → Prop
  | .int64 | .int32 | .int16 | .int8 => match value with
      | .null | .integer _ => True
      | _ => False
  | .double | .float => match value with
      | .null | .integer _ | .real _ => True
      | _ => False
  | .boolean => match value with
      | .null => True
      | .integer v => v = 0 ∨ v = 1
      | _ => False
  | .date | .timestamp => match value with
      | .null | .text _ => True
      | _ => False
  | .blob => match value with
      | .null | .blob _ | .text _ => True
      | _ => False
  | .string => True

def ColumnFits (values : List SqliteValue) (recordIndex : Nat) (type : CypherType) : Prop :=
  ∃ v, values[recordIndex]? = some v ∧ v.Fits type

def BoundTarget.IdentityFits (target : BoundTarget) (op : RowOp) : Prop :=
  target.mapping.idFromRowid = true ∨
    ColumnFits op.values target.mapping.idRecordIndex target.idType

def BoundTarget.EndpointsFit (target : BoundTarget) (values : List SqliteValue) : Prop :=
  ColumnFits values target.mapping.srcColIndex target.srcIdType ∧
    ColumnFits values target.mapping.dstColIndex target.dstIdType

def BoundTarget.PropsFit (target : BoundTarget) (values : List SqliteValue) : Prop :=
  ∀ p ∈ target.props, ColumnFits values p.recordIndex p.type

section

variable [RenderDouble] (target : BoundTarget)

theorem renderCypherValue_ok_iff (value : SqliteValue) (type : CypherType) :
    (∃ lit, renderCypherValue value type = .ok lit) ↔ value.Fits type := by
  cases value with
  | null | real | text | blob => cases type <;> simp [renderCypherValue, SqliteValue.Fits]
  | integer v =>
    cases type with
    | boolean =>
      show (∃ lit, (if v = 0 then Except.ok "false" else if v = 1 then .ok "true"
        else .error _) = Except.ok lit) ↔ v = 0 ∨ v = 1
      by_cases h0 : v = 0
      · simp [h0]
      · by_cases h1 : v = 1 <;> simp [h0, h1]
    | _ => simp [renderCypherValue, SqliteValue.Fits]

theorem renderIdentity_ok_iff (op : RowOp) :
    (∃ lit, renderIdentity target op = .ok lit) ↔ target.IdentityFits op := by
  unfold renderIdentity BoundTarget.IdentityFits ColumnFits
  by_cases h : target.mapping.idFromRowid = true
  · rw [if_pos h]
    exact iff_of_true ⟨_, rfl⟩ (.inl h)
  · rw [if_neg h, or_iff_right h]
    cases op.values[target.mapping.idRecordIndex]? with
    | none => simp
    | some v => simpa using renderCypherValue_ok_iff v target.idType

theorem renderEndpoint_ok_iff (values : List SqliteValue) (recordIndex : Nat) (type : CypherType) :
    (∃ lit, renderEndpoint values recordIndex type = .ok lit) ↔
      ColumnFits values recordIndex type := by
  unfold renderEndpoint ColumnFits
  cases values[recordIndex]? with
  | none => simp
  | some v => simpa using renderCypherValue_ok_iff v type

theorem endpoints_ok_iff (values : List SqliteValue) :
    (∃ ends, target.endpoints values = .ok ends) ↔ target.EndpointsFit values := by
  unfold BoundTarget.EndpointsFit
  rw [← renderEndpoint_ok_iff, ← renderEndpoint_ok_iff]
  unfold BoundTarget.endpoints
  constructor
  · intro h
    obtain ⟨ends, h⟩ := h
    obtain ⟨src, hsrc, h⟩ := bind_eq_ok.mp h
    obtain ⟨dst, hdst, -⟩ := bind_eq_ok.mp h
    exact ⟨⟨src, hsrc⟩, ⟨dst, hdst⟩⟩
  · intro h
    obtain ⟨⟨src, hsrc⟩, ⟨dst, hdst⟩⟩ := h
    exact ⟨(src, dst), by rw [hsrc, hdst]; rfl⟩

def PropsCarried (values : List SqliteValue) : RowLit → Prop :=
  List.Forall₂ (fun p field => ∃ v lit, values[p.recordIndex]? = some v ∧
    renderCypherValue v p.type = .ok lit ∧ field = (p.name, lit)) target.props

theorem propsCarried_fit {values : List SqliteValue} {fields : RowLit}
    (h : PropsCarried target values fields) : target.PropsFit values := by
  intro p hp
  obtain ⟨i, hi, rfl⟩ := getElem_of_mem hp
  have hlen : i < fields.length := by rw [← h.length_eq]; exact hi
  obtain ⟨v, lit, hv, hlit, -⟩ := (forall₂_iff_get.mp h).2 i hi hlen
  exact ⟨v, hv, (renderCypherValue_ok_iff v _).mp ⟨lit, hlit⟩⟩

theorem propFields_carried {values : List SqliteValue} (h : target.PropsFit values) :
    PropsCarried target values (target.propFields values) := by
  unfold PropsCarried BoundTarget.propFields
  unfold BoundTarget.PropsFit at h
  generalize target.props = props at h
  induction props with
  | nil => exact List.Forall₂.nil
  | cons p props ih =>
    obtain ⟨v, hv, hfits⟩ := h p mem_cons_self
    obtain ⟨lit, hlit⟩ := (renderCypherValue_ok_iff v p.type).mpr hfits
    simp only [filterMap_cons, hv, hlit, Except.toOption, Option.map_some]
    exact .cons ⟨v, lit, hv, hlit, rfl⟩ (ih fun q hq => h q (mem_cons_of_mem p hq))

end

section

variable {α β : Type} {b : Nat} {item : α → Option β} {build : List β → List Statement}
  {ops : List α}

theorem batchSize_pos (b : Nat) : 0 < if b = 0 then 1 else b := by
  split <;> omega

theorem mem_batched {s : Statement} (h : s ∈ batched b item build ops) :
    ∃ items, s ∈ build items ∧ ∀ x ∈ items, x ∈ ops.filterMap item := by
  obtain ⟨chunk, hchunk, hs⟩ := mem_flatMap.mp h
  dsimp only at hs
  split at hs
  · cases hs
  · refine ⟨chunk.filterMap item, hs, fun x hx => ?_⟩
    rw [← flatten_chunks (batchSize_pos b) ops]
    obtain ⟨op, hop, hitem⟩ := mem_filterMap.mp hx
    exact mem_filterMap.mpr ⟨op, mem_flatten.mpr ⟨chunk, hchunk, hop⟩, hitem⟩

theorem batched_covers {x : β} (h : x ∈ ops.filterMap item) :
    ∃ items, x ∈ items ∧ ∀ s ∈ build items, s ∈ batched b item build ops := by
  obtain ⟨op, hop, hitem⟩ := mem_filterMap.mp h
  rw [← flatten_chunks (batchSize_pos b) ops, mem_flatten] at hop
  obtain ⟨chunk, hchunk, hop⟩ := hop
  have hx : x ∈ chunk.filterMap item := mem_filterMap.mpr ⟨op, hop, hitem⟩
  refine ⟨chunk.filterMap item, hx, fun s hs => mem_flatMap.mpr ⟨chunk, hchunk, ?_⟩⟩
  rw [if_neg]
  · exact hs
  · rw [List.isEmpty_iff]
    exact ne_nil_of_mem hx

end

def batchStatements [RenderDouble] (nodes edges : List BoundTarget) (batch : OpBatch) :
    List Statement :=
  nodes.flatMap (fun t => nodeStatements t batch) ++ edges.flatMap fun t => edgeStatements t batch

section

variable {G : Type} {session : Session G} {g g' : G}

theorem execAll_logged {stmts : List Statement} (log : List Statement)
    (h : execAll session stmts g = .ok g') :
    execAll session.logged stmts (g, log) = .ok (g', log ++ stmts) := by
  unfold execAll at h ⊢
  induction stmts generalizing g log with
  | nil =>
    cases h
    rw [append_nil]
    rfl
  | cons stmt stmts ih =>
    rw [foldlM_cons] at h ⊢
    obtain ⟨g₁, hstep, hrest⟩ := bind_eq_ok.mp h
    have hlogged : execOk session.logged (g, log) stmt = .ok (g₁, log ++ [stmt]) := by
      unfold execOk at hstep ⊢
      split at hstep
      · next g₂ hexec =>
        cases hstep
        simp only [Session.logged, hexec, Except.map]
      · cases hstep
    rw [append_cons]
    exact bind_eq_ok.mpr ⟨_, hlogged, ih (log ++ [stmt]) hrest⟩

variable [RenderDouble] {nodes edges : List BoundTarget} {batch : OpBatch}
  {acc acc' : G × SyncStats}

theorem applyNodes_logged (t : BoundTarget) (log : List Statement)
    (h : applyNodes session batch acc t = .ok acc') :
    applyNodes session.logged batch ((acc.1, log), acc.2) t =
      .ok ((acc'.1, log ++ nodeStatements t batch), acc'.2) := by
  unfold applyNodes nodeStatements at *
  obtain ⟨g₁, hups, h⟩ := bind_eq_ok.mp h
  obtain ⟨g₂, hdels, h⟩ := bind_eq_ok.mp h
  cases h
  rw [← append_assoc]
  exact bind_eq_ok.mpr ⟨_, execAll_logged log hups, bind_eq_ok.mpr ⟨_, execAll_logged _ hdels, rfl⟩⟩

theorem applyEdges_logged (t : BoundTarget) (log : List Statement)
    (h : applyEdges session batch acc t = .ok acc') :
    applyEdges session.logged batch ((acc.1, log), acc.2) t =
      .ok ((acc'.1, log ++ edgeStatements t batch), acc'.2) := by
  unfold applyEdges edgeStatements at *
  obtain ⟨g₁, hups, h⟩ := bind_eq_ok.mp h
  obtain ⟨g₂, hdels, h⟩ := bind_eq_ok.mp h
  cases h
  rw [← append_assoc]
  exact bind_eq_ok.mpr ⟨_, execAll_logged log hups, bind_eq_ok.mpr ⟨_, execAll_logged _ hdels, rfl⟩⟩

omit [RenderDouble] in
theorem foldlM_logged {step : G × SyncStats → BoundTarget → Except (String × G) (G × SyncStats)}
    {logged : (G × List Statement) × SyncStats → BoundTarget →
      Except (String × G × List Statement) ((G × List Statement) × SyncStats)}
    {stmts : BoundTarget → List Statement}
    (hstep : ∀ {acc acc'} t log, step acc t = .ok acc' →
      logged ((acc.1, log), acc.2) t = .ok ((acc'.1, log ++ stmts t), acc'.2))
    {targets : List BoundTarget} (log : List Statement) (h : targets.foldlM step acc = .ok acc') :
    targets.foldlM logged ((acc.1, log), acc.2) =
      .ok ((acc'.1, log ++ targets.flatMap stmts), acc'.2) := by
  induction targets generalizing acc log with
  | nil =>
    cases h
    rw [flatMap_nil, append_nil]
    rfl
  | cons t targets ih =>
    rw [foldlM_cons] at h ⊢
    obtain ⟨acc₁, hfirst, hrest⟩ := bind_eq_ok.mp h
    rw [flatMap_cons, ← append_assoc]
    exact bind_eq_ok.mpr ⟨_, hstep t log hfirst, ih _ hrest⟩

/-- The statements that `applyBatch` executes, up to the one that fails. -/
def executed (session : Session G) (nodes edges : List BoundTarget) (batch : OpBatch)
    (acc : G × SyncStats) : List Statement :=
  match applyBatch session.logged nodes edges batch ((acc.1, []), acc.2) with
  | .ok acc' => acc'.1.2
  | .error failed => failed.2.2

theorem applyBatch_executes (h : applyBatch session nodes edges batch acc = .ok acc') :
    executed session nodes edges batch acc = batchStatements nodes edges batch := by
  unfold applyBatch at h
  obtain ⟨acc₁, hnodes, hedges⟩ := bind_eq_ok.mp h
  have hlogged : applyBatch session.logged nodes edges batch ((acc.1, []), acc.2) =
      .ok ((acc'.1, batchStatements nodes edges batch), acc'.2) :=
    bind_eq_ok.mpr ⟨_, foldlM_logged applyNodes_logged [] hnodes,
      foldlM_logged applyEdges_logged _ hedges⟩
  unfold executed
  rw [hlogged]

end

section

variable [RenderDouble]

def CarriesNode (target : BoundTarget) (op : RowOp) (s : Statement) : Prop :=
  ∃ rows lit fields, renderIdentity target op = .ok lit ∧ PropsCarried target op.values fields ∧
    (target.mapping.idColumn, lit) :: fields ∈ rows ∧
    s = .nodeUpsert target.mapping.label target.mapping.idColumn
      (target.props.map BoundColumn.name) rows

def CarriesEdge (target : BoundTarget) (op : RowOp) (s : Statement) : Prop :=
  ∃ rows ends fields, target.endpoints op.values = .ok ends ∧ PropsCarried target op.values fields ∧
    [("src", ends.1), ("dst", ends.2), (EDGE_RID_PROP, toString op.rowid)] ++ fields ∈ rows ∧
    s = .edgeCreate target.rel (target.props.map BoundColumn.name) rows

def RemovesNode (label idKey lit : String) (s : Statement) : Prop :=
  ∃ ids, s = .nodeDelete label idKey ids ∧ lit ∈ ids

/-- The statement matches the edge between the endpoints, clears its slot, or detaches an
endpoint. -/
def RemovesEdge (rel : RelPattern) (ends : String × String) (rid : String) (s : Statement) : Prop :=
  (∃ rows, s = .edgeDelete rel rows ∧ [("src", ends.1), ("dst", ends.2)] ∈ rows) ∨
    (∃ rows, s = .slotClear rel.label rows ∧ ∃ row ∈ rows, row.lookup EDGE_RID_PROP = some rid) ∨
    RemovesNode rel.srcLabel rel.srcKey ends.1 s ∨ RemovesNode rel.dstLabel rel.dstKey ends.2 s

/-- A row that an earlier batch upserted into the target, under the mapping of that time. -/
structure SentRow where
  target : BoundTarget
  op : RowOp
  mapped : op.table = target.mapping.sqliteTable

def SentRow.RemovedBy (sent : SentRow) (executed : List Statement) : Prop :=
  match sent.target.mapping.kind with
  | .node => ∀ lit, renderIdentity sent.target sent.op = .ok lit → ∃ s ∈ executed,
      RemovesNode sent.target.mapping.label sent.target.mapping.idColumn lit s
  | .edge => ∀ ends, sent.target.endpoints sent.op.values = .ok ends → ∃ s ∈ executed,
      RemovesEdge sent.target.rel ends (toString sent.op.rowid) s

/-- Once the batch is applied, its upserts were carried and its deletes of sent rows took them
out. -/
def NothingLost (nodes edges : List BoundTarget) (batch : OpBatch) (sent : List SentRow) : Prop :=
  ∀ (G : Type) (session : Session G) (acc acc' : G × SyncStats),
    applyBatch session nodes edges batch acc = .ok acc' →
    (∀ t ∈ nodes, ∀ op ∈ t.opsOf batch,
      ∃ s ∈ executed session nodes edges batch acc, CarriesNode t op s) ∧
    (∀ t ∈ edges, ∀ op ∈ t.opsOf batch,
      ∃ s ∈ executed session nodes edges batch acc, CarriesEdge t op s) ∧
    ∀ d ∈ batch.deletes, ∀ r ∈ sent, r.op.table = d.table → r.op.rowid = d.rowid →
      r.RemovedBy (executed session nodes edges batch acc)

/-- Every row of a mapped table has what its statement needs, in storage classes that suit. -/
def UpsertsFit (nodes edges : List BoundTarget) (batch : OpBatch) : Prop :=
  (∀ t ∈ nodes, ∀ op ∈ t.opsOf batch, t.IdentityFits op ∧ t.PropsFit op.values) ∧
    ∀ t ∈ edges, ∀ op ∈ t.opsOf batch, t.EndpointsFit op.values ∧ t.PropsFit op.values

def NodeAddressed (nodes : List BoundTarget) (batch : OpBatch) (label idKey lit : String) : Prop :=
  ∃ t ∈ nodes, t.mapping.label = label ∧ t.mapping.idColumn = idKey ∧
    ∃ d ∈ t.deletesOf batch, deleteId t d = some lit

/-- A table is mapped to this edge, and a delete of it has kept a record with these endpoints; or
the slot of the edge is filled again; or an endpoint is deleted. -/
def EdgeAddressed (nodes edges : List BoundTarget) (batch : OpBatch) (rel : RelPattern)
    (ends : String × String) (rid : String) : Prop :=
  (∃ t ∈ edges, t.rel = rel ∧ ∃ op ∈ t.deleteOpsOf batch, t.endpoints op.values = .ok ends) ∨
    (∃ t ∈ edges, t.mapping.label = rel.label ∧ ∃ op ∈ t.opsOf batch, toString op.rowid = rid ∧
      t.EndpointsFit op.values) ∨
    NodeAddressed nodes batch rel.srcLabel rel.srcKey ends.1 ∨
    NodeAddressed nodes batch rel.dstLabel rel.dstKey ends.2

def SentRow.Addressed (sent : SentRow) (nodes edges : List BoundTarget) (batch : OpBatch) : Prop :=
  match sent.target.mapping.kind with
  | .node => ∀ lit, renderIdentity sent.target sent.op = .ok lit →
      NodeAddressed nodes batch sent.target.mapping.label sent.target.mapping.idColumn lit
  | .edge => ∀ ends, sent.target.endpoints sent.op.values = .ok ends →
      EdgeAddressed nodes edges batch sent.target.rel ends (toString sent.op.rowid)

def DeletesAddressed (nodes edges : List BoundTarget) (batch : OpBatch) (sent : List SentRow) :
    Prop :=
  ∀ d ∈ batch.deletes, ∀ r ∈ sent, r.op.table = d.table → r.op.rowid = d.rowid →
    r.Addressed nodes edges batch

variable {nodes edges : List BoundTarget} {batch : OpBatch} {t : BoundTarget} {op : RowOp}
  {s : Statement}

theorem mem_batchStatements : s ∈ batchStatements nodes edges batch ↔
    (∃ t ∈ nodes, s ∈ buildNodeUpserts t (t.opsOf batch) ∨
      s ∈ buildNodeDeletes t (t.deletesOf batch)) ∨
    ∃ t ∈ edges, s ∈ buildEdgeUpserts t (t.opsOf batch) ∨
      s ∈ buildEdgeDeletes t (t.deleteOpsOf batch) := by
  unfold batchStatements nodeStatements edgeStatements
  simp only [mem_append, mem_flatMap]

variable {row : RowLit}

theorem nodeRow_eq : nodeRow t op = some row ↔ ∃ lit, renderIdentity t op = .ok lit ∧
      row = (t.mapping.idColumn, lit) :: t.propFields op.values := by
  unfold nodeRow
  cases renderIdentity t op with
  | error msg => simp
  | ok lit => simp [eq_comm]

theorem edgeRow_eq : edgeRow t op = some row ↔ ∃ ends, t.endpoints op.values = .ok ends ∧
      row = [("src", ends.1), ("dst", ends.2), (EDGE_RID_PROP, toString op.rowid)] ++
        t.propFields op.values := by
  unfold edgeRow
  cases t.endpoints op.values with
  | error msg => simp
  | ok ends => simp [eq_comm]

theorem edgeEnds_eq : edgeEnds t op = some row ↔
    ∃ ends, t.endpoints op.values = .ok ends ∧ row = [("src", ends.1), ("dst", ends.2)] := by
  unfold edgeEnds
  cases t.endpoints op.values with
  | error msg => simp
  | ok ends => simp [eq_comm]

theorem node_carried_iff (ht : t ∈ nodes) (hop : op ∈ t.opsOf batch) :
    (∃ s ∈ batchStatements nodes edges batch, CarriesNode t op s) ↔
      t.IdentityFits op ∧ t.PropsFit op.values := by
  constructor
  · intro h
    obtain ⟨s, -, rows, lit, fields, hlit, hfields, -⟩ := h
    exact ⟨(renderIdentity_ok_iff t op).mp ⟨lit, hlit⟩, propsCarried_fit t hfields⟩
  · intro h
    obtain ⟨lit, hlit⟩ := (renderIdentity_ok_iff t op).mpr h.1
    have hrow := mem_filterMap.mpr ⟨op, hop, nodeRow_eq.mpr ⟨lit, hlit, rfl⟩⟩
    obtain ⟨rows, hmem, hstmt⟩ := batched_covers hrow
    exact ⟨_, mem_batchStatements.mpr (.inl ⟨t, ht, .inl (hstmt _ mem_cons_self)⟩),
      rows, lit, _, hlit, propFields_carried t h.2, hmem, rfl⟩

theorem edge_carried_iff (ht : t ∈ edges) (hop : op ∈ t.opsOf batch) :
    (∃ s ∈ batchStatements nodes edges batch, CarriesEdge t op s) ↔
      t.EndpointsFit op.values ∧ t.PropsFit op.values := by
  constructor
  · intro h
    obtain ⟨s, -, rows, ends, fields, hends, hfields, -⟩ := h
    exact ⟨(endpoints_ok_iff t op.values).mp ⟨ends, hends⟩, propsCarried_fit t hfields⟩
  · intro h
    obtain ⟨ends, hends⟩ := (endpoints_ok_iff t op.values).mpr h.1
    have hrow := mem_filterMap.mpr ⟨op, hop, edgeRow_eq.mpr ⟨ends, hends, rfl⟩⟩
    obtain ⟨rows, hmem, hstmt⟩ := batched_covers hrow
    exact ⟨_, mem_batchStatements.mpr (.inr ⟨t, ht, .inl (hstmt _
      (mem_cons_of_mem _ mem_cons_self))⟩),
      rows, ends, _, hends, propFields_carried t h.2, hmem, rfl⟩

theorem node_removed_iff (label idKey lit : String) :
    (∃ s ∈ batchStatements nodes edges batch, RemovesNode label idKey lit s) ↔
      NodeAddressed nodes batch label idKey lit := by
  constructor
  · intro h
    obtain ⟨s, hs, ids, rfl, hlit⟩ := h
    -- only the node deletes build this kind of statement
    rcases mem_batchStatements.mp hs with ⟨t, ht, hs | hs⟩ | ⟨t, ht, hs | hs⟩
    all_goals obtain ⟨items, hs, hitems⟩ := mem_batched hs
    · simp at hs
    · simp only [mem_singleton, Statement.nodeDelete.injEq] at hs
      obtain ⟨rfl, rfl, rfl⟩ := hs
      obtain ⟨d, hd, hid⟩ := mem_filterMap.mp (hitems lit hlit)
      exact ⟨t, ht, rfl, rfl, d, hd, hid⟩
    · simp at hs
    · simp at hs
  · intro h
    obtain ⟨t, ht, rfl, rfl, d, hd, hid⟩ := h
    obtain ⟨ids, hmem, hstmt⟩ := batched_covers (mem_filterMap.mpr ⟨d, hd, hid⟩)
    exact ⟨_, mem_batchStatements.mpr (.inl ⟨t, ht, .inr (hstmt _ mem_cons_self)⟩), ids, rfl, hmem⟩

theorem edge_matched_iff (rel : RelPattern) (ends : String × String) :
    (∃ s ∈ batchStatements nodes edges batch, ∃ rows, s = .edgeDelete rel rows ∧
      [("src", ends.1), ("dst", ends.2)] ∈ rows) ↔
      ∃ t ∈ edges, t.rel = rel ∧ ∃ op ∈ t.deleteOpsOf batch, t.endpoints op.values = .ok ends := by
  constructor
  · intro h
    obtain ⟨s, hs, rows, rfl, hrow⟩ := h
    rcases mem_batchStatements.mp hs with ⟨t, ht, hs | hs⟩ | ⟨t, ht, hs | hs⟩
    all_goals obtain ⟨items, hs, hitems⟩ := mem_batched hs
    · simp at hs
    · simp at hs
    · simp at hs
    · simp only [mem_singleton, Statement.edgeDelete.injEq] at hs
      obtain ⟨rfl, rfl⟩ := hs
      obtain ⟨op, hop, hends⟩ := mem_filterMap.mp (hitems _ hrow)
      obtain ⟨ends', hends', heq⟩ := edgeEnds_eq.mp hends
      simp only [List.cons.injEq, Prod.mk.injEq, true_and, and_true] at heq
      exact ⟨t, ht, rfl, op, hop, by rw [hends', Prod.ext heq.1 heq.2]⟩
  · intro h
    obtain ⟨t, ht, rfl, op, hop, hends⟩ := h
    obtain ⟨rows, hmem, hstmt⟩ := batched_covers
      (mem_filterMap.mpr ⟨op, hop, edgeEnds_eq.mpr ⟨ends, hends, rfl⟩⟩)
    exact ⟨_, mem_batchStatements.mpr (.inr ⟨t, ht, .inr (hstmt _ mem_cons_self)⟩), rows, rfl, hmem⟩

theorem edgeRow_rid (h : edgeRow t op = some row) :
    row.lookup EDGE_RID_PROP = some (toString op.rowid) := by
  obtain ⟨ends, -, rfl⟩ := edgeRow_eq.mp h
  simp [List.lookup, EDGE_RID_PROP]

theorem edge_cleared_iff (label rid : String) :
    (∃ s ∈ batchStatements nodes edges batch, ∃ rows, s = .slotClear label rows ∧
      ∃ row ∈ rows, row.lookup EDGE_RID_PROP = some rid) ↔
      ∃ t ∈ edges, t.mapping.label = label ∧ ∃ op ∈ t.opsOf batch, toString op.rowid = rid ∧
        t.EndpointsFit op.values := by
  constructor
  · intro h
    obtain ⟨s, hs, rows, rfl, row, hrow, hrid⟩ := h
    rcases mem_batchStatements.mp hs with ⟨t, ht, hs | hs⟩ | ⟨t, ht, hs | hs⟩
    all_goals obtain ⟨items, hs, hitems⟩ := mem_batched hs
    · simp at hs
    · simp at hs
    · simp only [mem_cons, Statement.slotClear.injEq, reduceCtorEq, not_mem_nil, or_false] at hs
      obtain ⟨rfl, rfl⟩ := hs
      obtain ⟨op, hop, hedge⟩ := mem_filterMap.mp (hitems _ hrow)
      obtain ⟨ends, hends, -⟩ := edgeRow_eq.mp hedge
      rw [edgeRow_rid hedge] at hrid
      exact ⟨t, ht, rfl, op, hop, Option.some.inj hrid,
        (endpoints_ok_iff t op.values).mp ⟨ends, hends⟩⟩
    · simp at hs
  · intro h
    obtain ⟨t, ht, rfl, op, hop, rfl, hfit⟩ := h
    obtain ⟨ends, hends⟩ := (endpoints_ok_iff t op.values).mpr hfit
    have hedge : edgeRow t op = some _ := edgeRow_eq.mpr ⟨ends, hends, rfl⟩
    obtain ⟨rows, hmem, hstmt⟩ := batched_covers (mem_filterMap.mpr ⟨op, hop, hedge⟩)
    exact ⟨_, mem_batchStatements.mpr (.inr ⟨t, ht, .inl (hstmt _ mem_cons_self)⟩),
      rows, rfl, _, hmem, edgeRow_rid hedge⟩

theorem edge_removed_iff (rel : RelPattern) (ends : String × String) (rid : String) :
    (∃ s ∈ batchStatements nodes edges batch, RemovesEdge rel ends rid s) ↔
      EdgeAddressed nodes edges batch rel ends rid := by
  unfold RemovesEdge EdgeAddressed
  simp only [and_or_left, exists_or]
  exact or_congr (edge_matched_iff rel ends) (or_congr (edge_cleared_iff rel.label rid)
    (or_congr (node_removed_iff _ _ ends.1) (node_removed_iff _ _ ends.2)))

theorem removedBy_iff (sent : SentRow) :
    sent.RemovedBy (batchStatements nodes edges batch) ↔ sent.Addressed nodes edges batch := by
  unfold SentRow.RemovedBy SentRow.Addressed
  cases sent.target.mapping.kind with
  | node =>
    apply forall₂_congr
    intro lit _
    exact node_removed_iff _ _ lit
  | edge =>
    apply forall₂_congr
    intro ends _
    exact edge_removed_iff _ ends _

/-- An engine that accepts every statement and keeps nothing. -/
def acceptingSession : Session Unit where
  exec := fun _ _ => .ok ()
  readCursor := fun _ _ => .ok none

omit [RenderDouble] in
theorem execAll_accepting (stmts : List Statement) (g : Unit) :
    execAll acceptingSession stmts g = .ok g := by
  induction stmts with
  | nil => rfl
  | cons s stmts ih => exact ih

omit [RenderDouble] in
theorem foldlM_accepting {step : Unit × SyncStats → BoundTarget →
      Except (String × Unit) (Unit × SyncStats)}
    (hstep : ∀ acc t, ∃ acc', step acc t = .ok acc') (targets : List BoundTarget)
    (acc : Unit × SyncStats) : ∃ acc', targets.foldlM step acc = .ok acc' := by
  induction targets generalizing acc with
  | nil => exact ⟨acc, rfl⟩
  | cons t targets ih =>
    obtain ⟨acc₁, hfirst⟩ := hstep acc t
    rw [foldlM_cons, hfirst]
    exact ih acc₁

theorem applyBatch_accepting (nodes edges : List BoundTarget) (batch : OpBatch) :
    ∃ acc', applyBatch acceptingSession nodes edges batch ((), {}) = .ok acc' := by
  have hnode (acc : Unit × SyncStats) (t : BoundTarget) :
      ∃ acc', applyNodes acceptingSession batch acc t = .ok acc' := by
    unfold applyNodes
    simp only [execAll_accepting]
    exact ⟨_, rfl⟩
  have hedge (acc : Unit × SyncStats) (t : BoundTarget) :
      ∃ acc', applyEdges acceptingSession batch acc t = .ok acc' := by
    unfold applyEdges
    simp only [execAll_accepting]
    exact ⟨_, rfl⟩
  obtain ⟨acc₁, hnodes⟩ := foldlM_accepting hnode nodes ((), {})
  obtain ⟨acc₂, hedges⟩ := foldlM_accepting hedge edges acc₁
  exact ⟨acc₂, bind_eq_ok.mpr ⟨acc₁, hnodes, hedges⟩⟩

end

/-! A text in an integer column. -/

def mistypedTable : BoundTarget :=
  bindTarget { sqliteTable := "t", label := "t", idFromRowid := true, idColumn := "id" }
    [{ name := "id", decltype := "INTEGER" }, { name := "n", decltype := "INTEGER" }]

def mistypedBatch : OpBatch where
  upserts := [⟨"t", 1, [.null, .text [0x61]]⟩]

end Ladybug.Sqlite
