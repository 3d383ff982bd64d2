import Ladybug.Sqlite.NodeSync

/-!
# Edge tables

An upsert clears the slot of its rowid and creates the edge anew; a delete goes by the endpoints of
the row.  An edge table is carried over exactly when no row that was given up has the endpoints of a
row that is still there.
-/

namespace Ladybug.Sqlite

open List

/-! ## 1. Rows as edges -/

section

variable {V : Type} [RenderDouble] (lits : Literals V) (target : BoundTarget)

def endpointValue (values : List SqliteValue) (recordIndex : Nat) (idType : CypherType) : V :=
  match renderEndpoint values recordIndex idType with
  | .ok lit => lits.denote lit
  | .error _ => lits.null

def edgeSrc (values : List SqliteValue) : V :=
  endpointValue lits values target.mapping.srcColIndex target.srcIdType

def edgeDst (values : List SqliteValue) : V :=
  endpointValue lits values target.mapping.dstColIndex target.dstIdType

/-- The edge of a row, tagged with the rowid. -/
def edgeOf (x : Int64) (values : List SqliteValue) : Edge V where
  label := target.mapping.label
  srcLabel := target.mapping.srcLabel
  src := edgeSrc lits target values
  dstLabel := target.mapping.dstLabel
  dst := edgeDst lits target values
  props := fun q => if q = EDGE_RID_PROP then lits.denote (toString x)
    else namedValue lits target.props values q

def rowEdges (rows : List DecodedRow) : Multiset (Edge V) :=
  rows.map fun row => edgeOf lits target row.rowid row.values

def HoldsEdges (g : Graph V) (v : TableView) : Prop :=
  (g.edges.filter fun e => e.label = target.mapping.label) = rowEdges lits target v.all

/-- The two endpoints of a row. -/
def Ends (g : Graph V) (values : List SqliteValue) : Prop :=
  (edgeSrc lits target values ≠ lits.null ∧
    g.nodes target.mapping.srcLabel (edgeSrc lits target values) ≠ none) ∧
  (edgeDst lits target values ≠ lits.null ∧
    g.nodes target.mapping.dstLabel (edgeDst lits target values) ≠ none)

/-- The endpoints of every row of `v` are nodes. -/
def Joined (g : Graph V) (v : TableView) : Prop :=
  ∀ x a, v.record x = some a → Ends lits target g a

structure EdgeFields : Prop where
  nodup : (target.props.map BoundColumn.name).Nodup
  src : "src" ∉ target.props.map BoundColumn.name
  dst : "dst" ∉ target.props.map BoundColumn.name
  rid : EDGE_RID_PROP ∉ target.props.map BoundColumn.name

variable {lits target} {values : List SqliteValue}

theorem endpoints_of_ne_null (hsrc : edgeSrc lits target values ≠ lits.null)
    (hdst : edgeDst lits target values ≠ lits.null) :
    ∃ src dst, target.endpoints values = .ok (src, dst) ∧
      lits.denote src = edgeSrc lits target values ∧
      lits.denote dst = edgeDst lits target values := by
  unfold edgeSrc endpointValue at hsrc ⊢
  unfold edgeDst endpointValue at hdst ⊢
  unfold BoundTarget.endpoints
  cases hs : renderEndpoint values target.mapping.srcColIndex target.srcIdType with
  | error e => rw [hs] at hsrc; exact absurd rfl hsrc
  | ok src =>
    cases hd : renderEndpoint values target.mapping.dstColIndex target.dstIdType with
    | error e => rw [hd] at hdst; exact absurd rfl hdst
    | ok dst => exact ⟨src, dst, rfl, rfl, rfl⟩

theorem edgeRow_of_ne_null {op : RowOp} (hsrc : edgeSrc lits target op.values ≠ lits.null)
    (hdst : edgeDst lits target op.values ≠ lits.null) : ∃ src dst,
    edgeRow target op = some ([("src", src), ("dst", dst), (EDGE_RID_PROP, toString op.rowid)] ++
      target.propFields op.values) ∧
    lits.denote src = edgeSrc lits target op.values ∧
    lits.denote dst = edgeDst lits target op.values := by
  obtain ⟨src, dst, hends, hs, hd⟩ := endpoints_of_ne_null hsrc hdst
  refine ⟨src, dst, ?_, hs, hd⟩
  unfold edgeRow
  rw [hends]

theorem edgeEnds_of_ne_null {op : RowOp} (hsrc : edgeSrc lits target op.values ≠ lits.null)
    (hdst : edgeDst lits target op.values ≠ lits.null) : ∃ src dst,
    edgeEnds target op = some [("src", src), ("dst", dst)] ∧
    lits.denote src = edgeSrc lits target op.values ∧
    lits.denote dst = edgeDst lits target op.values := by
  obtain ⟨src, dst, hends, hs, hd⟩ := endpoints_of_ne_null hsrc hdst
  refine ⟨src, dst, ?_, hs, hd⟩
  unfold edgeEnds
  rw [hends]

omit [RenderDouble] in
theorem field_edgeRow (src dst : String) (x : Int64) (fields : RowLit) (q : String) :
    lits.field ([("src", src), ("dst", dst), (EDGE_RID_PROP, toString x)] ++ fields) q =
      if q = "src" then lits.denote src
      else if q = "dst" then lits.denote dst
      else if q = EDGE_RID_PROP then lits.denote (toString x)
      else lits.field fields q := by
  rw [cons_append, cons_append, cons_append, field_cons, field_cons, field_cons]
  rfl

omit [RenderDouble] in
theorem field_edgeRow_rid (src dst : String) (x : Int64) (fields : RowLit) :
    lits.field ([("src", src), ("dst", dst), (EDGE_RID_PROP, toString x)] ++ fields)
      EDGE_RID_PROP = lits.denote (toString x) := by
  rw [field_edgeRow, if_neg (by decide), if_neg (by decide), if_pos rfl]

theorem rowEdge_eq (hfields : EdgeFields target) {x : Int64} {src dst : String}
    (hs : lits.denote src = edgeSrc lits target values)
    (hd : lits.denote dst = edgeDst lits target values) :
    rowEdge lits target.rel (target.props.map BoundColumn.name)
      ([("src", src), ("dst", dst), (EDGE_RID_PROP, toString x)] ++ target.propFields values) =
      edgeOf lits target x values := by
  have hprops : ∀ q, (if q ∈ target.props.map BoundColumn.name ++ [EDGE_RID_PROP] then
      lits.field ([("src", src), ("dst", dst), (EDGE_RID_PROP, toString x)] ++
        target.propFields values) q else lits.null) =
      if q = EDGE_RID_PROP then lits.denote (toString x)
      else namedValue lits target.props values q := by
    intro q
    by_cases hrid : q = EDGE_RID_PROP
    · subst hrid
      rw [if_pos (mem_append_right _ mem_cons_self), if_pos rfl, field_edgeRow_rid]
    rw [if_neg hrid]
    by_cases hq : q ∈ target.props.map BoundColumn.name
    · have hqs : q ≠ "src" := fun heq ↦ hfields.src (heq ▸ hq)
      have hqd : q ≠ "dst" := fun heq ↦ hfields.dst (heq ▸ hq)
      rw [if_pos (mem_append_left _ hq), field_edgeRow, if_neg hqs, if_neg hqd, if_neg hrid,
        field_propFields lits hfields.nodup]
    · have hnot : q ∉ target.props.map BoundColumn.name ++ [EDGE_RID_PROP] := by
        rw [mem_append, mem_singleton]
        exact fun h => h.elim hq hrid
      rw [if_neg hnot, namedValue_of_notMem lits hq]
  have hsrc : lits.field ([("src", src), ("dst", dst), (EDGE_RID_PROP, toString x)] ++
      target.propFields values) "src" = edgeSrc lits target values := by
    rw [field_edgeRow, if_pos rfl, hs]
  have hdst : lits.field ([("src", src), ("dst", dst), (EDGE_RID_PROP, toString x)] ++
      target.propFields values) "dst" = edgeDst lits target values := by
    rw [field_edgeRow, if_neg (by decide), if_pos rfl, hd]
  unfold rowEdge edgeOf
  rw [hsrc, hdst, funext hprops]
  rfl

end

/-! ## 2. The effect of the statements -/

section

variable {V : Type} [DecidableEq V] [RenderDouble] {lits : Literals V} {target : BoundTarget}

def OfRowid (lits : Literals V) (target : BoundTarget) (x : Int64) (e : Edge V) : Prop :=
  e.label = target.mapping.label ∧ e.props EDGE_RID_PROP = lits.denote (toString x)

instance (x : Int64) : DecidablePred (OfRowid lits target x) :=
  fun _ => inferInstanceAs (Decidable (_ ∧ _))

omit [DecidableEq V] in
theorem ofRowid_edgeOf {x y : Int64} {values : List SqliteValue} :
    OfRowid lits target x (edgeOf lits target y values) ↔ y = x := by
  constructor
  · rintro ⟨-, hrid⟩
    exact lits.rowid_inj y x hrid
  · rintro rfl
    exact ⟨rfl, rfl⟩

omit [DecidableEq V] [RenderDouble] in
theorem inSlot_edgeRow {op : RowOp} {src dst : String} {fields : RowLit} {e : Edge V} :
    InSlot lits target.mapping.label
      ([("src", src), ("dst", dst), (EDGE_RID_PROP, toString op.rowid)] ++ fields) e ↔
      OfRowid lits target op.rowid e := by
  unfold InSlot OfRowid
  rw [field_edgeRow_rid, and_iff_left (lits.rowid_ne_null op.rowid)]

variable {g : Graph V} {ops : List RowOp}

section

variable (hfields : EdgeFields target)

include hfields

theorem edgeRows (hends : ∀ op ∈ ops, Ends lits target g op.values) :
    (∀ e, (∀ row ∈ ops.filterMap (edgeRow target), ¬ InSlot lits target.mapping.label row e) ↔
      ∀ op ∈ ops, ¬ OfRowid lits target op.rowid e) ∧
    (ops.filterMap (edgeRow target)).filterMap
        (createdEdge lits g.nodes target.rel (target.props.map BoundColumn.name)) =
      ops.map fun op => edgeOf lits target op.rowid op.values := by
  induction ops with
  | nil => simp
  | cons op ops ih =>
    obtain ⟨hslots, hedges⟩ := ih fun op' hop' => hends op' (mem_cons_of_mem op hop')
    obtain ⟨⟨hsrc, hsrcNode⟩, hdst, hdstNode⟩ := hends op mem_cons_self
    obtain ⟨src, dst, hrow, hs, hd⟩ := edgeRow_of_ne_null hsrc hdst
    have hedge := rowEdge_eq hfields (x := op.rowid) hs hd
    -- the edge of the row starts and ends at the nodes of its endpoints
    have hcreated : createdEdge lits g.nodes target.rel (target.props.map BoundColumn.name)
        ([("src", src), ("dst", dst), (EDGE_RID_PROP, toString op.rowid)] ++
          target.propFields op.values) = some (edgeOf lits target op.rowid op.values) := by
      have hfsrc := congrArg Edge.src hedge
      have hfdst := congrArg Edge.dst hedge
      simp only [rowEdge, edgeOf] at hfsrc hfdst
      unfold createdEdge
      rw [hfsrc, hfdst, if_neg (fun h => h.elim hsrc hdst), if_pos ⟨hsrcNode, hdstNode⟩, hedge]
    rw [filterMap_cons_some hrow, filterMap_cons_some hcreated, hedges, map_cons]
    refine ⟨?_, rfl⟩
    intro e
    rw [forall_mem_cons, forall_mem_cons, hslots, inSlot_edgeRow]

theorem upsertChunk (hends : ∀ op ∈ ops, Ends lits target g op.values) :
    (runAll lits [.slotClear target.mapping.label (ops.filterMap (edgeRow target)),
        .edgeCreate target.rel (target.props.map BoundColumn.name)
          (ops.filterMap (edgeRow target))] g).nodes = g.nodes ∧
    (runAll lits [.slotClear target.mapping.label (ops.filterMap (edgeRow target)),
        .edgeCreate target.rel (target.props.map BoundColumn.name)
          (ops.filterMap (edgeRow target))] g).edges =
      (g.edges.filter fun e => ∀ op ∈ ops, ¬ OfRowid lits target op.rowid e) +
        (ops.map fun op => edgeOf lits target op.rowid op.values : Multiset (Edge V)) := by
  obtain ⟨hslots, hedges⟩ := edgeRows hfields hends
  have hcleared := foldl_dropEdges_nodes (InSlot lits target.mapping.label)
    (ops.filterMap (edgeRow target)) g
  unfold runAll
  simp only [foldl_cons, foldl_nil, Statement.meaning]
  constructor
  · rw [foldl_createRow_nodes, hcleared]
  · rw [foldl_createRow_edges, hcleared, hedges, foldl_dropEdges_edges]
    congr 1
    exact Multiset.filter_congr fun e _ => hslots e

theorem upsertChunks (cs : List (List RowOp))
    (hends : ∀ op ∈ cs.flatten, Ends lits target g op.values)
    (hnodup : (cs.flatten.map RowOp.rowid).Nodup) :
    (runAll lits (cs.flatMap fun c => if (c.filterMap (edgeRow target)).isEmpty then [] else
        [.slotClear target.mapping.label (c.filterMap (edgeRow target)),
          .edgeCreate target.rel (target.props.map BoundColumn.name)
            (c.filterMap (edgeRow target))]) g).edges =
      (g.edges.filter fun e => ∀ op ∈ cs.flatten, ¬ OfRowid lits target op.rowid e) +
        (cs.flatten.map fun op => edgeOf lits target op.rowid op.values : Multiset (Edge V)) := by
  induction cs generalizing g with
  | nil => simp [runAll]
  | cons c cs ih =>
    rw [flatten_cons, map_append, nodup_append] at hnodup
    obtain ⟨hnodes, hedges⟩ := upsertChunk hfields fun op hop =>
      hends op (mem_append_left _ hop)
    -- a chunk without items has no operations, and then both sides are as before
    have hchunk : runAll lits (if (c.filterMap (edgeRow target)).isEmpty then [] else
        [.slotClear target.mapping.label (c.filterMap (edgeRow target)),
          .edgeCreate target.rel (target.props.map BoundColumn.name)
            (c.filterMap (edgeRow target))]) g =
        runAll lits [.slotClear target.mapping.label (c.filterMap (edgeRow target)),
          .edgeCreate target.rel (target.props.map BoundColumn.name)
            (c.filterMap (edgeRow target))] g := by
      split
      next hempty => rw [List.isEmpty_iff.mp hempty]; rfl
      · rfl
    have hother : ∀ op ∈ c, ∀ op' ∈ cs.flatten,
        ¬ OfRowid lits target op'.rowid (edgeOf lits target op.rowid op.values) := by
      intro op hop op' hop' hslot
      exact hnodup.2.2 op.rowid (mem_map_of_mem hop) op'.rowid (mem_map_of_mem hop')
        (ofRowid_edgeOf.mp hslot)
    rw [flatMap_cons, runAll_append, hchunk, ih _ hnodup.2.1, hedges, Multiset.filter_add,
      Multiset.filter_filter, flatten_cons, map_append, ← Multiset.coe_add, ← add_assoc]
    · congr 2
      · apply Multiset.filter_congr
        intro e _
        rw [forall_mem_append, and_comm]
      · rw [Multiset.filter_eq_self]
        intro e he op' hop'
        obtain ⟨op, hop, rfl⟩ := mem_map.mp (Multiset.mem_coe.mp he)
        exact hother op hop op' hop'
    · intro op hop
      unfold Ends
      rw [hnodes]
      exact hends op (mem_append_right _ hop)

theorem upserts_edges (hends : ∀ op ∈ ops, Ends lits target g op.values)
    (hnodup : (ops.map RowOp.rowid).Nodup) :
    (runAll lits (buildEdgeUpserts target ops) g).edges =
      (g.edges.filter fun e => ∀ op ∈ ops, ¬ OfRowid lits target op.rowid e) +
        (ops.map fun op => edgeOf lits target op.rowid op.values : Multiset (Edge V)) := by
  have hflat : (chunks 500 ops).flatten = ops := flatten_chunks (by decide) ops
  have hchunks := upsertChunks hfields (chunks 500 ops) (hflat.symm ▸ hends) (hflat.symm ▸ hnodup)
  rw [hflat] at hchunks
  exact hchunks

end

theorem deletes_edges (hsrc : ∀ op ∈ ops, edgeSrc lits target op.values ≠ lits.null)
    (hdst : ∀ op ∈ ops, edgeDst lits target op.values ≠ lits.null) :
    (runAll lits (buildEdgeDeletes target ops) g).edges = g.edges.filter fun e => ∀ op ∈ ops,
      ¬ (e.label = target.mapping.label ∧
        (e.srcLabel = target.mapping.srcLabel ∧ e.src = edgeSrc lits target op.values) ∧
        (e.dstLabel = target.mapping.dstLabel ∧ e.dst = edgeDst lits target op.values)) := by
  unfold buildEdgeDeletes
  rw [runAll_batched lits 2000 (edgeEnds target) (fun _ _ => rfl), foldl_dropEdges_edges]
  apply Multiset.filter_congr
  intro e _
  -- every operation has its row, with the endpoints as fields
  have hjoins : ∀ op ∈ ops, ∃ row, edgeEnds target op = some row ∧
      (Joins lits target.rel row e ↔ e.label = target.mapping.label ∧
        (e.srcLabel = target.mapping.srcLabel ∧ e.src = edgeSrc lits target op.values) ∧
        (e.dstLabel = target.mapping.dstLabel ∧ e.dst = edgeDst lits target op.values)) := by
    intro op hop
    obtain ⟨src, dst, hrow, hs, hd⟩ := edgeEnds_of_ne_null (hsrc op hop) (hdst op hop)
    have hfsrc : lits.field [("src", src), ("dst", dst)] "src" = edgeSrc lits target op.values := by
      rw [field_cons, if_pos rfl, hs]
    have hfdst : lits.field [("src", src), ("dst", dst)] "dst" = edgeDst lits target op.values := by
      rw [field_cons, if_neg (by decide), field_cons, if_pos rfl, hd]
    refine ⟨_, hrow, ?_⟩
    unfold Joins
    rw [hfsrc, hfdst, and_iff_left (hsrc op hop), and_iff_left (hdst op hop)]
    rfl
  constructor
  · intro hall op hop hmatch
    obtain ⟨row, hrow, hiff⟩ := hjoins op hop
    exact hall row (mem_filterMap.mpr ⟨op, hop, hrow⟩) (hiff.mpr hmatch)
  · intro hall row hmem hmatch
    obtain ⟨op, hop, hrow⟩ := mem_filterMap.mp hmem
    obtain ⟨row', hrow', hiff⟩ := hjoins op hop
    rw [hrow] at hrow'
    cases hrow'
    exact hall op hop (hiff.mp hmatch)

end

/-! ## 3. Contents -/

theorem nodup_of_rowids {rows : List DecodedRow} (h : (rows.map DecodedRow.rowid).Nodup) :
    rows.Nodup := List.Nodup.of_map DecodedRow.rowid h

variable {v v₀ : TableView} {x : Int64}

theorem mem_all_of_record {a : List SqliteValue} (h : v.record x = some a) :
    (⟨x, a⟩ : DecodedRow) ∈ v.all :=
  TableView.mem_all.mpr (TableView.mem_of_record h)

theorem rows_after_upserts {ups : List (Int64 × List SqliteValue)}
    (hcovers : Covers v₀.record v.record ups) (hnodup : (ups.map Prod.fst).Nodup) (hwf₀ : v₀.Wf)
    (hwf : v.Wf) :
    (v₀.all.filter (fun row => row.rowid ∉ ups.map Prod.fst) ++
      ups.map fun u => (⟨u.1, u.2⟩ : DecodedRow)).Perm
      (v.all ++ v₀.all.filter fun row => v.record row.rowid = none) := by
  have hups : ∀ u ∈ ups, (⟨u.1, u.2⟩ : DecodedRow) ∈ v.all := fun u hu =>
    mem_all_of_record (hcovers.sound u hu)
  have hlost : ∀ row : DecodedRow, v.record row.rowid = none → row.rowid ∉ ups.map Prod.fst := by
    intro row hnone hmem
    obtain ⟨u, hu, heq⟩ := mem_map.mp hmem
    rw [← heq, hcovers.sound u hu] at hnone
    cases hnone
  rw [perm_ext_iff_of_nodup]
  · intro row
    simp only [mem_append, mem_filter, decide_eq_true_eq, mem_map]
    constructor
    · rintro (⟨hrow, hnot⟩ | ⟨u, hu, rfl⟩)
      · -- an old row that no upsert replaces is still there as it was, or it is lost
        cases hrec : v.record row.rowid with
        | none => exact .inr ⟨hrow, rfl⟩
        | some a =>
          left
          have hold := hcovers.complete row.rowid a hrec (by simpa using hnot)
          rw [TableView.record_of_mem hwf₀ hrow] at hold
          cases hold
          exact mem_all_of_record hrec
      · exact .inl (hups u hu)
    · rintro (hrow | ⟨hrow, hnone⟩)
      · by_cases hmem : row.rowid ∈ ups.map Prod.fst
        · right
          obtain ⟨u, hu, heq⟩ := mem_map.mp hmem
          have hrec := hcovers.sound u hu
          rw [heq, TableView.record_of_mem hwf hrow] at hrec
          refine ⟨u, hu, ?_⟩
          rw [heq, ← Option.some.inj hrec]
        · left
          have hold := hcovers.complete row.rowid row.values (TableView.record_of_mem hwf hrow) hmem
          exact ⟨mem_all_of_record hold, by simpa using hmem⟩
      · exact .inl ⟨hrow, by simpa using hlost row hnone⟩
  · -- no rowid is both kept and upserted
    apply nodup_of_rowids
    rw [map_append, nodup_append]
    refine ⟨List.Nodup.sublist (filter_sublist.map _) hwf₀, ?_, ?_⟩
    · rw [map_map]
      exact hnodup
    · intro x hx y hy heq
      obtain ⟨row, hrow, rfl⟩ := mem_map.mp hx
      rw [map_map] at hy
      have hnot := (mem_filter.mp hrow).2
      simp only [decide_eq_true_eq] at hnot
      exact hnot (heq ▸ hy)
  · -- no lost row is there
    apply nodup_of_rowids
    rw [map_append, nodup_append]
    refine ⟨hwf, List.Nodup.sublist (filter_sublist.map _) hwf₀, ?_⟩
    intro x hx y hy heq
    obtain ⟨row, hrow, rfl⟩ := mem_map.mp hx
    obtain ⟨row', hrow', rfl⟩ := mem_map.mp hy
    have hnone := (mem_filter.mp hrow').2
    rw [decide_eq_true_eq, ← heq, TableView.record_of_mem hwf hrow] at hnone
    cases hnone

theorem filter_add_eq_left_iff {α : Type} {A B : Multiset α} {p : α → Prop} [DecidablePred p]
    (hdisj : ∀ b ∈ B, b ∉ A) :
    (A + B).filter p = A ↔ (∀ a ∈ A, p a) ∧ ∀ b ∈ B, ¬ p b := by
  constructor
  · intro heq
    have hB : ∀ b ∈ B, ¬ p b := by
      intro b hb hp
      apply hdisj b hb
      rw [← heq]
      exact Multiset.mem_filter.mpr ⟨Multiset.mem_add.mpr (.inr hb), hp⟩
    refine ⟨?_, hB⟩
    rw [Multiset.filter_add, Multiset.filter_eq_nil.mpr hB, add_zero] at heq
    exact Multiset.filter_eq_self.mp heq
  · rintro ⟨hA, hB⟩
    rw [Multiset.filter_add, Multiset.filter_eq_nil.mpr hB, add_zero, Multiset.filter_eq_self]
    exact hA

/-! ## 4. The edge table after a tick -/

structure EdgeTable (s : TableSchema) (mapping : TableMapping) (columns : List SyncColumn) :
    Prop where
  kind : mapping.kind = .edge
  table : mapping.sqliteTable = s.name
  withoutRowid : s.withoutRowid = false
  retainRecords : s.retainRecords = true
  names : (columns.map SyncColumn.name).Nodup
  fields : ∀ n ∈ ["src", "dst", EDGE_RID_PROP],
    n ∉ (bindTarget mapping columns).props.map BoundColumn.name

theorem EdgeTable.edgeFields {s : TableSchema} {mapping : TableMapping} {columns : List SyncColumn}
    (h : EdgeTable s mapping columns) : EdgeFields (bindTarget mapping columns) where
  nodup := props_nodup mapping h.names
  src := h.fields "src" (by decide)
  dst := h.fields "dst" (by decide)
  rid := h.fields EDGE_RID_PROP (by decide)

section

variable {V : Type} [RenderDouble] {lits : Literals V} {target : BoundTarget}

/-- The two records join the same nodes. -/
def SameEnds (lits : Literals V) (target : BoundTarget) (a b : List SqliteValue) : Prop :=
  edgeSrc lits target a = edgeSrc lits target b ∧ edgeDst lits target a = edgeDst lits target b

theorem rowEdges_append (rows rows' : List DecodedRow) : rowEdges lits target (rows ++ rows') =
      rowEdges lits target rows + rowEdges lits target rows' := by
  unfold rowEdges
  rw [map_append, Multiset.coe_add]

variable {rows : List DecodedRow}

theorem rowEdges_perm {rows' : List DecodedRow} (h : rows.Perm rows') :
    rowEdges lits target rows = rowEdges lits target rows' :=
  Multiset.coe_eq_coe.mpr (h.map _)

theorem mem_rowEdges {e : Edge V} : e ∈ rowEdges lits target rows ↔
      ∃ row ∈ rows, edgeOf lits target row.rowid row.values = e := by
  unfold rowEdges
  rw [Multiset.mem_coe, mem_map]

variable (lits target) in
theorem filter_rowEdges (rows : List DecodedRow) (p : Edge V → Prop) [DecidablePred p]
    (q : DecodedRow → Prop) [DecidablePred q]
    (hpq : ∀ row ∈ rows, p (edgeOf lits target row.rowid row.values) ↔ q row) :
    (rowEdges lits target rows).filter p =
      rowEdges lits target (rows.filter fun row => decide (q row)) := by
  unfold rowEdges
  rw [Multiset.filter_coe, filter_map]
  congr 2
  apply filter_congr
  intro row hrow
  exact decide_eq_decide.mpr (hpq row hrow)

variable {s : TableSchema} {mapping : TableMapping} {columns : List SyncColumn} {st₀ : TableState}
  {v₀ v : TableView} {batch : OpBatch} {gone : Int64 → Prop}

omit [RenderDouble] in
theorem mem_deleteOpsOf (htable : EdgeTable s mapping columns) (hbuilt : BuiltFrom st₀ s v₀)
    (hdelta : TableDelta batch s.name st₀ v₀ v gone) (op : RowOp) :
    op ∈ (bindTarget mapping columns).deleteOpsOf batch ↔
      ∃ x a, v₀.record x = some a ∧ gone x ∧ op = ⟨s.name, x, a⟩ := by
  have hdels : (bindTarget mapping columns).deletesOf batch = batch.deletesOf s.name := by
    unfold BoundTarget.deletesOf OpBatch.deletesOf
    rw [show (bindTarget mapping columns).mapping.sqliteTable = s.name from htable.table]
  have hkept : ∀ a, st₀.keptRecord a = some a := by
    intro a
    rw [hbuilt.keeps.2]
    unfold TableState.keptRecord TableState.ofSchema
    rw [if_pos htable.retainRecords]
  have hrecord : ∀ x, (rowDelete s.name st₀ x).record = v₀.record x := by
    intro x
    unfold rowDelete
    rw [hbuilt.retains.records x]
    cases v₀.record x with
    | none => rfl
    | some a => exact hkept a
  unfold BoundTarget.deleteOpsOf
  rw [hdels, mem_filterMap]
  constructor
  · rintro ⟨d, hd, hop⟩
    obtain ⟨x, hx, rfl⟩ := (hdelta.deletes d).mp hd
    rw [hrecord] at hop
    obtain ⟨a, ha, rfl⟩ := Option.map_eq_some_iff.mp hop
    exact ⟨x, a, ha, hx, rfl⟩
  · rintro ⟨x, a, ha, hx, rfl⟩
    refine ⟨rowDelete s.name st₀ x, (hdelta.deletes _).mpr ⟨x, hx, rfl⟩, ?_⟩
    rw [hrecord, ha]
    rfl

variable [DecidableEq V] {g : Graph V}

theorem edges_after_upserts (hfields : EdgeFields target) {ops : List RowOp}
    (hcovers : Covers v₀.record v.record (ops.map RowOp.entry))
    (hnodup : ((ops.map RowOp.entry).map Prod.fst).Nodup) (hwf₀ : v₀.Wf) (hwf : v.Wf)
    (hjoined : Joined lits target g v) (hold : HoldsEdges lits target g v₀) :
    ((runAll lits (buildEdgeUpserts target ops) g).edges.filter
        fun e => e.label = target.mapping.label) =
      rowEdges lits target (v.all ++ v₀.all.filter fun row => v.record row.rowid = none) := by
  have hends : ∀ op ∈ ops, Ends lits target g op.values := fun op hop =>
    hjoined op.rowid op.values (hcovers.sound op.entry (mem_map_of_mem hop))
  have hrowids : (ops.map RowOp.entry).map Prod.fst = ops.map RowOp.rowid := map_map
  have hrows : (ops.map fun op => edgeOf lits target op.rowid op.values : Multiset (Edge V)) =
      rowEdges lits target ((ops.map RowOp.entry).map fun u => ⟨u.1, u.2⟩) := by
    unfold rowEdges
    rw [map_map, map_map]
    rfl
  rw [upserts_edges hfields hends (hrowids ▸ hnodup), Multiset.filter_add,
    Multiset.filter_comm, hold, hrows]
  have hkept := filter_rowEdges lits target v₀.all
    (fun e => ∀ op ∈ ops, ¬ OfRowid lits target op.rowid e)
    (fun row => row.rowid ∉ (ops.map RowOp.entry).map Prod.fst) (by
      intro row _
      rw [hrowids, mem_map]
      simp only [ofRowid_edgeOf]
      exact ⟨fun h ⟨op, hop, heq⟩ => h op hop heq.symm, fun h op hop heq => h ⟨op, hop, heq.symm⟩⟩)
  -- every created edge has the label of the table
  have hlabel : (rowEdges lits target ((ops.map RowOp.entry).map fun u => ⟨u.1, u.2⟩)).filter
      (fun e => e.label = target.mapping.label) =
      rowEdges lits target ((ops.map RowOp.entry).map fun u => ⟨u.1, u.2⟩) := by
    rw [Multiset.filter_eq_self]
    intro e he
    obtain ⟨row, -, rfl⟩ := mem_rowEdges.mp he
    rfl
  rw [hkept, hlabel, ← rowEdges_append]
  exact rowEdges_perm (rows_after_upserts hcovers hnodup hwf₀ hwf)

/-- The statements of a delta leave one edge per new row exactly when no row given up has the
endpoints of a new row, and every lost row has the endpoints of one given up. -/
theorem edgeStatements_iff (htable : EdgeTable s mapping columns) (hbuilt : BuiltFrom st₀ s v₀)
    (hwf : v.Wf) (hdelta : TableDelta batch s.name st₀ v₀ v gone)
    (hjoined₀ : Joined lits (bindTarget mapping columns) g v₀)
    (hjoined : Joined lits (bindTarget mapping columns) g v)
    (hold : HoldsEdges lits (bindTarget mapping columns) g v₀) :
    HoldsEdges lits (bindTarget mapping columns)
        (runAll lits (edgeStatements (bindTarget mapping columns) batch) g) v ↔
      (∀ x a, v₀.record x = some a → gone x → ∀ y b, v.record y = some b →
        ¬ SameEnds lits (bindTarget mapping columns) b a) ∧
      ∀ x a, v₀.record x = some a → v.record x = none → ∃ y b, v₀.record y = some b ∧ gone y ∧
        SameEnds lits (bindTarget mapping columns) a b := by
  have hops : ((bindTarget mapping columns).opsOf batch).map RowOp.entry =
      batch.upsertsOf s.name := by
    unfold BoundTarget.opsOf OpBatch.upsertsOf
    rw [show (bindTarget mapping columns).mapping.sqliteTable = s.name from htable.table]
  have hdels := mem_deleteOpsOf htable hbuilt hdelta
  have hfields := htable.edgeFields
  generalize bindTarget mapping columns = target at *
  have hsrc : ∀ op ∈ target.deleteOpsOf batch, edgeSrc lits target op.values ≠ lits.null := by
    intro op hop
    obtain ⟨x, a, ha, -, rfl⟩ := (hdels op).mp hop
    exact (hjoined₀ x a ha).1.1
  have hdst : ∀ op ∈ target.deleteOpsOf batch, edgeDst lits target op.values ≠ lits.null := by
    intro op hop
    obtain ⟨x, a, ha, -, rfl⟩ := (hdels op).mp hop
    exact (hjoined₀ x a ha).2.1
  -- the edge of a row survives the deletes when no row given up has its endpoints
  have hspared : ∀ y b, (∀ op ∈ target.deleteOpsOf batch,
      ¬ ((edgeOf lits target y b).label = target.mapping.label ∧
        ((edgeOf lits target y b).srcLabel = target.mapping.srcLabel ∧
          (edgeOf lits target y b).src = edgeSrc lits target op.values) ∧
        ((edgeOf lits target y b).dstLabel = target.mapping.dstLabel ∧
          (edgeOf lits target y b).dst = edgeDst lits target op.values))) ↔
      ∀ x a, v₀.record x = some a → gone x → ¬ SameEnds lits target b a := by
    intro y b
    constructor
    · intro h x a ha hx hends
      exact h ⟨s.name, x, a⟩ ((hdels _).mpr ⟨x, a, ha, hx, rfl⟩) ⟨rfl, ⟨rfl, hends.1⟩, rfl, hends.2⟩
    · rintro h op hop ⟨-, ⟨-, hs⟩, -, hd⟩
      obtain ⟨x, a, ha, hx, rfl⟩ := (hdels op).mp hop
      exact h x a ha hx ⟨hs, hd⟩
  unfold HoldsEdges edgeStatements
  rw [runAll_append, deletes_edges hsrc hdst, Multiset.filter_comm,
    edges_after_upserts hfields (hops ▸ hdelta.covers) (hops ▸ hdelta.nodup) hbuilt.wf hwf hjoined
      hold, rowEdges_append, filter_add_eq_left_iff]
  · constructor
    · rintro ⟨hnew, hlost⟩
      constructor
      · intro x a ha hx y b hb
        have hmem : edgeOf lits target y b ∈ rowEdges lits target v.all :=
          mem_rowEdges.mpr ⟨⟨y, b⟩, mem_all_of_record hb, rfl⟩
        exact (hspared y b).mp (hnew _ hmem) x a ha hx
      · intro x a ha hnone
        have hmem : edgeOf lits target x a ∈ rowEdges lits target
            (v₀.all.filter fun row => v.record row.rowid = none) :=
          mem_rowEdges.mpr ⟨⟨x, a⟩, mem_filter.mpr
            ⟨mem_all_of_record ha, decide_eq_true hnone⟩, rfl⟩
        have hcaught := hlost _ hmem
        rw [hspared x a] at hcaught
        push Not at hcaught
        obtain ⟨y, b, hb, hy, hends⟩ := hcaught
        exact ⟨y, b, hb, hy, hends⟩
    · rintro ⟨hnew, hlost⟩
      constructor
      · intro e he
        obtain ⟨row, hrow, rfl⟩ := mem_rowEdges.mp he
        refine (hspared row.rowid row.values).mpr fun x a ha hx => ?_
        exact hnew x a ha hx row.rowid row.values (TableView.record_of_mem hwf hrow)
      · intro e he hall
        obtain ⟨row, hrow, rfl⟩ := mem_rowEdges.mp he
        obtain ⟨hmem, hnone⟩ := mem_filter.mp hrow
        obtain ⟨y, b, hb, hy, hends⟩ := hlost row.rowid row.values
          (TableView.record_of_mem hbuilt.wf hmem) (of_decide_eq_true hnone)
        exact (hspared row.rowid row.values).mp hall y b hb hy hends
  · -- a lost edge carries a rowid that no new row has
    intro e he hnew
    obtain ⟨row, hrow, rfl⟩ := mem_rowEdges.mp he
    obtain ⟨row', hrow', heq⟩ := mem_rowEdges.mp hnew
    have hslot : OfRowid lits target row'.rowid (edgeOf lits target row.rowid row.values) := by
      rw [← heq]
      exact ofRowid_edgeOf.mpr rfl
    have hnone := of_decide_eq_true (mem_filter.mp hrow).2
    rw [ofRowid_edgeOf.mp hslot, TableView.record_of_mem hwf hrow'] at hnone
    cases hnone

end

theorem ResolverCall.deletes_lost (call : ResolverCall) {sameRoot : Prop} {y : Int64}
    (hx : v₀.record x ≠ none) (hlost : v.record x = none) (hy : call.Deletes sameRoot v₀ v y) :
    call.Deletes sameRoot v₀ v x := by
  refine ⟨hx, ?_⟩
  cases call with
  | bootstrap => exact hy.2
  | reconcile => exact ⟨hy.2.1, hlost⟩
  | applyFrames dirty => exact fun _ => hlost

/-! ## 5. A table of acquaintances

Persons are nodes keyed by a number.  Who knows whom, and since when, is on leaf page 2. -/

def knowsSchema : TableSchema := { name := "rel_knows", rootPage := 2, retainRecords := true }

def knowsMapping : TableMapping :=
  { kind := .edge, sqliteTable := "rel_knows", label := "rel_knows", srcLabel := "node_person",
    dstLabel := "node_person", srcColIndex := 0, dstColIndex := 1, srcPkColumn := "id",
    dstPkColumn := "id", srcPkDecltype := "INT", dstPkDecltype := "INT" }

def knowsColumns : List SyncColumn := [⟨"from_id", "INT"⟩, ⟨"to_id", "INT"⟩, ⟨"since", "INT"⟩]

abbrev knowsTarget : BoundTarget := bindTarget knowsMapping knowsColumns

theorem knowsTable : EdgeTable knowsSchema knowsMapping knowsColumns where
  kind := rfl
  table := rfl
  withoutRowid := rfl
  retainRecords := rfl
  names := by decide
  fields := by decide +kernel

structure Knows where
  rowid : UInt8
  src : UInt8
  dst : UInt8
  since : UInt8

def knowsPages (rows : List Knows) : PageFetcher :=
  pagesOf [(2, smallLeaf (rows.map fun k => (k.rowid, [4, 1, 1, 1, k.src, k.dst, k.since])))]

def knowsView (rows : List Knows) : TableView where
  leaves := [2]
  rows := fun _ => rows.map fun k => ⟨Int64.ofNat k.rowid.toNat,
    [.integer (Int64.ofNat k.src.toNat), .integer (Int64.ofNat k.dst.toNat),
      .integer (Int64.ofNat k.since.toNat)]⟩

-- 1 knows 2 twice over, and 2 knows 1
def knowsBefore : List Knows := [⟨1, 1, 2, 30⟩, ⟨2, 1, 2, 31⟩, ⟨3, 2, 1, 32⟩]

-- row 3 is deleted, and 2 knows 2 instead
def knowsOther : List Knows := [⟨1, 1, 2, 30⟩, ⟨2, 1, 2, 33⟩, ⟨4, 2, 2, 32⟩]

-- one of the two parallel edges is deleted
def knowsOnce : List Knows := [⟨2, 1, 2, 31⟩, ⟨3, 2, 1, 32⟩]

-- row 3 is deleted, and row 4 joins the same nodes
def knowsRenewed : List Knows := [⟨1, 1, 2, 30⟩, ⟨2, 1, 2, 31⟩, ⟨4, 2, 1, 40⟩]

theorem knowsPages_read (rows : List Knows)
    (hwalk : collectLeafPages 2 (knowsPages rows) 512 = .ok [2])
    (hdecode : decodeLeaf 2 (knowsPages rows) 512 =
      .ok ((knowsView rows).rows 2, leafHash (knowsPages rows) 512 2)) :
    ReadsTable (knowsPages rows) 512 2 (knowsView rows) := by
  refine ⟨hwalk, ?_⟩
  intro p hp
  obtain rfl := mem_singleton.mp hp
  exact ⟨_, hdecode⟩

def knowsTables : List (List Knows) := [knowsBefore, knowsOther, knowsOnce, knowsRenewed]

theorem knowsTables_decode : ∀ rows ∈ knowsTables,
    collectLeafPages 2 (knowsPages rows) 512 = .ok [2] ∧ decodeLeaf 2 (knowsPages rows) 512 =
        .ok ((knowsView rows).rows 2, leafHash (knowsPages rows) 512 2) ∧
      (knowsView rows).Wf := by
  decide +kernel

variable {rows : List Knows}

theorem knowsTables_read (h : rows ∈ knowsTables) :
    ReadsTable (knowsPages rows) 512 2 (knowsView rows) :=
  knowsPages_read rows (knowsTables_decode rows h).1 (knowsTables_decode rows h).2.1

theorem knowsTables_wf (h : rows ∈ knowsTables) : (knowsView rows).Wf :=
  (knowsTables_decode rows h).2.2

theorem knowsBefore_mem : knowsBefore ∈ knowsTables := by simp [knowsTables]

theorem knowsOther_mem : knowsOther ∈ knowsTables := by simp [knowsTables]

theorem knowsOnce_mem : knowsOnce ∈ knowsTables := by simp [knowsTables]

theorem knowsRenewed_mem : knowsRenewed ∈ knowsTables := by simp [knowsTables]

section

attribute [local instance] noDoubles

def twoPersons (label : String) (k : Option String) : Option (String → Option String) :=
  if label = "node_person" ∧ (k = some "1" ∨ k = some "2") then some fun _ ↦ none else none

def TwoEnds (values : List SqliteValue) : Prop :=
  twoPersons "node_person" (edgeSrc plainLiterals knowsTarget values) ≠ none ∧
    twoPersons "node_person" (edgeDst plainLiterals knowsTarget values) ≠ none

instance (values : List SqliteValue) : Decidable (TwoEnds values) :=
  inferInstanceAs (Decidable (_ ∧ _))

variable {rows : List Knows}

theorem mem_knowsView {x : Int64} {a : List SqliteValue} (h : (knowsView rows).record x = some a) :
    (⟨x, a⟩ : DecodedRow) ∈ (knowsView rows).rows 2 := by
  obtain ⟨p, hp, hmem⟩ := TableView.mem_of_record h
  exact hmem

theorem mem_knowsView_all {row : DecodedRow} (h : row ∈ (knowsView rows).all) :
    row ∈ (knowsView rows).rows 2 := by
  obtain ⟨p, hp, hmem⟩ := TableView.mem_all.mp h
  exact hmem

def knowsGraph (rows : List Knows) (h : ∀ row ∈ (knowsView rows).rows 2, TwoEnds row.values) :
    Graph (Option String) where
  nodes := twoPersons
  edges := rowEdges plainLiterals knowsTarget (knowsView rows).all
  cursors := fun _ => none
  attached := by
    intro e he
    obtain ⟨row, hrow, rfl⟩ := mem_rowEdges.mp he
    exact h row (mem_knowsView_all hrow)

section

variable (h : ∀ row ∈ (knowsView rows).rows 2, TwoEnds row.values)

include h

theorem knowsGraph_holds :
    HoldsEdges plainLiterals knowsTarget (knowsGraph rows h) (knowsView rows) := by
  show Multiset.filter _ (rowEdges plainLiterals knowsTarget (knowsView rows).all) = _
  rw [Multiset.filter_eq_self]
  intro e he
  obtain ⟨row, -, rfl⟩ := mem_rowEdges.mp he
  rfl

theorem knowsGraph_joined {rows' : List Knows}
    (h' : ∀ row ∈ (knowsView rows').rows 2, TwoEnds row.values) :
    Joined plainLiterals knowsTarget (knowsGraph rows h) (knowsView rows') := by
  intro x a hx
  obtain ⟨hsrc, hdst⟩ := h' ⟨x, a⟩ (mem_knowsView hx)
  -- null is no person
  refine ⟨⟨?_, hsrc⟩, ?_, hdst⟩
  · intro hnull
    rw [hnull] at hsrc
    exact hsrc rfl
  · intro hnull
    rw [hnull] at hdst
    exact hdst rfl

end

theorem knowsTables_ends :
    ∀ rows ∈ knowsTables, ∀ row ∈ (knowsView rows).rows 2, TwoEnds row.values := by
  decide +kernel

theorem knowsCommit {old new : List Knows}
    (hread₀ : ReadsTable (knowsPages old) 512 2 (knowsView old)) (hwf₀ : (knowsView old).Wf)
    (hread : ReadsTable (knowsPages new) 512 2 (knowsView new)) (hwf : (knowsView new).Wf) :
    ∃ r st₀ batch r', r.tables.lookup "rel_knows" = some st₀ ∧ st₀.rootPage = 2 ∧
      BuiltFrom st₀ knowsSchema (knowsView old) ∧
      (ResolverCall.applyFrames [2]).run r [knowsSchema] (knowsPages new) 512 =
        (.ok batch, r') := by
  apply exists_commit knowsSchema [2] rfl hread₀ hwf₀ _ hread hwf
  intro _ hindex
  exact absurd hindex (by decide)

theorem applyEdges_faultless (batch : OpBatch) (g : Graph (Option String)) :
    ∃ g' stats', applyEdges (faultlessSession plainLiterals) batch (g, {}) knowsTarget =
      .ok (g', stats') := by
  unfold applyEdges
  simp only [execAll_faultless, bind, Except.bind]
  exact ⟨_, _, rfl⟩

end

/-! ## 6. The edge table after a tick -/

/-- An edge table after a resolver call and the execution of its batch: the target holds one edge
per new row exactly when no row the call gave up has the endpoints of a new row, and the call gave
up every row that is gone. -/
theorem edge_sync_iff {V : Type} [DecidableEq V] [RenderDouble] {lits : Literals V}
    {session : Session (Graph V)} (hlaw : session.Lawful lits) {call : ResolverCall} {r r' : OpResolver}
    {schemas : List TableSchema} {s : TableSchema} {mapping : TableMapping}
    {columns : List SyncColumn} {f : PageFetcher} {size : Nat} {batch : OpBatch} {st₀ : TableState}
    {v₀ v : TableView} {g g' : Graph V} {stats stats' : SyncStats}
    (htable : EdgeTable s mapping columns) (hnames : (schemas.map TableSchema.name).Nodup)
    (hs : s ∈ schemas) (hst : r.tables.lookup s.name = some st₀) (hbuilt : BuiltFrom st₀ s v₀)
    (hread : ReadsTable f size s.rootPage v) (hwf : v.Wf)
    (hsees : call.Sees st₀ v₀ v (leafHash f size))
    (hjoined₀ : Joined lits (bindTarget mapping columns) g v₀)
    (hjoined : Joined lits (bindTarget mapping columns) g v)
    (hold : HoldsEdges lits (bindTarget mapping columns) g v₀)
    (hrun : call.run r schemas f size = (.ok batch, r'))
    (hexec : applyEdges session batch (g, stats) (bindTarget mapping columns) = .ok (g', stats')) :
    HoldsEdges lits (bindTarget mapping columns) g' v ↔
      (∀ x a, v₀.record x = some a → call.Deletes (st₀.rootPage = s.rootPage) v₀ v x →
        ∀ y b, v.record y = some b → ¬ SameEnds lits (bindTarget mapping columns) b a) ∧
      ∀ x, v₀.record x ≠ none → v.record x = none →
        call.Deletes (st₀.rootPage = s.rootPage) v₀ v x := by
  have hdelta := call.delta hnames hs htable.withoutRowid hst hbuilt.tracks hbuilt.wf hread hwf hrun
    hsees
  have hg : g' = runAll lits (edgeStatements (bindTarget mapping columns) batch) g :=
    applyEdges_ok hlaw hexec
  rw [hg, edgeStatements_iff htable hbuilt hwf hdelta hjoined₀ hjoined hold]
  apply and_congr_right
  intro _
  constructor
  · intro hlost x hx hnone
    obtain ⟨a, ha⟩ := Option.ne_none_iff_exists'.mp hx
    obtain ⟨y, b, -, hy, -⟩ := hlost x a ha hnone
    exact call.deletes_lost hx hnone hy
  · intro hlost x a ha hnone
    exact ⟨x, a, ha, hlost x (by rw [ha]; exact Option.some_ne_none a) hnone, rfl, rfl⟩

section

attribute [local instance] noDoubles

theorem edge_sync_iff_other : ∃ (r r' : OpResolver) (batch : OpBatch)
    (g g' : Graph (Option String)) (stats' : SyncStats),
    HoldsEdges plainLiterals knowsTarget g (knowsView knowsBefore) ∧
    (ResolverCall.applyFrames [2]).run r [knowsSchema] (knowsPages knowsOther) 512 =
      (.ok batch, r') ∧
    applyEdges (faultlessSession plainLiterals) batch (g, {}) knowsTarget = .ok (g', stats') ∧
    HoldsEdges plainLiterals knowsTarget g' (knowsView knowsOther) := by
  have hread := knowsTables_read knowsOther_mem
  have hwf := knowsTables_wf knowsOther_mem
  have hends₀ := knowsTables_ends knowsBefore knowsBefore_mem
  obtain ⟨r, st₀, batch, r', hst, hroot, hbuilt, hrun⟩ := knowsCommit
    (knowsTables_read knowsBefore_mem) (knowsTables_wf knowsBefore_mem) hread hwf
  have hold := knowsGraph_holds hends₀
  have hjoined₀ := knowsGraph_joined hends₀ hends₀
  have hjoined := knowsGraph_joined hends₀ (knowsTables_ends knowsOther knowsOther_mem)
  obtain ⟨g', stats', hexec⟩ := applyEdges_faultless batch (knowsGraph knowsBefore hends₀)
  refine ⟨r, r', batch, _, g', stats', hold, hrun, hexec, ?_⟩
  refine (edge_sync_iff (faultlessSession_lawful plainLiterals) knowsTable (by decide)
    mem_cons_self hst hbuilt hread hwf (fun p hp _ _ => hp) hjoined₀
    hjoined hold hrun hexec).mpr ⟨?_, fun x hx hnone => ⟨hx, fun _ => hnone⟩⟩
  intro x a hx hdel y b hy hends
  -- only row 3 is given up, and no row joins its nodes any more
  have hall : ∀ row ∈ (knowsView knowsBefore).rows 2,
      (knowsView knowsOther).record row.rowid = none →
      ∀ row' ∈ (knowsView knowsOther).rows 2, ¬ (edgeSrc plainLiterals knowsTarget row'.values =
            edgeSrc plainLiterals knowsTarget row.values ∧
          edgeDst plainLiterals knowsTarget row'.values =
            edgeDst plainLiterals knowsTarget row.values) := by decide +kernel
  exact hall ⟨x, a⟩ (mem_knowsView hx) (hdel.2 hroot) ⟨y, b⟩ (mem_knowsView hy) hends

/-- The commit turns the one table of acquaintances into the other, but the target does not
follow. -/
def KnowsSyncFails (old new : List Knows) : Prop :=
  ∃ (r r' : OpResolver) (st₀ : TableState) (batch : OpBatch) (g g' : Graph (Option String))
    (stats' : SyncStats),
    r.tables.lookup "rel_knows" = some st₀ ∧ BuiltFrom st₀ knowsSchema (knowsView old) ∧
    ReadsTable (knowsPages new) 512 2 (knowsView new) ∧
    Joined plainLiterals knowsTarget g (knowsView old) ∧
    Joined plainLiterals knowsTarget g (knowsView new) ∧
    HoldsEdges plainLiterals knowsTarget g (knowsView old) ∧
    r.applyFrames [knowsSchema] [2] (knowsPages new) 512 = (.ok batch, r') ∧
    applyEdges (faultlessSession plainLiterals) batch (g, {}) knowsTarget = .ok (g', stats') ∧
    ¬ HoldsEdges plainLiterals knowsTarget g' (knowsView new)

theorem knowsSyncFails_of {old new : List Knows} {x y : Int64} {a b : List SqliteValue}
    (hmem₀ : old ∈ knowsTables) (hmem : new ∈ knowsTables)
    (hx : (knowsView old).record x = some a) (hlost : (knowsView new).record x = none)
    (hy : (knowsView new).record y = some b)
    (hsame : edgeSrc plainLiterals knowsTarget b = edgeSrc plainLiterals knowsTarget a ∧
      edgeDst plainLiterals knowsTarget b = edgeDst plainLiterals knowsTarget a) :
    KnowsSyncFails old new := by
  have hread := knowsTables_read hmem
  have hwf₀ := knowsTables_wf hmem₀
  have hwf := knowsTables_wf hmem
  have hends₀ := knowsTables_ends old hmem₀
  have hends := knowsTables_ends new hmem
  obtain ⟨r, st₀, batch, r', hst, hroot, hbuilt, hrun⟩ :=
    knowsCommit (knowsTables_read hmem₀) hwf₀ hread hwf
  have hold := knowsGraph_holds hends₀
  have hjoined₀ := knowsGraph_joined hends₀ hends₀
  have hjoined := knowsGraph_joined hends₀ hends
  obtain ⟨g', stats', hexec⟩ := applyEdges_faultless batch (knowsGraph old hends₀)
  refine ⟨r, r', st₀, batch, _, g', stats', hst, hbuilt, hread, hjoined₀, hjoined, hold, hrun, hexec,
    ?_⟩
  have hdelta := (ResolverCall.applyFrames [2]).delta (by decide)
    (mem_singleton_self knowsSchema) rfl hst hbuilt.tracks hwf₀ hread hwf hrun fun p hp _ _ => hp
  have hg : g' = runAll plainLiterals (edgeStatements knowsTarget batch) (knowsGraph old hends₀) :=
    applyEdges_ok (faultlessSession_lawful plainLiterals) hexec
  rw [hg, edgeStatements_iff knowsTable hbuilt hwf hdelta hjoined₀ hjoined hold]
  rintro ⟨hspared, -⟩
  have hdeleted : (ResolverCall.applyFrames [2]).Deletes (st₀.rootPage = knowsSchema.rootPage)
      (knowsView old) (knowsView new) x := ⟨by rw [hx]; exact Option.some_ne_none a, fun _ => hlost⟩
  exact hspared x a hx hdeleted y b hy hsame

/-- The delete of one of two parallel edges removes both, and the delete of an edge removes the one
that was inserted in its place. -/
theorem edge_sync_misses_parallel_edges :
    KnowsSyncFails knowsBefore knowsOnce ∧ KnowsSyncFails knowsBefore knowsRenewed := by
  constructor
  · exact knowsSyncFails_of (x := 1) (y := 2) (a := [.integer 1, .integer 2, .integer 30])
      (b := [.integer 1, .integer 2, .integer 31]) knowsBefore_mem knowsOnce_mem (by decide +kernel)
      (by decide +kernel) (by decide +kernel) (by decide +kernel)
  · exact knowsSyncFails_of (x := 3) (y := 4) (a := [.integer 2, .integer 1, .integer 32])
      (b := [.integer 2, .integer 1, .integer 40]) knowsBefore_mem knowsRenewed_mem
      (by decide +kernel) (by decide +kernel) (by decide +kernel) (by decide +kernel)

end

end Ladybug.Sqlite
