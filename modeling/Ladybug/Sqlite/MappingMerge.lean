import Ladybug.Sqlite.SyncMapping

/-!
# The mapping list of a tick

Every table has at most one mapping, whatever order the maps are met in.  An edge is bound through
the pool of nodes, and the pool keeps the inferred node of a table that is registered as an edge:
the edges between tables that have a node in the list are exactly those that avoid such tables.
-/

namespace Ladybug.Sqlite.Planning

open List Option

/-! ## 1. What inference finds for a table -/

def nodeOf (t : SyncTable) : Option TableMapping :=
  if isNodeName t.name then (mapNode t).toOption else none

def edgeOf (tables : List SyncTable) (nodes : ByTable TableMapping) (t : SyncTable) :
    Option TableMapping :=
  if isEdgeName t.name then (inferEdge tables nodes t).toOption else none

def nodesByName (tables : List SyncTable) : ByTable TableMapping :=
  mappingsByTable (tables.filterMap nodeOf)

variable {tables : List SyncTable} {nodes : ByTable TableMapping} {t : SyncTable}
  {m : TableMapping} {T : String}

theorem foldl_inferNode (tables : List SyncTable) (out : MappingResult) :
    (tables.foldl inferNode out).mappings = out.mappings ++ tables.filterMap nodeOf := by
  induction tables generalizing out with
  | nil => simp
  | cons t tables ih =>
    rw [foldl_cons, ih, filterMap_cons]
    unfold inferNode nodeOf
    cases isNodeName t.name with
    | false => simp
    | true => cases mapNode t <;> simp [Except.toOption]

theorem foldl_inferEdgeInto (all : List SyncTable) (nodes : ByTable TableMapping)
    (tables : List SyncTable) (out : MappingResult) :
    (tables.foldl (inferEdgeInto all nodes) out).mappings =
      out.mappings ++ tables.filterMap (edgeOf all nodes) := by
  induction tables generalizing out with
  | nil => simp
  | cons t tables ih =>
    rw [foldl_cons, ih, filterMap_cons]
    unfold inferEdgeInto edgeOf
    cases isEdgeName t.name with
    | false => cases isNodeName t.name <;> simp
    | true => cases inferEdge all nodes t <;> simp [Except.toOption]

theorem inferMappings_mappings (tables : List SyncTable) : (inferMappings tables).mappings =
      tables.filterMap nodeOf ++ tables.filterMap (edgeOf tables (nodesByName tables)) := by
  show (tables.foldl (inferEdgeInto tables _) _).mappings = _
  rw [foldl_inferEdgeInto, foldl_inferNode]
  rfl

theorem mapNode_ok (h : mapNode t = .ok m) : m.kind = .node ∧ m.sqliteTable = t.name := by
  obtain ⟨-, h⟩ := guard_eq_ok.mp h
  split at h
  · cases h
    exact ⟨rfl, rfl⟩
  · dsimp only at h
    split at h
    · cases h
    · cases h
      exact ⟨rfl, rfl⟩

theorem nodeOf_some (h : nodeOf t = some m) :
    isNodeName t.name = true ∧ m.kind = .node ∧ m.sqliteTable = t.name := by
  unfold nodeOf at h
  split at h
  · rename_i hname
    cases hmap : mapNode t with
    | error reason => rw [hmap] at h; cases h
    | ok m' =>
      rw [hmap] at h
      cases h
      exact ⟨hname, mapNode_ok hmap⟩
  · cases h

structure EdgeEnds where
  srcTable : String
  dstTable : String
  srcColIndex : Nat
  dstColIndex : Nat
  deriving DecidableEq

def TableMapping.ends (m : TableMapping) : EdgeEnds :=
  ⟨m.srcTable, m.dstTable, m.srcColIndex, m.dstColIndex⟩

def NodeByName (tables : List SyncTable) (T : String) : Prop :=
  ∃ t ∈ tables, t.name = T ∧ (nodeOf t).isSome

instance (tables : List SyncTable) (T : String) : Decidable (NodeByName tables T) :=
  inferInstanceAs (Decidable (∃ t ∈ tables, t.name = T ∧ (nodeOf t).isSome))

def conventionEnds (tables : List SyncTable) (t : SyncTable) : Option EdgeEnds :=
  if ¬ isEdgeName t.name then none
  else match endpointKeys t.foreignKeys with
    | (some srcFk, some dstFk) =>
      if NodeByName tables srcFk.referencedTable ∧ NodeByName tables dstFk.referencedTable then
        match findCol t.columns srcFk.fromColumn, findCol t.columns dstFk.fromColumn with
        | some srcIdx, some dstIdx =>
          some ⟨srcFk.referencedTable, dstFk.referencedTable, srcIdx, dstIdx⟩
        | _, _ => none
      else none
    | _ => none

variable {mappings : List TableMapping}

theorem lookup_mappingsByTable_table (h : (mappingsByTable mappings).lookup T = some m) :
    m ∈ mappings ∧ m.sqliteTable = T := by
  unfold mappingsByTable at h
  rw [lookup_indexed] at h
  have hmem := mem_of_getLast? h
  rw [mem_filter] at hmem
  exact ⟨hmem.1, by simpa using hmem.2⟩

theorem lookup_mappingsByTable_isSome :
    ((mappingsByTable mappings).lookup T).isSome ↔ ∃ m ∈ mappings, m.sqliteTable = T := by
  unfold mappingsByTable
  rw [lookup_indexed, getLast?_isSome]
  constructor
  · intro h
    have hmem := head_mem h
    rw [mem_filter] at hmem
    exact ⟨_, hmem.1, by simpa using hmem.2⟩
  · intro h
    obtain ⟨m, hm, hT⟩ := h
    exact ne_nil_of_mem (mem_filter.mpr ⟨hm, by simpa using hT⟩)

theorem nodesByName_isSome : ((nodesByName tables).lookup T).isSome ↔ NodeByName tables T := by
  unfold nodesByName
  rw [lookup_mappingsByTable_isSome]
  constructor
  · intro h
    obtain ⟨m, hm, hT⟩ := h
    obtain ⟨t, ht, hnode⟩ := mem_filterMap.mp hm
    exact ⟨t, ht, (nodeOf_some hnode).2.2.symm.trans hT, by rw [hnode]; rfl⟩
  · intro h
    obtain ⟨t, ht, hT, hnode⟩ := h
    obtain ⟨m, hm⟩ := isSome_iff_exists.mp hnode
    exact ⟨m, mem_filterMap.mpr ⟨t, ht, hm⟩, (nodeOf_some hm).2.2.trans hT⟩

theorem edgeOf_ends (t : SyncTable) :
    (edgeOf tables (nodesByName tables) t).map TableMapping.ends = conventionEnds tables t := by
  unfold edgeOf conventionEnds
  cases isEdgeName t.name with
  | false => rfl
  | true =>
    rw [if_pos rfl, if_neg (by decide)]
    unfold inferEdge
    rcases endpointKeys t.foreignKeys with ⟨_ | srcFk, _ | dstFk⟩
    · rfl
    · rfl
    · rfl
    · have hsrc : ((nodesByName tables).lookup srcFk.referencedTable).isSome ↔
          NodeByName tables srcFk.referencedTable := nodesByName_isSome
      have hdst : ((nodesByName tables).lookup dstFk.referencedTable).isSome ↔
          NodeByName tables dstFk.referencedTable := nodesByName_isSome
      dsimp only
      cases hs : (nodesByName tables).lookup srcFk.referencedTable with
      | none =>
        rw [hs] at hsrc
        rw [if_neg fun h => by simpa using hsrc.mpr h.1]
        rfl
      | some srcNode =>
        rw [hs] at hsrc
        cases hd : (nodesByName tables).lookup dstFk.referencedTable with
        | none =>
          rw [hd] at hdst
          rw [if_neg fun h => by simpa using hdst.mpr h.2]
          rfl
        | some dstNode =>
          rw [hd] at hdst
          rw [if_pos ⟨hsrc.mp rfl, hdst.mp rfl⟩]
          cases findCol t.columns srcFk.fromColumn with
          | none => rfl
          | some srcIdx => cases findCol t.columns dstFk.fromColumn <;> rfl

theorem inferEdge_ok (h : inferEdge tables nodes t = .ok m) :
    m.kind = .edge ∧ m.sqliteTable = t.name := by
  unfold inferEdge at h
  split at h
  · split at h
    · split at h
      · cases h
        exact ⟨rfl, rfl⟩
      · cases h
    · cases h
  · cases h

theorem edgeOf_some (h : edgeOf tables nodes t = some m) :
    isEdgeName t.name = true ∧ m.kind = .edge ∧ m.sqliteTable = t.name := by
  unfold edgeOf at h
  split at h
  · rename_i hname
    cases hedge : inferEdge tables nodes t with
    | error reason => rw [hedge] at h; cases h
    | ok m' =>
      rw [hedge] at h
      cases h
      exact ⟨hname, inferEdge_ok hedge⟩
  · cases h

theorem isNodeName_not_isEdgeName {name : String} (hnode : isNodeName name = true) :
    isEdgeName name = false := by
  have hprefix := of_decide_eq_true hnode
  have hfirst {start : String} {c : Char} {cs : List Char} (hstart : start.toList = c :: cs)
      (hne : c ≠ 'n') : startsWithLower name start = false := by
    apply decide_eq_false
    intro h
    obtain ⟨rest, hrest⟩ := hprefix
    obtain ⟨rest', hrest'⟩ := h
    rw [← hrest, hstart] at hrest'
    exact hne (cons.inj hrest').1
  unfold isEdgeName
  rw [hfirst (by decide : "rel_".toList = 'r' :: ['e', 'l', '_']) (by decide),
    hfirst (by decide : "csr_rel_".toList = 'c' :: ['s', 'r', '_', 'r', 'e', 'l', '_']) (by decide)]
  rfl

/-- What inference holds for a table name. -/
def inferredAt (tables : List SyncTable) (T : String) : Option TableMapping :=
  (mappingsByTable (inferMappings tables).mappings).lookup T

section

variable (h : inferredAt tables T = some m)

include h

theorem inferredAt_table : m.sqliteTable = T :=
  (lookup_mappingsByTable_table h).2

theorem mem_inferMappings : (∃ t ∈ tables, t.name = T ∧ nodeOf t = some m) ∨
      ∃ t ∈ tables, t.name = T ∧ edgeOf tables (nodesByName tables) t = some m := by
  obtain ⟨hm, hT⟩ := lookup_mappingsByTable_table h
  rw [inferMappings_mappings, mem_append, mem_filterMap, mem_filterMap] at hm
  cases hm with
  | inl hm =>
    obtain ⟨t, ht, hnode⟩ := hm
    exact .inl ⟨t, ht, (nodeOf_some hnode).2.2.symm.trans hT, hnode⟩
  | inr hm =>
    obtain ⟨t, ht, hedge⟩ := hm
    exact .inr ⟨t, ht, (edgeOf_some hedge).2.2.symm.trans hT, hedge⟩

theorem inferredAt_node (hkind : m.kind = .node) : NodeByName tables T := by
  cases mem_inferMappings h with
  | inl hnode =>
    obtain ⟨t, ht, hT, hnode⟩ := hnode
    exact ⟨t, ht, hT, by rw [hnode]; rfl⟩
  | inr hedge =>
    obtain ⟨t, -, -, hedge⟩ := hedge
    have := (edgeOf_some hedge).2.1
    rw [hkind] at this
    cases this

end

theorem nodeByName_inferredAt (h : NodeByName tables T) :
    ∃ m, inferredAt tables T = some m ∧ m.kind = .node := by
  obtain ⟨t, ht, hT, hnode⟩ := h
  obtain ⟨m, hm⟩ := isSome_iff_exists.mp hnode
  obtain ⟨hname, -, htable⟩ := nodeOf_some hm
  have hsome : (inferredAt tables T).isSome := by
    apply lookup_mappingsByTable_isSome.mpr
    rw [inferMappings_mappings]
    exact ⟨m, mem_append_left _ (mem_filterMap.mpr ⟨t, ht, hm⟩), htable.trans hT⟩
  obtain ⟨m', hm'⟩ := isSome_iff_exists.mp hsome
  refine ⟨m', hm', ?_⟩
  cases mem_inferMappings hm' with
  | inl hnode' =>
    obtain ⟨t', -, -, hnode'⟩ := hnode'
    exact (nodeOf_some hnode').2.1
  | inr hedge =>
    -- a table of this name cannot have both prefixes
    obtain ⟨t', -, hT', hedge⟩ := hedge
    have hname' := (edgeOf_some hedge).1
    rw [hT', ← hT, isNodeName_not_isEdgeName hname] at hname'
    cases hname'

theorem nodeByName_exists (h : NodeByName tables T) : ((tableByName tables).lookup T).isSome := by
  unfold tableByName
  obtain ⟨t, ht, hT, -⟩ := h
  rw [lookup_indexed, getLast?_isSome]
  exact ne_nil_of_mem (mem_filter.mpr ⟨ht, by simpa using hT⟩)

/-- The ends of the edge that inference holds for `T`, from the last table of the name that has
them. -/
def inferredEnds (tables : List SyncTable) (T : String) : Option EdgeEnds :=
  ((tables.filter fun t => t.name = T).filterMap (conventionEnds tables)).getLast?

theorem filter_filterMap_table {g : SyncTable → Option TableMapping}
    (hg : ∀ t m, g t = some m → m.sqliteTable = t.name) (tables : List SyncTable) (T : String) :
    (tables.filterMap g).filter (fun m => m.sqliteTable = T) =
      (tables.filter fun t => t.name = T).filterMap g := by
  induction tables with
  | nil => rfl
  | cons t tables ih =>
    rw [filterMap_cons, filter_cons]
    cases ht : g t with
    | none =>
      rw [ih]
      split
      · rw [filterMap_cons_none ht]
      · rfl
    | some m =>
      rw [filter_cons, hg t m ht, ih]
      split
      · rw [filterMap_cons_some ht]
      · rfl

theorem inferredEnds_eq (tables : List SyncTable) (T : String) : inferredEnds tables T =
      ((inferredAt tables T).filter fun m => m.kind = .edge).map TableMapping.ends := by
  let edges := (tables.filter fun t => t.name = T).filterMap (edgeOf tables (nodesByName tables))
  have hends : inferredEnds tables T = edges.getLast?.map TableMapping.ends := by
    rw [← getLast?_map, map_filterMap]
    unfold inferredEnds
    simp only [edgeOf_ends]
  have hat : inferredAt tables T = edges.getLast?.or
      ((tables.filterMap nodeOf).filter fun m => m.sqliteTable = T).getLast? := by
    unfold inferredAt mappingsByTable
    rw [lookup_indexed, inferMappings_mappings, filter_append, getLast?_append,
      filter_filterMap_table (fun t m h => (edgeOf_some h).2.2)]
  rw [hends, hat]
  cases hedge : edges.getLast? with
  | some m =>
    obtain ⟨t, -, ht⟩ := mem_filterMap.mp (mem_of_getLast? hedge)
    rw [some_or, filter_some, if_pos (by simpa using (edgeOf_some ht).2.1)]
  | none =>
    rw [none_or]
    cases hnode : ((tables.filterMap nodeOf).filter fun m => m.sqliteTable = T).getLast? with
    | none => rfl
    | some m =>
      have hmem := (mem_filter.mp (mem_of_getLast? hnode)).1
      obtain ⟨t, -, ht⟩ := mem_filterMap.mp hmem
      rw [filter_some, if_neg (by simp [(nodeOf_some ht).2.1])]

/-! ## 2. The pool of nodes -/

def RegisteredAsEdge (explicit_ : ByTable ExplicitMapping) (T : String) : Prop :=
  ∃ exp, explicit_.lookup T = some exp ∧ exp.kind = "edge"

def Pooled (tables : List SyncTable) (explicit_ : ByTable ExplicitMapping) (T : String) : Prop :=
  NodeByName tables T ∨ ∃ exp, explicit_.lookup T = some exp ∧ exp.kind ≠ "edge" ∧
    ((tableByName tables).lookup T).isSome

instance (tables : List SyncTable) (explicit_ : ByTable ExplicitMapping) (T : String) :
    Decidable (Pooled tables explicit_ T) :=
  decidable_of_iff (NodeByName tables T ∨ ∃ exp ∈ explicit_.lookup T, exp.kind ≠ "edge" ∧
    ((tableByName tables).lookup T).isSome) Iff.rfl

def nodePool (tables : List SyncTable) (inferred : ByTable TableMapping)
    (rows : ByTable ExplicitMapping) : ByTable TableMapping :=
  rows.entries.foldl (assign (explicitNode (tableByName tables) inferred)) (inferredPool inferred)

/-- The mapping the three passes push for `T`, before edges are bound again. -/
def candidate (tables : List SyncTable) (inferred : ByTable TableMapping)
    (rows : ByTable ExplicitMapping) (T : String) : Option TableMapping :=
  match rows.lookup T with
  | none => inferred.lookup T
  | some exp => (explicitNode (tableByName tables) inferred T exp).or
      (explicitEdge (tableByName tables) inferred (nodePool tables inferred rows) T exp)

section

variable {byName : ByTable SyncTable} {inferred pool : ByTable TableMapping}
  {rows explicit_ : ByTable ExplicitMapping} {exp : ExplicitMapping}

theorem explicitIdentity_kept (inf : Option TableMapping) (table : SyncTable)
    (exp : ExplicitMapping) (m : TableMapping) :
    (explicitIdentity inf table exp m).kind = m.kind ∧
      (explicitIdentity inf table exp m).sqliteTable = m.sqliteTable := by
  unfold explicitIdentity
  cases inf with
  | none => exact ⟨rfl, rfl⟩
  | some inf => dsimp only; split <;> exact ⟨rfl, rfl⟩

theorem explicitNode_some (h : explicitNode byName inferred T exp = some m) :
    exp.kind ≠ "edge" ∧ (byName.lookup T).isSome ∧ m.kind = .node ∧ m.sqliteTable = T := by
  unfold explicitNode at h
  split at h
  · cases h
  · rename_i hkind
    obtain ⟨table, htable, hm⟩ := map_eq_some_iff.mp h
    subst hm
    exact ⟨hkind, by rw [htable]; rfl, explicitIdentity_kept _ _ _ _⟩

theorem explicitNode_isSome (hkind : exp.kind ≠ "edge") :
    (explicitNode byName inferred T exp).isSome = (byName.lookup T).isSome := by
  unfold explicitNode
  rw [if_neg hkind, isSome_map]

theorem explicitNode_edge (hkind : exp.kind = "edge") :
    explicitNode byName inferred T exp = none := by
  unfold explicitNode
  rw [if_pos hkind]

theorem explicitEdge_node (hkind : exp.kind ≠ "edge") :
    explicitEdge byName inferred pool T exp = none := by
  unfold explicitEdge
  rw [if_pos hkind]

theorem registeredEdge_some {table : SyncTable}
    (h : registeredEdge byName pool table T exp = some m) :
    m.kind = .edge ∧ m.sqliteTable = T := by
  unfold registeredEdge at h
  dsimp only at h
  split at h
  · cases h
  · split at h
    · split at h
      · cases h
        exact ⟨rfl, rfl⟩
      · cases h
    · cases h

theorem explicitEdge_some (hinf : ∀ m, inferred.lookup T = some m → m.sqliteTable = T)
    (h : explicitEdge byName inferred pool T exp = some m) :
    exp.kind = "edge" ∧ m.kind = .edge ∧ m.sqliteTable = T := by
  obtain ⟨hkind, h⟩ := ite_none_left_eq_some.mp h
  refine ⟨by simpa using hkind, ?_⟩
  split at h
  · cases h
  · split at h
    · rename_i inf hfilter
      obtain ⟨hlookup, hmatch⟩ := filter_eq_some_iff.mp hfilter
      cases h
      exact ⟨(of_decide_eq_true hmatch).1, hinf inf hlookup⟩
    · exact registeredEdge_some h

theorem lookup_nodePool (T : String) : (nodePool tables inferred rows).lookup T =
      ((rows.lookup T).bind (explicitNode (tableByName tables) inferred T)).or
        ((inferred.lookup T).filter fun m => m.kind = .node) := by
  unfold nodePool inferredPool
  rw [lookup_foldl_assign, lookup_foldl_assign, AList.lookup_empty, or_none]
  congr 1
  cases inferred.lookup T with
  | none => rfl
  | some m =>
    rw [filter_some, bind_some]
    by_cases hkind : m.kind = .node
    · rw [if_pos hkind, if_pos (by simpa using hkind)]
    · rw [if_neg hkind, if_neg (by simpa using hkind)]

/-- The maps of a tick hold what inference found and what is registered. -/
structure Held (tables : List SyncTable) (explicit_ : ByTable ExplicitMapping)
    (inferred : ByTable TableMapping) (rows : ByTable ExplicitMapping) : Prop where
  inferred : ∀ T, inferred.lookup T = inferredAt tables T
  rows : ∀ T, rows.lookup T = explicit_.lookup T

variable (held : Held tables explicit_ inferred rows)

include held

theorem Held.lookup_pool_isSome :
    ((nodePool tables inferred rows).lookup T).isSome ↔ Pooled tables explicit_ T := by
  rw [lookup_nodePool, held.rows, held.inferred, isSome_or, Bool.or_eq_true]
  rw [or_comm]
  apply or_congr
  · constructor
    · intro h
      obtain ⟨m, hm⟩ := isSome_iff_exists.mp h
      obtain ⟨hat, hkind⟩ := filter_eq_some_iff.mp hm
      exact inferredAt_node hat (of_decide_eq_true hkind)
    · intro h
      obtain ⟨m, hat, hkind⟩ := nodeByName_inferredAt h
      rw [hat, filter_some, if_pos (by simpa using hkind)]
      rfl
  · cases explicit_.lookup T with
    | none => simp
    | some exp =>
      rw [bind_some]
      by_cases hkind : exp.kind = "edge"
      · rw [explicitNode_edge hkind]
        simp [hkind]
      · rw [explicitNode_isSome hkind]
        simp [hkind]

theorem Held.candidate_table (h : candidate tables inferred rows T = some m) :
    m.sqliteTable = T := by
  have hinf (m : TableMapping) (h : inferred.lookup T = some m) : m.sqliteTable = T := by
    rw [held.inferred] at h
    exact inferredAt_table h
  unfold candidate at h
  split at h
  · exact hinf m h
  · rcases or_eq_some_iff.mp h with h | ⟨-, h⟩
    · exact (explicitNode_some h).2.2.2
    · exact (explicitEdge_some hinf h).2.2

theorem Held.pool_node (h : (nodePool tables inferred rows).lookup T = some m) :
    m.kind = .node ∧ m.sqliteTable = T := by
  rw [lookup_nodePool] at h
  rcases or_eq_some_iff.mp h with h | ⟨-, h⟩
  · obtain ⟨exp, -, hexp⟩ := bind_eq_some_iff.mp h
    exact (explicitNode_some hexp).2.2
  · obtain ⟨hat, hkind⟩ := filter_eq_some_iff.mp h
    rw [held.inferred] at hat
    exact ⟨of_decide_eq_true hkind, inferredAt_table hat⟩

theorem Held.candidate_node (hkind : m.kind = .node) : candidate tables inferred rows T = some m ↔
      (nodePool tables inferred rows).lookup T = some m ∧ ¬ RegisteredAsEdge explicit_ T := by
  have hedge (exp : ExplicitMapping) :
      explicitEdge (tableByName tables) inferred (nodePool tables inferred rows) T exp ≠
        some m := by
    intro h
    have := (explicitEdge_some (fun m h => inferredAt_table ((held.inferred T).symm.trans h)) h).2.1
    rw [hkind] at this
    cases this
  unfold candidate RegisteredAsEdge
  rw [lookup_nodePool, held.rows]
  cases explicit_.lookup T with
  | none =>
    simp [hkind]
  | some exp =>
    rw [bind_some, or_eq_some_iff, or_iff_left fun h => hedge exp h.2]
    by_cases hexp : exp.kind = "edge"
    · rw [explicitNode_edge hexp]
      simp [hexp]
    · rw [and_iff_left (by simpa using hexp)]
      have hsome : (explicitNode (tableByName tables) inferred T exp).isSome =
          ((tableByName tables).lookup T).isSome := explicitNode_isSome hexp
      cases hnode : explicitNode (tableByName tables) inferred T exp with
      | some m' => rw [some_or]
      | none =>
        -- a table with an inferred node exists
        rw [none_or, filter_eq_some_iff]
        apply iff_of_false
        · exact fun h => nomatch h
        · intro h
          rw [held.inferred] at h
          have htable := nodeByName_exists (inferredAt_node h.1 hkind)
          rw [hnode, htable] at hsome
          cases hsome

/-! ## 3. The ends of an edge -/

omit held in
theorem conventionEnds_some {ends : EdgeEnds} (h : conventionEnds tables t = some ends) :
    NodeByName tables ends.srcTable ∧ NodeByName tables ends.dstTable := by
  unfold conventionEnds at h
  split at h
  · cases h
  · split at h
    · split at h
      · rename_i hnodes
        split at h
        · cases h
          exact hnodes
        · cases h
      · cases h
    · cases h

/-- The ends of the two registered columns, when both are mapped as nodes. -/
def explicitEnds (tables : List SyncTable) (explicit_ : ByTable ExplicitMapping) (table : SyncTable)
    (exp : ExplicitMapping) : Option EdgeEnds :=
  let ends := registeredEnds table.foreignKeys exp
  if ends.1 = "" ∨ ends.2 = "" then none
  else if Pooled tables explicit_ ends.1 ∧ Pooled tables explicit_ ends.2 then
    match findCol table.columns exp.fromCol, findCol table.columns exp.toCol with
    | some scol, some dcol => some ⟨ends.1, ends.2, scol, dcol⟩
    | _, _ => none
  else none

/-- The registered columns are those of `ends`, or left out. -/
def sameColumns (table : SyncTable) (exp : ExplicitMapping) (ends : EdgeEnds) : Bool :=
  (exp.fromCol = "" ∨ exp.fromCol = columnName table.columns ends.srcColIndex) ∧
    (exp.toCol = "" ∨ exp.toCol = columnName table.columns ends.dstColIndex)

def edgeEnds (tables : List SyncTable) (explicit_ : ByTable ExplicitMapping) (T : String) :
    Option EdgeEnds :=
  match explicit_.lookup T with
  | none => inferredEnds tables T
  | some exp =>
    if exp.kind ≠ "edge" then none
    else match (tableByName tables).lookup T with
      | none => none
      | some table =>
        ((inferredEnds tables T).filter (sameColumns table exp)).or
          (explicitEnds tables explicit_ table exp)

theorem Held.registeredEdge_ends (table : SyncTable) (exp : ExplicitMapping) :
    (registeredEdge (tableByName tables) (nodePool tables inferred rows) table T exp).map
      TableMapping.ends = explicitEnds tables explicit_ table exp := by
  unfold registeredEdge explicitEnds
  dsimp only
  generalize registeredEnds table.foreignKeys exp = ends
  split
  · rfl
  · have hsrc := held.lookup_pool_isSome (T := ends.1)
    have hdst := held.lookup_pool_isSome (T := ends.2)
    cases hs : (nodePool tables inferred rows).lookup ends.1 with
    | none =>
      rw [hs] at hsrc
      rw [if_neg fun h => by simpa using hsrc.mpr h.1]
      rfl
    | some srcNode =>
      rw [hs] at hsrc
      cases hd : (nodePool tables inferred rows).lookup ends.2 with
      | none =>
        rw [hd] at hdst
        rw [if_neg fun h => by simpa using hdst.mpr h.2]
        rfl
      | some dstNode =>
        rw [hd] at hdst
        rw [if_pos ⟨hsrc.mp rfl, hdst.mp rfl⟩]
        cases findCol table.columns exp.fromCol with
        | none => rfl
        | some scol => cases findCol table.columns exp.toCol <;> rfl

omit held in
theorem filter_edge_eq_self {found : Option TableMapping}
    (h : ∀ m, found = some m → m.kind = .edge) :
    (found.filter fun m => m.kind = .edge) = found := by
  cases found with
  | none => rfl
  | some m => rw [filter_some, if_pos (by simpa using h m rfl)]

omit held in
theorem matchesInferred_iff (table : SyncTable) (exp : ExplicitMapping) (inf : TableMapping) :
    matchesInferred table exp inf ↔ inf.kind = .edge ∧ sameColumns table exp inf.ends := by
  unfold matchesInferred sameColumns
  rw [decide_eq_true_eq, decide_eq_true_eq]
  rfl

theorem Held.explicitEdge_ends (table : SyncTable)
    (hlookup : (tableByName tables).lookup T = some table) (hexp : exp.kind = "edge") :
    (explicitEdge (tableByName tables) inferred (nodePool tables inferred rows) T exp).map
      TableMapping.ends =
      ((inferredEnds tables T).filter (sameColumns table exp)).or
        (explicitEnds tables explicit_ table exp) := by
  unfold explicitEdge
  rw [if_neg (by simpa using hexp), hlookup, inferredEnds_eq, ← held.inferred]
  dsimp only
  cases inferred.lookup T with
  | none => exact held.registeredEdge_ends table exp
  | some inf =>
    rw [filter_some]
    by_cases hmatch : matchesInferred table exp inf = true
    · -- the inferred edge, with another label
      obtain ⟨hkind, hcols⟩ := (matchesInferred_iff table exp inf).mp hmatch
      rw [if_pos hmatch, filter_some, if_pos (by simpa using hkind)]
      show some inf.ends = ((some inf.ends).filter (sameColumns table exp)).or _
      rw [filter_some, if_pos hcols]
      rfl
    · rw [if_neg hmatch]
      have hnone : (((some inf).filter fun m => m.kind = .edge).map TableMapping.ends).filter
          (sameColumns table exp) = none := by
        by_cases hkind : inf.kind = .edge
        · rw [filter_some, if_pos (by simpa using hkind), map_some,
            filter_some, if_neg]
          exact fun hcols => hmatch ((matchesInferred_iff table exp inf).mpr ⟨hkind, hcols⟩)
        · rw [filter_some, if_neg (by simpa using hkind)]
          rfl
      rw [hnone, none_or]
      exact held.registeredEdge_ends table exp

theorem Held.candidate_ends (T : String) :
    ((candidate tables inferred rows T).filter fun m => m.kind = .edge).map TableMapping.ends =
      edgeEnds tables explicit_ T := by
  have hinf (m : TableMapping) (h : inferred.lookup T = some m) : m.sqliteTable = T :=
    inferredAt_table ((held.inferred T).symm.trans h)
  unfold candidate edgeEnds
  rw [held.rows]
  cases explicit_.lookup T with
  | none => rw [held.inferred, inferredEnds_eq]
  | some exp =>
    dsimp only
    by_cases hexp : exp.kind = "edge"
    · rw [explicitNode_edge hexp, none_or, if_neg (by simpa using hexp),
        filter_edge_eq_self fun m h => (explicitEdge_some hinf h).2.1]
      cases htable : (tableByName tables).lookup T with
      | none =>
        unfold explicitEdge
        rw [if_neg (by simpa using hexp), htable]
        rfl
      | some table => exact held.explicitEdge_ends table htable hexp
    · rw [explicitEdge_node hexp, or_none, if_pos hexp]
      cases hnode : explicitNode (tableByName tables) inferred T exp with
      | none => rfl
      | some m =>
        rw [filter_some, if_neg (by simp [(explicitNode_some hnode).2.2.1])]
        rfl

omit held in
theorem edgeEnds_pooled {ends : EdgeEnds} (h : edgeEnds tables explicit_ T = some ends) :
    Pooled tables explicit_ ends.srcTable ∧ Pooled tables explicit_ ends.dstTable := by
  have hconvention (h : inferredEnds tables T = some ends) :
      Pooled tables explicit_ ends.srcTable ∧ Pooled tables explicit_ ends.dstTable := by
    obtain ⟨t, -, ht⟩ := mem_filterMap.mp (mem_of_getLast? h)
    exact ⟨.inl (conventionEnds_some ht).1, .inl (conventionEnds_some ht).2⟩
  unfold edgeEnds at h
  split at h
  · exact hconvention h
  · obtain ⟨-, h⟩ := ite_none_left_eq_some.mp h
    split at h
    · cases h
    · rcases or_eq_some_iff.mp h with h | ⟨-, h⟩
      · exact hconvention (filter_eq_some_iff.mp h).1
      · unfold explicitEnds at h
        dsimp only at h
        split at h
        · cases h
        · obtain ⟨hpooled, h⟩ := ite_none_right_eq_some.mp h
          split at h
          · cases h
            exact hpooled
          · cases h

/-! ## 4. The final list -/

omit held in
theorem mergeMappings_eq : mergeMappings tables inferred rows =
    (rows.entries.filterMap (fun row => explicitNode (tableByName tables) inferred row.1 row.2) ++
      rows.entries.filterMap (fun row => explicitEdge (tableByName tables) inferred
        (nodePool tables inferred rows) row.1 row.2) ++
      (inferred.entries.filter fun e => e.1 ∉ rows).map Sigma.snd).filterMap
        (rebind (tableByName tables) (nodePool tables inferred rows)) :=
  rfl

omit held in
theorem lookup_rows {α : Type} {map : ByTable α} {e : Sigma fun _ : String => α}
    (h : e ∈ map.entries) : map.lookup e.1 = some e.2 :=
  AList.mem_lookup_iff.mpr h

omit held in
theorem mem_mergeMappings : m ∈ mergeMappings tables inferred rows ↔
    ∃ T m₀, candidate tables inferred rows T = some m₀ ∧
      rebind (tableByName tables) (nodePool tables inferred rows) m₀ = some m := by
  rw [mergeMappings_eq, mem_filterMap, exists_comm]
  apply exists_congr
  intro m₀
  rw [exists_and_right]
  apply and_congr_left
  intro _
  rw [mem_append, mem_append, mem_filterMap, mem_filterMap, List.mem_map]
  constructor
  · intro h
    rcases h with (⟨row, hrow, h⟩ | ⟨row, hrow, h⟩) | ⟨e, he, h⟩
    · refine ⟨row.1, ?_⟩
      unfold candidate
      rw [lookup_rows hrow]
      dsimp only
      rw [h, some_or]
    · refine ⟨row.1, ?_⟩
      unfold candidate
      rw [lookup_rows hrow]
      dsimp only
      by_cases hkind : row.2.kind = "edge"
      · rw [explicitNode_edge hkind, none_or, h]
      · rw [explicitEdge_node hkind] at h
        cases h
    · rw [mem_filter] at he
      refine ⟨e.1, ?_⟩
      unfold candidate
      rw [AList.lookup_eq_none.mpr (by simpa using he.2)]
      exact (lookup_rows he.1).trans (congrArg some h)
  · intro h
    obtain ⟨T, hT⟩ := h
    unfold candidate at hT
    split at hT
    · rename_i hnone
      apply Or.inr
      refine ⟨⟨T, m₀⟩, mem_filter.mpr ⟨AList.mem_lookup_iff.mp hT, ?_⟩, rfl⟩
      simpa using AList.lookup_eq_none.mp hnone
    · rename_i exp hexp
      have hrow := AList.mem_lookup_iff.mp hexp
      apply Or.inl
      rcases or_eq_some_iff.mp hT with hT | ⟨-, hT⟩
      · exact Or.inl ⟨⟨T, exp⟩, hrow, hT⟩
      · exact Or.inr ⟨⟨T, exp⟩, hrow, hT⟩

variable {m₀ : TableMapping} {g : String → ExplicitMapping → Option TableMapping}

omit held in
theorem rebind_kept (h : rebind byName pool m₀ = some m) :
    m.sqliteTable = m₀.sqliteTable ∧ m.kind = m₀.kind ∧ m.ends = m₀.ends := by
  unfold rebind at h
  split at h
  · cases h
    exact ⟨rfl, rfl, rfl⟩
  · split at h
    · cases h
      exact ⟨rfl, rfl, rfl⟩
    · cases h

omit held in
theorem rebind_node (hkind : m.kind = .node) : rebind byName pool m = some m := by
  unfold rebind
  rw [if_pos (by rw [hkind]; decide)]

omit held in
theorem rebind_edge (h : rebind byName pool m₀ = some m) (hkind : m.kind = .edge) :
    (∃ n, pool.lookup m.srcTable = some n ∧ n.label = m.srcLabel ∧ n.idColumn = m.srcPkColumn ∧
      n.idFromRowid = m.srcPkFromRowid) ∧
    ∃ n, pool.lookup m.dstTable = some n ∧ n.label = m.dstLabel ∧ n.idColumn = m.dstPkColumn ∧
      n.idFromRowid = m.dstPkFromRowid := by
  have hkind₀ := (rebind_kept h).2.1.symm.trans hkind
  unfold rebind at h
  rw [if_neg (by simpa using hkind₀)] at h
  split at h
  · rename_i srcNode dstNode hsrc hdst
    cases h
    exact ⟨⟨srcNode, hsrc, rfl, rfl, rfl⟩, ⟨dstNode, hdst, rfl, rfl, rfl⟩⟩
  · cases h

theorem Held.node_mem_iff (hkind : m.kind = .node) : m ∈ mergeMappings tables inferred rows ↔
      (nodePool tables inferred rows).lookup m.sqliteTable = some m ∧
        ¬ RegisteredAsEdge explicit_ m.sqliteTable := by
  rw [mem_mergeMappings, ← held.candidate_node hkind]
  constructor
  · intro h
    obtain ⟨T, m₀, hT, hm⟩ := h
    rw [rebind_node ((rebind_kept hm).2.1.symm.trans hkind)] at hm
    cases hm
    rw [held.candidate_table hT, hT]
  · intro h
    exact ⟨m.sqliteTable, m, h, rebind_node hkind⟩

theorem Held.edge_mem {ends : EdgeEnds} (h : edgeEnds tables explicit_ T = some ends) :
    ∃ m ∈ mergeMappings tables inferred rows, m.kind = .edge ∧ m.ends = ends := by
  have hpooled := edgeEnds_pooled h
  rw [← held.candidate_ends, map_eq_some_iff] at h
  obtain ⟨m₀, hm₀, hends⟩ := h
  rw [filter_eq_some_iff] at hm₀
  have hkind : m₀.kind = .edge := of_decide_eq_true hm₀.2
  rw [← held.lookup_pool_isSome, ← held.lookup_pool_isSome, ← hends] at hpooled
  obtain ⟨srcNode, hsrc⟩ := isSome_iff_exists.mp hpooled.1
  obtain ⟨dstNode, hdst⟩ := isSome_iff_exists.mp hpooled.2
  have hrebind : rebind (tableByName tables) (nodePool tables inferred rows) m₀ =
      some (boundEdge m₀ srcNode dstNode (lookedUpDecltype (tableByName tables))) := by
    unfold rebind
    rw [if_neg (by simpa using hkind)]
    rw [show (nodePool tables inferred rows).lookup m₀.srcTable = some srcNode from hsrc,
      show (nodePool tables inferred rows).lookup m₀.dstTable = some dstNode from hdst]
  exact ⟨_, mem_mergeMappings.mpr ⟨T, m₀, hm₀.1, hrebind⟩, hkind, hends⟩

theorem Held.ends_of_mem (hm : m ∈ mergeMappings tables inferred rows) (hkind : m.kind = .edge) :
    edgeEnds tables explicit_ m.sqliteTable = some m.ends := by
  obtain ⟨T, m₀, hT, hrebind⟩ := mem_mergeMappings.mp hm
  obtain ⟨htable, hkind₀, hends⟩ := rebind_kept hrebind
  rw [htable, held.candidate_table hT, hends, ← held.candidate_ends, hT, filter_some,
    if_pos (by simpa using hkind₀.symm.trans hkind)]
  rfl

omit held in
theorem pushed_nodup (hg : ∀ T exp m, g T exp = some m → m.sqliteTable = T) :
    ((rows.entries.filterMap fun row => g row.1 row.2).map fun m => m.sqliteTable).Nodup := by
  have hkeys : (rows.entries.map Sigma.fst).Nodup := rows.nodupKeys
  exact hkeys.sublist (filterMap_keys_sublist (fun row m h => hg row.1 row.2 m h) rows.entries)

omit held in
theorem mem_pushed (hg : ∀ T exp m, g T exp = some m → m.sqliteTable = T)
    (h : T ∈ (rows.entries.filterMap fun row => g row.1 row.2).map fun m => m.sqliteTable) :
    ∃ exp m, rows.lookup T = some exp ∧ g T exp = some m := by
  obtain ⟨m, hm, hT⟩ := mem_map.mp h
  obtain ⟨row, hrow, hg'⟩ := mem_filterMap.mp hm
  rw [hg _ _ _ hg'] at hT
  subst hT
  exact ⟨row.2, m, lookup_rows hrow, hg'⟩

omit held in
theorem map_entries_table (hinf : ∀ T m, inferred.lookup T = some m → m.sqliteTable = T)
    {entries : List (Sigma fun _ : String => TableMapping)} (hsub : ∀ e ∈ entries,
    e ∈ inferred.entries) :
    ((entries.map Sigma.snd).map fun m => m.sqliteTable) = entries.map Sigma.fst := by
  rw [List.map_map]
  apply map_congr_left
  intro e he
  exact hinf e.1 e.2 (lookup_rows (hsub e he))

theorem Held.tables_nodup :
    ((mergeMappings tables inferred rows).map fun m => m.sqliteTable).Nodup := by
  have hinf (T : String) (m : TableMapping) (h : inferred.lookup T = some m) :
      m.sqliteTable = T := inferredAt_table ((held.inferred T).symm.trans h)
  have hnode (T : String) (exp : ExplicitMapping) (m : TableMapping)
      (h : explicitNode (tableByName tables) inferred T exp = some m) : m.sqliteTable = T :=
    (explicitNode_some h).2.2.2
  have hedge (T : String) (exp : ExplicitMapping) (m : TableMapping)
      (h : explicitEdge (tableByName tables) inferred (nodePool tables inferred rows) T exp =
        some m) : m.sqliteTable = T := (explicitEdge_some (hinf T) h).2.2
  apply Nodup.sublist (filterMap_keys_sublist (fun _ _ h => (rebind_kept h).1) _)
  rw [map_append, map_append, map_entries_table hinf fun e he => (mem_filter.mp he).1]
  apply Nodup.append
  · apply Nodup.append (pushed_nodup hnode) (pushed_nodup hedge)
    -- one registration is either of a node or of an edge
    intro T hT hT'
    obtain ⟨exp, m, hexp, hm⟩ := mem_pushed hnode hT
    obtain ⟨exp', m', hexp', hm'⟩ := mem_pushed hedge hT'
    rw [hexp] at hexp'
    cases hexp'
    exact (explicitNode_some hm).1 (explicitEdge_some (hinf T) hm').1
  · have hkeys : (inferred.entries.map Sigma.fst).Nodup := inferred.nodupKeys
    exact hkeys.sublist (filter_sublist.map Sigma.fst)
  · -- pass 3 leaves the registered tables out
    intro T hT hT'
    obtain ⟨e, he, hT'⟩ := mem_map.mp hT'
    subst hT'
    have hnone := AList.lookup_eq_none.mpr (of_decide_eq_true (mem_filter.mp he).2)
    rw [mem_append] at hT
    cases hT with
    | inl hT =>
      obtain ⟨exp, m, hexp, -⟩ := mem_pushed hnode hT
      rw [hnone] at hexp
      cases hexp
    | inr hT =>
      obtain ⟨exp, m, hexp, -⟩ := mem_pushed hedge hT
      rw [hnone] at hexp
      cases hexp

end

/-! ## 5. What a tick may rely on -/

def NodeEnd (mappings : List TableMapping) (T label idColumn : String) (idFromRowid : Bool) : Prop :=
  ∃ n ∈ mappings, n.kind = .node ∧ n.sqliteTable = T ∧ n.label = label ∧
    n.idColumn = idColumn ∧ n.idFromRowid = idFromRowid

def EdgesBound (mappings : List TableMapping) : Prop :=
  ∀ e ∈ mappings, e.kind = .edge →
    NodeEnd mappings e.srcTable e.srcLabel e.srcPkColumn e.srcPkFromRowid ∧
      NodeEnd mappings e.dstTable e.dstLabel e.dstPkColumn e.dstPkFromRowid

structure Consistent (tables : List SyncTable) (explicit_ : ByTable ExplicitMapping) : Prop where
  onePerTable : ∀ l, FinalMappings tables explicit_ l → (l.map fun m => m.sqliteTable).Nodup
  sameSet : ∀ l l', FinalMappings tables explicit_ l → FinalMappings tables explicit_ l' →
    ∀ m, m ∈ l ↔ m ∈ l'
  edgesBound : ∀ l, FinalMappings tables explicit_ l → EdgesBound l

def Reoriented (tables : List SyncTable) (explicit_ : ByTable ExplicitMapping) (T : String) : Prop :=
  NodeByName tables T ∧ RegisteredAsEdge explicit_ T

def EndsStayNodes (tables : List SyncTable) (explicit_ : ByTable ExplicitMapping) : Prop :=
  ∀ T ends, edgeEnds tables explicit_ T = some ends →
    ¬ Reoriented tables explicit_ ends.srcTable ∧ ¬ Reoriented tables explicit_ ends.dstTable

section

variable {explicit_ rows : ByTable ExplicitMapping} {inferred : ByTable TableMapping}
  {l : List TableMapping}

theorem finalMappings_held (h : FinalMappings tables explicit_ l) :
    ∃ inferred rows, Held tables explicit_ inferred rows ∧
      l = mergeMappings tables inferred rows := by
  obtain ⟨inferred, rows, hinf, hrows, hl⟩ := h
  exact ⟨inferred, rows, ⟨fun _ => AList.perm_lookup hinf, fun _ => AList.perm_lookup hrows⟩, hl⟩

theorem finalMappings_exists (tables : List SyncTable) (explicit_ : ByTable ExplicitMapping) :
    ∃ l, FinalMappings tables explicit_ l :=
  ⟨_, _, _, Perm.refl _, Perm.refl _, rfl⟩

theorem Held.edgesBound (held : Held tables explicit_ inferred rows)
    (hstay : EndsStayNodes tables explicit_) : EdgesBound (mergeMappings tables inferred rows) := by
  -- a node of the pool is in the list when its table stays a node
  have hend {n : TableMapping} {T : String} (hreg : ¬ Reoriented tables explicit_ T)
      (hn : (nodePool tables inferred rows).lookup T = some n) :
      n ∈ mergeMappings tables inferred rows ∧ n.kind = .node ∧ n.sqliteTable = T := by
    obtain ⟨hkind, htable⟩ := held.pool_node hn
    have hpooled := held.lookup_pool_isSome.mp (isSome_iff_exists.mpr ⟨n, hn⟩)
    refine ⟨(held.node_mem_iff hkind).mpr ⟨by rwa [htable], ?_⟩, hkind, htable⟩
    rw [htable]
    intro hedge
    cases hpooled with
    | inl hname => exact hreg ⟨hname, hedge⟩
    | inr hother =>
      obtain ⟨exp, hexp, hne, -⟩ := hother
      obtain ⟨exp', hexp', heq⟩ := hedge
      rw [hexp] at hexp'
      cases hexp'
      exact hne heq
  intro e he hkind
  obtain ⟨T, e₀, -, hrebind⟩ := mem_mergeMappings.mp he
  obtain ⟨⟨src, hsrc, hslabel, hscol, hsrow⟩, ⟨dst, hdst, hdlabel, hdcol, hdrow⟩⟩ :=
    rebind_edge hrebind hkind
  obtain ⟨hs, hd⟩ := hstay e.sqliteTable e.ends (held.ends_of_mem he hkind)
  obtain ⟨hsmem, hskind, hstable⟩ := hend hs hsrc
  obtain ⟨hdmem, hdkind, hdtable⟩ := hend hd hdst
  exact ⟨⟨src, hsmem, hskind, hstable, hslabel, hscol, hsrow⟩,
    ⟨dst, hdmem, hdkind, hdtable, hdlabel, hdcol, hdrow⟩⟩

theorem Held.endsStayNodes (held : Held tables explicit_ inferred rows)
    (hbound : EdgesBound (mergeMappings tables inferred rows)) : EndsStayNodes tables explicit_ := by
  have hend {T label idColumn : String} {fromRowid : Bool}
      (h : NodeEnd (mergeMappings tables inferred rows) T label idColumn fromRowid) :
      ¬ Reoriented tables explicit_ T := by
    obtain ⟨n, hn, hkind, htable, -⟩ := h
    subst htable
    exact fun hreg => ((held.node_mem_iff hkind).mp hn).2 hreg.2
  intro T ends hends
  obtain ⟨m, hm, hkind, rfl⟩ := held.edge_mem hends
  exact ⟨hend (hbound m hm hkind).1, hend (hbound m hm hkind).2⟩

variable {byName : ByTable SyncTable} {inferred' pool pool' : ByTable TableMapping}

theorem explicitNode_congr (h : ∀ T, inferred.lookup T = inferred'.lookup T) :
    explicitNode byName inferred = explicitNode byName inferred' := by
  funext T exp
  unfold explicitNode
  rw [h T]

theorem rebind_congr (h : ∀ T, pool.lookup T = pool'.lookup T) :
    rebind byName pool = rebind byName pool' := by
  funext m
  unfold rebind
  rw [h, h]

theorem explicitEdge_congr (h : ∀ T, inferred.lookup T = inferred'.lookup T)
    (hpool : ∀ T, pool.lookup T = pool'.lookup T) :
    explicitEdge byName inferred pool = explicitEdge byName inferred' pool' := by
  have hregistered (table : SyncTable) (T : String) (exp : ExplicitMapping) :
      registeredEdge byName pool table T exp = registeredEdge byName pool' table T exp := by
    unfold registeredEdge
    simp only [hpool]
  funext T exp
  unfold explicitEdge
  simp only [h T, hregistered]

theorem Held.mem_congr {rows' : ByTable ExplicitMapping}
    (held : Held tables explicit_ inferred rows) (held' : Held tables explicit_ inferred' rows')
    (m : TableMapping) :
    m ∈ mergeMappings tables inferred rows ↔ m ∈ mergeMappings tables inferred' rows' := by
  have hinf (T : String) : inferred.lookup T = inferred'.lookup T :=
    (held.inferred T).trans (held'.inferred T).symm
  have hrows (T : String) : rows.lookup T = rows'.lookup T :=
    (held.rows T).trans (held'.rows T).symm
  have hpool (T : String) :
      (nodePool tables inferred rows).lookup T = (nodePool tables inferred' rows').lookup T := by
    rw [lookup_nodePool, lookup_nodePool, hinf, hrows, explicitNode_congr hinf]
  have hcandidate (T : String) :
      candidate tables inferred rows T = candidate tables inferred' rows' T := by
    unfold candidate
    rw [hinf, hrows, explicitNode_congr hinf, explicitEdge_congr hinf hpool]
  rw [mem_mergeMappings, mem_mergeMappings]
  simp only [hcandidate, rebind_congr hpool]

theorem consistent_iff (tables : List SyncTable) (explicit_ : ByTable ExplicitMapping) :
    Consistent tables explicit_ ↔ EndsStayNodes tables explicit_ := by
  constructor
  · intro h
    obtain ⟨l, hl⟩ := finalMappings_exists tables explicit_
    obtain ⟨inferred, rows, held, rfl⟩ := finalMappings_held hl
    exact held.endsStayNodes (h.edgesBound _ hl)
  · intro hstay
    apply Consistent.mk
    · intro l hl
      obtain ⟨inferred, rows, held, rfl⟩ := finalMappings_held hl
      exact held.tables_nodup
    · intro l l' hl hl'
      obtain ⟨inferred, rows, held, rfl⟩ := finalMappings_held hl
      obtain ⟨inferred', rows', held', rfl⟩ := finalMappings_held hl'
      exact held.mem_congr held'
    · intro l hl
      obtain ⟨inferred, rows, held, rfl⟩ := finalMappings_held hl
      exact held.edgesBound hstay

end

/-! A link table that its name makes a node, registered as an edge, and an edge that refers to it. -/

def linkedRows : List MasterRow := [
  { name := "node_p", rootpage := 2, columns := [⟨"id", "INTEGER", 1⟩] },
  { name := "node_link", rootpage := 3
    columns := [⟨"id", "INTEGER", 1⟩, ⟨"src", "INTEGER", 0⟩, ⟨"dst", "INTEGER", 0⟩]
    foreignKeys := [⟨"src", "node_p"⟩, ⟨"dst", "node_p"⟩] },
  { name := "rel_about", rootpage := 4
    columns := [⟨"src", "INTEGER", 0⟩, ⟨"dst", "INTEGER", 0⟩]
    foreignKeys := [⟨"src", "node_link"⟩, ⟨"dst", "node_p"⟩] }]

def linkRegistrations : List MapRow := [
  { sqliteTable := some "node_link", kind := some "edge", label := some "link"
    idColumn := some "", fromCol := some "src", toCol := some "dst" }]

/-- The edge `rel_about` starts at a table that has no node in the list. -/
theorem rel_about_loses_its_end :
    ¬ Consistent (syncTables linkedRows) (readRegistrations linkRegistrations) := by
  intro h
  have hbound := h.edgesBound _ ⟨_, _, Perm.refl _, Perm.refl _, rfl⟩
  revert hbound
  unfold EdgesBound NodeEnd
  decide +kernel

end Ladybug.Sqlite.Planning
