import Ladybug.Base.Markup
import Ladybug.Base.Writes

/-!
# Migration from Neo4j — exports, and the statements that load them

`migrateQuery` runs every export before the first `COPY`, so what a `COPY` finds in its file is
what was written there last.
-/

namespace Ladybug.Neo4j

open Markup List

abbrev Column := Bytes × Bytes

structure Triple where
  source : Bytes
  relName : Bytes
  target : Bytes
  deriving DecidableEq

/-- What the server answers: the labels around the relationships, and names and types of
properties. -/
structure Database where
  triples : List Triple
  distinct : triples.Nodup
  nodeProperties : Bytes → List Column
  relProperties : Bytes → List Column
  relKeys : Triple → List Bytes

/-- The rows of `MATCH (a)-[:rel]->(b) RETURN distinct labels(a), labels(b)`. -/
def Database.labelPairs (db : Database) (relName : Bytes) : List (List Bytes × List Bytes) :=
  (db.triples.filter (·.relName = relName)).map fun t => ([t.source], [t.target])

structure Neo4jMigrateBindData where
  nodesToImport : List Bytes
  relsToImport : List Bytes
  nodesDistinct : nodesToImport.Nodup
  relsDistinct : relsToImport.Nodup

inductive Export where
  | node (nodeName : Bytes)
  | rel (t : Triple)
  deriving DecidableEq

def Export.fileName : Export → Bytes
  | .node nodeName => nodeName
  | .rel t => t.source ++ (ascii "_" ++ (t.relName ++ (ascii "_" ++ t.target)))

def csvPath (e : Export) : Bytes := ascii "/tmp/" ++ (e.fileName ++ ascii ".csv")

/-- The files behind the exports; each file names the export that wrote it. -/
def filesAfter (exports : List Export) : Bytes → Option Export :=
  writeAll (fun _ => none) (exports.map fun e => (csvPath e, some e))

inductive Statement where
  | createNode (table : Bytes) (columns : List Column)
  | copyNode (table : Bytes) (columns : List Column) (file : Bytes)
  | createRel (table : Bytes) (pairs : List (Bytes × Bytes)) (columns : List Column)
  | copyRel (table : Bytes) (columns : List Column) (file source target : Bytes)

inductive MigrateError where
  | runtime (message : Bytes)
  /-- `propertyTypes.at` of an unknown key. -/
  | outOfRange

def sortByName (columns : List Column) : List Column :=
  columns.mergeSort fun left right => decide (left.1 ≤ right.1)

def getCreateNodeTableQuery (db : Database) (nodeName : Bytes) : List Statement :=
  let columns := sortByName (db.nodeProperties nodeName)
  [.createNode nodeName columns, .copyNode nodeName columns (csvPath (.node nodeName))]

def typeOf (columns : List Column) (key : Bytes) : Bytes := (columns.lookup key).getD []

def getRelProperties (db : Database) (t : Triple) : List Bytes :=
  (db.relKeys t).mergeSort fun left right => decide (left ≤ right)

structure RelLoop where
  exports : List Export
  nodePairs : List (Bytes × Bytes)
  copyQuery : List Statement

variable (db : Database) (nodeLabelsToImport : List Bytes)

def RelLoop.copy (l : RelLoop) (t : Triple) : RelLoop where
  exports := l.exports ++ [.rel t]
  nodePairs := l.nodePairs ++ [(t.source, t.target)]
  copyQuery := l.copyQuery ++ [.copyRel t.relName
      ((getRelProperties db t).map fun key => (key, typeOf (db.relProperties t.relName) key))
      (csvPath (.rel t)) t.source t.target]

/-- One row of the answer; a node without labels is passed over. -/
def RelLoop.row (relName : Bytes) (l : RelLoop) (labels : List Bytes × List Bytes) :
    Except MigrateError RelLoop :=
  match labels with
  | (srcLabel :: _, dstLabel :: _) =>
    if !nodeLabelsToImport.contains srcLabel then
      .error (.runtime (ascii "The source node label '" ++ srcLabel ++ ascii "' of '" ++ relName ++
        ascii "' must be present in the nodes import list."))
    else if !nodeLabelsToImport.contains dstLabel then
      .error (.runtime (ascii "The destination node label '" ++ dstLabel ++ ascii "' of '" ++
        relName ++ ascii "' must be present in the nodes import list."))
    else if (getRelProperties db ⟨srcLabel, relName, dstLabel⟩).any fun key =>
        !((db.relProperties relName).map Prod.fst).contains key then
      .error .outOfRange
    else .ok (l.copy db ⟨srcLabel, relName, dstLabel⟩)
  | _ => .ok l

def getCreateRelTableQuery (exports : List Export) (relName : Bytes) :
    Except MigrateError (List Statement × List Export) := do
  let l ← (db.labelPairs relName).foldlM (RelLoop.row db nodeLabelsToImport relName)
    ⟨exports, [], []⟩
  if l.nodePairs = [] then .ok ([], l.exports)
  else
    .ok (.createRel relName l.nodePairs (sortByName (db.relProperties relName)) :: l.copyQuery,
      l.exports)

def addRel (nodesToImport : List Bytes) (result : List Statement × List Export) (relName : Bytes) :
    Except MigrateError (List Statement × List Export) := do
  let query ← getCreateRelTableQuery db nodesToImport result.2 relName
  .ok (result.1 ++ query.1, query.2)

/-- The statements, and the exports that ran before them. -/
def migrateQuery (bindData : Neo4jMigrateBindData) :
    Except MigrateError (List Statement × List Export) :=
  bindData.relsToImport.foldlM (addRel db bindData.nodesToImport)
    (bindData.nodesToImport.flatMap (getCreateNodeTableQuery db), bindData.nodesToImport.map .node)

/-- Both ends of a relationship are imported, and its properties have types. -/
def Copyable (t : Triple) : Prop :=
  t.source ∈ nodeLabelsToImport ∧ t.target ∈ nodeLabelsToImport ∧
    ∀ key ∈ getRelProperties db t, key ∈ (db.relProperties t.relName).map Prod.fst

def triplesOf (relName : Bytes) : List Triple := db.triples.filter (·.relName = relName)

def copyStatement (t : Triple) : Statement :=
  .copyRel t.relName
    ((getRelProperties db t).map fun key => (key, typeOf (db.relProperties t.relName) key))
    (csvPath (.rel t)) t.source t.target

def relQuery (relName : Bytes) : List Statement :=
  if triplesOf db relName = [] then []
  else
    .createRel relName ((triplesOf db relName).map fun t => (t.source, t.target))
      (sortByName (db.relProperties relName)) :: (triplesOf db relName).map (copyStatement db)

theorem row_eq_ok {l l' : RelLoop} {t : Triple} :
    l.row db nodeLabelsToImport t.relName ([t.source], [t.target]) = .ok l' ↔
      Copyable db nodeLabelsToImport t ∧ l.copy db t = l' := by
  unfold RelLoop.row Copyable
  rw [guard_eq_ok, guard_eq_ok, guard_eq_ok, Except.ok.injEq]
  simp only [any_eq_true, Bool.not_eq_true', Bool.not_eq_false, contains_iff_mem, not_exists, not_and,
    and_assoc]

theorem foldl_copy (ts : List Triple) (l : RelLoop) : ts.foldl (RelLoop.copy db) l =
      ⟨l.exports ++ ts.map .rel, l.nodePairs ++ ts.map fun t => (t.source, t.target),
        l.copyQuery ++ ts.map (copyStatement db)⟩ := by
  induction ts generalizing l with
  | nil => simp only [foldl_nil, map_nil, append_nil]
  | cons t ts ih =>
    rw [foldl_cons, ih]
    simp only [RelLoop.copy, copyStatement, map_cons, append_assoc, singleton_append]

variable {out : List Statement × List Export}

theorem getCreateRelTableQuery_eq_ok {exports : List Export} {relName : Bytes} :
    getCreateRelTableQuery db nodeLabelsToImport exports relName = .ok out ↔
      (∀ t ∈ triplesOf db relName, Copyable db nodeLabelsToImport t) ∧
        (relQuery db relName, exports ++ (triplesOf db relName).map .rel) = out := by
  have hrows : ∀ l, (db.labelPairs relName).foldlM
      (RelLoop.row db nodeLabelsToImport relName) ⟨exports, [], []⟩ = .ok l ↔
        (∀ t ∈ triplesOf db relName, Copyable db nodeLabelsToImport t) ∧
          (triplesOf db relName).foldl (RelLoop.copy db) ⟨exports, [], []⟩ = l := by
    intro l
    unfold Database.labelPairs
    rw [foldlM_map]
    apply foldlM_eq_ok
    intro s t ht s'
    obtain rfl : t.relName = relName := of_decide_eq_true (mem_filter.mp ht).2
    exact row_eq_ok db nodeLabelsToImport
  unfold getCreateRelTableQuery relQuery
  rw [bind_eq_ok]
  simp only [hrows, foldl_copy, nil_append]
  constructor
  · rintro ⟨l, ⟨hgood, rfl⟩, hout⟩
    refine ⟨hgood, ?_⟩
    by_cases hnone : triplesOf db relName = []
    all_goals simpa [hnone] using hout
  · rintro ⟨hgood, rfl⟩
    refine ⟨_, ⟨hgood, rfl⟩, ?_⟩
    by_cases hnone : triplesOf db relName = []
    · simp [hnone]
    · simp [hnone]

variable (bindData : Neo4jMigrateBindData)

def Importable : Prop :=
  ∀ t ∈ db.triples, t.relName ∈ bindData.relsToImport → Copyable db bindData.nodesToImport t

def exportsOf : List Export :=
  bindData.nodesToImport.map .node ++
    bindData.relsToImport.flatMap fun relName => (triplesOf db relName).map .rel

def statementsOf : List Statement :=
  bindData.nodesToImport.flatMap (getCreateNodeTableQuery db) ++
    bindData.relsToImport.flatMap (relQuery db)

def withRel (result : List Statement × List Export) (relName : Bytes) :
    List Statement × List Export :=
  (result.1 ++ relQuery db relName, result.2 ++ (triplesOf db relName).map .rel)

theorem foldl_withRel (rels : List Bytes) (result : List Statement × List Export) :
    rels.foldl (withRel db) result = (result.1 ++ rels.flatMap (relQuery db),
        result.2 ++ rels.flatMap fun relName => (triplesOf db relName).map .rel) := by
  induction rels generalizing result with
  | nil => simp only [foldl_nil, flatMap_nil, append_nil]
  | cons relName rels ih =>
    rw [foldl_cons, ih]
    simp only [withRel, flatMap_cons, append_assoc]

theorem migrateQuery_eq_ok : migrateQuery db bindData = .ok out ↔
      Importable db bindData ∧ (statementsOf db bindData, exportsOf db bindData) = out := by
  have hrels : migrateQuery db bindData = .ok out ↔ (∀ relName ∈ bindData.relsToImport,
        ∀ t ∈ triplesOf db relName, Copyable db bindData.nodesToImport t) ∧
        bindData.relsToImport.foldl (withRel db)
          (bindData.nodesToImport.flatMap (getCreateNodeTableQuery db),
            bindData.nodesToImport.map .node) = out := by
    apply foldlM_eq_ok
    intro result relName _ result'
    unfold addRel
    rw [bind_eq_ok]
    simp only [getCreateRelTableQuery_eq_ok]
    constructor
    · rintro ⟨query, ⟨hgood, rfl⟩, hout⟩
      exact ⟨hgood, Except.ok.inj hout⟩
    · rintro ⟨hgood, rfl⟩
      exact ⟨_, ⟨hgood, rfl⟩, rfl⟩
  rw [hrels, foldl_withRel]
  apply and_congr_left
  intro _
  constructor
  · intro h t ht hrel
    exact h t.relName hrel t (mem_filter.mpr ⟨ht, decide_eq_true rfl⟩)
  · intro h relName hrel t ht
    obtain ⟨hin, heq⟩ := mem_filter.mp ht
    exact h t hin (of_decide_eq_true heq ▸ hrel)

def Statement.file : Statement → Option Bytes
  | .copyNode _ _ file => some file
  | .copyRel _ _ file _ _ => some file
  | _ => none

/-- The export made for this statement: of the same label, or of the same triple. -/
def Statement.ownExport : Statement → Option Export
  | .copyNode table _ _ => some (.node table)
  | .copyRel table _ _ source target => some (.rel ⟨source, table, target⟩)
  | _ => none

def Statement.reads (s : Statement) (files : Bytes → Option Export) : Option Export :=
  s.file.bind files

structure Loads (statements : List Statement) (exports : List Export) : Prop where
  apart : ∀ e ∈ exports, ∀ e' ∈ exports, e ≠ e' → csvPath e ≠ csvPath e'
  own : ∀ s ∈ statements, s.reads (filesAfter exports) = s.ownExport
  once : ∀ t ∈ db.triples, t.relName ∈ bindData.relsToImport →
    statements.countP (fun s => s.reads (filesAfter exports) = some (.rel t)) = 1

/-- A migration that fails returns no statements. -/
def LoadsOwn : Prop :=
  ∀ statements exports, migrateQuery db bindData = .ok (statements, exports) →
    Loads db bindData statements exports

/-- No joined name is a label, and no two triples join to one name. -/
def NamesApart : Prop :=
  ∀ t ∈ db.triples, t.relName ∈ bindData.relsToImport →
    Export.fileName (.rel t) ∉ bindData.nodesToImport ∧
      ∀ u ∈ db.triples, u.relName ∈ bindData.relsToImport →
        Export.fileName (.rel t) = Export.fileName (.rel u) → t = u

variable {db bindData}

theorem csvPath_inj {e e' : Export} : csvPath e = csvPath e' ↔ e.fileName = e'.fileName := by
  unfold csvPath
  rw [append_right_inj, append_left_inj]

theorem mem_triplesOf {t : Triple} {relName : Bytes} :
    t ∈ triplesOf db relName ↔ t ∈ db.triples ∧ t.relName = relName := by
  unfold triplesOf
  rw [mem_filter, decide_eq_true_iff]

theorem mem_exportsOf {e : Export} : e ∈ exportsOf db bindData ↔
    (∃ nodeName ∈ bindData.nodesToImport, .node nodeName = e) ∨
      ∃ t ∈ db.triples, t.relName ∈ bindData.relsToImport ∧ .rel t = e := by
  unfold exportsOf
  simp only [mem_append, mem_map, mem_flatMap, mem_triplesOf]
  apply or_congr_right
  constructor
  · rintro ⟨relName, hrel, t, ⟨ht, rfl⟩, rfl⟩
    exact ⟨t, ht, hrel, rfl⟩
  · rintro ⟨t, ht, hrel, rfl⟩
    exact ⟨t.relName, hrel, t, ⟨ht, rfl⟩, rfl⟩

theorem nodup_exportsOf : (exportsOf db bindData).Nodup := by
  have hnode : Function.Injective Export.node := fun a b h => Export.node.inj h
  have hrel : Function.Injective Export.rel := fun a b h => Export.rel.inj h
  apply (bindData.nodesDistinct.map hnode).append
  · apply nodup_flatMap.mpr
    constructor
    · intro relName _
      exact (db.distinct.filter _).map hrel
    · apply bindData.relsDistinct.imp
      intro a b hne e ha hb
      obtain ⟨t, ht, rfl⟩ := mem_map.mp ha
      obtain ⟨u, hu, heq⟩ := mem_map.mp hb
      obtain rfl := Export.rel.inj heq
      exact hne ((mem_triplesOf.mp ht).2.symm.trans (mem_triplesOf.mp hu).2)
  · intro e he he'
    obtain ⟨nodeName, _, rfl⟩ := mem_map.mp he
    obtain ⟨relName, _, hin⟩ := mem_flatMap.mp he'
    obtain ⟨t, _, heq⟩ := mem_map.mp hin
    cases heq

theorem namesApart_iff : NamesApart db bindData ↔
    ∀ e ∈ exportsOf db bindData, ∀ e' ∈ exportsOf db bindData, e ≠ e' → csvPath e ≠ csvPath e' := by
  simp only [ne_eq, csvPath_inj, mem_exportsOf]
  constructor
  · rintro h e (⟨a, ha, rfl⟩ | ⟨t, ht, hrel, rfl⟩) e' (⟨b, hb, rfl⟩ | ⟨u, hu, hrel', rfl⟩) hne heq
    · exact hne (congrArg Export.node heq)
    · exact (h u hu hrel').1 (heq ▸ ha)
    · exact (h t ht hrel).1 (heq ▸ hb)
    · exact hne (congrArg Export.rel ((h t ht hrel).2 u hu hrel' heq))
  · intro h t ht hrel
    have hin : ∀ u ∈ db.triples, u.relName ∈ bindData.relsToImport → _ :=
      fun u hu hrel' => h (.rel t) (.inr ⟨t, ht, hrel, rfl⟩) (.rel u) (.inr ⟨u, hu, hrel', rfl⟩)
    constructor
    · intro hlabel
      exact h (.rel t) (.inr ⟨t, ht, hrel, rfl⟩) (.node _) (.inl ⟨_, hlabel, rfl⟩)
        (fun heq => by cases heq) rfl
    · intro u hu hrel' heq
      by_contra hne
      exact hin u hu hrel' (fun h => hne (Export.rel.inj h)) heq

theorem filesAfter_own {exports : List Export} (hnodup : exports.Nodup)
    (h : ∀ e ∈ exports, ∀ e' ∈ exports, e ≠ e' → csvPath e ≠ csvPath e') {e : Export}
    (he : e ∈ exports) : filesAfter exports (csvPath e) = some e := by
  have hpaths : ((exports.map fun e => (csvPath e, some e)).map Prod.fst).Nodup := by
    rw [map_map]
    exact hnodup.map_on fun a ha b hb heq => by_contra fun hne => h a ha b hb hne heq
  exact writeAll_of_mem hpaths (mem_map_of_mem he) _

/-- The `COPY` statements stand for the exports, one each. -/
theorem filterMap_ownExport :
    (statementsOf db bindData).filterMap Statement.ownExport = exportsOf db bindData := by
  unfold statementsOf exportsOf
  rw [filterMap_append, filterMap_flatMap, filterMap_flatMap]
  congr 1
  · rw [map_eq_flatMap]
    rfl
  · apply flatMap_congr
    intro relName _
    unfold relQuery
    by_cases hnone : triplesOf db relName = []
    · rw [if_pos hnone, hnone]
      rfl
    · rw [if_neg hnone, filterMap_cons_none rfl, filterMap_map, ← filterMap_eq_map]
      rfl

theorem file_eq {s : Statement} (hs : s ∈ statementsOf db bindData) :
    s.file = s.ownExport.map csvPath := by
  rcases mem_append.mp hs with hnode | hrel
  · obtain ⟨nodeName, _, hin⟩ := mem_flatMap.mp hnode
    rcases mem_pair.mp hin with rfl | rfl
    · rfl
    · rfl
  · obtain ⟨relName, _, hin⟩ := mem_flatMap.mp hrel
    unfold relQuery at hin
    by_cases hnone : triplesOf db relName = []
    · rw [if_pos hnone] at hin
      exact absurd hin not_mem_nil
    · rw [if_neg hnone] at hin
      rcases mem_cons.mp hin with rfl | hcopy
      · rfl
      · obtain ⟨t, _, rfl⟩ := mem_map.mp hcopy
        rfl

theorem loads_of_apart (h : ∀ e ∈ exportsOf db bindData, ∀ e' ∈ exportsOf db bindData,
    e ≠ e' → csvPath e ≠ csvPath e') :
    Loads db bindData (statementsOf db bindData) (exportsOf db bindData) := by
  have hown : ∀ s ∈ statementsOf db bindData,
      s.reads (filesAfter (exportsOf db bindData)) = s.ownExport := by
    intro s hs
    unfold Statement.reads
    rw [file_eq hs]
    cases hexport : s.ownExport with
    | none => rfl
    | some e =>
      have he : e ∈ exportsOf db bindData :=
        filterMap_ownExport ▸ mem_filterMap.mpr ⟨s, hs, hexport⟩
      exact filesAfter_own nodup_exportsOf h he
  refine ⟨h, hown, fun t ht hrel => ?_⟩
  calc (statementsOf db bindData).countP
        (fun s => s.reads (filesAfter (exportsOf db bindData)) = some (.rel t))
      = (statementsOf db bindData).countP (fun s => s.ownExport = some (.rel t)) :=
        countP_congr fun s hs => by rw [hown s hs]
    _ = ((statementsOf db bindData).filterMap Statement.ownExport).count (.rel t) := by
        rw [count_filterMap]
        apply countP_congr
        intro s _
        rw [decide_eq_true_iff, beq_iff_eq]
    _ = 1 := by
        rw [filterMap_ownExport]
        exact count_eq_one_of_mem nodup_exportsOf (mem_exportsOf.mpr (.inr ⟨t, ht, hrel, rfl⟩))

variable (db bindData) in
/-- Every statement loads its own export exactly when the names of the exports stay apart. -/
theorem loadsOwn_iff :
    LoadsOwn db bindData ↔ (Importable db bindData → NamesApart db bindData) := by
  rw [namesApart_iff]
  constructor
  · intro h himport
    exact (h _ _ ((migrateQuery_eq_ok db bindData).mpr ⟨himport, rfl⟩)).apart
  · intro h statements exports hrun
    obtain ⟨himport, heq⟩ := (migrateQuery_eq_ok db bindData).mp hrun
    obtain ⟨rfl, rfl⟩ := Prod.mk.inj heq
    exact loads_of_apart (h himport)

def joinedDatabase : Database where
  triples := [⟨ascii "A", ascii "B_C", ascii "D"⟩, ⟨ascii "A_B", ascii "C", ascii "D"⟩]
  distinct := by decide
  nodeProperties := fun _ => []
  relProperties := fun _ => []
  relKeys := fun _ => []

def joinedImport : Neo4jMigrateBindData where
  nodesToImport := [ascii "A", ascii "A_B", ascii "D"]
  relsToImport := [ascii "B_C", ascii "C"]
  nodesDistinct := by decide
  relsDistinct := by decide

/-- `(A)-[B_C]->(D)` and `(A_B)-[C]->(D)` are both exported to `/tmp/A_B_C_D.csv`. -/
theorem loadsOwn_joined : ¬ LoadsOwn joinedDatabase joinedImport := by
  intro h
  have himport : Importable joinedDatabase joinedImport := by
    have hends : ∀ t ∈ joinedDatabase.triples,
        t.source ∈ joinedImport.nodesToImport ∧ t.target ∈ joinedImport.nodesToImport := by decide
    intro t ht _
    refine ⟨(hends t ht).1, (hends t ht).2, fun key hkey => ?_⟩
    exact absurd (mem_mergeSort.mp hkey) not_mem_nil
  have hloads := h _ _ ((migrateQuery_eq_ok _ _).mpr ⟨himport, rfl⟩)
  exact hloads.apart (.rel ⟨ascii "A", ascii "B_C", ascii "D"⟩) (by decide)
    (.rel ⟨ascii "A_B", ascii "C", ascii "D"⟩) (by decide) (by decide) (by decide)

end Ladybug.Neo4j
