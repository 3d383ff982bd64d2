import Ladybug.Sqlite.PropertyGraph
import Ladybug.Sqlite.ResolverCalls

/-!
# One sync tick (`function/sync_engine.h`, `function/sync_engine.cpp`)

A tick reads the WAL and database bytes, loads the persisted cursor, asks the resolver for batches,
executes their statements and writes the cursor last.  The engine behind the inner client context is
a parameter: a `Session` executes one statement at a time, each in a transaction of its own.  The
resolver memory lives as long as the process, keyed by the normalized file path.
-/

namespace Ladybug.Sqlite

open Bytes

/-- The engine during one tick, with what it stores in `G`.  A statement that fails leaves the store
as it was. -/
structure Session (G : Type) where
  exec : G → Statement → Except String G
  readCursor : G → String → Except String (Option WalClock)

/-- The same engine, with the statements it executed. -/
def Session.logged {G : Type} (session : Session G) : Session (G × List Statement) where
  exec := fun g s => (session.exec g.1 s).map fun g' => (g', g.2 ++ [s])
  readCursor := fun g lit => session.readCursor g.1 lit

/-- What succeeds has the documented meaning. -/
structure Session.Lawful {V : Type} [DecidableEq V] (session : Session (Graph V))
    (lits : Literals V) : Prop where
  exec : ∀ {g g' : Graph V} {s : Statement}, session.exec g s = .ok g' → g' = s.meaning lits g
  readCursor : ∀ {g : Graph V} {lit : String} {row : Option WalClock},
    session.readCursor g lit = .ok row → row = g.cursors (lits.denote lit)

structure SyncStats where
  tables : Nat := 0
  upserted : Nat := 0
  deleted : Nat := 0
  appliedFrames : Nat := 0
  status : String := ""
  deriving DecidableEq

section

variable {G : Type}

def execOk (session : Session G) (g : G) (stmt : Statement) : Except (String × G) (G) :=
  match session.exec g stmt with
  | .ok g' => .ok g'
  | .error msg =>
    let text := stmt.text.toList
    .error (msg ++ " [while executing: " ++ String.ofList (text.take 200) ++
      (if 200 < text.length then "..." else "") ++ "]", g)

-- the first statement that fails ends the loop
def execAll (session : Session G) (stmts : List Statement) (g : G) : Except (String × G) (G) :=
  stmts.foldlM (execOk session) g

def BoundTarget.opsOf (target : BoundTarget) (batch : OpBatch) : List RowOp :=
  batch.upserts.filter fun op => op.table = target.mapping.sqliteTable

def BoundTarget.deletesOf (target : BoundTarget) (batch : OpBatch) : List RowDelete :=
  batch.deletes.filter fun d => d.table = target.mapping.sqliteTable

-- edge deletes need the endpoints, so only deletes with a retained record are passed on
def BoundTarget.deleteOpsOf (target : BoundTarget) (batch : OpBatch) : List RowOp :=
  (target.deletesOf batch).filterMap fun d => d.record.map fun record => ⟨d.table, d.rowid, record⟩

variable [RenderDouble]

def applyNodes (session : Session G) (batch : OpBatch) (acc : G × SyncStats)
    (target : BoundTarget) : Except (String × G) (G × SyncStats) := do
  let ops := target.opsOf batch
  let dels := target.deletesOf batch
  let g ← execAll session (buildNodeUpserts target ops) acc.1
  let g ← execAll session (buildNodeDeletes target dels) g
  return (g, { acc.2 with
    upserted := acc.2.upserted + ops.length, deleted := acc.2.deleted + dels.length })

def applyEdges (session : Session G) (batch : OpBatch) (acc : G × SyncStats)
    (target : BoundTarget) : Except (String × G) (G × SyncStats) := do
  let ops := target.opsOf batch
  let dels := target.deleteOpsOf batch
  let g ← execAll session (buildEdgeUpserts target ops) acc.1
  let g ← execAll session (buildEdgeDeletes target dels) g
  return (g, { acc.2 with
    upserted := acc.2.upserted + ops.length, deleted := acc.2.deleted + dels.length })

def applyBatch (session : Session G) (nodes edges : List BoundTarget) (batch : OpBatch)
    (acc : G × SyncStats) : Except (String × G) (G × SyncStats) := do
  let acc ← nodes.foldlM (applyNodes session batch) acc
  edges.foldlM (applyEdges session batch) acc

end

structure SyncTable where
  name : String
  columns : List SyncColumn
  deriving DecidableEq

/-- The tables of the live connection, and the mappings after explicit registrations. -/
structure Catalogue where
  tables : List SyncTable
  resolverSchemas : List TableSchema
  mappings : List TableMapping
  deriving DecidableEq

structure SyncInput where
  /-- Empty when there is no WAL file. -/
  walBytes : Bytes
  dbBytes : Bytes
  /-- The message of an attached or unreadable file, which ends the tick at once. -/
  refused : Option String := none
  catalogue : Except String Catalogue

def escapeCypherChar (c : Char) : String := if c = quoteChar then "''" else c.toString

def escapeCypherString (s : String) : String := String.join (s.toList.map escapeCypherChar)

def mapTableDdl : Statement :=
  .ddl ("CREATE NODE TABLE IF NOT EXISTS __sqlite_cdc_map(map_key STRING, sync_name STRING, " ++
    "sqlite_table STRING, kind STRING, label STRING, id_column STRING, from_col STRING, " ++
    "to_col STRING, PRIMARY KEY(map_key))")

-- edge tables retain full records so deletes carry endpoints
def markRetained (mappings : List TableMapping) (schema : TableSchema) : TableSchema :=
  if ∃ m ∈ mappings, m.kind = .edge ∧ m.sqliteTable = schema.name then
    { schema with retainRecords := true }
  else schema

def Catalogue.tableSchemas (c : Catalogue) : List TableSchema :=
  c.mappings.flatMap fun m =>
    (c.resolverSchemas.map (markRetained c.mappings)).filter fun s => s.name = m.sqliteTable

def Catalogue.bind (c : Catalogue) (kind : MappingKind) : List BoundTarget :=
  (c.mappings.filter fun m => m.kind = kind).filterMap fun m =>
    (c.tables.find? fun t => t.name = m.sqliteTable).map fun t => bindTarget m t.columns

/-- What the tick holds when it turns to the resolver. -/
structure Prepared (V : Type) where
  graph : Graph V
  clock : WalClock
  nodes : List BoundTarget
  edges : List BoundTarget
  schemas : List TableSchema
  tables : Nat

def prepare {V : Type} (session : Session (Graph V)) (path : String) (input : SyncInput) (g : Graph V) :
    Except (String × Graph V) (Prepared V) :=
  match input.refused with
  | some msg => .error (msg, g)
  | none =>
    if input.dbBytes.length < 100 then
      .error ("SQLite file " ++ quoted path ++ " is missing or truncated", g)
    else do
      let g ← execAll session [mapTableDdl, buildCursorDdl] g
      match session.readCursor g (quoted (escapeCypherString path)) with
      | .error msg => .error (msg, g)
      | .ok row =>
        match input.catalogue with
        | .error msg => .error (msg, g)
        | .ok c =>
          let nodes := c.bind .node
          let edges := c.bind .edge
          let g ← execAll session (nodes.map buildNodeDdl ++ edges.map buildRelDdl) g
          return {
            graph := g
            clock := row.getD {}
            nodes
            edges
            schemas := c.tableSchemas
            tables := c.mappings.length }

/-- The newest frame below `limit` wins, then the database file.  No page refers to page 0. -/
def overlay (frames : List WalFrame) (db : Bytes) (pageSize limit : Nat) : PageFetcher := fun p =>
  match (frames.take limit).reverse.find? fun f => f.pageNo = p with
  | some f => some f.image
  | none =>
    let off := (p.toNat - 1) * pageSize
    if p ≠ 0 ∧ off + pageSize ≤ db.length then some ((db.drop off).take pageSize) else none

/-- A resolver call, the overlay limit it reads under, and the clock once its batch is applied. -/
structure SyncStep where
  call : ResolverCall
  limit : Nat
  appliedFrames : Nat
  deriving DecidableEq

def page1Dirty (clock : WalClock) (frames : List WalFrame) : Bool :=
  (frames.drop clock.appliedFrames).any fun f => f.pageNo = 1

def dirtyPages (frames : List WalFrame) (first last : Nat) : List UInt32 :=
  ((frames.take (last + 1)).drop first).map WalFrame.pageNo

def incrementalSteps (frames : List WalFrame) : List CommitBatch → Nat → List SyncStep
  | [], _ => []
  | c :: cs, applied =>
    if c.lastFrame < applied then incrementalSteps frames cs applied
    else
      { call := .applyFrames (dirtyPages frames applied c.lastFrame)
        limit := c.lastFrame + 1
        appliedFrames := c.lastFrame + 1 } :: incrementalSteps frames cs (c.lastFrame + 1)

inductive SyncBranch where
  | bootstrapped
  | nothing
  | restarted
  | schemaChange
  | incremental
  deriving DecidableEq

def SyncBranch.status : SyncBranch → String
  | .bootstrapped => "Bootstrapped from database file (no WAL)"
  | .nothing => "No WAL file; nothing to apply"
  | .restarted => "Reconciled after WAL restart"
  | .schemaChange => "Reconciled around schema change"
  | .incremental => "Applied incrementally"

def syncBranch (clock : WalClock) : Option WalLog → SyncBranch
  | none => if clock.appliedFrames = 0 ∧ clock.salt1 = 0 then .bootstrapped else .nothing
  | some log =>
    if walRestarted clock log.header ∨ clock.appliedFrames > log.frames.length then .restarted
    else if page1Dirty clock log.frames then .schemaChange
    else .incremental

def framesOf : Option WalLog → List WalFrame
  | none => []
  | some log => log.frames

def syncSteps (clock : WalClock) (log : Option WalLog) : List SyncStep :=
  match syncBranch clock log, log with
  | .bootstrapped, _ => [⟨.bootstrap, 0, clock.appliedFrames⟩]
  | .restarted, some log => [⟨.reconcile, log.frames.length, log.frames.length⟩]
  | .schemaChange, some log => [⟨.reconcile, log.frames.length, log.frames.length⟩]
  | .incremental, some log => incrementalSteps log.frames log.commits clock.appliedFrames
  | _, _ => []

-- a resolver error is returned; the other stops are exceptions or crashes of the process
def stopMessage : Stop → String
  | .error msg => msg
  | .outOfRange => "out of range"
  | .lengthError => "length error"
  | .diverged => "diverged"

section

variable {V : Type} [RenderDouble]

structure TickState (V : Type) where
  graph : Graph V
  memory : OpResolver
  clock : WalClock
  stats : SyncStats

structure TickFailure (V : Type) where
  error : String
  graph : Graph V
  memory : OpResolver

/-- One resolver call and the execution of its batch.  The memory moves on before the batch is
executed. -/
def runStep (session : Session (Graph V)) (p : Prepared V) (fetch : Nat → PageFetcher)
    (pageSize : Nat) (t : TickState V) (step : SyncStep) : Except (TickFailure V) (TickState V) :=
  match step.call.run t.memory p.schemas (fetch step.limit) pageSize with
  | (.error stop, memory) => .error ⟨stopMessage stop, t.graph, memory⟩
  | (.ok batch, memory) =>
    match applyBatch session p.nodes p.edges batch (t.graph, t.stats) with
    | .error (msg, g) => .error ⟨msg, g, memory⟩
    | .ok (g, stats) => .ok {
        graph := g
        memory
        clock := { t.clock with appliedFrames := step.appliedFrames }
        stats }

/-- The process and its target: the graph, and the resolver memory of every synced path. -/
structure World (V : Type) where
  graph : Graph V
  resolvers : String → OpResolver

def World.store (w : World V) (path : String) (g : Graph V) (memory : OpResolver) : World V where
  graph := g
  resolvers := Function.update w.resolvers path memory

def firstSync (clock : WalClock) : Bool :=
  clock.salt1 = 0 ∧ clock.salt2 = 0 ∧ clock.appliedFrames = 0

def resolverFor (w : World V) (path : String) (reset : Bool) : OpResolver :=
  if reset then {} else w.resolvers path

def readWal (walBytes : Bytes) : Except Stop (Option WalLog) :=
  if walBytes.isEmpty then .ok none else some <$> parseWal walBytes

-- from the WAL header when there is one, else from the database header
def tickPageSize (db : Bytes) : Option WalLog → Nat
  | some log => log.header.pageSize.toNat
  | none => (db.getD 16 0).toNat * 256 + (db.getD 17 0).toNat

/-- The cursor a finished tick writes. -/
def finalClock (clock : WalClock) : Option WalLog → WalClock
  | none => clock
  | some log => { clock with salt1 := log.header.salt1, salt2 := log.header.salt2 }

def runSteps (session : Session (Graph V)) (input : SyncInput) (p : Prepared V) (log : Option WalLog)
    (memory : OpResolver) : Except (TickFailure V) (TickState V) :=
  let size := tickPageSize input.dbBytes log
  let fetch := overlay (framesOf log) input.dbBytes size
  (syncSteps p.clock log).foldlM (runStep session p fetch size)
    ⟨p.graph, memory, p.clock, { tables := p.tables }⟩

def sync (session : Session (Graph V)) (path : String) (input : SyncInput) (w : World V) :
    Except String SyncStats × World V :=
  match prepare session path input w.graph with
  | .error (msg, g) => (.error msg, { w with graph := g })
  | .ok p =>
    let memory := resolverFor w path (firstSync p.clock)
    match readWal input.walBytes with
    | .error stop => (.error (stopMessage stop), w.store path p.graph memory)
    | .ok log =>
      match runSteps session input p log memory with
      | .error failed => (.error failed.error, w.store path failed.graph failed.memory)
      | .ok t =>
        let clock := finalClock t.clock log
        let cursor := buildCursorUpsert path clock.salt1 clock.salt2 clock.appliedFrames
        match execOk session t.graph cursor with
        | .error (msg, g) => (.error msg, w.store path g t.memory)
        | .ok g =>
          (.ok { t.stats with
              appliedFrames := clock.appliedFrames
              status := (syncBranch p.clock log).status },
            w.store path g t.memory)

end

section

variable {V : Type} [DecidableEq V] {lits : Literals V} {session : Session (Graph V)} {g g' : Graph V}
  {batch : OpBatch} {acc acc' : Graph V × SyncStats}

theorem execOk_ok (hlaw : session.Lawful lits) {stmt : Statement}
    (h : execOk session g stmt = .ok g') : g' = stmt.meaning lits g := by
  unfold execOk at h
  cases hexec : session.exec g stmt with
  | error msg => rw [hexec] at h; cases h
  | ok g₁ =>
    rw [hexec] at h
    cases h
    exact hlaw.exec hexec

theorem execAll_ok (hlaw : session.Lawful lits) {stmts : List Statement}
    (h : execAll session stmts g = .ok g') : g' = runAll lits stmts g := by
  unfold execAll at h
  induction stmts generalizing g with
  | nil =>
    cases h
    rfl
  | cons stmt stmts ih =>
    rw [List.foldlM_cons] at h
    obtain ⟨g₁, hstep, h⟩ := bind_eq_ok.mp h
    have hrest := ih h
    rw [execOk_ok hlaw hstep] at hrest
    exact hrest

/-- The session in which every statement succeeds. -/
def faultlessSession (lits : Literals V) : Session (Graph V) where
  exec := fun g s => .ok (s.meaning lits g)
  readCursor := fun g lit => .ok (g.cursors (lits.denote lit))

theorem faultlessSession_lawful (lits : Literals V) : (faultlessSession lits).Lawful lits where
  exec := fun h => by cases h; rfl
  readCursor := fun h => by cases h; rfl

theorem execAll_faultless (lits : Literals V) (stmts : List Statement) (g : Graph V) :
    execAll (faultlessSession lits) stmts g = .ok (runAll lits stmts g) := by
  induction stmts generalizing g with
  | nil => rfl
  | cons stmt stmts ih =>
    exact ih (stmt.meaning lits g)

def Statement.Plain : Statement → Prop
  | .cursorUpsert .. => False
  | _ => True

theorem meaning_cursors {s : Statement} (h : s.Plain) : (s.meaning lits g).cursors = g.cursors := by
  cases s with
  | ddl => rfl
  | cursorUpsert => exact h.elim
  | slotClear | edgeDelete =>
    apply foldl_keeps
    exact fun _ _ => rfl
  | _ =>
    apply foldl_keeps
    intro g row
    simp only [mergeRow, deleteRow, createRow, Graph.addEdge]
    split_ifs <;> rfl

theorem batched_plain {α β : Type} {b item} {build : List β → List Statement}
    {ops : List α} (h : ∀ items, ∀ s ∈ build items, s.Plain) :
    ∀ s ∈ batched b item build ops, s.Plain := by
  intro s hs
  obtain ⟨chunk, -, hs⟩ := List.mem_flatMap.mp hs
  exact h _ s (List.mem_ite_nil_left.mp hs).2

theorem execAll_cursors (hlaw : session.Lawful lits) {stmts : List Statement} {cur}
    (h : ∀ s ∈ stmts, s.Plain) (hg : g.cursors = cur) :
    Ends (·.2.cursors = cur) (·.cursors = cur) (execAll session stmts g) := by
  refine foldlM_ends (fun s hs g hg => ?_) hg
  unfold execOk
  split
  · next hexec => exact hlaw.exec hexec ▸ (meaning_cursors (h s hs)).trans hg
  · exact hg

theorem prepare_cursors (hlaw : session.Lawful lits) {path input} :
    Ends (·.2.cursors = g.cursors) (·.graph.cursors = g.cursors) (prepare session path input g) := by
  unfold prepare
  split
  · rfl
  split
  · rfl
  refine (execAll_cursors hlaw (by simp [mapTableDdl, buildCursorDdl, Statement.Plain]) rfl).bind
    fun g' h => ?_
  split
  · exact h
  split
  · exact h
  refine (execAll_cursors hlaw ?_ h).bind fun g h => h
  simp [buildNodeDdl, buildRelDdl, Statement.Plain, or_imp, forall_and]

variable [RenderDouble]

def nodeStatements (target : BoundTarget) (batch : OpBatch) : List Statement :=
  buildNodeUpserts target (target.opsOf batch) ++ buildNodeDeletes target (target.deletesOf batch)

def edgeStatements (target : BoundTarget) (batch : OpBatch) : List Statement :=
  buildEdgeUpserts target (target.opsOf batch) ++ buildEdgeDeletes target (target.deleteOpsOf batch)

theorem applyNodes_ok (hlaw : session.Lawful lits) {target : BoundTarget}
    (h : applyNodes session batch acc target = .ok acc') :
    acc'.1 = runAll lits (nodeStatements target batch) acc.1 := by
  obtain ⟨g₁, hups, h⟩ := bind_eq_ok.mp h
  obtain ⟨g₂, hdels, h⟩ := bind_eq_ok.mp h
  cases h
  unfold nodeStatements
  rw [runAll_append, ← execAll_ok hlaw hups, ← execAll_ok hlaw hdels]

theorem applyEdges_ok (hlaw : session.Lawful lits) {target : BoundTarget}
    (h : applyEdges session batch acc target = .ok acc') :
    acc'.1 = runAll lits (edgeStatements target batch) acc.1 := by
  obtain ⟨g₁, hups, h⟩ := bind_eq_ok.mp h
  obtain ⟨g₂, hdels, h⟩ := bind_eq_ok.mp h
  cases h
  unfold edgeStatements
  rw [runAll_append, ← execAll_ok hlaw hups, ← execAll_ok hlaw hdels]

theorem applyBatch_cursors (hlaw : session.Lawful lits) (p : Prepared V) {cur} (h : acc.1.cursors = cur) :
    Ends (·.2.cursors = cur) (·.1.cursors = cur) (applyBatch session p.nodes p.edges batch acc) := by
  refine (foldlM_ends (Q := (·.1.cursors = cur)) (fun target _ acc h => ?_) h).bind fun acc h =>
    foldlM_ends (fun target _ acc h => ?_) h
  all_goals
    refine (execAll_cursors hlaw (batched_plain ?_) h).bind fun g h =>
      (execAll_cursors hlaw (batched_plain ?_) h).bind fun g h => h
    all_goals simp [Statement.Plain]

/-- A tick that fails, at whatever statement, leaves all cursors; one that succeeds writes its own. -/
theorem sync_cursors (hlaw : session.Lawful lits) (path : String) (input : SyncInput) (w : World V) :
    Ends (fun _ => (sync session path input w).2.graph.cursors = w.graph.cursors)
      (fun stats => ∃ salt1 salt2, (sync session path input w).2.graph.cursors =
        Function.update w.graph.cursors (lits.denote (quoted (escapeString path)))
          (some ⟨salt1, salt2, stats.appliedFrames⟩)) (sync session path input w).1 := by
  have hp := @prepare_cursors _ _ _ _ w.graph hlaw path input
  unfold sync
  split
  · next heq =>
    rw [heq] at hp
    exact hp
  next p heq =>
  rw [heq] at hp
  dsimp only
  split
  · exact hp
  next log _ =>
  have ht : Ends (·.graph.cursors = w.graph.cursors) (·.graph.cursors = w.graph.cursors)
      (runSteps session input p log (resolverFor w path (firstSync p.clock))) := by
    refine foldlM_ends (fun step _ t h => ?_) hp
    unfold runStep
    split
    · exact h
    next batch memory _ =>
    have hbatch := @applyBatch_cursors _ _ _ _ batch (t.graph, t.stats) _ hlaw p _ h
    split
    all_goals
      next heq =>
        rw [heq] at hbatch
        exact hbatch
  split
  · next heq =>
    rw [heq] at ht
    exact ht
  next t heq =>
  rw [heq] at ht
  unfold execOk
  cases hexec : session.exec t.graph _ with
  | error msg => exact ht
  | ok g =>
    have hg := congrArg Graph.cursors (hlaw.exec hexec)
    exact ⟨_, _, hg.trans (congrArg (Function.update · _ _) ht)⟩

end

end Ladybug.Sqlite
