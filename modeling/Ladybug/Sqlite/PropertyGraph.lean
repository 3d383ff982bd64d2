import Mathlib
import Ladybug.Base.Runs
import Ladybug.Sqlite.SyncCypher

/-!
# The target graph, and what the statements mean on it

The engine that executes Cypher is not part of this repository.  The target is modelled by what the
statements can observe of it: nodes keyed by label and primary key, a multiset of edges, and the
cursor rows.  `Statement.meaning` is the documented meaning of each statement shape; an `UNWIND`
takes its rows one after the other, and a `MATCH` on null matches nothing.
-/

namespace Ladybug.Sqlite

open List Option Function

/-- What literals denote.  Rowids denote distinct values, none of them null. -/
structure Literals (V : Type) where
  null : V
  denote : String → V
  rowid_ne_null : ∀ r : Int64, denote (toString r) ≠ null
  rowid_inj : ∀ r s : Int64, denote (toString r) = denote (toString s) → r = s

/-- The value of `row.name`; a field the struct lacks is null. -/
def Literals.field {V : Type} (lits : Literals V) (row : RowLit) (name : String) : V :=
  match row.lookup name with
  | some lit => lits.denote lit
  | none => lits.null

theorem field_cons {V : Type} (lits : Literals V) (n lit : String) (row : RowLit) (q : String) :
    lits.field ((n, lit) :: row) q = if q = n then lits.denote lit else lits.field row q := by
  unfold Literals.field
  rw [lookup_cons]
  by_cases hq : q = n
  · rw [if_pos hq, beq_iff_eq.mpr hq]
  · rw [if_neg hq, beq_eq_false_iff_ne.mpr hq]

structure Edge (V : Type) where
  label : String
  srcLabel : String
  src : V
  dstLabel : String
  dst : V
  props : String → V

/-- The endpoints of every edge are nodes. -/
@[ext]
structure Graph (V : Type) where
  nodes : String → V → Option (String → V)
  edges : Multiset (Edge V)
  cursors : V → Option WalClock
  attached : ∀ e ∈ edges, nodes e.srcLabel e.src ≠ none ∧ nodes e.dstLabel e.dst ≠ none

section

variable {V : Type} [DecidableEq V]

def Edge.Touches (e : Edge V) (label : String) (k : V) : Prop :=
  (e.srcLabel = label ∧ e.src = k) ∨ (e.dstLabel = label ∧ e.dst = k)

instance (e : Edge V) (label : String) (k : V) : Decidable (e.Touches label k) :=
  inferInstanceAs (Decidable (_ ∨ _))

namespace Graph

def setNode (g : Graph V) (label : String) (k : V) (props : String → V) : Graph V where
  nodes := fun l x => if l = label ∧ x = k then some props else g.nodes l x
  edges := g.edges
  cursors := g.cursors
  attached := by
    intro e he
    obtain ⟨hsrc, hdst⟩ := g.attached e he
    constructor
    · split
      · exact some_ne_none props
      · exact hsrc
    · split
      · exact some_ne_none props
      · exact hdst

def detachNode (g : Graph V) (label : String) (k : V) : Graph V where
  nodes := fun l x => if l = label ∧ x = k then none else g.nodes l x
  edges := g.edges.filter fun e => ¬ e.Touches label k
  cursors := g.cursors
  attached := by
    intro e he
    obtain ⟨hmem, hfree⟩ := Multiset.mem_filter.mp he
    obtain ⟨hsrc, hdst⟩ := g.attached e hmem
    rw [if_neg fun h => hfree (.inl h), if_neg fun h => hfree (.inr h)]
    exact ⟨hsrc, hdst⟩

def dropEdges (g : Graph V) (p : Edge V → Prop) [DecidablePred p] : Graph V where
  nodes := g.nodes
  edges := g.edges.filter fun e => ¬ p e
  cursors := g.cursors
  attached := fun e he => g.attached e (Multiset.mem_filter.mp he).1

/-- The graph with one more edge, where both endpoints exist. -/
def addEdge (g : Graph V) (e : Edge V) : Graph V :=
  if h : g.nodes e.srcLabel e.src ≠ none ∧ g.nodes e.dstLabel e.dst ≠ none then
    { g with
      edges := e ::ₘ g.edges
      attached := by
        intro e' he'
        rcases Multiset.mem_cons.mp he' with rfl | hmem
        · exact h
        · exact g.attached e' hmem }
  else g

def setCursor (g : Graph V) (k : V) (clock : WalClock) : Graph V :=
  { g with cursors := update g.cursors k (some clock) }

end Graph

variable (lits : Literals V)

-- the properties outside `props` stay as they are, and are null on a new node
def mergeRow (label idKey : String) (props : List String) (g : Graph V) (row : RowLit) : Graph V :=
  let k := lits.field row idKey
  if k = lits.null then g
  else g.setNode label k fun q =>
    if q ∈ props then lits.field row q
    else match g.nodes label k with
      | some old => old q
      | none => lits.null

def deleteRow (label : String) (g : Graph V) (lit : String) : Graph V :=
  if lits.denote lit = lits.null then g else g.detachNode label (lits.denote lit)

def InSlot (label : String) (row : RowLit) (e : Edge V) : Prop :=
  e.label = label ∧ e.props EDGE_RID_PROP = lits.field row EDGE_RID_PROP ∧
    lits.field row EDGE_RID_PROP ≠ lits.null

instance (label : String) (row : RowLit) : DecidablePred (InSlot lits label row) :=
  fun _ => inferInstanceAs (Decidable (_ ∧ _))

/-- `e` joins the two nodes that `row` names. -/
def Joins (rel : RelPattern) (row : RowLit) (e : Edge V) : Prop :=
  e.label = rel.label ∧ (e.srcLabel = rel.srcLabel ∧ e.src = lits.field row "src" ∧
      lits.field row "src" ≠ lits.null) ∧
    (e.dstLabel = rel.dstLabel ∧ e.dst = lits.field row "dst" ∧ lits.field row "dst" ≠ lits.null)

instance (rel : RelPattern) (row : RowLit) : DecidablePred (Joins lits rel row) :=
  fun _ => inferInstanceAs (Decidable (_ ∧ _))

def rowEdge (rel : RelPattern) (props : List String) (row : RowLit) : Edge V where
  label := rel.label
  srcLabel := rel.srcLabel
  src := lits.field row "src"
  dstLabel := rel.dstLabel
  dst := lits.field row "dst"
  props := fun q => if q ∈ props ++ [EDGE_RID_PROP] then lits.field row q else lits.null

def createRow (rel : RelPattern) (props : List String) (g : Graph V) (row : RowLit) : Graph V :=
  if lits.field row "src" = lits.null ∨ lits.field row "dst" = lits.null then g
  else g.addEdge (rowEdge lits rel props row)

def Statement.meaning (g : Graph V) : Statement → Graph V
  | .ddl _ => g
  | .nodeUpsert label idKey props rows => rows.foldl (mergeRow lits label idKey props) g
  | .nodeDelete label _ ids => ids.foldl (deleteRow lits label) g
  | .slotClear label rows => rows.foldl (fun g row => g.dropEdges (InSlot lits label row)) g
  | .edgeCreate rel props rows => rows.foldl (createRow lits rel props) g
  | .edgeDelete rel rows => rows.foldl (fun g row => g.dropEdges (Joins lits rel row)) g
  | .cursorUpsert syncName salt1 salt2 appliedFrames =>
    g.setCursor (lits.denote (quoted (escapeString syncName))) ⟨salt1, salt2, appliedFrames⟩

def runAll (stmts : List Statement) (g : Graph V) : Graph V :=
  stmts.foldl (Statement.meaning lits) g

theorem runAll_append (s t : List Statement) (g : Graph V) :
    runAll lits (s ++ t) g = runAll lits t (runAll lits s g) := foldl_append

end

theorem flatten_chunks {α : Type} {n : Nat} (hn : 0 < n) (xs : List α) :
    (chunks n xs).flatten = xs := by
  have htake : ∀ k, ((List.range k).map fun i => (xs.drop (i * n)).take n).flatten =
      xs.take (k * n) := by
    intro k
    induction k with
    | zero => simp
    | succ k ih =>
      rw [range_succ, map_append, flatten_append, ih, map_singleton,
        flatten_singleton, Nat.succ_mul, ← take_add]
  unfold chunks
  rw [htake]
  apply take_of_length_le
  have hdiv := Nat.lt_div_mul_add hn (a := xs.length + n - 1)
  omega

section

variable {V : Type} [DecidableEq V] (lits : Literals V) {α β : Type}

theorem runAll_batched (b : Nat) (item : α → Option β) {build : List β → List Statement}
    {step : Graph V → β → Graph V}
    (hstep : ∀ items g, runAll lits (build items) g = items.foldl step g) (ops : List α)
    (g : Graph V) :
    runAll lits (batched b item build ops) g = (ops.filterMap item).foldl step g := by
  have hchunk : ∀ (cs : List (List α)) (g : Graph V), runAll lits (cs.flatMap fun chunk =>
        if (chunk.filterMap item).isEmpty then [] else build (chunk.filterMap item)) g =
      (cs.flatten.filterMap item).foldl step g := by
    intro cs
    induction cs with
    | nil => exact fun g => rfl
    | cons c cs ih =>
      intro g
      rw [flatMap_cons, runAll_append, ih, flatten_cons, filterMap_append, foldl_append]
      congr 1
      split
      next hempty => rw [List.isEmpty_iff.mp hempty]; rfl
      · exact hstep _ g
  have hpos : 0 < if b = 0 then 1 else b := by
    split
    · exact Nat.one_pos
    · omega
  unfold batched
  rw [hchunk, flatten_chunks hpos]

end

section

variable {V : Type} [DecidableEq V] (lits : Literals V) (g : Graph V)

theorem setNode_nodes (label : String) (k : V) (props : String → V) :
    (g.setNode label k props).nodes label = update (g.nodes label) k (some props) := by
  funext x
  rw [update_apply]
  unfold Graph.setNode
  by_cases hx : x = k
  · simp only [hx, and_self, if_true]
  · simp only [hx, and_false, if_false]

theorem detachNode_nodes (label : String) (k : V) :
    (g.detachNode label k).nodes label = update (g.nodes label) k none := by
  funext x
  rw [update_apply]
  unfold Graph.detachNode
  by_cases hx : x = k
  · simp only [hx, and_self, if_true]
  · simp only [hx, and_false, if_false]

omit [DecidableEq V] in
theorem addEdge_nodes (e : Edge V) : (g.addEdge e).nodes = g.nodes := by
  unfold Graph.addEdge
  split <;> rfl

omit [DecidableEq V] in
theorem addEdge_edges (e : Edge V) : (g.addEdge e).edges =
    if g.nodes e.srcLabel e.src ≠ none ∧ g.nodes e.dstLabel e.dst ≠ none then e ::ₘ g.edges
    else g.edges := by
  unfold Graph.addEdge
  split <;> rfl

theorem createRow_nodes (rel : RelPattern) (props : List String) (g : Graph V) (row : RowLit) :
    (createRow lits rel props g row).nodes = g.nodes := by
  unfold createRow
  split
  · rfl
  · exact addEdge_nodes g _

omit [DecidableEq V] in
theorem foldl_dropEdges_edges {β : Type} (p : β → Edge V → Prop) [∀ b, DecidablePred (p b)]
    (rows : List β) (g : Graph V) :
    (rows.foldl (fun g row => g.dropEdges (p row)) g).edges =
      g.edges.filter fun e => ∀ row ∈ rows, ¬ p row e := by
  induction rows generalizing g with
  | nil => simp
  | cons row rows ih =>
    rw [foldl_cons, ih]
    unfold Graph.dropEdges
    rw [Multiset.filter_filter]
    congr 1
    funext e
    simp [and_comm]

omit [DecidableEq V] in
theorem foldl_dropEdges_nodes {β : Type} (p : β → Edge V → Prop) [∀ b, DecidablePred (p b)]
    (rows : List β) (g : Graph V) :
    (rows.foldl (fun g row => g.dropEdges (p row)) g).nodes = g.nodes := by
  apply foldl_keeps
  exact fun g row => rfl

def createdEdge (nodes : String → V → Option (String → V)) (rel : RelPattern)
    (props : List String) (row : RowLit) : Option (Edge V) :=
  if lits.field row "src" = lits.null ∨ lits.field row "dst" = lits.null then none
  else if nodes rel.srcLabel (lits.field row "src") ≠ none ∧
      nodes rel.dstLabel (lits.field row "dst") ≠ none then
    some (rowEdge lits rel props row)
  else none

section

variable (rel : RelPattern) (props : List String)

include rel props

theorem createRow_edges (g : Graph V) (row : RowLit) : (createRow lits rel props g row).edges =
      g.edges + ((createdEdge lits g.nodes rel props row).toList : Multiset (Edge V)) := by
  unfold createRow createdEdge
  split
  · simp
  rw [addEdge_edges]
  split
  next h =>
    rw [if_pos (by exact h), toList_some, Multiset.coe_singleton, ← Multiset.singleton_add,
      add_comm]
  next h => rw [if_neg (by exact h), toList_none, Multiset.coe_nil, add_zero]

theorem foldl_createRow_edges (rows : List RowLit) (g : Graph V) :
    (rows.foldl (createRow lits rel props) g).edges =
      g.edges + (rows.filterMap (createdEdge lits g.nodes rel props) : Multiset (Edge V)) := by
  induction rows generalizing g with
  | nil => simp
  | cons row rows ih =>
    rw [foldl_cons, ih, createRow_nodes, createRow_edges, add_assoc, filterMap_cons]
    congr 1
    cases createdEdge lits g.nodes rel props row with
    | none => simp
    | some e => exact (Multiset.coe_add [e] _)

theorem foldl_createRow_nodes (rows : List RowLit) (g : Graph V) :
    (rows.foldl (createRow lits rel props) g).nodes = g.nodes :=
  foldl_keeps Graph.nodes (createRow_nodes lits rel props) rows g

end

end

/-! ## 4. Plain literals

Values for closed statements: a literal denotes its own text, and `null` denotes null. -/

theorem rowid_text_ne_null (r : Int64) : toString r ≠ "null" := by
  intro h
  have hint := Int.isInt_repr r.toInt
  rw [show r.toInt.repr = "null" from h, String.isInt_iff] at hint
  rcases hint with hnat | ⟨t, ht, -⟩
  · have hdigit := (String.isNat_iff.mp hnat).2.1 'n' (by decide)
    simp at hdigit
  · have hchars := congrArg String.toList ht
    simp at hchars

def plainLiterals : Literals (Option String) where
  null := none
  denote := fun lit ↦ if lit = "null" then none else some lit
  rowid_ne_null := fun r => by
    rw [if_neg (rowid_text_ne_null r)]
    exact some_ne_none _
  rowid_inj := fun r s h => by
    rw [if_neg (rowid_text_ne_null r), if_neg (rowid_text_ne_null s)] at h
    have htext : r.toInt.repr = s.toInt.repr := some.inj h
    exact Int64.toInt_inj.mp (Int.repr_injective htext)

end Ladybug.Sqlite
