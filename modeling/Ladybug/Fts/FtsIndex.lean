import Mathlib.Data.List.Dedup

/-!
# The full text search index (`fts/src/index/fts_index.cpp`)

Three internal tables describe the documents of a node table: `docs` holds the length of every
document, `terms` the number of documents that contain a term, and `appears_in` an edge from each term
to each of its documents.  The tables are keyed maps; a row keeps its offset until it is deleted, and
offsets are not used again.
-/

namespace Ladybug.Fts

structure KeyedTable (K : Type) where
  row : K → Option (Nat × Nat)
  numTotalRows : Nat

namespace KeyedTable

variable {K : Type} [DecidableEq K]

def insert (t : KeyedTable K) (k : K) (v : Nat) : KeyedTable K where
  row := Function.update t.row k (some (t.numTotalRows, v))
  numTotalRows := t.numTotalRows + 1

def update (t : KeyedTable K) (k : K) (offset v : Nat) : KeyedTable K :=
  { t with row := Function.update t.row k (some (offset, v)) }

def delete (t : KeyedTable K) (k : K) : KeyedTable K :=
  { t with row := Function.update t.row k none }

end KeyedTable

structure Appears where
  term : Nat
  doc : Nat
  tf : Nat
  deriving DecidableEq

inductive FtsError (T : Type) where
  | documentMissing (offset : Nat)
  | termMissing (term : T)
  | duplicatedPrimaryKey (offset : Nat)
  deriving DecidableEq

def FtsError.message (indexName : String) : FtsError String → String
  | .documentMissing offset =>
    s!"FTS index '{indexName}' is inconsistent: document for node offset {offset} is missing "
      ++ "during delete. Drop and recreate the FTS index."
  | .termMissing term =>
    s!"FTS index '{indexName}' is inconsistent: term '{term}' is missing during delete. Drop and "
      ++ "recreate the FTS index."
  | .duplicatedPrimaryKey offset => s!"Found duplicated primary key value {offset}."

/-- `numIndexedNodes` is the high-water mark: rows below it are in the index. -/
structure FtsIndex (T : Type) where
  docs : KeyedTable Nat
  terms : KeyedTable T
  appearsIn : List Appears
  numIndexedNodes : Nat

structure TermOrder (T : Type) [DecidableEq T] where
  order : List T → List T
  perm : ∀ ts, (order ts).Perm ts.dedup

section

variable {T : Type} [DecidableEq T]

def insertToDocTable (x : FtsIndex T) (offset docLen : Nat) :
    Except (FtsError T) (Nat × FtsIndex T) :=
  match x.docs.row offset with
  | some _ => .error (.duplicatedPrimaryKey offset)
  | none => .ok (x.docs.numTotalRows, { x with docs := x.docs.insert offset docLen })

/-- The offset of the term after its `df` has been increased. -/
def insertTerm (terms : KeyedTable T) (t : T) : Nat × KeyedTable T :=
  match terms.row t with
  | some (offset, df) => (offset, terms.update t offset (df + 1))
  | none => (terms.numTotalRows, terms.insert t 1)

/-- The second component collects the offsets and frequencies of the terms. -/
def insertToTermsTable (tf : T → Nat) (terms : KeyedTable T) (ts : List T) :
    KeyedTable T × List (Nat × Nat) :=
  ts.foldl (fun s t =>
    match insertTerm s.1 t with
    | (offset, terms) => (terms, s.2 ++ [(offset, tf t)])) (terms, [])

def insertToAppearsInTable (appearsIn : List Appears) (infos : List (Nat × Nat)) (docID : Nat) :
    List Appears :=
  appearsIn ++ infos.map fun info => ⟨info.1, docID, info.2⟩

/-- The body of the loop of `insert`, for a row with the given terms. -/
def insertDoc (ord : TermOrder T) (x : FtsIndex T) (offset : Nat) (ts : List T) :
    Except (FtsError T) (FtsIndex T) :=
  if ts = [] then .ok x
  else do
    let (docID, x) ← insertToDocTable x offset ts.length
    let (terms, infos) := insertToTermsTable (fun t => ts.count t) x.terms (ord.order ts)
    .ok { x with terms, appearsIn := insertToAppearsInTable x.appearsIn infos docID }

def containsDoc (x : FtsIndex T) (offset : Nat) : Bool := (x.docs.row offset).isSome

def deleteFromDocTable (x : FtsIndex T) (offset : Nat) : Except (FtsError T) (Nat × FtsIndex T) :=
  match x.docs.row offset with
  | none => .error (.documentMissing offset)
  | some (docID, _) => .ok (docID, { x with docs := x.docs.delete offset })

def deleteTerm (terms : KeyedTable T) (t : T) : Except (FtsError T) (KeyedTable T) :=
  match terms.row t with
  | none => .error (.termMissing t)
  | some (offset, df) =>
    if df = 1 then .ok (terms.delete t) else .ok (terms.update t offset (df - 1))

def deleteFromTermsTable (terms : KeyedTable T) (ts : List T) :
    Except (FtsError T) (KeyedTable T) := ts.foldlM deleteTerm terms

def deleteFromAppearsInTable (appearsIn : List Appears) (docID : Nat) : List Appears :=
  appearsIn.filter fun e => e.doc ≠ docID

/-- The body of the loop of `delete_`, once the row has been read. -/
def deleteDoc (ord : TermOrder T) (x : FtsIndex T) (offset : Nat) (ts : List T) :
    Except (FtsError T) (FtsIndex T) :=
  if ts = [] then .ok x
  else do
    let (docID, x) ← deleteFromDocTable x offset
    let terms ← deleteFromTermsTable x.terms (ord.order ts)
    .ok { x with terms, appearsIn := deleteFromAppearsInTable x.appearsIn docID }

end

section

variable {C T : Type} [DecidableEq T] (getTerms : List C → List T) (ord : TermOrder T)

/-- `FTSIndex::insert` over a vector of rows. -/
def FtsIndex.insert (x : FtsIndex T) (rows : List (Nat × List C)) :
    Except (FtsError T) (FtsIndex T) := do
  let x ← rows.foldlM (fun x r => insertDoc ord x r.1 (getTerms r.2)) x
  .ok { x with
    numIndexedNodes := rows.foldl (fun mark r => max mark (r.1 + 1)) x.numIndexedNodes }

/-- `FTSIndex::delete_` over a vector of offsets; `table` is what a lookup in the node table reads. -/
def FtsIndex.delete (table : Nat → Option (List C)) (x : FtsIndex T) (offsets : List Nat) :
    Except (FtsError T) (FtsIndex T) :=
  let numIndexedNodes := x.numIndexedNodes
  offsets.foldlM (fun x offset =>
    if offset ≥ numIndexedNodes && !containsDoc x offset then .ok x
    else match table offset with
      | none => .ok x
      | some row => deleteDoc ord x offset (getTerms row)) x

/-- `FTSIndex::update`: the old row is still in the table, and one column has a new value. -/
def FtsIndex.update (table : Nat → Option (List C)) (x : FtsIndex T) (offset columnIdx : Nat)
    (value : C) : Except (FtsError T) (FtsIndex T) := do
  let x ← x.delete getTerms ord table [offset]
  match table offset with
  | none => .ok x
  | some row => x.insert getTerms ord [(offset, row.set columnIdx value)]

/-- `FTSIndex::finalize`: the rows from the mark on are inserted one by one. -/
def FtsIndex.finalize (table : Nat → Option (List C)) (numTotalRows : Nat) (x : FtsIndex T) :
    Except (FtsError T) (FtsIndex T) :=
  if numTotalRows = x.numIndexedNodes then .ok x
  else (List.range' x.numIndexedNodes (numTotalRows - x.numIndexedNodes)).foldlM (fun x offset =>
    match table offset with
    | none => .ok x
    | some row => x.insert getTerms ord [(offset, row)]) x

end

structure Indexed (C T : Type) where
  table : Nat → Option (List C)
  numTotalRows : Nat
  index : FtsIndex T

/-- What the database does to an indexed table. -/
inductive Op (C : Type) where
  | insert (rows : List (List C))
  | update (offset columnIdx : Nat) (value : C)
  | delete (offsets : List Nat)
  /-- Every row with whether it is accepted. -/
  | copy (rows : List (List C × Bool))

section

variable {C T : Type} [DecidableEq T] (getTerms : List C → List T) (ord : TermOrder T)

def appendRows (table : Nat → Option (List C)) (start : Nat) (rows : List (List C)) :
    Nat → Option (List C) :=
  fun offset => if start ≤ offset then rows[offset - start]? else table offset

def deleteRows (table : Nat → Option (List C)) (offsets : List Nat) : Nat → Option (List C) :=
  fun offset => if offset ∈ offsets then none else table offset

/-- A statement only reaches rows that are there; the index is told before the table is changed, except
for an insertion, where it gets the rows. -/
def Op.apply (d : Indexed C T) : Op C → Except (FtsError T) (Indexed C T)
  | .insert rows => do
      let offsets := List.range' d.numTotalRows rows.length
      let index ← d.index.insert getTerms ord (offsets.zip rows)
      .ok ⟨appendRows d.table d.numTotalRows rows, d.numTotalRows + rows.length, index⟩
  | .update offset columnIdx value =>
    match d.table offset with
    | none => .ok d
    | some row => do
        let index ← d.index.update getTerms ord d.table offset columnIdx value
        .ok { d with
          table := Function.update d.table offset (some (row.set columnIdx value))
          index }
  | .delete offsets => do
      let offsets := (offsets.filter fun offset => (d.table offset).isSome).dedup
      let index ← d.index.delete getTerms ord d.table offsets
      .ok { d with table := deleteRows d.table offsets, index }
  | .copy rows => do
      -- the rows are appended, the rejected ones deleted again, and the rest is left to `finalize`
      let table := appendRows d.table d.numTotalRows (rows.map Prod.fst)
      let numTotalRows := d.numTotalRows + rows.length
      let rejected := (List.range' d.numTotalRows rows.length).filter fun offset =>
        (rows[offset - d.numTotalRows]?).any fun r => !r.2
      let index ← d.index.delete getTerms ord table rejected
      let table := deleteRows table rejected
      let index ← index.finalize getTerms ord table numTotalRows
      .ok ⟨table, numTotalRows, index⟩

def runOps (d : Indexed C T) (ops : List (Op C)) : Except (FtsError T) (Indexed C T) :=
  ops.foldlM (Op.apply getTerms ord) d

end

section

variable {C T : Type} [DecidableEq T]

def appearsInfo (bulkTerms : List C → List T) (rows : List (Option (List C))) : List (T × Nat) :=
  rows.zipIdx.flatMap fun r =>
    match r.1 with
    | none => []
    | some row => (bulkTerms row).map fun t => (t, r.2)

def copyGroups {K : Type} [DecidableEq K] (keys : List K) (aggregate : K → Nat) : KeyedTable K where
  row := fun k => if k ∈ keys then some (keys.dedup.idxOf k, aggregate k) else none
  numTotalRows := keys.dedup.length

/-- The tables that the statements of `CREATE_FTS_INDEX` fill, for the rows of a table of which some
have been deleted. -/
def createFTSIndex (bulkTerms : List C → List T) (rows : List (Option (List C))) : Indexed C T where
  table := fun offset => (rows[offset]?).join
  numTotalRows := rows.length
  index :=
    let info := appearsInfo bulkTerms rows
    let docs := copyGroups (info.map Prod.snd) fun offset => (info.map Prod.snd).count offset
    let terms := copyGroups (info.map Prod.fst) fun t =>
      ((info.filter fun r => r.1 = t).map Prod.snd).dedup.length
    { docs, terms
      appearsIn := info.dedup.map fun r =>
        ⟨(info.map Prod.fst).dedup.idxOf r.1, (info.map Prod.snd).dedup.idxOf r.2, info.count r⟩
      numIndexedNodes := rows.length }

end

end Ladybug.Fts
