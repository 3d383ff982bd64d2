import Mathlib.Data.List.Basic

/-!
# The shared cache of quantized embeddings

With `cache_embeddings` the queries of a quantized index read a dense copy of the `_QEMB` table that
all transactions share.  A query that may use the cache and finds none, or one with too few rows,
builds it from the rows that its own transaction sees.  A transaction that writes to `_QEMB`, which
happens when it commits inserted rows, marks the cache as dirty until it has ended.
-/

namespace Ladybug.Vector

/-- A commit writes to `_QEMB`, then its rows become visible to new transactions, then its callback
runs. -/
inductive TxnPhase where
  | active
  | committing
  | committed (commitTS : Nat)
  deriving DecidableEq

/-- A transaction sees the first `seen` rows but those deleted before it began.  Its own rows follow
the rows that the table had at the first insert. -/
structure CacheTxn (V : Type) where
  startTS : Nat
  seen : Nat
  seenDeleted : List Nat
  minUncommittedNodeOffset : Nat
  inserted : List (Option V)
  deleted : List Nat
  phase : TxnPhase

structure CachedQuantizedColumn (Q : Type) where
  numNodes : Nat
  records : Nat → Option Q

structure QuantizedEmbeddingsCacheState (Q : Type) where
  dirty : Bool
  version : Nat
  cache : Option (CachedQuantizedColumn Q)
  dirtyTransactions : List Nat

/-- The committed rows of the source table and of `_QEMB`, the transactions and the cache. -/
structure CachedIndex (V Q : Type) where
  rows : List (Option V)
  deleted : List Nat
  quantized : List (Option Q)
  lastTS : Nat
  txns : Nat → Option (CacheTxn V)
  cacheState : QuantizedEmbeddingsCacheState Q

inductive CacheEvent (V : Type) where
  | begin (t : Nat)
  | insert (t : Nat) (vector : Option V)
  | update (t offset : Nat) (vector : Option V)
  | delete (t offset : Nat)
  | query (t : Nat)
  | commitInsert (t : Nat)
  | publish (t : Nat)
  | commitCallback (t : Nat)
  | rollback (t : Nat)

namespace CacheTxn

variable {V : Type} (T : CacheTxn V)

def isUnCommitted (offset : Nat) : Bool :=
  !T.inserted.isEmpty && T.minUncommittedNodeOffset ≤ offset

def isVisible (offset : Nat) : Bool :=
  offset ∉ T.deleted &&
    if T.isUnCommitted offset then offset - T.minUncommittedNodeOffset < T.inserted.length
    else offset < T.seen && offset ∉ T.seenDeleted

end CacheTxn

namespace CachedIndex

variable {V Q : Type} (quantizeEmbedding : V → Q) (s : CachedIndex V Q)

def snapshotVector (T : CacheTxn V) (offset : Nat) : Option V :=
  if !T.isVisible offset then none
  else if T.isUnCommitted offset then T.inserted[offset - T.minUncommittedNodeOffset]?.join
  else s.rows[offset]?.join

def getNumTotalRows (T : CacheTxn V) : Nat := s.rows.length + T.inserted.length

/-- A row of `_QEMB` that was committed before the transaction began. -/
def lookupQuantized (T : CacheTxn V) (offset : Nat) : Option Q :=
  if offset < T.seen then s.quantized[offset]?.join else none

/-- The scan of `_QEMB` fills the rows that it has; the others are quantized from the source. -/
def buildCachedColumn (T : CacheTxn V) (numNodes : Nat) : CachedQuantizedColumn Q where
  numNodes
  records := fun offset =>
    if offset < s.quantized.length then s.lookupQuantized T offset
    else if offset < numNodes then (s.snapshotVector T offset).map quantizeEmbedding
    else none

def cachedEmbedding (cache : CachedQuantizedColumn Q) (T : CacheTxn V) (offset : Nat) : Option Q :=
  if cache.numNodes ≤ offset then none
  else if !T.isVisible offset then none
  else cache.records offset

def tableBackedEmbedding (T : CacheTxn V) (offset : Nat) : Option Q :=
  if s.getNumTotalRows T ≤ offset then none
  else if !T.isVisible offset then none
  else s.lookupQuantized T offset

def shouldUseCache (T : CacheTxn V) : Bool :=
  !s.cacheState.dirty && s.cacheState.version ≤ T.startTS

/-- The cache that a query uses: one that is large enough, or a new one. -/
def cacheFor (T : CacheTxn V) : CachedQuantizedColumn Q :=
  match s.cacheState.cache with
  | none => s.buildCachedColumn quantizeEmbedding T (s.getNumTotalRows T)
  | some cache =>
    if cache.numNodes < s.getNumTotalRows T then
      s.buildCachedColumn quantizeEmbedding T (s.getNumTotalRows T)
    else cache

def queryEmbedding (T : CacheTxn V) (offset : Nat) : Option Q :=
  if s.shouldUseCache T then cachedEmbedding (s.cacheFor quantizeEmbedding T) T offset
  else s.tableBackedEmbedding T offset

def setTxn (t : Nat) (T : CacheTxn V) : CachedIndex V Q :=
  { s with txns := Function.update s.txns t (some T) }

def endTxn (t : Nat) : CachedIndex V Q := { s with txns := Function.update s.txns t none }

def begin (t : Nat) : CachedIndex V Q :=
  match s.txns t with
  | some _ => s
  | none =>
    s.setTxn t
      { startTS := s.lastTS
        seen := s.rows.length
        seenDeleted := s.deleted
        minUncommittedNodeOffset := 0
        inserted := []
        deleted := []
        phase := .active }

def insertRow (T : CacheTxn V) (vector : Option V) : CacheTxn V :=
  { T with
    minUncommittedNodeOffset :=
      if T.inserted.isEmpty then s.rows.length else T.minUncommittedNodeOffset
    inserted := T.inserted ++ [vector] }

def query (T : CacheTxn V) : CachedIndex V Q :=
  if s.shouldUseCache T then
    { s with cacheState := { s.cacheState with cache := some (s.cacheFor quantizeEmbedding T) } }
  else s

def markDirty (t : Nat) : CachedIndex V Q :=
  { s with cacheState := { s.cacheState with
      dirty := true
      dirtyTransactions := s.cacheState.dirtyTransactions.insert t } }

/-- The rows of the transaction are written to `_QEMB` when there are any. -/
def commitInsertTxn (t : Nat) (T : CacheTxn V) : CachedIndex V Q :=
  let s := s.setTxn t { T with phase := .committing }
  if T.inserted.isEmpty then s else s.markDirty t

/-- The rows get their offsets after those committed before. -/
def publish (t : Nat) (T : CacheTxn V) : CachedIndex V Q :=
  let deleted := T.deleted.map fun offset =>
    if T.isUnCommitted offset then s.rows.length + (offset - T.minUncommittedNodeOffset) else offset
  { s.setTxn t { T with phase := .committed (s.lastTS + 1) } with
    rows := s.rows ++ T.inserted
    deleted := s.deleted ++ deleted
    quantized := s.quantized ++ T.inserted.map fun v => v.map quantizeEmbedding
    lastTS := s.lastTS + 1 }

def eraseDirty (t : Nat) : CachedIndex V Q :=
  let dirtyTransactions := s.cacheState.dirtyTransactions.filter (· ≠ t)
  { s with cacheState := { s.cacheState with
      dirtyTransactions
      dirty := !dirtyTransactions.isEmpty } }

/-- The callbacks are registered with the first write to `_QEMB`. -/
def commitCallback (t : Nat) (T : CacheTxn V) (commitTS : Nat) : CachedIndex V Q :=
  if T.inserted.isEmpty then s.endTxn t
  else
    let s := (s.endTxn t).eraseDirty t
    { s with cacheState := { s.cacheState with
        cache := none
        version := max s.cacheState.version commitTS } }

def rollback (t : Nat) (T : CacheTxn V) : CachedIndex V Q :=
  match T.phase with
  | .active => s.endTxn t
  | .committing => if T.inserted.isEmpty then s.endTxn t else (s.endTxn t).eraseDirty t
  | .committed _ => s

/-- An update of a committed row inserts its id into `_QEMB` again, which ends the transaction. -/
def update (t : Nat) (T : CacheTxn V) (offset : Nat) (vector : Option V) : CachedIndex V Q :=
  if !T.isVisible offset then s
  else if T.isUnCommitted offset then
    s.setTxn t
      { T with inserted := T.inserted.set (offset - T.minUncommittedNodeOffset) vector }
  else s.rollback t T

def whenTxn (t : Nat) (f : CacheTxn V → CachedIndex V Q) : CachedIndex V Q :=
  match s.txns t with
  | none => s
  | some T => f T

/-- Runs an operation of an active transaction. -/
def whenActive (t : Nat) (f : CacheTxn V → CachedIndex V Q) : CachedIndex V Q :=
  s.whenTxn t fun T => if T.phase = .active then f T else s

def step : CacheEvent V → CachedIndex V Q
  | .begin t => s.begin t
  | .insert t vector => s.whenActive t fun T => s.setTxn t (s.insertRow T vector)
  | .update t offset vector => s.whenActive t fun T => s.update t T offset vector
  | .delete t offset =>
    s.whenActive t fun T =>
      if T.isVisible offset then s.setTxn t { T with deleted := offset :: T.deleted } else s
  | .query t => s.whenActive t fun T => s.query quantizeEmbedding T
  | .commitInsert t => s.whenActive t fun T => s.commitInsertTxn t T
  | .publish t =>
    s.whenTxn t fun T =>
      if T.phase = .committing then s.publish quantizeEmbedding t T else s
  | .commitCallback t =>
    s.whenTxn t fun T =>
      match T.phase with
      | .committed commitTS => s.commitCallback t T commitTS
      | _ => s
  | .rollback t => s.whenTxn t fun T => s.rollback t T

/-- A new index over a table, with no transaction. -/
def created (rows : List (Option V)) : CachedIndex V Q where
  rows
  deleted := []
  quantized := rows.map fun v => v.map quantizeEmbedding
  lastTS := 0
  txns := fun _ => none
  cacheState := ⟨false, 0, none, []⟩

def ReadsSnapshot (T : CacheTxn V) : Prop :=
  ∀ offset q, s.queryEmbedding quantizeEmbedding T offset = some q →
    ∃ v, s.snapshotVector T offset = some v ∧ q = quantizeEmbedding v

/-- The query of a transaction builds the cache. -/
def builds (T : CacheTxn V) : Bool :=
  s.shouldUseCache T && s.cacheState.cache.all fun cache => cache.numNodes < s.getNumTotalRows T

/-- The query of a transaction reads a cache that is there already. -/
def Reuses (T : CacheTxn V) (cache : CachedQuantizedColumn Q) : Prop :=
  s.shouldUseCache T = true ∧ s.cacheState.cache = some cache ∧
    s.getNumTotalRows T ≤ cache.numNodes

/-- An index with the vectors that the transaction that built its cache saw then. -/
structure Traced (V Q : Type) where
  index : CachedIndex V Q
  builtFrom : Nat → Option V

/-- The trace has no part in what the index does. -/
def Traced.step (s : Traced V Q) (e : CacheEvent V) : Traced V Q where
  index := s.index.step quantizeEmbedding e
  builtFrom :=
    match e with
    | .query t =>
      match s.index.txns t with
      | some T =>
        if T.phase = .active ∧ s.index.builds T = true then s.index.snapshotVector T else s.builtFrom
      | none => s.builtFrom
    | _ => s.builtFrom

def Traced.created (rows : List (Option V)) : Traced V Q where
  index := CachedIndex.created quantizeEmbedding rows
  builtFrom := fun _ => none

/-- Where the transaction reuses a cache, its builder had at the offsets of the transaction's own rows
no vector but one that is quantized alike. -/
def Traced.OwnRowsBuilt (s : Traced V Q) (T : CacheTxn V) : Prop :=
  ∀ cache, s.index.Reuses T cache → ∀ offset, T.isVisible offset = true →
    T.isUnCommitted offset = true → ∀ built, s.builtFrom offset = some built →
      ∃ v, s.index.snapshotVector T offset = some v ∧ quantizeEmbedding built = quantizeEmbedding v

end CachedIndex

end Ladybug.Vector
