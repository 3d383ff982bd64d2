import Mathlib.Algebra.GroupWithZero.Nat
import Mathlib.Logic.Function.Basic

/-!
# Embeddings that are read from disk (`OnDiskEmbeddingScanState`)

A lookup appends the embedding to the data vector of the output column.  A handle keeps its place there
until it is destroyed; the space of the handles that have been destroyed is taken back from the end.
-/

namespace Ladybug.Vector

open Function

/-- The node table and the data vector of the output column.  A lookup returns the place of the list of
each row, `none` for a null one; it appends the lists of the rows in their order. -/
structure EmbeddingStorage (α : Type) where
  embeddingDim : Nat
  -- the number of bits of `allocatedOffsets`
  vectorCapacity : Nat
  isVisible : Nat → Bool
  lookupMultiple : List α → List Nat → List α × List (Option Nat)
  resizeDataVector : List α → Nat → List α
  dim_pos : 0 < embeddingDim
  lookup_appends : ∀ data offsets, ∃ xs, (lookupMultiple data offsets).1 = data ++ xs
  lookup_aligned : ∀ data offsets, embeddingDim ∣ data.length →
    embeddingDim ∣ (lookupMultiple data offsets).1.length
  entry_place : ∀ data offsets, embeddingDim ∣ data.length →
    ∀ o, some o ∈ (lookupMultiple data offsets).2 →
      embeddingDim ∣ o ∧ data.length ≤ o ∧ o + embeddingDim ≤ (lookupMultiple data offsets).1.length
  entry_order : ∀ data offsets, (lookupMultiple data offsets).2.Pairwise fun a b =>
    ∀ x ∈ a, ∀ y ∈ b, x + embeddingDim ≤ y
  resize_take : ∀ data numValues, numValues ≤ data.length →
    resizeDataVector data numValues = data.take numValues

/-- A handle that is not null.  `embedding` only records what was read for it. -/
structure EmbeddingHandle (α : Type) where
  offsetInData : Nat
  embedding : List α

/-- `data` is the data vector of the output column.  The stack has its top first. -/
structure OnDiskEmbeddingScanState (α : Type) where
  data : List α
  usedEmbeddingOffsets : List Nat
  allocatedOffsets : Nat → Bool

namespace OnDiskEmbeddingScanState

variable {α : Type} (T : EmbeddingStorage α)

def getEmbeddingPtr (s : OnDiskEmbeddingScanState α) (handle : EmbeddingHandle α) : List α :=
  (s.data.drop handle.offsetInData).take T.embeddingDim

-- beyond the capacity `set` throws, before anything has been pushed
def addEmbedding (s : OnDiskEmbeddingScanState α) (handle : EmbeddingHandle α) :
    Option (OnDiskEmbeddingScanState α) :=
  let offsetToAdd := handle.offsetInData / T.embeddingDim
  if offsetToAdd < T.vectorCapacity then
    some
      { s with
        allocatedOffsets := update s.allocatedOffsets offsetToAdd true
        usedEmbeddingOffsets := offsetToAdd :: s.usedEmbeddingOffsets }
  else none

def reclaimEmbedding (s : OnDiskEmbeddingScanState α) (handle : EmbeddingHandle α) :
    OnDiskEmbeddingScanState α :=
  let offsetToRemove := handle.offsetInData / T.embeddingDim
  let allocatedOffsets := update s.allocatedOffsets offsetToRemove false
  -- offsets that are not allocated are popped off the stack
  let usedEmbeddingOffsets := s.usedEmbeddingOffsets.dropWhile fun o => !allocatedOffsets o
  let numDataElemsToResizeTo :=
    match usedEmbeddingOffsets with
    | [] => 0
    | top :: _ => (top + 1) * T.embeddingDim
  { allocatedOffsets
    usedEmbeddingOffsets
    data := T.resizeDataVector s.data numDataElemsToResizeTo }

def construct (s : OnDiskEmbeddingScanState α) :
    Option (EmbeddingHandle α) → Option (OnDiskEmbeddingScanState α)
  | none => some s
  | some handle => s.addEmbedding T handle

def destroy (s : OnDiskEmbeddingScanState α) :
    Option (EmbeddingHandle α) → OnDiskEmbeddingScanState α
  | none => s
  | some handle => s.reclaimEmbedding T handle

/-- The entries of the rows that have been looked up, with null for the deleted ones. -/
def placeEntries : List Nat → List (Option Nat) → List (Option Nat)
  | [], _ => []
  | offset :: offsets, entries =>
    if T.isVisible offset then
      match entries with
      | entry :: entries => entry :: placeEntries offsets entries
      | [] => none :: placeEntries offsets []
    else none :: placeEntries offsets entries

/-- The handles are constructed one after another; if one cannot be, those that have been are destroyed
and none is returned. -/
def constructAll : List (Option (EmbeddingHandle α)) → List (Option (EmbeddingHandle α)) →
    OnDiskEmbeddingScanState α →
      OnDiskEmbeddingScanState α × Option (List (Option (EmbeddingHandle α)))
  | embeddings, [], s => (s, some embeddings)
  | embeddings, entry :: entries, s =>
    match s.construct T entry with
    | some s => constructAll (embeddings ++ [entry]) entries s
    | none => (embeddings.foldl (destroy T) s, none)

def getEmbeddings (s : OnDiskEmbeddingScanState α) (offsets : List Nat) :
    OnDiskEmbeddingScanState α × Option (List (Option (EmbeddingHandle α))) :=
  let (data, entries) := T.lookupMultiple s.data (offsets.filter T.isVisible)
  let handles := (placeEntries T offsets entries).map fun entry =>
    entry.map fun o => ⟨o, (data.drop o).take T.embeddingDim⟩
  constructAll T [] handles { s with data }

end OnDiskEmbeddingScanState

structure HandleState (α : Type) where
  scan : OnDiskEmbeddingScanState α
  objects : Nat → Option (Option (EmbeddingHandle α))

inductive HandleOp where
  | getEmbeddings (names offsets : List Nat)
  | moveConstruct (o src : Nat)
  | moveAssign (o src : Nat)
  | destroy (o : Nat)

namespace HandleState

variable {α : Type}

/-- The handles of a batch get their names. -/
def bind : List Nat → List (Option (EmbeddingHandle α)) → (Nat → Option (Option (EmbeddingHandle α))) →
    Nat → Option (Option (EmbeddingHandle α))
  | name :: names, handle :: handles, objects =>
    bind names handles (update objects name (some handle))
  | _, _, objects => objects

/-- `operator=(EmbeddingHandle&&)`: the source becomes null; what the target held is not reclaimed. -/
def move (objects : Nat → Option (Option (EmbeddingHandle α))) (o src : Nat)
    (handle : Option (EmbeddingHandle α)) : Nat → Option (Option (EmbeddingHandle α)) :=
  update (update objects o (some handle)) src (some none)

/-- New handles have new names, and the others exist; `none` where this is not so. -/
def step (T : EmbeddingStorage α) (s : HandleState α) : HandleOp → Option (HandleState α)
  | .getEmbeddings names offsets =>
    if names.Nodup ∧ names.length = offsets.length ∧ ∀ name ∈ names, s.objects name = none then
      match s.scan.getEmbeddings T offsets with
      | (scan, some handles) => some ⟨scan, bind names handles s.objects⟩
      | (scan, none) => some ⟨scan, s.objects⟩
    else none
  | .moveConstruct o src =>
    match s.objects o, s.objects src with
    | none, some handle => some { s with objects := move s.objects o src handle }
    | _, _ => none
  | .moveAssign o src =>
    match s.objects o, s.objects src with
    | some _, some handle =>
      if o = src then some s else some { s with objects := move s.objects o src handle }
    | _, _ => none
  | .destroy o =>
    match s.objects o with
    | some handle => some ⟨s.scan.destroy T handle, update s.objects o none⟩
    | none => none

def run (T : EmbeddingStorage α) : List HandleOp → HandleState α → Option (HandleState α)
  | [], s => some s
  | op :: ops, s => (s.step T op).bind (run T ops)

def init (α : Type) : HandleState α where
  scan :=
    { data := []
      usedEmbeddingOffsets := []
      allocatedOffsets := fun _ => false }
  objects := fun _ => none

def Live (s : HandleState α) (name : Nat) (handle : EmbeddingHandle α) : Prop :=
  s.objects name = some (some handle)

end HandleState

end Ladybug.Vector
