import Mathlib.Data.List.Range

/-!
# The table of quantized embeddings

A quantized index keeps a node table `_QEMB` with one row per row of the source table.  Its rows are
written when the index is created, when inserted rows are committed, and by `finalize` for the rows
that a bulk load has added before a checkpoint.  The id of a row is its primary key, so a row is
never written twice.
-/

namespace Ladybug.Vector

open List Except

/-- `valid`, `scale`, `norm_sq` and `payload` are one value here; it is `none` when `valid` is 0. -/
structure QuantizedRecord (Q : Type) where
  id : Nat
  embedding : Option Q
  deriving DecidableEq

inductive QuantizedTableError where
  | duplicatedPrimaryKey (id : Nat)
  | noSuchRow (offset : Nat)
  deriving DecidableEq

/-- The latest vectors of the source rows, the rows of `_QEMB`, and what the index takes as done. -/
structure QuantizedIndex (V Q : Type) where
  source : List (Option V)
  quantized : List (QuantizedRecord Q)
  numCheckpointedNodes : Nat

/-- `insert` commits new rows, `update` sets the vector of a row.  `finalize` is part of a checkpoint;
a bulk load ends with one. -/
inductive QuantizedOp (V : Type) where
  | rebuild
  | insert (vectors : List (Option V))
  | update (offset : Nat) (vector : Option V)
  | finalize (loaded : List (Option V))

section

variable {V Q : Type} (quantizeEmbedding : V → Q)

def writeQuantizedRecord (table : List (QuantizedRecord Q)) (offset : Nat) (embedding : Option Q) :
    Except QuantizedTableError (List (QuantizedRecord Q)) :=
  if offset ∈ table.map QuantizedRecord.id then .error (.duplicatedPrimaryKey offset)
  else .ok (table ++ [⟨offset, embedding⟩])

def writeEmbedding (table : List (QuantizedRecord Q)) (offset : Nat) (vector : Option V) :
    Except QuantizedTableError (List (QuantizedRecord Q)) :=
  writeQuantizedRecord table offset (vector.map quantizeEmbedding)

def writeRows (source : List (Option V)) (first count : Nat) (table : List (QuantizedRecord Q)) :
    Except QuantizedTableError (List (QuantizedRecord Q)) :=
  (range' first count).foldlM
    (fun table offset => writeEmbedding quantizeEmbedding table offset source[offset]?.join) table

/-- The index is created over a new `_QEMB` table. -/
def rebuild (s : QuantizedIndex V Q) : Except QuantizedTableError (QuantizedIndex V Q) := do
  let quantized ← writeRows quantizeEmbedding s.source 0 s.source.length []
  return { s with quantized, numCheckpointedNodes := s.source.length }

/-- A null vector is written, but the loop goes on before it counts as checkpointed. -/
def checkpointedAfter (numCheckpointedNodes offset : Nat) : Option V → Nat
  | none => numCheckpointedNodes
  | some _ => max numCheckpointedNodes (offset + 1)

def commitRow (s : QuantizedIndex V Q) (row : Nat × Option V) :
    Except QuantizedTableError (QuantizedIndex V Q) := do
  let quantized ← writeEmbedding quantizeEmbedding s.quantized row.1 row.2
  return { s with
    quantized
    numCheckpointedNodes := checkpointedAfter s.numCheckpointedNodes row.1 row.2 }

def commitInsert (s : QuantizedIndex V Q) (rows : List (Nat × Option V)) :
    Except QuantizedTableError (QuantizedIndex V Q) :=
  rows.foldlM (commitRow quantizeEmbedding) s

def finalize (s : QuantizedIndex V Q) : Except QuantizedTableError (QuantizedIndex V Q) :=
  if s.source.length = s.numCheckpointedNodes then .ok s
  else do
    let quantized ← writeRows quantizeEmbedding s.source s.numCheckpointedNodes
      (s.source.length - s.numCheckpointedNodes) s.quantized
    return { s with quantized, numCheckpointedNodes := s.source.length }

/-- The rows of a commit follow those of the table. -/
def newRows (first : Nat) : List (Option V) → List (Nat × Option V)
  | [] => []
  | vector :: vectors => (first, vector) :: newRows (first + 1) vectors

def quantizedStep (s : QuantizedIndex V Q) :
    QuantizedOp V → Except QuantizedTableError (QuantizedIndex V Q)
  | .rebuild => rebuild quantizeEmbedding s
  | .insert vectors =>
    commitInsert quantizeEmbedding { s with source := s.source ++ vectors }
      (newRows s.source.length vectors)
  | .update offset vector =>
    -- the source table has been updated before
    if offset < s.source.length then
      commitInsert quantizeEmbedding { s with source := s.source.set offset vector }
        [(offset, vector)]
    else .error (.noSuchRow offset)
  | .finalize loaded => finalize quantizeEmbedding { s with source := s.source ++ loaded }

def exactRows (source : List (Option V)) (n : Nat) : List (QuantizedRecord Q) :=
  (range n).map fun o => ⟨o, source[o]?.join.map quantizeEmbedding⟩

/-- One row per source offset: row `N` has id `N` and the quantized latest vector of `N`. -/
def QuantizedIndex.Exact (s : QuantizedIndex V Q) : Prop :=
  s.quantized = exactRows quantizeEmbedding s.source s.source.length

/-- Every operation succeeds, and the table is exact after each. -/
def ExactRun (s : QuantizedIndex V Q) : List (QuantizedOp V) → Prop
  | [] => s.Exact quantizeEmbedding
  | op :: ops => s.Exact quantizeEmbedding ∧
      ∃ s', quantizedStep quantizeEmbedding s op = .ok s' ∧ ExactRun s' ops

/-- A run starts with the creation of the index. -/
def ExactFrom (source : List (Option V)) (ops : List (QuantizedOp V)) : Prop :=
  ∃ s, quantizedStep quantizeEmbedding ⟨source, [], 0⟩ .rebuild = .ok s ∧
    ExactRun quantizeEmbedding s ops

/-- No update, and no checkpoint after a commit that ends with null vectors. -/
def QuantizedIndex.Allowed (s : QuantizedIndex V Q) : QuantizedOp V → Prop
  | .rebuild => True
  | .insert _ => True
  | .update _ _ => False
  | .finalize _ => s.numCheckpointedNodes = s.source.length

def AllowedRun (s : QuantizedIndex V Q) : List (QuantizedOp V) → Prop
  | [] => True
  | op :: ops => s.Allowed op ∧
      ∀ s', quantizedStep quantizeEmbedding s op = .ok s' → AllowedRun s' ops

def AllowedFrom (source : List (Option V)) (ops : List (QuantizedOp V)) : Prop :=
  ∀ s, quantizedStep quantizeEmbedding ⟨source, [], 0⟩ .rebuild = .ok s →
    AllowedRun quantizeEmbedding s ops

end

section

variable {V Q : Type} (quantizeEmbedding : V → Q)

theorem ids_exactRows (source : List (Option V)) (n : Nat) :
    (exactRows quantizeEmbedding source n).map QuantizedRecord.id = range n := by
  unfold exactRows
  rw [map_map]
  exact map_id _

variable {n : Nat}

theorem exactRows_append (source more : List (Option V)) (h : n ≤ source.length) :
    exactRows quantizeEmbedding (source ++ more) n = exactRows quantizeEmbedding source n := by
  apply map_congr_left
  intro o ho
  have hlt : o < source.length := Nat.lt_of_lt_of_le (mem_range.mp ho) h
  rw [getElem?_append_left hlt]

theorem writeEmbedding_exactRows (source : List (Option V)) (n : Nat) :
    writeEmbedding quantizeEmbedding (exactRows quantizeEmbedding source n) n source[n]?.join =
      .ok (exactRows quantizeEmbedding source (n + 1)) := by
  unfold writeEmbedding writeQuantizedRecord
  rw [ids_exactRows, if_neg (by rw [mem_range]; omega)]
  unfold exactRows
  rw [range_succ, map_append]
  rfl

theorem writeRows_exactRows (source : List (Option V)) (n count : Nat) :
    writeRows quantizeEmbedding source n count (exactRows quantizeEmbedding source n) =
      .ok (exactRows quantizeEmbedding source (n + count)) := by
  induction count generalizing n with
  | zero => rfl
  | succ count ih =>
    unfold writeRows
    rw [range'_succ, foldlM_cons, writeEmbedding_exactRows]
    have hrest := ih (n + 1)
    rw [Nat.add_assoc, Nat.add_comm 1] at hrest
    exact hrest

theorem writeRows_duplicated {source : List (Option V)} {first count : Nat} (hfirst : first < n)
    (hcount : 0 < count) :
    writeRows quantizeEmbedding source first count (exactRows quantizeEmbedding source n) =
      .error (.duplicatedPrimaryKey first) := by
  obtain ⟨count, rfl⟩ := Nat.exists_eq_succ_of_ne_zero (Nat.ne_of_gt hcount)
  unfold writeRows
  rw [range'_succ, foldlM_cons]
  unfold writeEmbedding writeQuantizedRecord
  rw [ids_exactRows, if_pos (mem_range.mpr hfirst)]
  rfl

theorem commitInsert_newRows (s : QuantizedIndex V Q) (vectors before : List (Option V))
    (hsource : s.source = before ++ vectors)
    (hexact : s.quantized = exactRows quantizeEmbedding s.source before.length)
    (hle : s.numCheckpointedNodes ≤ before.length) :
    ∃ s', commitInsert quantizeEmbedding s (newRows before.length vectors) = .ok s' ∧
      s'.source = s.source ∧ s'.Exact quantizeEmbedding ∧
      s'.numCheckpointedNodes ≤ s'.source.length := by
  induction vectors generalizing s before with
  | nil =>
    rw [append_nil] at hsource
    refine ⟨s, rfl, rfl, ?_, ?_⟩
    · unfold QuantizedIndex.Exact
      rw [hexact, hsource]
    · rw [hsource]
      exact hle
  | cons vector vectors ih =>
    have hvector : vector = s.source[before.length]?.join := by
      rw [hsource, getElem?_append_right (Nat.le_refl _), Nat.sub_self]
      rfl
    let s₁ : QuantizedIndex V Q :=
      { source := s.source
        quantized := exactRows quantizeEmbedding s.source (before.length + 1)
        numCheckpointedNodes := checkpointedAfter s.numCheckpointedNodes before.length vector }
    have hrow : commitRow quantizeEmbedding s (before.length, vector) = .ok s₁ := by
      unfold commitRow
      dsimp only
      nth_rewrite 1 [hvector]
      rw [hexact, writeEmbedding_exactRows]
      rfl
    have hnum : s₁.numCheckpointedNodes ≤ before.length + 1 := by
      cases vector with
      | none => exact Nat.le_succ_of_le hle
      | some v =>
        show max s.numCheckpointedNodes (before.length + 1) ≤ before.length + 1
        omega
    have hlen : (before ++ [vector]).length = before.length + 1 := by
      rw [length_append, length_singleton]
    obtain ⟨s', hrun, hrest⟩ := ih s₁ (before ++ [vector])
      (by rw [append_assoc, singleton_append]; exact hsource)
      (by rw [hlen]) (by rw [hlen]; exact hnum)
    refine ⟨s', ?_, hrest⟩
    rw [hlen] at hrun
    unfold commitInsert newRows
    rw [foldlM_cons, hrow]
    exact hrun

end

section

variable {V Q : Type} (quantizeEmbedding : V → Q)

/-- Between operations the table is exact, and the index does not claim rows that are not there. -/
structure QuantizedIndex.Inv (s : QuantizedIndex V Q) : Prop where
  exact : s.Exact quantizeEmbedding
  checkpointed_le : s.numCheckpointedNodes ≤ s.source.length

variable {quantizeEmbedding}

theorem rebuild_spec (s : QuantizedIndex V Q) :
    ∃ s', rebuild quantizeEmbedding s = .ok s' ∧ s'.Inv quantizeEmbedding := by
  have hwrite := writeRows_exactRows quantizeEmbedding s.source 0 s.source.length
  rw [Nat.zero_add] at hwrite
  have hzero : exactRows quantizeEmbedding s.source 0 = [] := rfl
  rw [hzero] at hwrite
  unfold rebuild
  rw [hwrite]
  exact ⟨_, rfl, rfl, Nat.le_refl _⟩

variable {s : QuantizedIndex V Q}

section

variable (h : s.Inv quantizeEmbedding)

include h

theorem insert_spec (vectors : List (Option V)) :
    ∃ s', quantizedStep quantizeEmbedding s (.insert vectors) = .ok s' ∧
      s'.Inv quantizeEmbedding := by
  have hexact : s.quantized = exactRows quantizeEmbedding (s.source ++ vectors) s.source.length := by
    rw [exactRows_append quantizeEmbedding s.source vectors (Nat.le_refl _)]
    exact h.exact
  obtain ⟨s', hrun, _, hexact', hle⟩ := commitInsert_newRows quantizeEmbedding
    { s with source := s.source ++ vectors } vectors s.source rfl hexact h.checkpointed_le
  exact ⟨s', hrun, hexact', hle⟩

theorem finalize_spec (hdone : s.numCheckpointedNodes = s.source.length) (loaded : List (Option V)) :
    ∃ s', quantizedStep quantizeEmbedding s (.finalize loaded) = .ok s' ∧
      s'.Inv quantizeEmbedding := by
  have hexact : s.quantized = exactRows quantizeEmbedding (s.source ++ loaded) s.source.length := by
    rw [exactRows_append quantizeEmbedding s.source loaded (Nat.le_refl _)]
    exact h.exact
  show ∃ s', finalize quantizeEmbedding { s with source := s.source ++ loaded } = .ok s' ∧ _
  unfold finalize
  split
  next heq =>
    refine ⟨_, rfl, ?_, Nat.le_of_eq heq.symm⟩
    show s.quantized = exactRows quantizeEmbedding (s.source ++ loaded) (s.source ++ loaded).length
    have hlen : (s.source ++ loaded).length = s.source.length := heq.trans hdone
    rw [hlen]
    exact hexact
  · have hwrite := writeRows_exactRows quantizeEmbedding (s.source ++ loaded) s.source.length
      ((s.source ++ loaded).length - s.source.length)
    have htotal : s.source.length + ((s.source ++ loaded).length - s.source.length) =
        (s.source ++ loaded).length := by
      rw [length_append]
      omega
    rw [htotal] at hwrite
    rw [hdone, hexact, hwrite]
    exact ⟨_, rfl, rfl, Nat.le_refl _⟩

theorem finalize_fails (hdone : s.numCheckpointedNodes ≠ s.source.length) (loaded : List (Option V)) :
    quantizedStep quantizeEmbedding s (.finalize loaded) =
      .error (.duplicatedPrimaryKey s.numCheckpointedNodes) := by
  have hlt : s.numCheckpointedNodes < s.source.length :=
    Nat.lt_of_le_of_ne h.checkpointed_le hdone
  have hlen : (s.source ++ loaded).length = s.source.length + loaded.length := length_append
  have hexact : s.quantized = exactRows quantizeEmbedding (s.source ++ loaded) s.source.length := by
    rw [exactRows_append quantizeEmbedding s.source loaded (Nat.le_refl _)]
    exact h.exact
  show finalize quantizeEmbedding { s with source := s.source ++ loaded } = _
  unfold finalize
  dsimp only
  rw [if_neg (by omega), hexact, writeRows_duplicated quantizeEmbedding hlt (by omega)]
  rfl

theorem update_fails (offset : Nat) (vector : Option V) :
    ∃ e, quantizedStep quantizeEmbedding s (.update offset vector) = .error e := by
  by_cases hlt : offset < s.source.length
  · refine ⟨.duplicatedPrimaryKey offset, ?_⟩
    have hmem : offset ∈ s.quantized.map QuantizedRecord.id := by
      rw [h.exact, ids_exactRows]
      exact mem_range.mpr hlt
    show (if offset < s.source.length then _ else _) = _
    rw [if_pos hlt]
    unfold commitInsert
    rw [foldlM_cons]
    unfold commitRow writeEmbedding writeQuantizedRecord
    rw [if_pos hmem]
    rfl
  · refine ⟨.noSuchRow offset, ?_⟩
    show (if offset < s.source.length then _ else _) = _
    rw [if_neg hlt]

theorem step_allowed_iff (op : QuantizedOp V) :
    (s.Allowed op ∧ ∃ s', quantizedStep quantizeEmbedding s op = .ok s' ∧
        s'.Inv quantizeEmbedding) ∨
      (¬ s.Allowed op ∧ ∃ e, quantizedStep quantizeEmbedding s op = .error e) := by
  cases op with
  | rebuild => exact .inl ⟨trivial, rebuild_spec s⟩
  | insert vectors => exact .inl ⟨trivial, insert_spec h vectors⟩
  | update offset vector => exact .inr ⟨id, update_fails h offset vector⟩
  | finalize loaded =>
    by_cases hdone : s.numCheckpointedNodes = s.source.length
    · exact .inl ⟨hdone, finalize_spec h hdone loaded⟩
    · exact .inr ⟨hdone, _, finalize_fails h hdone loaded⟩

theorem exactRun_iff (ops : List (QuantizedOp V)) :
    ExactRun quantizeEmbedding s ops ↔ AllowedRun quantizeEmbedding s ops := by
  induction ops generalizing s with
  | nil => exact iff_of_true h.exact trivial
  | cons op ops ih =>
    rcases step_allowed_iff h op with ⟨hallowed, s', hs', hinv⟩ | ⟨hnot, e, he⟩
    · constructor
      · intro hrun
        obtain ⟨_, s₁, hs₁, hrest⟩ := hrun
        have heq : s₁ = s' := ok.inj (hs₁.symm.trans hs')
        refine ⟨hallowed, fun s₂ hs₂ => ?_⟩
        have heq₂ : s₂ = s' := ok.inj (hs₂.symm.trans hs')
        rw [heq] at hrest
        rw [heq₂]
        exact (ih hinv).mp hrest
      · intro hrun
        exact ⟨h.exact, s', hs', (ih hinv).mpr (hrun.2 s' hs')⟩
    · apply iff_of_false
      · intro hrun
        obtain ⟨_, s', hs', _⟩ := hrun
        rw [he] at hs'
        cases hs'
      · exact fun hrun => hnot hrun.1

end

/-- The table stays exact in the runs without updates in which no checkpoint follows null vectors at
the end of a commit, and in no other run. -/
theorem quantizedTable_exact_iff (quantizeEmbedding : V → Q) (source : List (Option V))
    (ops : List (QuantizedOp V)) :
    ExactFrom quantizeEmbedding source ops ↔ AllowedFrom quantizeEmbedding source ops := by
  obtain ⟨s, hs, hinv⟩ := rebuild_spec (V := V) (Q := Q) ⟨source, [], 0⟩
  constructor
  · intro h s' hs'
    obtain ⟨s₁, hs₁, hrun⟩ := h
    have heq : s' = s := ok.inj (hs'.symm.trans hs)
    have heq₁ : s₁ = s := ok.inj (hs₁.symm.trans hs)
    rw [heq]
    rw [heq₁] at hrun
    exact (exactRun_iff hinv ops).mp hrun
  · intro h
    exact ⟨s, hs, (exactRun_iff hinv ops).mpr (h s hs)⟩

/-- A null vector is inserted into an empty table; the checkpoint then writes its row again. -/
theorem checkpoint_after_null_fails :
    ¬ ExactFrom (fun v : Nat => v) [] [.insert [none], .finalize []] := by
  intro h
  obtain ⟨s, hs, _, s₁, hs₁, _, s₂, hs₂, _⟩ := h
  cases hs
  cases hs₁
  cases hs₂

end

end Ladybug.Vector
