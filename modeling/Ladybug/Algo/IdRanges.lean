import Ladybug.Algo.ColouringCorrect
import Mathlib.Data.List.AList
import Mathlib.Data.List.Sort

/-!
# Id ranges of node tables (`algo/src/function/component_ids.cpp`)

`OffsetManager` puts the tables one behind the other in the order of their ids.  The offset of the loop
is a 32-bit integer, so the ranges are apart exactly when every table with nodes begins below 2^32.
-/

namespace Ladybug.Algo

open List

/-! ## 1. The offset manager -/

/-- The numbers of nodes, in the order of the iteration. -/
abbrev MaxOffsetMap := AList fun _ : Nat => UInt64

def MaxOffsetMap.maxOffset (m : MaxOffsetMap) (tableID : Nat) : UInt64 := (m.lookup tableID).getD 0

structure OffsetManager where
  tableIDToStartOffset : AList fun _ : Nat => UInt64

/-- The loop of the constructor; `auto offset = 0u` has 32 bits. -/
def OffsetManager.insertAll (m : MaxOffsetMap) :
    List Nat → UInt32 → AList (fun _ : Nat => UInt64) → OffsetManager
  | [], _, starts => ⟨starts⟩
  | tableID :: rest, offset, starts =>
    insertAll m rest (offset.toUInt64 + m.maxOffset tableID).toUInt32
      (starts.insert tableID offset.toUInt64)

def tableIDVector (m : MaxOffsetMap) : List Nat := m.keys.insertionSort (· ≤ ·)

def OffsetManager.ofMap (m : MaxOffsetMap) : OffsetManager := insertAll m (tableIDVector m) 0 ∅

def OffsetManager.getStartOffset (o : OffsetManager) (tableID : Nat) : UInt64 :=
  (o.tableIDToStartOffset.lookup tableID).getD 0

/-- The id that the node at offset `i` of the table begins with. -/
def componentID (m : MaxOffsetMap) (tableID : Nat) (i : UInt64) : UInt64 :=
  i + (OffsetManager.ofMap m).getStartOffset tableID

def idRange (m : MaxOffsetMap) (tableID : Nat) : Set Nat :=
  Set.Ico ((OffsetManager.ofMap m).getStartOffset tableID).toNat
    (((OffsetManager.ofMap m).getStartOffset tableID).toNat + (m.maxOffset tableID).toNat)

/-- The ranges of two tables are disjoint, and no two of their nodes begin with the same id. -/
structure TablesApart (m : MaxOffsetMap) : Prop where
  ranges : ∀ s t, s ≠ t → idRange m s ∩ idRange m t = ∅
  ids : ∀ s t i j, s ≠ t → i < m.maxOffset s → j < m.maxOffset t → componentID m s i ≠ componentID m t j

def total (m : MaxOffsetMap) (tables : List Nat) : Nat :=
  (tables.map fun t => (m.maxOffset t).toNat).sum

/-! ## 2. Where a table begins -/

variable {m : MaxOffsetMap} {ids : List Nat} {k n t x : Nat}

theorem mem_idRange : x ∈ idRange m t ↔ ((OffsetManager.ofMap m).getStartOffset t).toNat ≤ x ∧
    x < ((OffsetManager.ofMap m).getStartOffset t).toNat + (m.maxOffset t).toNat := Iff.rfl

def sizesOf (m : MaxOffsetMap) : List Nat := (tableIDVector m).map fun t => (m.maxOffset t).toNat

theorem insertAll_lookup {offset : UInt32} {starts : AList fun _ : Nat => UInt64}
    (hnodup : ids.Nodup) : (t ∉ ids → (OffsetManager.insertAll m ids offset starts).getStartOffset t =
        (OffsetManager.mk starts).getStartOffset t) ∧
      (ids[k]? = some t → ((OffsetManager.insertAll m ids offset starts).getStartOffset t).toNat =
          (offset.toNat + total m (ids.take k)) % 2 ^ 32) := by
  induction ids generalizing offset starts k with
  | nil => exact ⟨fun _ => rfl, fun h => by cases h⟩
  | cons a ids ih =>
    obtain ⟨ha, hrest⟩ := nodup_cons.mp hnodup
    have hnext := @ih (k - 1) (offset.toUInt64 + m.maxOffset a).toUInt32
      (starts.insert a offset.toUInt64) hrest
    unfold OffsetManager.insertAll
    constructor
    · intro ht
      obtain ⟨hta, hout⟩ := not_or.mp (mem_cons.not.mp ht)
      rw [hnext.1 hout]
      unfold OffsetManager.getStartOffset
      rw [AList.lookup_insert_ne hta]
    · intro hk
      cases k with
      | zero =>
        cases hk
        rw [hnext.1 ha]
        unfold OffsetManager.getStartOffset
        rw [AList.lookup_insert, Option.getD_some, UInt32.toNat_toUInt64]
        exact (Nat.mod_eq_of_lt offset.toNat_lt).symm
      | succ k =>
        rw [hnext.2 hk, UInt64.toNat_toUInt32, UInt64.toNat_add, UInt32.toNat_toUInt64]
        show _ = (offset.toNat + ((m.maxOffset a).toNat + total m (ids.take k))) % 2 ^ 32
        show ((offset.toNat + (m.maxOffset a).toNat) % 2 ^ 64 % 2 ^ 32 + total m (ids.take k)) %
          2 ^ 32 = _
        omega

theorem tableIDVector_sorted (m : MaxOffsetMap) : (tableIDVector m).Pairwise (· < ·) := by
  have hle : (tableIDVector m).Pairwise (· ≤ ·) := pairwise_insertionSort (· ≤ ·) m.keys
  have hne : (tableIDVector m).Nodup :=
    (perm_insertionSort (· ≤ ·) m.keys).nodup_iff.mpr m.nodupKeys
  exact hle.imp₂ (fun a b hab hne => lt_of_le_of_ne hab hne) hne

theorem start_eq (h : (tableIDVector m)[k]? = some t) :
    ((OffsetManager.ofMap m).getStartOffset t).toNat = ((sizesOf m).take k).sum % 2 ^ 32 := by
  have hstart := (@insertAll_lookup m _ k t 0 ∅ (tableIDVector_sorted m).nodup).2 h
  unfold sizesOf
  rw [← map_take]
  exact hstart.trans (congrArg (· % 2 ^ 32) (Nat.zero_add _))

theorem filter_lt_of_sorted {pre post : List Nat} (h : (pre ++ t :: post).Pairwise (· < ·)) :
    (pre ++ t :: post).filter (· < t) = pre := by
  obtain ⟨-, hpost, hpre⟩ := pairwise_append.mp h
  rw [filter_append, filter_eq_self.mpr, filter_eq_nil_iff.mpr, append_nil]
  · intro a ha
    rcases mem_cons.mp ha with rfl | ha
    · simp
    · simpa using ((pairwise_cons.mp hpost).1 a ha).le
  · exact fun a ha => decide_eq_true (hpre a ha t mem_cons_self)

/-- The nodes of the tables in front of a table. -/
theorem total_below (h : (tableIDVector m)[k]? = some t) :
    total m (m.keys.filter (· < t)) = ((sizesOf m).take k).sum := by
  have hperm := ((perm_insertionSort (· ≤ ·) m.keys).filter (· < t)).map
    fun s => (m.maxOffset s).toNat
  obtain ⟨hk, hget⟩ := List.getElem?_eq_some_iff.mp h
  have hsplit : (tableIDVector m).take k ++ t :: (tableIDVector m).drop (k + 1) = tableIDVector m := by
    rw [← hget, ← drop_eq_getElem_cons hk, take_append_drop]
  have hfilter := filter_lt_of_sorted (hsplit.symm ▸ tableIDVector_sorted m)
  rw [hsplit] at hfilter
  unfold total sizesOf
  rw [← hperm.sum_nat, ← map_take, ← hfilter]
  rfl

theorem exists_index (h : 0 < m.maxOffset t) : ∃ k : Nat, (tableIDVector m)[k]? = some t ∧
    (sizesOf m)[k]? = some (m.maxOffset t).toNat := by
  have hmem : t ∈ m.keys := by
    by_contra hout
    unfold MaxOffsetMap.maxOffset at h
    rw [AList.lookup_eq_none.mpr fun hin => hout (AList.mem_keys.mp hin)] at h
    exact absurd h (by decide)
  obtain ⟨k, hk⟩ := mem_iff_getElem?.mp ((mem_insertionSort (· ≤ ·)).mpr hmem)
  refine ⟨k, hk, ?_⟩
  unfold sizesOf
  rw [getElem?_map, show (tableIDVector m)[k]? = some t from hk]
  rfl

theorem maxOffset_of_index (h : (sizesOf m)[k]? = some n) :
    ∃ s, (tableIDVector m)[k]? = some s ∧ (m.maxOffset s).toNat = n := by
  unfold sizesOf at h
  rw [getElem?_map] at h
  exact Option.map_eq_some_iff.mp h

/-! ## 3. Which ranges are apart -/

variable (m) in
/-- The tables are apart exactly when no table with nodes is behind 2^32 nodes of other tables. -/
theorem tablesApart_iff (hsum : total m m.keys < 2 ^ 64) : TablesApart m ↔
    ∀ t, 0 < m.maxOffset t → total m (m.keys.filter (· < t)) < 2 ^ 32 := by
  have hbounded : ∀ t, 0 < m.maxOffset t →
      ((OffsetManager.ofMap m).getStartOffset t).toNat + (m.maxOffset t).toNat < 2 ^ 64 := by
    intro t ht
    obtain ⟨k, hk, hn⟩ := exists_index ht
    have hstart := start_eq hk
    have hend := sum_take_succ hn
    have hmono := sum_take_mono (sizesOf m) (Nat.le_max_left (k + 1) (sizesOf m).length)
    have hall : ((sizesOf m).take (max (k + 1) (sizesOf m).length)).sum = total m m.keys := by
      rw [take_of_length_le (Nat.le_max_right _ _)]
      exact ((perm_insertionSort (· ≤ ·) m.keys).map fun s => (m.maxOffset s).toNat).sum_nat
    omega
  constructor
  · intro h t ht
    -- by induction on the position: a table that wraps starts inside one in front of it
    obtain ⟨k, hk, hn⟩ := exists_index ht
    rw [total_below hk]
    induction k using Nat.strongRecOn generalizing t with
    | ind k ih =>
      by_contra hwraps
      obtain ⟨j, n, i, hj, hnj, hi, hsame⟩ := exists_position (sizesOf m) k
        (((sizesOf m).take k).sum % 2 ^ 32) (by omega)
      obtain ⟨s, hs, rfl⟩ := maxOffset_of_index hnj
      have hpos := UInt64.lt_iff_toNat_lt.mp ht
      have hfirst := ih j hj s (UInt64.lt_iff_toNat_lt.mpr (show 0 < _ by omega)) hs hnj
      have hst : s ≠ t := by
        rintro rfl
        have hjk := sum_take_mono (sizesOf m) (Nat.succ_le_of_lt hj)
        rw [sum_take_succ hnj, ← total_below hs, total_below hk] at hjk
        omega
      refine Set.eq_empty_iff_forall_notMem.mp (h.ranges s t hst) (((sizesOf m).take j).sum + i)
        ⟨?_, ?_⟩
      · rw [mem_idRange, start_eq hs, Nat.mod_eq_of_lt hfirst]
        exact ⟨Nat.le_add_right _ i, Nat.add_lt_add_left hi _⟩
      · rw [mem_idRange, start_eq hk, hsame]
        exact ⟨le_rfl, Nat.lt_add_of_pos_right hpos⟩
  · intro h
    have hends : ∀ s t x, x ∈ idRange m s → x ∈ idRange m t → s = t := by
      intro s t x hxs hxt
      rw [mem_idRange] at hxs hxt
      have hs : 0 < m.maxOffset s := UInt64.lt_iff_toNat_lt.mpr (show 0 < _ by omega)
      have ht : 0 < m.maxOffset t := UInt64.lt_iff_toNat_lt.mpr (show 0 < _ by omega)
      obtain ⟨j, hj, hnj⟩ := exists_index hs
      obtain ⟨k, hk, hnk⟩ := exists_index ht
      have hbelow := h s hs
      have hbelow' := h t ht
      rw [total_below hj] at hbelow
      rw [total_below hk] at hbelow'
      rw [start_eq hj, Nat.mod_eq_of_lt hbelow] at hxs
      rw [start_eq hk, Nat.mod_eq_of_lt hbelow'] at hxt
      -- a smaller table ends before a larger one starts
      rcases Nat.lt_trichotomy j k with hjk | rfl | hkj
      · have hmono := sum_take_mono (sizesOf m) (Nat.succ_le_of_lt hjk)
        rw [sum_take_succ hnj] at hmono
        omega
      · exact Option.some.inj (hj.symm.trans hk)
      · have hmono := sum_take_mono (sizesOf m) (Nat.succ_le_of_lt hkj)
        rw [sum_take_succ hnk] at hmono
        omega
    refine ⟨fun s t hst => Set.eq_empty_iff_forall_notMem.mpr fun x hx => hst (hends s t x hx.1 hx.2), ?_⟩
    intro s t i j hst hi hj hsame
    have hin : ∀ t i, i < m.maxOffset t → (componentID m t i).toNat ∈ idRange m t := by
      intro t i hi
      have hlt := UInt64.lt_iff_toNat_lt.mp hi
      have hbound := hbounded t (UInt64.lt_iff_toNat_lt.mpr (show 0 < _ by omega))
      rw [mem_idRange]
      unfold componentID
      rw [UInt64.toNat_add, Nat.mod_eq_of_lt (by omega)]
      omega
    exact hst (hends s t _ (hin s i hi) (hsame ▸ hin t j hj))

def twoTables (n k : UInt64) : MaxOffsetMap := (∅ : MaxOffsetMap).insert 1 k |>.insert 0 n

theorem tablesApart_two : total (twoTables 3 2) (twoTables 3 2).keys < 2 ^ 64 ∧
    (TablesApart (twoTables 3 2) ↔ ∀ t, 0 < (twoTables 3 2).maxOffset t →
      total (twoTables 3 2) ((twoTables 3 2).keys.filter (· < t)) < 2 ^ 32) :=
  have hsum : total (twoTables 3 2) (twoTables 3 2).keys < 2 ^ 64 := by decide
  ⟨hsum, tablesApart_iff (twoTables 3 2) hsum⟩

/-- Behind 2^32 nodes the next table begins at 0 again. -/
theorem tables_collide : ¬ ∀ m, total m m.keys < 2 ^ 64 → TablesApart m := by
  intro h
  have hapart := h (twoTables 4294967296 1) (by decide)
  exact hapart.ids 0 1 0 0 (by decide) (by decide) (by decide) (by decide)

end Ladybug.Algo
