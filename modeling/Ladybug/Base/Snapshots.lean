import Mathlib.Algebra.BigOperators.Group.Finset.Basic

/-!
# Transactions on a versioned table

A transaction reads the table as it was committed when it began, under its own writes.  A key that
another transaction has written, or that was committed with another value since the transaction began,
cannot be written (a write-write conflict).
-/

namespace Ladybug

open Function Finset

structure Txn (K V : Type) where
  snapshot : K → V
  writes : K → Option V

namespace Txn

variable {K V : Type} [DecidableEq K]

/-- The writes of a transaction on top of a table. -/
def overlay (t : Txn K V) (c : K → V) (k : K) : V := (t.writes k).getD (c k)

/-- What a transaction reads. -/
def view (t : Txn K V) (k : K) : V := t.overlay t.snapshot k

def write (t : Txn K V) (k : K) (v : V) : Txn K V :=
  { t with writes := update t.writes k (some v) }

theorem write_writes (t : Txn K V) (k k' : K) (v : V) :
    (t.write k v).writes k' = if k' = k then some v else t.writes k' :=
  update_apply t.writes k (some v) k'

theorem view_write (t : Txn K V) (k : K) (v : V) : (t.write k v).view = update t.view k v := by
  funext k'
  rw [update_apply]
  unfold view overlay
  rw [write_writes]
  by_cases hk : k' = k
  · rw [if_pos hk, if_pos hk]
    rfl
  · rw [if_neg hk, if_neg hk]
    rfl

theorem sum_write {M : Type} [AddCommMonoid M] (t : Txn K V) {S : Finset K} {k : K} (hk : k ∈ S)
    (v : V) (f : V → M) :
    ∑ j ∈ S, f ((t.write k v).view j) + f (t.view k) = ∑ j ∈ S, f (t.view j) + f v := by
  have hrest : ∑ j ∈ S.erase k, f ((t.write k v).view j) = ∑ j ∈ S.erase k, f (t.view j) := by
    apply sum_congr rfl
    intro j hj
    rw [view_write, update_of_ne (ne_of_mem_erase hj)]
  rw [← add_sum_erase S _ hk, ← add_sum_erase S (fun j => f (t.view j)) hk, hrest,
    view_write, update_self]
  ac_rfl

omit [DecidableEq K] in
theorem overlay_of_none {t : Txn K V} {c : K → V} {k : K} (h : t.writes k = none) :
    t.overlay c k = c k := by
  unfold overlay
  rw [h]
  rfl

omit [DecidableEq K] in
/-- A transaction changes a sum over the table by what it changes in its own view, if the keys that it
wrote have been left alone. -/
theorem sum_overlay_sub {M : Type} [AddCommGroup M] (t : Txn K V) {c : K → V}
    (h : ∀ k, t.writes k ≠ none → c k = t.snapshot k) (S : Finset K) (f : V → M) :
    ∑ k ∈ S, f (t.overlay c k) - ∑ k ∈ S, f (c k) =
      ∑ k ∈ S, f (t.view k) - ∑ k ∈ S, f (t.snapshot k) := by
  rw [← sum_sub_distrib, ← sum_sub_distrib]
  apply sum_congr rfl
  intro k _
  by_cases hk : t.writes k = none
  · unfold view
    rw [overlay_of_none hk, overlay_of_none hk, sub_self, sub_self]
  · obtain ⟨v, hv⟩ := Option.ne_none_iff_exists'.mp hk
    unfold view overlay
    rw [hv, h k hk]

end Txn

/-- The committed table, and the transactions that are active. -/
structure Snapshots (I K V : Type) where
  committed : K → V
  txns : I → Option (Txn K V)

namespace Snapshots

variable {I K V : Type} [DecidableEq I]

def start (s : Snapshots I K V) (i : I) : Snapshots I K V :=
  { s with txns := update s.txns i (some ⟨s.committed, fun _ => none⟩) }

/-- The transaction goes on as `t`. -/
def set (s : Snapshots I K V) (i : I) (t : Txn K V) : Snapshots I K V :=
  { s with txns := update s.txns i (some t) }

def commit (s : Snapshots I K V) (i : I) (t : Txn K V) : Snapshots I K V where
  committed := t.overlay s.committed
  txns := update s.txns i none

def rollback (s : Snapshots I K V) (i : I) : Snapshots I K V :=
  { s with txns := update s.txns i none }

/-- Nobody else has written the key since the transaction began. -/
def Writable (s : Snapshots I K V) (i : I) (t : Txn K V) (k : K) : Prop :=
  s.committed k = t.snapshot k ∧ ∀ j u, j ≠ i → s.txns j = some u → u.writes k = none

/-- Active transactions write different keys, and the committed values of these keys are still those of
their snapshots. -/
structure Isolated (s : Snapshots I K V) : Prop where
  own : ∀ i t, s.txns i = some t → ∀ k, t.writes k ≠ none → s.committed k = t.snapshot k
  apart : ∀ i j t u, i ≠ j → s.txns i = some t → s.txns j = some u →
    ∀ k, t.writes k ≠ none → u.writes k = none

variable {s : Snapshots I K V} {i : I} {t : Txn K V}

theorem set_txns (s : Snapshots I K V) (i j : I) (t : Txn K V) :
    (s.set i t).txns j = if j = i then some t else s.txns j :=
  update_apply s.txns i (some t) j

theorem start_txns (s : Snapshots I K V) (i j : I) :
    (s.start i).txns j = if j = i then some ⟨s.committed, fun _ => none⟩ else s.txns j :=
  update_apply s.txns i _ j

theorem rollback_txns (s : Snapshots I K V) (i j : I) :
    (s.rollback i).txns j = if j = i then none else s.txns j :=
  update_apply s.txns i none j

theorem commit_txns (s : Snapshots I K V) (i j : I) (t : Txn K V) :
    (s.commit i t).txns j = if j = i then none else s.txns j :=
  update_apply s.txns i none j

theorem Isolated.set (h : s.Isolated) (hsnap : s.txns i = some t) {t' : Txn K V}
    (hkept : t'.snapshot = t.snapshot)
    (hwrites : ∀ k, t'.writes k ≠ none → t.writes k ≠ none ∨ s.Writable i t k) :
    (s.set i t').Isolated := by
  have hown : ∀ k, t'.writes k ≠ none → s.committed k = t'.snapshot k ∧
      ∀ j u, j ≠ i → s.txns j = some u → u.writes k = none := by
    intro k hk
    rw [hkept]
    rcases hwrites k hk with hold | hnew
    · exact ⟨h.own i t hsnap k hold, fun j u hj hu => h.apart i j t u (Ne.symm hj) hsnap hu k hold⟩
    · exact hnew
  constructor
  · intro j u hu k hk
    rw [set_txns] at hu
    by_cases hj : j = i
    · rw [if_pos hj] at hu
      cases hu
      exact (hown k hk).1
    · rw [if_neg hj] at hu
      exact h.own j u hu k hk
  · intro j l u w hjl hu hw k hk
    rw [set_txns] at hu hw
    by_cases hj : j = i
    · rw [if_pos hj] at hu
      rw [if_neg (fun hl => hjl (hj.trans hl.symm))] at hw
      cases hu
      exact (hown k hk).2 l w (fun hl => hjl (hj.trans hl.symm)) hw
    · rw [if_neg hj] at hu
      by_cases hl : l = i
      · rw [if_pos hl] at hw
        cases hw
        -- a key of another transaction is not one that may be written
        by_contra hkw
        exact hk ((hown k hkw).2 j u hj hu)
      · rw [if_neg hl] at hw
        exact h.apart j l u w hjl hu hw k hk

theorem txns_start {i j : I} {u : Txn K V} (hu : (s.start i).txns j = some u) :
    j = i ∧ u = ⟨s.committed, fun _ => none⟩ ∨ s.txns j = some u := by
  rw [start_txns] at hu
  split_ifs at hu with hj
  · exact .inl ⟨hj, (Option.some.inj hu).symm⟩
  · exact .inr hu

theorem Isolated.start (h : s.Isolated) (i : I) : (s.start i).Isolated := by
  constructor
  · intro j u hu k hk
    obtain ⟨-, rfl⟩ | hu := txns_start hu
    · rfl
    · exact h.own j u hu k hk
  · intro j l u w hjl hu hw k hk
    obtain ⟨-, rfl⟩ | hw := txns_start hw
    · rfl
    obtain ⟨-, rfl⟩ | hu := txns_start hu
    · exact absurd rfl hk
    · exact h.apart j l u w hjl hu hw k hk

theorem Isolated.rollback (h : s.Isolated) (i : I) : (s.rollback i).Isolated := by
  have hleft : ∀ j u, (s.rollback i).txns j = some u → s.txns j = some u := by
    intro j u hu
    rw [rollback_txns] at hu
    by_cases hj : j = i
    · rw [if_pos hj] at hu
      exact absurd hu nofun
    · rw [if_neg hj] at hu
      exact hu
  constructor
  · exact fun j u hu => h.own j u (hleft j u hu)
  · exact fun j l u w hjl hu hw => h.apart j l u w hjl (hleft j u hu) (hleft l w hw)

theorem Isolated.commit (h : s.Isolated) (hi : s.txns i = some t) : (s.commit i t).Isolated := by
  have hleft : ∀ j u, (s.commit i t).txns j = some u → j ≠ i ∧ s.txns j = some u := by
    intro j u hu
    rw [commit_txns] at hu
    by_cases hj : j = i
    · rw [if_pos hj] at hu
      exact absurd hu nofun
    · rw [if_neg hj] at hu
      exact ⟨hj, hu⟩
  constructor
  · intro j u hu k hk
    obtain ⟨hj, hu⟩ := hleft j u hu
    show t.overlay s.committed k = u.snapshot k
    rw [Txn.overlay_of_none (h.apart j i u t hj hu hi k hk)]
    exact h.own j u hu k hk
  · exact fun j l u w hjl hu hw => h.apart j l u w hjl (hleft j u hu).2 (hleft l w hw).2

end Snapshots

end Ladybug
