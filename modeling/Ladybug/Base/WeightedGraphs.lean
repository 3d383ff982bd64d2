import Mathlib.Algebra.BigOperators.Field
import Mathlib.Algebra.Order.BigOperators.Group.Finset
import Mathlib.Data.List.AList
import Mathlib.Data.UInt

/-!
# Weighted graphs and their quotients

Weights on the pairs of the first `n` numbers, the graph of the classes of a labelling, and the
modularity of a labelling.
-/

namespace Ladybug.Weighted

open Finset

section

variable {M : Type} [AddCommMonoid M] {n k : ℕ} {w : ℕ → ℕ → M} {f : ℕ → ℕ} {c d : ℕ}

/-- The weight of all pairs of `u`. -/
def degree (n : ℕ) (w : ℕ → ℕ → M) (u : ℕ) : M := ∑ v ∈ range n, w u v

/-- All weights from the class `c` to the class `d`. -/
def quotient (n : ℕ) (w : ℕ → ℕ → M) (f : ℕ → ℕ) (c d : ℕ) : M :=
  ∑ u ∈ range n, ∑ v ∈ range n, if f u = c ∧ f v = d then w u v else 0

/-- Every number with a weight is in one of the first `k` classes. -/
def Labels (n : ℕ) (w : ℕ → ℕ → M) (f : ℕ → ℕ) (k : ℕ) : Prop :=
  ∀ u < n, f u < k ∨ ∀ v < n, w u v = 0 ∧ w v u = 0

theorem quotient_symm (hsymm : ∀ u < n, ∀ v < n, w u v = w v u) (c d : ℕ) :
    quotient n w f c d = quotient n w f d c := by
  unfold quotient
  rw [sum_comm]
  apply sum_congr rfl
  intro u hu
  apply sum_congr rfl
  intro v hv
  rw [mem_range] at hu hv
  rw [hsymm v hv u hu]
  exact if_congr and_comm rfl rfl

theorem degree_eq_zero {u : ℕ} (h : ∀ v < n, w u v = 0 ∧ w v u = 0) : degree n w u = 0 := by
  apply sum_eq_zero
  intro v hv
  rw [mem_range] at hv
  exact (h v hv).1

theorem degree_quotient (hf : Labels n w f k) (c : ℕ) :
    degree k (quotient n w f) c = ∑ u ∈ range n, if f u = c then degree n w u else 0 := by
  unfold degree quotient
  rw [sum_comm]
  apply sum_congr rfl
  intro u hu
  rw [mem_range] at hu
  rw [sum_comm]
  by_cases hc : f u = c
  · rw [if_pos hc]
    apply sum_congr rfl
    intro v hv
    rw [mem_range] at hv
    rcases hf v hv with hlt | hzero
    · rw [sum_eq_single_of_mem (f v) (mem_range.mpr hlt)]
      · rw [if_pos ⟨hc, rfl⟩]
      · intro d _ hne
        rw [if_neg fun h => hne h.2.symm]
    · rw [(hzero u hu).2]
      apply sum_eq_zero
      intro d _
      rw [ite_self]
  · rw [if_neg hc]
    apply sum_eq_zero
    intro v _
    apply sum_eq_zero
    intro d _
    rw [if_neg fun h => hc h.1]

theorem sum_classes {g : ℕ → M} (hg : ∀ u < n, f u < k ∨ g u = 0) :
    (∑ c ∈ range k, ∑ u ∈ range n, if f u = c then g u else 0) = ∑ u ∈ range n, g u := by
  rw [sum_comm]
  apply sum_congr rfl
  intro u hu
  rw [mem_range] at hu
  rcases hg u hu with hlt | hzero
  · rw [sum_eq_single_of_mem (f u) (mem_range.mpr hlt), if_pos rfl]
    intro c _ hne
    rw [if_neg hne.symm]
  · rw [hzero]
    apply sum_eq_zero
    intro c _
    rw [ite_self]

theorem Labels.degree (hf : Labels n w f k) : ∀ u < n, f u < k ∨ Weighted.degree n w u = 0 :=
  fun u hu => (hf u hu).imp_right degree_eq_zero

theorem total_quotient (hf : Labels n w f k) :
    ∑ c ∈ range k, degree k (quotient n w f) c = ∑ u ∈ range n, degree n w u := by
  have hsum := sum_classes (g := degree n w) hf.degree
  rw [← hsum]
  apply sum_congr rfl
  intro c _
  exact degree_quotient hf c

theorem sum_quotient_self (hf : Labels n w f k) : ∑ c ∈ range k, quotient n w f c c =
      ∑ u ∈ range n, ∑ v ∈ range n, if f u = f v then w u v else 0 := by
  unfold quotient
  rw [sum_comm]
  apply sum_congr rfl
  intro u hu
  rw [mem_range] at hu
  rw [sum_comm]
  apply sum_congr rfl
  intro v hv
  rw [mem_range] at hv
  rcases hf u hu with hlt | hzero
  · rw [sum_eq_single_of_mem (f u) (mem_range.mpr hlt)]
    · by_cases huv : f u = f v
      · rw [if_pos huv, if_pos ⟨rfl, huv.symm⟩]
      · rw [if_neg huv, if_neg fun h => huv h.2.symm]
    · intro c _ hne
      rw [if_neg fun h => hne h.1.symm]
  · rw [(hzero v hv).1, ite_self]
    apply sum_eq_zero
    intro c _
    rw [ite_self]

end

section

variable {α M : Type} [AddCommMonoid M] {n : ℕ} {key : α → ℕ} {val : α → M}

def sumOf (key : α → ℕ) (val : α → M) (l : List α) (v : ℕ) : M :=
  (l.map fun e => if key e = v then val e else 0).sum

theorem sum_by_key (val : α → M) (p : ℕ → Prop) [DecidablePred p] {l : List α} (hl : ∀ e ∈ l, key e < n) :
    (l.map fun e => if p (key e) then val e else 0).sum =
      ∑ v ∈ range n, if p v then sumOf key val l v else 0 := by
  induction l with
  | nil =>
    symm
    apply sum_eq_zero
    intro v _
    exact ite_self _
  | cons e l ih =>
    have hsplit : ∀ v, (if p v then sumOf key val (e :: l) v else 0) =
        (if v = key e then (if p v then val e else 0) else 0) +
          if p v then sumOf key val l v else 0 := by
      intro v
      unfold sumOf
      rw [List.map_cons, List.sum_cons]
      by_cases hp : p v
      · rw [if_pos hp, if_pos hp, if_pos hp]
        congr 1
        exact if_congr eq_comm rfl rfl
      · rw [if_neg hp, if_neg hp, if_neg hp, ite_self, zero_add]
    rw [List.map_cons, List.sum_cons, ih fun x hx => hl x (List.mem_cons_of_mem e hx)]
    rw [sum_congr rfl fun v _ => hsplit v, sum_add_distrib]
    congr 1
    rw [sum_ite_eq', if_pos (mem_range.mpr (hl e List.mem_cons_self))]

theorem sum_all_keys {l : List α} (hl : ∀ e ∈ l, key e < n) :
    (l.map val).sum = ∑ v ∈ range n, sumOf key val l v := by
  have h := sum_by_key val (fun _ => True) hl
  simpa only [if_true] using h

theorem sumOf_eq_zero {l : List α} {v : ℕ} (h : ∀ e ∈ l, key e ≠ v) : sumOf key val l v = 0 := by
  apply List.sum_eq_zero
  intro x hx
  obtain ⟨e, he, hex⟩ := List.mem_map.mp hx
  rw [← hex, if_neg (h e he)]

theorem sumOf_entries {γ : Type} (m : AList fun _ : ℕ => γ) (val : γ → M) (d : ℕ) :
    sumOf Sigma.fst (fun e => val e.2) m.entries d = ((m.lookup d).map val).getD 0 := by
  have hlist : ∀ l : List (Sigma fun _ : ℕ => γ), l.NodupKeys →
      sumOf Sigma.fst (fun e => val e.2) l d = ((l.dlookup d).map val).getD 0 := by
    intro l hl
    induction l with
    | nil => rfl
    | cons e l ih =>
      obtain ⟨c, x⟩ := e
      rw [List.nodupKeys_cons] at hl
      have hcons : sumOf Sigma.fst (fun e : Sigma fun _ : ℕ => γ => val e.2) (⟨c, x⟩ :: l) d =
          (if c = d then val x else 0) + sumOf Sigma.fst (fun e => val e.2) l d := rfl
      rw [hcons, ih hl.2]
      by_cases hcd : c = d
      · subst hcd
        have hnone : l.dlookup c = none := List.dlookup_eq_none.mpr hl.1
        rw [if_pos rfl, List.dlookup_cons_eq, hnone]
        exact add_zero (val x)
      · rw [if_neg hcd, zero_add, List.dlookup_cons_ne _ _ (Ne.symm hcd)]
  exact hlist m.entries m.nodupKeys

end

section

variable {n : ℕ}

theorem toNat_listSum {l : List UInt64} (h : (l.map UInt64.toNat).sum < 2 ^ 64) :
    l.sum.toNat = (l.map UInt64.toNat).sum := by
  induction l with
  | nil => rfl
  | cons x l ih =>
    rw [List.map_cons, List.sum_cons] at h
    rw [List.map_cons, List.sum_cons, List.sum_cons, UInt64.toNat_add, ih (by omega)]
    exact Nat.mod_eq_of_lt h

theorem toNat_sum {g : ℕ → UInt64} (h : ∑ u ∈ range n, (g u).toNat < 2 ^ 64) :
    (∑ u ∈ range n, g u).toNat = ∑ u ∈ range n, (g u).toNat := by
  induction n with
  | zero => rfl
  | succ n ih =>
    rw [sum_range_succ] at h
    rw [sum_range_succ, sum_range_succ, UInt64.toNat_add, ih (by omega)]
    exact Nat.mod_eq_of_lt h

theorem toNat_quotient {w : ℕ → ℕ → UInt64} {w' : ℕ → ℕ → ℕ} {f : ℕ → ℕ}
    (hw : ∀ u < n, ∀ v < n, (w u v).toNat = w' u v)
    (h : ∑ u ∈ range n, degree n w' u < 2 ^ 64) (c d : ℕ) :
    (quotient n w f c d).toNat = quotient n w' f c d := by
  have hpair : ∀ u < n, ∀ v < n, (if f u = c ∧ f v = d then w u v else 0).toNat =
      if f u = c ∧ f v = d then w' u v else 0 := by
    intro u hu v hv
    by_cases hcd : f u = c ∧ f v = d
    · rw [if_pos hcd, if_pos hcd, hw u hu v hv]
    · rw [if_neg hcd, if_neg hcd]
      rfl
  have hle : ∀ u, (∑ v ∈ range n, if f u = c ∧ f v = d then w' u v else 0) ≤ degree n w' u := by
    intro u
    apply sum_le_sum
    intro v _
    by_cases hcd : f u = c ∧ f v = d
    · rw [if_pos hcd]
    · rw [if_neg hcd]
      exact Nat.zero_le _
  have hall : ∑ u ∈ range n, (∑ v ∈ range n, if f u = c ∧ f v = d then w' u v else 0) < 2 ^ 64 :=
    lt_of_le_of_lt (sum_le_sum fun u _ => hle u) h
  have hrow : ∀ u < n, (∑ v ∈ range n, if f u = c ∧ f v = d then w u v else 0).toNat =
      ∑ v ∈ range n, if f u = c ∧ f v = d then w' u v else 0 := by
    intro u hu
    have hone : (∑ v ∈ range n, if f u = c ∧ f v = d then w' u v else 0) < 2 ^ 64 :=
      lt_of_le_of_lt (single_le_sum (f := fun u => ∑ v ∈ range n,
        if f u = c ∧ f v = d then w' u v else 0) (fun _ _ => Nat.zero_le _) (mem_range.mpr hu)) hall
    have hsame := sum_congr (rfl : range n = range n) fun v hv => hpair u hu v (mem_range.mp hv)
    rw [toNat_sum (by rw [hsame]; exact hone), hsame]
  have hsame := sum_congr (rfl : range n = range n) fun u hu => hrow u (mem_range.mp hu)
  unfold quotient
  rw [toNat_sum (by rw [hsame]; exact hall), hsame]

end

section

variable {n k : ℕ} {w : ℕ → ℕ → ℚ} {f : ℕ → ℕ} {total : ℚ}

/-- The share of the weights inside the classes, less what their degrees let expect. -/
def modularity (n : ℕ) (w : ℕ → ℕ → ℚ) (total : ℚ) (f : ℕ → ℕ) : ℚ :=
  (∑ u ∈ range n, ∑ v ∈ range n, if f u = f v then w u v else 0) / total -
    ∑ c ∈ (range n).image f, ((∑ u ∈ range n, if f u = c then degree n w u else 0) / total) ^ 2

theorem sum_class_squares (g : ℕ → ℚ) :
    ∑ c ∈ (range n).image f, (∑ u ∈ range n, if f u = c then g u else 0) ^ 2 =
      ∑ u ∈ range n, ∑ v ∈ range n, if f u = f v then g u * g v else 0 := by
  have hsquare : ∀ c, (∑ u ∈ range n, if f u = c then g u else 0) ^ 2 =
      ∑ u ∈ range n, if f u = c then g u * ∑ v ∈ range n, (if f v = c then g v else 0) else 0 := by
    intro c
    rw [pow_two, sum_mul]
    apply sum_congr rfl
    intro u _
    rw [ite_mul, zero_mul]
  rw [sum_congr rfl fun c _ => hsquare c, sum_comm]
  apply sum_congr rfl
  intro u hu
  rw [sum_ite_eq, if_pos (mem_image_of_mem f hu), mul_sum]
  apply sum_congr rfl
  intro v _
  rw [mul_ite, mul_zero]
  exact if_congr eq_comm rfl rfl

theorem modularity_congr {f' : ℕ → ℕ} (h : ∀ u < n, ∀ v < n, f u = f v ↔ f' u = f' v) :
    modularity n w total f = modularity n w total f' := by
  have hpairs : ∀ g : ℕ → ℕ → ℚ, (∑ u ∈ range n, ∑ v ∈ range n, if f u = f v then g u v else 0) =
      ∑ u ∈ range n, ∑ v ∈ range n, if f' u = f' v then g u v else 0 := by
    intro g
    apply sum_congr rfl
    intro u hu
    apply sum_congr rfl
    intro v hv
    rw [mem_range] at hu hv
    exact if_congr (h u hu v hv) rfl rfl
  unfold modularity
  rw [hpairs]
  simp only [div_pow]
  rw [← sum_div, ← sum_div, sum_class_squares, sum_class_squares, hpairs]

theorem modularity_weights {w' : ℕ → ℕ → ℚ} (h : ∀ u < n, ∀ v < n, w u v = w' u v) :
    modularity n w total f = modularity n w' total f := by
  have hdegree : ∀ u ∈ range n, degree n w u = degree n w' u := by
    intro u hu
    exact sum_congr rfl fun v hv => h u (mem_range.mp hu) v (mem_range.mp hv)
  unfold modularity
  congr 1
  · congr 1
    apply sum_congr rfl
    intro u hu
    apply sum_congr rfl
    intro v hv
    rw [h u (mem_range.mp hu) v (mem_range.mp hv)]
  · apply sum_congr rfl
    intro c _
    congr 2
    apply sum_congr rfl
    intro u hu
    rw [hdegree u hu]

theorem modularity_quotient (hf : Labels n w f k) (hused : ∀ c < k, ∃ u < n, f u = c) :
    modularity k (quotient n w f) total id = modularity n w total f := by
  unfold modularity
  congr 1
  · congr 1
    rw [← sum_quotient_self hf]
    apply sum_congr rfl
    intro c hc
    rw [sum_eq_single_of_mem c hc]
    · rw [if_pos rfl]
    · intro d _ hne
      rw [if_neg fun h : id c = id d => hne h.symm]
  · rw [image_id]
    have hsub : range k ⊆ (range n).image f := by
      intro c hc
      rw [mem_range] at hc
      obtain ⟨u, hu, huc⟩ := hused c hc
      exact mem_image.mpr ⟨u, mem_range.mpr hu, huc⟩
    -- the other classes have no weight
    rw [← sum_subset hsub]
    · apply sum_congr rfl
      intro c hc
      rw [sum_eq_single_of_mem c hc, if_pos (show id c = c from rfl), degree_quotient hf]
      intro d _ hne
      rw [if_neg (show ¬ id d = c from hne)]
    · intro c _ hc
      have hzero : (∑ u ∈ range n, if f u = c then degree n w u else 0) = 0 := by
        apply sum_eq_zero
        intro u hu
        rw [mem_range] at hu
        rcases hf.degree u hu with hlt | hzero
        · rw [if_neg]
          intro hfu
          rw [hfu] at hlt
          exact hc (mem_range.mpr hlt)
        · rw [hzero, ite_self]
      rw [hzero, zero_div, zero_pow two_ne_zero]

end

end Ladybug.Weighted
