import Mathlib.Algebra.GroupWithZero.Nat
import Mathlib.Data.Prod.Lex
import Mathlib.Order.WellFounded

/-!
# Loops with fuel

A loop that may run for ever returns an `Option`: `none` means that the fuel was not enough.  A
program halts with a result when every large enough amount of fuel gives this result.
-/

namespace Ladybug

open List Option

/-- Enough fuel gives `r`. -/
def Halts {ρ : Type} (run : Nat → Option ρ) (r : ρ) : Prop := ∃ k, ∀ f, k ≤ f → run f = some r

/-- No amount of fuel gives a result. -/
def Diverges {ρ : Type} (run : Nat → Option ρ) : Prop := ∀ f, run f = none

section

variable {σ ρ : Type}

theorem halts_const (r : ρ) : Halts (fun _ => some r) r := ⟨0, fun _ _ => rfl⟩

variable {r : ρ} {s : σ}

theorem Halts.unique {run : Nat → Option ρ} {r' : ρ} (h : Halts run r) (h' : Halts run r') :
    r = r' := by
  obtain ⟨k, hk⟩ := h
  obtain ⟨k', hk'⟩ := h'
  have heq := hk (max k k') (le_max_left k k')
  rw [hk' (max k k') (le_max_right k k')] at heq
  exact (Option.some.inj heq).symm

theorem Halts.not_diverges {run : Nat → Option ρ} (h : Halts run r) : ¬ Diverges run := by
  obtain ⟨k, hk⟩ := h
  intro hdiv
  have hsome := hk k le_rfl
  rw [hdiv k] at hsome
  cases hsome

theorem Halts.bind {run : Nat → Option σ} {next : Nat → σ → Option ρ} (h : Halts run s)
    (h' : Halts (fun f => next f s) r) : Halts (fun f => (run f).bind (next f)) r := by
  obtain ⟨k, hk⟩ := h
  obtain ⟨k', hk'⟩ := h'
  refine ⟨max k k', fun f hf => ?_⟩
  show (run f).bind (next f) = some r
  rw [hk f (by omega), bind_some]
  exact hk' f (by omega)

theorem Halts.map {run : Nat → Option σ} (h : Halts run s) (g : σ → ρ) :
    Halts (fun f => (run f).map g) (g s) := by
  obtain ⟨k, hk⟩ := h
  refine ⟨k, fun f hf => ?_⟩
  show (run f).map g = some (g s)
  rw [hk f hf, map_some]

end

section

variable {σ : Type}

/-- `while (cond) body`, for at most the given number of rounds. -/
def whileLoop (cond : σ → Bool) (body : σ → Option σ) : Nat → σ → Option σ
  | 0, _ => none
  | n + 1, s => if cond s then (body s).bind (whileLoop cond body n) else some s

variable {s s' : σ} {cond : σ → Bool} {n : Nat}

/-- Total correctness of a loop: every round halts, keeps the invariant and goes down a well-founded
relation. -/
theorem while_halts (cond : σ → Bool) (body : Nat → σ → Option σ) {R : σ → σ → Prop}
    (hwf : WellFounded R) (Inv : σ → Prop)
    (hstep : ∀ s, Inv s → cond s = true → ∃ s', Halts (fun f => body f s) s' ∧ Inv s' ∧ R s' s)
    (h : Inv s) :
    ∃ s', Halts (fun f => whileLoop cond (body f) f s) s' ∧ Inv s' ∧ cond s' = false := by
  -- the rounds and the fuel of the body are counted apart
  have hrun : ∀ s, Inv s → ∃ s' k, (∀ f n, k ≤ f → k ≤ n →
      whileLoop cond (body f) n s = some s') ∧ Inv s' ∧ cond s' = false := by
    intro s
    induction s using hwf.induction with
    | _ s ih =>
      intro hinv
      cases hcond : cond s with
      | false =>
        refine ⟨s, 1, fun f n _ hn => ?_, hinv, hcond⟩
        obtain ⟨m, rfl⟩ := Nat.exists_eq_add_of_le' hn
        unfold whileLoop
        rw [hcond]
        rfl
      | true =>
        obtain ⟨s₁, ⟨k₁, hk₁⟩, hinv₁, hR⟩ := hstep s hinv hcond
        obtain ⟨s', k, hk, hpost⟩ := ih s₁ hR hinv₁
        refine ⟨s', max k₁ k + 1, fun f n hf hn => ?_, hpost⟩
        obtain ⟨m, rfl⟩ := Nat.exists_eq_add_of_le' (show 1 ≤ n by omega)
        have hbody : body f s = some s₁ := hk₁ f (by omega)
        unfold whileLoop
        rw [hcond, if_pos rfl, hbody, bind_some]
        exact hk f m (by omega) (by omega)
  obtain ⟨s', k, hk, hpost⟩ := hrun s h
  exact ⟨s', ⟨k, fun f hf => hk f f hf hf⟩, hpost⟩

variable {body : σ → Option σ}

theorem while_inv (Inv : σ → Prop)
    (hstep : ∀ s s', Inv s → cond s = true → body s = some s' → Inv s') (h : Inv s)
    (hrun : whileLoop cond body n s = some s') : Inv s' := by
  induction n generalizing s with
  | zero => cases hrun
  | succ n ih =>
    unfold whileLoop at hrun
    split at hrun
    next hcond =>
      obtain ⟨s₁, hs₁, hrest⟩ := bind_eq_some_iff.mp hrun
      exact ih (hstep s s₁ h hcond hs₁) hrest
    · cases hrun
      exact h

theorem while_exit (hrun : whileLoop cond body n s = some s') : cond s' = false := by
  induction n generalizing s with
  | zero => cases hrun
  | succ n ih =>
    unfold whileLoop at hrun
    split at hrun
    · obtain ⟨s₁, -, hrest⟩ := bind_eq_some_iff.mp hrun
      exact ih hrest
    next hcond =>
      cases hrun
      exact Bool.eq_false_iff.mpr hcond

theorem while_never (Inv : σ → Prop) (hcond : ∀ s, Inv s → cond s = true)
    (hstep : ∀ s s', Inv s → body s = some s' → Inv s') (h : Inv s) (n : Nat) :
    whileLoop cond body n s = none := by
  cases hrun : whileLoop cond body n s with
  | none => rfl
  | some s' =>
    have hinv := while_inv Inv (fun s s' hs _ hbody => hstep s s' hs hbody) h hrun
    have hfalse := while_exit hrun
    rw [hcond s' hinv] at hfalse
    cases hfalse

theorem while_diverges (hcond : ∀ s, cond s = true) (n : Nat) (s : σ) :
    whileLoop cond body n s = none :=
  while_never (fun _ => True) (fun s _ => hcond s) (fun _ _ _ _ => trivial) trivial n

end

section

variable {σ α : Type}

theorem foldlM_halts (body : Nat → σ → α → Option σ) {items : List α} (Inv : List α → σ → Prop)
    (hstep : ∀ done x s, x ∈ items → Inv done s →
      ∃ s', Halts (fun f => body f s x) s' ∧ Inv (done ++ [x]) s')
    {s : σ} (h : Inv [] s) : ∃ s', Halts (fun f => items.foldlM (body f) s) s' ∧ Inv items s' := by
  have hrest : ∀ rest done s, (∀ x ∈ rest, x ∈ items) → Inv done s →
      ∃ s', Halts (fun f => rest.foldlM (body f) s) s' ∧ Inv (done ++ rest) s' := by
    intro rest
    induction rest with
    | nil =>
      intro done s _ hinv
      rw [append_nil]
      exact ⟨s, halts_const s, hinv⟩
    | cons x rest ih =>
      intro done s hmem hinv
      obtain ⟨s₁, hs₁, hinv₁⟩ := hstep done x s (hmem x mem_cons_self) hinv
      obtain ⟨s', hs', hinv'⟩ := ih (done ++ [x]) s₁
        (fun y hy => hmem y (mem_cons_of_mem x hy)) hinv₁
      rw [append_assoc, singleton_append] at hinv'
      refine ⟨s', ?_, hinv'⟩
      exact hs₁.bind hs'
  exact hrest items [] s (fun x hx => hx) h

theorem foldlM_none {body : σ → α → Option σ} {items : List α} {x : α} (hx : x ∈ items)
    (hnone : ∀ s, body s x = none) (s : σ) : items.foldlM body s = none := by
  induction items generalizing s with
  | nil => cases hx
  | cons y items ih =>
    rw [foldlM_cons]
    rcases mem_cons.mp hx with rfl | hin
    · rw [hnone]
      rfl
    · cases body s y with
      | none => rfl
      | some s' => exact ih hin s'

end

section

variable {σ : Type}

/-- `for (auto i = 0u; i < bound; ++i) body`: the counter has 32 bits, the bound may have more. -/
def forU32 (bound : Nat) (body : UInt32 → σ → Option σ) (fuel : Nat) (s : σ) : Option σ :=
  (whileLoop (fun t : UInt32 × σ => decide (t.1.toNat < bound))
    (fun t => (body t.1 t.2).map fun s => (t.1 + 1, s)) fuel (0, s)).map Prod.snd

variable {s : σ}

theorem forU32_halts {bound : Nat} (hbound : bound < 2 ^ 32) (body : Nat → UInt32 → σ → Option σ)
    (Inv : Nat → σ → Prop) (hstep : ∀ (i : UInt32) s, i.toNat < bound → Inv i.toNat s →
      ∃ s', Halts (fun f => body f i s) s' ∧ Inv (i.toNat + 1) s') (h : Inv 0 s) :
    ∃ s', Halts (fun f => forU32 bound (body f) f s) s' ∧ Inv bound s' := by
  obtain ⟨⟨i, s'⟩, hhalts, ⟨hle, hinv⟩, hdone⟩ := while_halts
    (fun t : UInt32 × σ => decide (t.1.toNat < bound))
    (fun f t => (body f t.1 t.2).map fun s => (t.1 + 1, s))
    (measure fun t : UInt32 × σ => bound - t.1.toNat).wf
    (fun t => t.1.toNat ≤ bound ∧ Inv t.1.toNat t.2)
    (fun t hinv hcond => by
      have hlt : t.1.toNat < bound := of_decide_eq_true hcond
      obtain ⟨s₁, hs₁, hinv₁⟩ := hstep t.1 t.2 hlt hinv.2
      -- below the bound the counter does not wrap
      have hnext : (t.1 + 1).toNat = t.1.toNat + 1 := by
        show (t.1.toNat + 1) % 2 ^ 32 = t.1.toNat + 1
        omega
      refine ⟨(t.1 + 1, s₁), hs₁.map _, ⟨?_, ?_⟩, ?_⟩
      · rw [hnext]
        exact hlt
      · rw [hnext]
        exact hinv₁
      · show bound - (t.1 + 1).toNat < bound - t.1.toNat
        omega)
    (s := (0, s)) ⟨Nat.zero_le bound, h⟩
  have hge : ¬ i.toNat < bound := of_decide_eq_false hdone
  have heq : i.toNat = bound := by
    have hle' : i.toNat ≤ bound := hle
    omega
  exact ⟨s', hhalts.map Prod.snd, heq ▸ hinv⟩

theorem forU32_diverges {bound : Nat} (hbound : 2 ^ 32 ≤ bound) (body : UInt32 → σ → Option σ)
    (fuel : Nat) (s : σ) : forU32 bound body fuel s = none := by
  have hcond : ∀ t : UInt32 × σ, decide (t.1.toNat < bound) = true := by
    intro t
    have hlt := t.1.toNat_lt
    exact decide_eq_true (by omega)
  unfold forU32
  rw [while_diverges hcond]
  rfl

theorem forU32_eq_foldl {bound fuel : Nat} {f : Nat → σ → σ} {s' : σ}
    (h : forU32 bound (fun i s => some (f i.toNat s)) fuel s = some s') :
    bound < 2 ^ 32 ∧ s' = (List.range bound).foldl (fun s i => f i s) s := by
  have hbound : bound < 2 ^ 32 := by
    apply Nat.lt_of_not_le
    intro hle
    rw [forU32_diverges hle] at h
    cases h
  refine ⟨hbound, ?_⟩
  obtain ⟨⟨i, s₁⟩, hrun, hs₁⟩ := map_eq_some_iff.mp h
  have hinv := while_inv (fun t : UInt32 × σ => t.1.toNat ≤ bound ∧
      t.2 = (List.range t.1.toNat).foldl (fun s i => f i s) s)
    (by
      intro t t' ht hcond hbody
      have hlt : t.1.toNat < bound := of_decide_eq_true hcond
      rw [← Option.some.inj hbody]
      have hnext : (t.1 + 1).toNat = t.1.toNat + 1 := by
        show (t.1.toNat + 1) % 2 ^ 32 = t.1.toNat + 1
        omega
      constructor
      · show (t.1 + 1).toNat ≤ bound
        omega
      · rw [hnext, range_succ, foldl_append, ← ht.2]
        rfl)
    (s := (0, s)) ⟨Nat.zero_le bound, rfl⟩ hrun
  have hexit := while_exit hrun
  have hge : ¬ i.toNat < bound := of_decide_eq_false hexit
  have heq : i.toNat = bound := by
    have hle : i.toNat ≤ bound := hinv.1
    omega
  rw [← hs₁, ← heq]
  exact hinv.2

end

end Ladybug
