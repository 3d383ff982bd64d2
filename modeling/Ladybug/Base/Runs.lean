import Ladybug.Base.Bytes
import Mathlib.Data.List.Nodup

/-!
# Loops and runs

Induction rules for a loop over a list of work items and for a machine that takes step after step.
-/

namespace Ladybug

open List

variable {α σ ε β : Type} {s s' : σ}

section

variable {items done rest : List α} {x : α} (hitems : items = done ++ x :: rest)
include hitems

theorem mem_of_split : x ∈ items := by
  rw [hitems]
  exact mem_append_right done mem_cons_self

theorem not_mem_of_split (hnodup : items.Nodup) : x ∉ done := by
  intro hin
  rw [hitems] at hnodup
  exact (nodup_append.mp hnodup).2.2 x hin x mem_cons_self rfl

end

/-- A loop over distinct items: an invariant of the items done, kept by every round, holds of all
items at the end, and no round fails. -/
theorem foldlM_invariant {step : σ → α → Except ε σ} {items : List α} (Inv : List α → σ → Prop)
    (hnodup : items.Nodup)
    (hstep : ∀ done s x, Inv done s → (∀ y ∈ done, y ∈ items) → x ∈ items → x ∉ done →
      ∃ s', step s x = .ok s' ∧ Inv (done ++ [x]) s') (h : Inv [] s) :
    ∃ s', items.foldlM step s = .ok s' ∧ Inv items s' := by
  have hrest : ∀ rest done s, items = done ++ rest → Inv done s →
      ∃ s', rest.foldlM step s = .ok s' ∧ Inv items s' := by
    intro rest
    induction rest with
    | nil =>
      intro done s hitems hinv
      rw [append_nil] at hitems
      exact ⟨s, rfl, hitems ▸ hinv⟩
    | cons x rest ih =>
      intro done s hitems hinv
      have hx : x ∈ items := mem_of_split hitems
      have hsub : ∀ y ∈ done, y ∈ items := by
        intro y hy
        rw [hitems]
        exact mem_append_left _ hy
      have hnew := not_mem_of_split hitems hnodup
      obtain ⟨s₁, hs₁, hinv₁⟩ := hstep done s x hinv hsub hx hnew
      obtain ⟨s', hrun, hinv'⟩ := ih (done ++ [x]) s₁
        (by rw [hitems, append_assoc, singleton_append]) hinv₁
      refine ⟨s', ?_, hinv'⟩
      rw [foldlM_cons, hs₁]
      exact hrun
  exact hrest items [] s rfl h

theorem foldlM_ok_invariant {step : σ → α → Except ε σ} {items : List α} (Inv : List α → σ → Prop)
    (hnodup : items.Nodup)
    (hstep : ∀ done s x s', Inv done s → x ∈ items → x ∉ done → step s x = .ok s' →
      Inv (done ++ [x]) s') (hrun : items.foldlM step s = .ok s') (h : Inv [] s) :
    Inv items s' := by
  have hrest : ∀ rest done s, items = done ++ rest → Inv done s →
      rest.foldlM step s = .ok s' → Inv items s' := by
    intro rest
    induction rest with
    | nil =>
      intro done s hitems hinv hrun
      cases hrun
      rwa [hitems, append_nil]
    | cons x rest ih =>
      intro done s hitems hinv hrun
      rw [foldlM_cons] at hrun
      obtain ⟨s₁, hs, hrun⟩ := bind_eq_ok.mp hrun
      apply ih (done ++ [x]) s₁ _ (hstep done s x s₁ hinv (mem_of_split hitems)
        (not_mem_of_split hitems hnodup) hs) hrun
      rw [hitems, append_assoc, singleton_append]
  exact hrest items [] s rfl h hrun

/-- A loop whose rounds succeed exactly on the items with `P`: it comes to its end, or it stops at
the first item without. -/
theorem foldlM_stops {α σ ε : Type} {step : σ → α → Except ε σ} {items : List α}
    (Inv : List α → σ → Prop) (P : α → Prop) (hnodup : items.Nodup)
    (hok : ∀ done s x, Inv done s → x ∈ items → x ∉ done → P x →
      ∃ s', step s x = .ok s' ∧ Inv (done ++ [x]) s')
    (hfail : ∀ done s x, Inv done s → x ∈ items → x ∉ done → ¬ P x → ∃ e, step s x = .error e)
    {s : σ} (h : Inv [] s) :
    ((∀ x ∈ items, P x) ∧ ∃ s', items.foldlM step s = .ok s' ∧ Inv items s') ∨
      ∃ done x rest s' e, items = done ++ x :: rest ∧ (x ∈ items ∧ x ∉ done) ∧
        (∀ y ∈ done, P y) ∧ ¬ P x ∧ items.foldlM step s = .error e ∧ Inv done s' ∧
        step s' x = .error e := by
  have hrest : ∀ rest done s, items = done ++ rest → (∀ y ∈ done, P y) → Inv done s →
      ((∀ x ∈ items, P x) ∧ ∃ s', rest.foldlM step s = .ok s' ∧ Inv items s') ∨
        ∃ done' x rest' s' e, items = done' ++ x :: rest' ∧ (x ∈ items ∧ x ∉ done') ∧
          (∀ y ∈ done', P y) ∧ ¬ P x ∧ rest.foldlM step s = .error e ∧ Inv done' s' ∧
          step s' x = .error e := by
    intro rest
    induction rest with
    | nil =>
      intro done s hitems hdone hinv
      rw [append_nil] at hitems
      rw [hitems]
      exact .inl ⟨hdone, s, rfl, hinv⟩
    | cons x rest ih =>
      intro done s hitems hdone hinv
      have hnew := not_mem_of_split hitems hnodup
      have hx : x ∈ items := mem_of_split hitems
      rw [foldlM_cons]
      by_cases hP : P x
      · obtain ⟨s₁, hs₁, hinv₁⟩ := hok done s x hinv hx hnew hP
        rw [hs₁]
        apply ih (done ++ [x]) s₁ _ _ hinv₁
        · rw [hitems, append_assoc, singleton_append]
        · intro y hy
          rcases mem_append.mp hy with hin | hin
          · exact hdone y hin
          · rw [mem_singleton.mp hin]
            exact hP
      · obtain ⟨e, he⟩ := hfail done s x hinv hx hnew hP
        rw [he]
        exact .inr ⟨done, x, rest, s, e, hitems, ⟨hx, hnew⟩, hdone, hP, rfl, hinv, he⟩
  exact hrest items [] s rfl (fun _ hy => absurd hy not_mem_nil) h

theorem foldlM_keeps {step : σ → α → Except ε σ} (f : σ → β)
    (hstep : ∀ s x s', step s x = .ok s' → f s' = f s) {items : List α}
    (h : items.foldlM step s = .ok s') : f s' = f s := by
  induction items generalizing s with
  | nil =>
    cases h
    rfl
  | cons x items ih =>
    rw [foldlM_cons] at h
    obtain ⟨s₁, hs, h⟩ := bind_eq_ok.mp h
    exact (ih h).trans (hstep s x s₁ hs)

theorem foldl_keeps {step : σ → α → σ} (f : σ → β) (hstep : ∀ s x, f (step s x) = f s)
    (items : List α) (s : σ) : f (items.foldl step s) = f s := by
  induction items generalizing s with
  | nil => rfl
  | cons x items ih => rw [foldl_cons, ih, hstep]

/-- What holds where a computation fails, and where it succeeds. -/
def Ends (P : ε → Prop) (Q : α → Prop) : Except ε α → Prop
  | .error e => P e
  | .ok a => Q a

variable {P : ε → Prop} {Q : σ → Prop}

theorem Ends.bind {R : α → Prop} {x : Except ε α} {f : α → Except ε σ} (h : Ends P R x)
    (hf : ∀ a, R a → Ends P Q (f a)) : Ends P Q (x >>= f) := by
  cases x with
  | error e => exact h
  | ok a => exact hf a h

theorem foldlM_ends {step : σ → α → Except ε σ} {items : List α}
    (hstep : ∀ x ∈ items, ∀ s, Q s → Ends P Q (step s x)) (h : Q s) : Ends P Q (items.foldlM step s) := by
  induction items generalizing s with
  | nil => exact h
  | cons x items ih =>
    rw [foldlM_cons]
    exact (hstep x mem_cons_self s h).bind fun _ => ih fun y hy => hstep y (mem_cons_of_mem _ hy)

inductive Reaches {σ α : Type} (step : σ → α → σ) (Allowed : σ → α → Prop) (s₀ : σ) : σ → Prop where
  | start : Reaches step Allowed s₀ s₀
  | step {s : σ} {a : α} : Reaches step Allowed s₀ s → Allowed s a →
      Reaches step Allowed s₀ (step s a)

theorem Reaches.invariant {step : σ → α → σ} {Allowed : σ → α → Prop} {s₀ : σ} {Inv : σ → Prop}
    (h : Reaches step Allowed s₀ s) (hstart : Inv s₀)
    (hstep : ∀ s a, Inv s → Allowed s a → Inv (step s a)) : Inv s := by
  induction h with
  | start => exact hstart
  | step _ ha ih => exact hstep _ _ ih ha

end Ladybug
