import Mathlib.Data.List.Basic

/-!
# Machines whose every run ends

A machine takes one of several steps at a time, each of which may be impossible.  It completes with a
property when no run is longer than some bound and every run that can go no further ends with the
property.
-/

namespace Ladybug

open List

section

variable {σ α : Type}

def Stuck (step : σ → α → Option σ) (s : σ) : Prop := ∀ a, step s a = none

/-- Whatever is chosen, the machine stops, and it stops with `Post`. -/
def Completes (step : σ → α → Option σ) (s : σ) (Post : σ → Prop) : Prop :=
  ∃ bound, ∀ (as : List α) (s' : σ), as.foldlM step s = some s' →
    as.length ≤ bound ∧ (Stuck step s' → Post s')

variable {step : σ → α → Option σ} {Post : σ → Prop} {as : List α} {s s' : σ}

theorem run_keeps (Inv : σ → Prop) (hstep : ∀ s a s', Inv s → step s a = some s' → Inv s')
    (h : Inv s) (hrun : as.foldlM step s = some s') : Inv s' := by
  induction as generalizing s with
  | nil =>
    cases hrun
    exact h
  | cons a as ih =>
    rw [foldlM_cons] at hrun
    cases hs : step s a with
    | none => rw [hs] at hrun; cases hrun
    | some s₁ =>
      rw [hs] at hrun
      exact ih (hstep s a s₁ h hs) hrun

theorem run_measure {Inv : σ → Prop} {measure : σ → Nat}
    (hstep : ∀ s a s', Inv s → step s a = some s' → Inv s' ∧ measure s' < measure s) (h : Inv s)
    (hrun : as.foldlM step s = some s') : as.length + measure s' ≤ measure s := by
  induction as generalizing s with
  | nil =>
    cases hrun
    exact Nat.le_of_eq (Nat.zero_add _)
  | cons a as ih =>
    rw [foldlM_cons] at hrun
    cases hs : step s a with
    | none => rw [hs] at hrun; cases hrun
    | some s₁ =>
      rw [hs] at hrun
      obtain ⟨hinv, hless⟩ := hstep s a s₁ h hs
      have hrest := ih hinv hrun
      rw [length_cons]
      omega

theorem completes_of_measure {Inv : σ → Prop} (measure : σ → Nat)
    (hstep : ∀ s a s', Inv s → step s a = some s' → Inv s' ∧ measure s' < measure s)
    (hstuck : ∀ s, Inv s → Stuck step s → Post s) {s : σ} (h : Inv s) : Completes step s Post := by
  refine ⟨measure s, fun as s' hrun => ⟨?_, ?_⟩⟩
  · have hlen := run_measure hstep h hrun
    omega
  · exact hstuck s' (run_keeps Inv (fun s a s' hs ha => (hstep s a s' hs ha).1) h hrun)

theorem Completes.and {Post' : σ → Prop} (h : Completes step s Post) (h' : Completes step s Post') :
    Completes step s fun s => Post s ∧ Post' s := by
  obtain ⟨bound, hbound⟩ := h
  obtain ⟨bound', hbound'⟩ := h'
  refine ⟨bound, fun as s' hrun => ⟨(hbound as s' hrun).1, fun hstuck => ?_⟩⟩
  exact ⟨(hbound as s' hrun).2 hstuck, (hbound' as s' hrun).2 hstuck⟩

theorem completes_of_stuck (hstuck : Stuck step s) (h : Post s) : Completes step s Post := by
  refine ⟨0, fun as s' hrun => ?_⟩
  cases as with
  | nil =>
    cases hrun
    exact ⟨Nat.le_refl 0, fun _ => h⟩
  | cons a as =>
    rw [foldlM_cons, hstuck a] at hrun
    cases hrun

theorem completes_of_step {a : α} (hstep : step s a = some s')
    (hsame : ∀ b s'', step s b = some s'' → s'' = s') (h : Completes step s' Post) :
    Completes step s Post := by
  obtain ⟨bound, hbound⟩ := h
  refine ⟨bound + 1, fun as t hrun => ?_⟩
  cases as with
  | nil =>
    cases hrun
    refine ⟨Nat.zero_le _, fun hstuck => ?_⟩
    rw [hstuck a] at hstep
    cases hstep
  | cons b as =>
    rw [foldlM_cons] at hrun
    cases hb : step s b with
    | none => rw [hb] at hrun; cases hrun
    | some s'' =>
      rw [hb, hsame b s'' hb] at hrun
      obtain ⟨hle, hpost⟩ := hbound as t hrun
      exact ⟨Nat.succ_le_succ hle, hpost⟩

theorem Completes.exists_final (h : Completes step s Post) :
    ∃ (as : List α) (s' : σ), as.foldlM step s = some s' ∧ Post s' := by
  obtain ⟨bound, hbound⟩ := h
  -- a run that can go on is shorter than the bound, so it can be made longer only so often
  have hrest : ∀ (n : Nat) (as : List α) (s' : σ), bound - as.length = n → as.foldlM step s = some s' →
      ∃ (as : List α) (s' : σ), as.foldlM step s = some s' ∧ Post s' := by
    intro n
    induction n with
    | zero =>
      intro as s' hn hrun
      apply Exists.intro as
      apply Exists.intro s'
      refine ⟨hrun, (hbound as s' hrun).2 fun a => ?_⟩
      by_contra hne
      obtain ⟨s₁, hs₁⟩ := Option.ne_none_iff_exists'.mp hne
      have hlong : (as ++ [a]).foldlM step s = some s₁ := by
        rw [foldlM_append, hrun]
        show [a].foldlM step s' = some s₁
        rw [foldlM_cons, hs₁]
        rfl
      have hlen := (hbound _ _ hlong).1
      rw [length_append, length_singleton] at hlen
      omega
    | succ n ih =>
      intro as s' hn hrun
      by_cases hstuck : Stuck step s'
      · exact ⟨as, s', hrun, (hbound as s' hrun).2 hstuck⟩
      · obtain ⟨a, ha⟩ := not_forall.mp hstuck
        obtain ⟨s₁, hs₁⟩ := Option.ne_none_iff_exists'.mp ha
        apply ih (as ++ [a]) s₁
        · rw [length_append, length_singleton]
          omega
        · rw [foldlM_append, hrun]
          show [a].foldlM step s' = some s₁
          rw [foldlM_cons, hs₁]
          rfl
  exact hrest bound [] s (by rw [length_nil, Nat.sub_zero]) rfl

end

end Ladybug
