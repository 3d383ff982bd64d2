import Mathlib.Data.Finset.Basic
import Mathlib.Order.Bounds.Basic

/-!
# Core numbers by peeling

`deg S v` counts the edges between `v` and the set `S`.  The core number of a node is the largest
`k` such that it is in a set each of whose nodes has degree at least `k` in the set.  Removing
nodes of degree at most `k` as long as there are any, for `k = 0, 1, ...`, removes every node at
its core number, whatever batches the nodes are removed in.
-/

namespace Ladybug

variable {V : Type} [DecidableEq V] {deg : Finset V → V → Nat} {nodes live gone : Finset V}
  {k m : Nat} {value value' : V → Nat} {v : V}

def Dense (deg : Finset V → V → Nat) (k : Nat) (S : Finset V) : Prop := ∀ v ∈ S, k ≤ deg S v

def InCore (deg : Finset V → V → Nat) (nodes : Finset V) (k : Nat) (v : V) : Prop :=
  ∃ S ⊆ nodes, v ∈ S ∧ Dense deg k S

def CoreNumber (deg : Finset V → V → Nat) (nodes : Finset V) (v : V) (k : Nat) : Prop :=
  IsGreatest {k | InCore deg nodes k v} k

omit [DecidableEq V] in
theorem Dense.mono {S : Finset V} (h : Dense deg m S) (hk : k ≤ m) : Dense deg k S :=
  fun v hv => hk.trans (h v hv)

/-- While the nodes of degree at most `k` are removed: the live nodes and the values given so
far. -/
structure Peeling (deg : Finset V → V → Nat) (nodes : Finset V) (k : Nat) (live : Finset V)
    (value : V → Nat) : Prop where
  sub : live ⊆ nodes
  keeps : ∀ S ⊆ nodes, Dense deg (k + 1) S → S ⊆ live
  core : ∀ v ∈ live, InCore deg nodes k v
  done : ∀ v ∈ nodes, v ∉ live → CoreNumber deg nodes v (value v)

omit [DecidableEq V] in
theorem Peeling.start (deg : Finset V → V → Nat) (nodes : Finset V) (value : V → Nat) :
    Peeling deg nodes 0 nodes value where
  sub := fun _ h => h
  keeps := fun _ hS _ => hS
  core := fun _ hv => ⟨nodes, fun _ h => h, hv, fun _ _ => Nat.zero_le _⟩
  done := fun _ hv hout => absurd hv hout

theorem Peeling.remove (hmono : ∀ S T v, S ⊆ T → deg S v ≤ deg T v)
    (h : Peeling deg nodes k live value) (hlow : ∀ v ∈ gone, deg live v ≤ k)
    (hvalue : ∀ v ∈ gone, value' v = k) (hkept : ∀ v, v ∉ live → value' v = value v) :
    Peeling deg nodes k (live \ gone) value' := by
  have hkeeps : ∀ S ⊆ nodes, Dense deg (k + 1) S → S ⊆ live \ gone := by
    intro S hS hdense v hv
    have hlive := h.keeps S hS hdense
    rw [Finset.mem_sdiff]
    refine ⟨hlive hv, fun hin => ?_⟩
    have hdeg := (hdense v hv).trans (hmono S live v hlive)
    have hle := hlow v hin
    omega
  refine ⟨fun v hv => h.sub (Finset.mem_sdiff.mp hv).1, hkeeps,
    fun v hv => h.core v (Finset.mem_sdiff.mp hv).1, ?_⟩
  intro v hv hout
  by_cases hlive : v ∈ live
  · -- removed just now: in the `k`-core, and in no denser set
    have hin : v ∈ gone := by
      by_contra hnot
      exact hout (Finset.mem_sdiff.mpr ⟨hlive, hnot⟩)
    rw [hvalue v hin]
    refine ⟨h.core v hlive, ?_⟩
    rintro m ⟨S, hS, hvS, hdense⟩
    by_contra hlt
    exact hout (hkeeps S hS (hdense.mono (by omega)) hvS)
  · rw [hkept v hlive]
    exact h.done v hv hlive

omit [DecidableEq V] in
theorem Peeling.next (h : Peeling deg nodes k live value) (hhigh : ∀ v ∈ live, k < deg live v) :
    Peeling deg nodes (k + 1) live value where
  sub := h.sub
  keeps := fun S hS hdense => h.keeps S hS (hdense.mono (Nat.le_succ _))
  core := fun _ hv => ⟨live, h.sub, hv, hhigh⟩
  done := h.done

end Ladybug
