import Mathlib.Data.List.Nodup

/-!
# Writing one entry after another

A loop that writes entries of an array, as a fold of `update`.
-/

namespace Ladybug

open List Function

variable {κ β : Type} [DecidableEq κ]

def writeAll (f : κ → β) (entries : List (κ × β)) : κ → β :=
  entries.foldl (fun f e => update f e.1 e.2) f

@[simp] theorem writeAll_cons (f : κ → β) (e : κ × β) (entries : List (κ × β)) :
    writeAll f (e :: entries) = writeAll (update f e.1 e.2) entries := rfl

variable {entries : List (κ × β)}

theorem writeAll_of_notMem {k : κ} (h : k ∉ entries.map Prod.fst) (f : κ → β) :
    writeAll f entries k = f k := by
  induction entries generalizing f with
  | nil => rfl
  | cons e entries ih =>
    rw [map_cons, mem_cons, not_or] at h
    rw [writeAll_cons, ih h.2, update_of_ne h.1]

theorem writeAll_of_mem (hnodup : (entries.map Prod.fst).Nodup) {e : κ × β} (he : e ∈ entries)
    (f : κ → β) : writeAll f entries e.1 = e.2 := by
  induction entries generalizing f with
  | nil => cases he
  | cons e' entries ih =>
    rw [map_cons, nodup_cons] at hnodup
    rw [writeAll_cons]
    rcases mem_cons.mp he with rfl | hin
    · rw [writeAll_of_notMem hnodup.1, update_self]
    · exact ih hnodup.2 hin _

theorem map_writeAll (hnodup : (entries.map Prod.fst).Nodup) (f : κ → β) :
    (entries.map Prod.fst).map (writeAll f entries) = entries.map Prod.snd := by
  rw [map_map]
  apply map_congr_left
  intro e he
  exact writeAll_of_mem hnodup he f

end Ladybug
