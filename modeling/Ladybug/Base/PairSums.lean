import Mathlib.Data.Nat.Fib.Basic

/-!
# The running pair sum

A checksum of two words: each word of the input is added, with the older word of the pair, to the
newer one.  The pair after a run is a sum of the input with Fibonacci weights, so the input read
with every word doubled gives the same pair exactly when two weighted sums vanish.
-/

namespace Ladybug

section

variable {R : Type} [CommRing R]

def pairStep (s : R × R) (x : R) : R × R := (s.2, s.1 + x + s.2)

def pairRun (s : R × R) (xs : List R) : R × R := xs.foldl pairStep s

variable (s : R × R) (xs : List R)

theorem pairRun_append (ys : List R) :
    pairRun s (xs ++ ys) = pairRun (pairRun s xs) ys := List.foldl_append

/-- The sum of the words, the weight of each given by the number of words after it. -/
def weigh (w : Nat → R) : List R → R
  | [] => 0
  | x :: xs => w xs.length * x + weigh w xs

theorem weigh_sub (v w : Nat → R) (xs : List R) :
    weigh (fun k => v k - w k) xs = weigh v xs - weigh w xs := by
  induction xs with
  | nil => exact (sub_zero 0).symm
  | cons x xs ih =>
    show (v xs.length - w xs.length) * x + weigh (fun k => v k - w k) xs =
      v xs.length * x + weigh v xs - (w xs.length * x + weigh w xs)
    rw [ih]
    ring

def fibWeight (k : Nat) : R := (Nat.fib k : R)

theorem fibWeight_add_two (k : Nat) :
    (fibWeight (k + 2) : R) = fibWeight k + fibWeight (k + 1) := by
  unfold fibWeight
  rw [Nat.fib_add_two, Nat.cast_add]

theorem fibWeight_zero : (fibWeight 0 : R) = 0 := Nat.cast_zero

theorem fibWeight_one : (fibWeight 1 : R) = 1 := Nat.cast_one

theorem pairRun_snd :
    (pairRun s xs).2 = fibWeight xs.length * s.1 + fibWeight (xs.length + 1) * s.2 +
      weigh (fun k => fibWeight (k + 1)) xs := by
  induction xs generalizing s with
  | nil =>
    show s.2 = fibWeight 0 * s.1 + fibWeight 1 * s.2 + 0
    rw [fibWeight_zero, fibWeight_one]
    ring
  | cons x xs ih =>
    show (pairRun (pairStep s x) xs).2 = _
    rw [ih]
    show fibWeight xs.length * s.2 + fibWeight (xs.length + 1) * (s.1 + x + s.2) +
        weigh (fun k => fibWeight (k + 1)) xs =
      fibWeight (xs.length + 1) * s.1 + fibWeight (xs.length + 2) * s.2 +
        (fibWeight (xs.length + 1) * x + weigh (fun k => fibWeight (k + 1)) xs)
    rw [fibWeight_add_two]
    ring

theorem pairRun_fst {xs : List R} (hxs : xs ≠ []) :
    (pairRun s xs).1 = fibWeight (xs.length - 1) * s.1 + fibWeight xs.length * s.2 +
      weigh fibWeight xs := by
  induction xs generalizing s with
  | nil => exact absurd rfl hxs
  | cons x xs ih =>
    show (pairRun (pairStep s x) xs).1 = _
    cases xs with
    | nil =>
      show s.2 = fibWeight 0 * s.1 + fibWeight 1 * s.2 + (fibWeight 0 * x + 0)
      rw [fibWeight_zero, fibWeight_one]
      ring
    | cons y ys =>
      rw [ih (pairStep s x) (List.cons_ne_nil y ys)]
      show fibWeight ys.length * s.2 + fibWeight (ys.length + 1) * (s.1 + x + s.2) +
          weigh fibWeight (y :: ys) =
        fibWeight (ys.length + 1) * s.1 + fibWeight (ys.length + 2) * s.2 +
          (fibWeight (ys.length + 1) * x + weigh fibWeight (y :: ys))
      rw [fibWeight_add_two]
      ring

def doubled (xs : List R) : List R := xs.flatMap fun x => [x, x]

omit [CommRing R] in
theorem doubled_length : (doubled xs).length = 2 * xs.length := by
  induction xs with
  | nil => rfl
  | cons x xs ih =>
    show (doubled xs).length + 2 = 2 * (xs.length + 1)
    omega

theorem weigh_doubled (j : Nat) (xs : List R) : weigh (fun k => fibWeight (k + j)) (doubled xs) =
      weigh (fun k => fibWeight (2 * k + j + 2)) xs := by
  induction xs with
  | nil => rfl
  | cons x xs ih =>
    show fibWeight ((doubled xs).length + 1 + j) * x + (fibWeight ((doubled xs).length + j) * x +
          weigh (fun k => fibWeight (k + j)) (doubled xs)) =
      fibWeight (2 * xs.length + j + 2) * x + weigh (fun k => fibWeight (2 * k + j + 2)) xs
    rw [ih, doubled_length, fibWeight_add_two, Nat.add_right_comm (2 * xs.length) 1 j]
    ring

/-- How far the pair of the doubled words is from the pair of the words, as weighted sums. -/
def pairDrift (s : R × R) (xs : List R) : R × R :=
  let n := xs.length
  ((fibWeight (2 * n - 1) - fibWeight (n - 1)) * s.1 + (fibWeight (2 * n) - fibWeight n) * s.2 +
      weigh (fun k => fibWeight (2 * k + 2) - fibWeight k) xs,
    (fibWeight (2 * n) - fibWeight n) * s.1 + (fibWeight (2 * n + 1) - fibWeight (n + 1)) * s.2 +
      weigh (fun k => fibWeight (2 * k + 3) - fibWeight (k + 1)) xs)

theorem pairRun_doubled_snd :
    (pairRun s (doubled xs)).2 = (pairRun s xs).2 + (pairDrift s xs).2 := by
  rw [pairRun_snd, pairRun_snd, weigh_doubled, doubled_length]
  show _ = _ + ((fibWeight (2 * xs.length) - fibWeight xs.length) * s.1 +
    (fibWeight (2 * xs.length + 1) - fibWeight (xs.length + 1)) * s.2 +
    weigh (fun k => fibWeight (2 * k + 3) - fibWeight (k + 1)) xs)
  rw [weigh_sub]
  ring

theorem pairRun_doubled_fst :
    (pairRun s (doubled xs)).1 = (pairRun s xs).1 + (pairDrift s xs).1 := by
  cases xs with
  | nil =>
    show s.1 = s.1 + ((fibWeight 0 - fibWeight 0) * s.1 + (fibWeight 0 - fibWeight 0) * s.2 + 0)
    ring
  | cons x xs =>
    have hdoubled : doubled (x :: xs) ≠ [] := List.cons_ne_nil x _
    have hweigh := weigh_doubled 0 (x :: xs)
    rw [pairRun_fst s hdoubled, pairRun_fst s (List.cons_ne_nil x xs), doubled_length]
    show _ + weigh (fun k => fibWeight (k + 0)) (doubled (x :: xs)) = _ + (_ + _ +
      weigh (fun k => fibWeight (2 * k + 2) - fibWeight k) (x :: xs))
    rw [hweigh, weigh_sub]
    ring

theorem pairRun_doubled_iff : pairRun s (doubled xs) = pairRun s xs ↔ pairDrift s xs = (0, 0) := by
  rw [Prod.ext_iff, Prod.ext_iff, pairRun_doubled_fst, pairRun_doubled_snd]
  exact and_congr add_eq_left add_eq_left

end

end Ladybug
