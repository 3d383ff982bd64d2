import Ladybug.Base.Loops

/-!
# Loops over blocks

An array is read in blocks of a width with a counter of 32 bits, and what is left of it one element at
a time.
-/

namespace Ladybug

variable {σ : Type}

def blockLoop (width : Nat) (bound : UInt32) (body : Nat → σ → σ) (fuel : Nat) (s : σ) :
    Option (UInt32 × σ) :=
  whileLoop (fun t : UInt32 × σ => decide (t.1 + UInt32.ofNat width ≤ bound))
    (fun t => some (t.1 + UInt32.ofNat width, body t.1.toNat t.2)) fuel (0, s)

def restLoop (bound : UInt32) (body : Nat → σ → σ) (fuel : Nat) (i : UInt32) (s : σ) : Option σ :=
  (whileLoop (fun t : UInt32 × σ => decide (t.1 < bound))
    (fun t => some (t.1 + 1, body t.1.toNat t.2)) fuel (i, s)).map Prod.snd

section

variable {width : Nat} {bound : UInt32}

theorem toNat_add_width (i : UInt32) (hwidth : width < 2 ^ 32) :
    (i + UInt32.ofNat width).toNat = (i.toNat + width) % 2 ^ 32 := by
  rw [UInt32.toNat_add, UInt32.toNat_ofNat', Nat.mod_eq_of_lt hwidth]

theorem blockLoop_halts (hwidth : 0 < width) (hroom : bound.toNat + width < 2 ^ 32)
    (body : Nat → σ → σ) (s : σ) :
    ∃ i : UInt32, i.toNat = width * (bound.toNat / width) ∧ Halts (blockLoop width bound body · s)
      (i, (List.range (bound.toNat / width)).foldl (fun s j => body (width * j) s) s) := by
  have hstep : ∀ i : UInt32, i.toNat ≤ bound.toNat →
      (i + UInt32.ofNat width).toNat = i.toNat + width := by
    intro i hi
    rw [toNat_add_width i (by omega)]
    exact Nat.mod_eq_of_lt (by omega)
  obtain ⟨⟨i, s'⟩, hhalts, ⟨n, hi, hle, hs'⟩, hdone⟩ := while_halts
    (fun t : UInt32 × σ => decide (t.1 + UInt32.ofNat width ≤ bound))
    (fun _ t => some (t.1 + UInt32.ofNat width, body t.1.toNat t.2))
    (measure fun t : UInt32 × σ => bound.toNat - t.1.toNat).wf
    (fun t => ∃ n, t.1.toNat = width * n ∧ width * n ≤ bound.toNat ∧
      t.2 = (List.range n).foldl (fun s j => body (width * j) s) s)
    (fun t hinv hcond => by
      obtain ⟨n, hi, hle, ht⟩ := hinv
      have hnext := hstep t.1 (hi ▸ hle)
      have hfits : (t.1 + UInt32.ofNat width).toNat ≤ bound.toNat := of_decide_eq_true hcond
      have hblock : width * (n + 1) = width * n + width := Nat.mul_succ width n
      refine ⟨_, halts_const _, ⟨n + 1, ?_, ?_, ?_⟩, ?_⟩
      · show (t.1 + UInt32.ofNat width).toNat = width * (n + 1)
        omega
      · omega
      · rw [List.range_succ, List.foldl_append, ← ht, hi]
        rfl
      · show bound.toNat - (t.1 + UInt32.ofNat width).toNat < bound.toNat - t.1.toNat
        omega)
    (s := (0, s)) ⟨0, (Nat.mul_zero width).symm, Nat.zero_le _, rfl⟩
  replace hi : i.toNat = width * n := hi
  have hnext := hstep i (hi ▸ hle)
  have hlast : ¬ (i + UInt32.ofNat width).toNat ≤ bound.toNat := of_decide_eq_false hdone
  have hn : bound.toNat / width = n := by
    apply (Nat.div_eq_iff hwidth).mpr
    rw [Nat.mul_comm n width]
    omega
  rw [hn]
  exact ⟨i, hi, hs' ▸ hhalts⟩

theorem blockLoop_diverges (hdvd : width ∣ 2 ^ 32) (hlt : width < 2 ^ 32)
    (hbound : 2 ^ 32 ≤ bound.toNat + width) (body : Nat → σ → σ) (s : σ) :
    Diverges (blockLoop width bound body · s) := by
  apply while_never (fun t : UInt32 × σ => width ∣ t.1.toNat)
  · intro t ht
    have hnext : (t.1 + UInt32.ofNat width).toNat = _ := toNat_add_width t.1 hlt
    have hdvd' : width ∣ (t.1 + UInt32.ofNat width).toNat := by
      rw [hnext]
      exact (Nat.dvd_mod_iff hdvd).mpr (Nat.dvd_add ht (Nat.dvd_refl width))
    have hless := (t.1 + UInt32.ofNat width).toNat_lt
    -- the greatest multiple of the width in 32 bits
    have hle : (t.1 + UInt32.ofNat width).toNat + width ≤ 2 ^ 32 := by
      obtain ⟨k, hk⟩ := hdvd'
      obtain ⟨m, hm⟩ := hdvd
      rw [hk, hm] at hless ⊢
      exact Nat.mul_le_mul_left width (Nat.lt_of_mul_lt_mul_left hless)
    apply decide_eq_true
    show (t.1 + UInt32.ofNat width).toNat ≤ bound.toNat
    omega
  · intro t t' ht hbody
    rw [← Option.some.inj hbody]
    rw [toNat_add_width t.1 hlt]
    exact (Nat.dvd_mod_iff hdvd).mpr (Nat.dvd_add ht (Nat.dvd_refl width))
  · exact Nat.dvd_zero width

end

theorem restLoop_halts {bound : UInt32} (body : Nat → σ → σ) {i : UInt32} (hi : i.toNat ≤ bound.toNat)
    (s : σ) : Halts (restLoop bound body · i s)
      ((List.range' i.toNat (bound.toNat - i.toNat)).foldl (fun s j => body j s) s) := by
  obtain ⟨⟨k, s'⟩, hhalts, ⟨hle, hge, hs'⟩, hdone⟩ := while_halts
    (fun t : UInt32 × σ => decide (t.1 < bound))
    (fun _ t => some (t.1 + 1, body t.1.toNat t.2))
    (measure fun t : UInt32 × σ => bound.toNat - t.1.toNat).wf
    (fun t => t.1.toNat ≤ bound.toNat ∧ i.toNat ≤ t.1.toNat ∧
      t.2 = (List.range' i.toNat (t.1.toNat - i.toNat)).foldl (fun s j => body j s) s)
    (fun t hinv hcond => by
      obtain ⟨hle, hge, ht⟩ := hinv
      have hlt : t.1.toNat < bound.toNat := of_decide_eq_true hcond
      have hbound := bound.toNat_lt
      have hnext : (t.1 + 1).toNat = t.1.toNat + 1 := by
        show (t.1.toNat + 1) % 2 ^ 32 = t.1.toNat + 1
        omega
      refine ⟨_, halts_const _, ⟨?_, ?_, ?_⟩, ?_⟩
      · show (t.1 + 1).toNat ≤ bound.toNat
        omega
      · show i.toNat ≤ (t.1 + 1).toNat
        omega
      · have hcount : (t.1 + 1).toNat - i.toNat = t.1.toNat - i.toNat + 1 := by omega
        have hlast : i.toNat + (t.1.toNat - i.toNat) = t.1.toNat := by omega
        rw [hcount, List.range'_concat, List.foldl_append, ← ht, Nat.one_mul, hlast]
        rfl
      · show bound.toNat - (t.1 + 1).toNat < bound.toNat - t.1.toNat
        omega)
    (s := (i, s)) ⟨hi, Nat.le_refl _, by rw [Nat.sub_self]; rfl⟩
  have hlast : ¬ k.toNat < bound.toNat := of_decide_eq_false hdone
  have heq : k.toNat = bound.toNat := by
    replace hle : k.toNat ≤ bound.toNat := hle
    omega
  rw [← heq, ← hs']
  exact hhalts.map Prod.snd

end Ladybug
