import Mathlib.Data.List.Basic
import Mathlib.Tactic.Ring
import Mathlib.Tactic.NormNum
import Mathlib.Data.Nat.ModEq

/-!
# Bytes — checked reads and big-endian words

A buffer is a list of bytes.  Every read is checked: a read past the end of its buffer stops the
computation with `Stop.outOfRange`, so a theorem that a function returns `Except.ok` also says
that it read nothing outside its buffers.  The rest of the file is the arithmetic of big-endian
words that codecs over such buffers rest on.
-/

namespace Ladybug

open List

abbrev Bytes := List UInt8

/-- Why a computation over buffers ended early. -/
inductive Stop where
  /-- The code reported this message and returned. -/
  | error (msg : String)
  /-- A read outside the buffer it addresses. -/
  | outOfRange
  /-- A container was asked for more elements than it can get. -/
  | lengthError
  /-- A loop ran past the bound on its iterations. -/
  | diverged
  deriving DecidableEq

theorem bind_eq_ok {ε α β : Type} {x : Except ε α} {f : α → Except ε β} {b : β} :
    x >>= f = .ok b ↔ ∃ a, x = .ok a ∧ f a = .ok b := by
  constructor
  · intro h
    cases x with
    | error e => cases h
    | ok a => exact ⟨a, rfl, h⟩
  · rintro ⟨a, rfl, h⟩
    exact h

section

variable {ε α : Type} {c : Prop} [Decidable c] {e : ε} {x : Except ε α} {a : α}

theorem guard_eq_ok : (if c then .error e else x) = .ok a ↔ ¬ c ∧ x = .ok a := by
  by_cases hc : c
  · simp [hc]
  · simp [hc]

theorem guard_else_eq_ok : (if c then x else .error e) = .ok a ↔ c ∧ x = .ok a := by
  by_cases hc : c
  · simp [hc]
  · simp [hc]

end

/-- A loop that may stop at any item comes to its end when no item stops it. -/
theorem foldlM_eq_ok {ε α σ : Type} {body : σ → α → Except ε σ} {Good : α → Prop}
    {step : σ → α → σ} {items : List α}
    (h : ∀ s, ∀ x ∈ items, ∀ s', body s x = .ok s' ↔ Good x ∧ step s x = s') {s s' : σ} :
    items.foldlM body s = .ok s' ↔ (∀ x ∈ items, Good x) ∧ items.foldl step s = s' := by
  induction items generalizing s with
  | nil =>
    show Except.ok s = .ok s' ↔ _
    rw [Except.ok.injEq, foldl_nil]
    exact (and_iff_right fun x hx => absurd hx not_mem_nil).symm
  | cons x items ih =>
    have hrest := @ih fun s y hy => h s y (mem_cons_of_mem x hy)
    rw [foldlM_cons, bind_eq_ok, forall_mem_cons, foldl_cons, and_assoc, ← hrest]
    constructor
    · rintro ⟨s₁, hbody, hrun⟩
      obtain ⟨hgood, rfl⟩ := (h s x mem_cons_self s₁).mp hbody
      exact ⟨hgood, hrun⟩
    · rintro ⟨hgood, hrun⟩
      exact ⟨step s x, (h s x mem_cons_self _).mpr ⟨hgood, rfl⟩, hrun⟩

namespace Bytes

def readByte (b : Bytes) (i : Nat) : Except Stop UInt8 :=
  match b[i]? with
  | some x => .ok x
  | none => .error .outOfRange

def readSlice (b : Bytes) (off n : Nat) : Except Stop Bytes :=
  if off + n ≤ b.length then .ok ((b.drop off).take n) else .error .outOfRange

def HasAt (b : Bytes) (off : Nat) (bs : Bytes) : Prop :=
  off + bs.length ≤ b.length ∧ (b.drop off).take bs.length = bs

instance (b : Bytes) (off : Nat) (bs : Bytes) : Decidable (HasAt b off bs) :=
  inferInstanceAs (Decidable (_ ∧ _))

variable {b bs : Bytes} {off : Nat}

theorem HasAt.split (h : HasAt b off bs) :
    ∃ pre post, pre.length = off ∧ b = pre ++ (bs ++ post) := by
  refine ⟨b.take off, (b.drop off).drop bs.length, ?_, ?_⟩
  · rw [length_take]
    have hl := h.1
    omega
  · conv_lhs => rw [← take_append_drop off b, ← take_append_drop bs.length (b.drop off)]
    rw [h.2]

theorem hasAt_append_middle (pre bs post : Bytes) : HasAt (pre ++ (bs ++ post)) pre.length bs := by
  refine ⟨by simp only [length_append]; omega, ?_⟩
  rw [drop_left, take_left]

theorem HasAt.left {xs ys : Bytes} (h : HasAt b off (xs ++ ys)) : HasAt b off xs := by
  obtain ⟨pre, post, rfl, rfl⟩ := h.split
  rw [append_assoc]
  exact hasAt_append_middle pre xs (ys ++ post)

theorem HasAt.right {xs ys : Bytes} (h : HasAt b off (xs ++ ys)) :
    HasAt b (off + xs.length) ys := by
  obtain ⟨pre, post, rfl, rfl⟩ := h.split
  rw [append_assoc, ← append_assoc, ← length_append]
  exact hasAt_append_middle (pre ++ xs) ys post

theorem readByte_of_hasAt (h : HasAt b off bs) (i : Nat) (hi : i < bs.length) :
    readByte b (off + i) = readByte bs i := by
  obtain ⟨pre, post, rfl, rfl⟩ := h.split
  unfold readByte
  rw [getElem?_append_right (by omega), show pre.length + i - pre.length = i by omega,
    getElem?_append_left hi]

theorem readSlice_of_hasAt (h : HasAt b off bs) : readSlice b off bs.length = .ok bs := by
  rw [readSlice, if_pos h.1, h.2]

theorem readByte_grow {i : Nat} {x : UInt8} (h : readByte b i = .ok x) (c : Bytes) :
    readByte (b ++ c) i = .ok x := by
  unfold readByte at h ⊢
  cases hb : b[i]? with
  | none => rw [hb] at h; cases h
  | some y =>
    rw [hb] at h
    rw [getElem?_append_left (List.getElem?_eq_some_iff.mp hb).1, hb]
    exact h

theorem readSlice_grow {n : Nat} {x : Bytes} (h : readSlice b off n = .ok x) (c : Bytes) :
    readSlice (b ++ c) off n = .ok x := by
  unfold readSlice at h ⊢
  split at h
  next hle =>
    rw [if_pos (by rw [length_append]; omega), drop_append_of_le_length (by omega),
      take_append_of_le_length (by rw [length_drop]; omega)]
    exact h
  next => cases h

/-- The number a big-endian byte string denotes. -/
def beNat (bs : Bytes) : Nat := bs.foldl (fun acc b => acc * 256 + b.toNat) 0

/-- The `n`-byte big-endian form of `v` modulo `256 ^ n`. -/
def beBytes : Nat → Nat → Bytes
  | 0, _ => []
  | n + 1, v => UInt8.ofNat (v / 256 ^ n) :: beBytes n v

variable (n v : Nat)

@[simp] theorem beBytes_length : (beBytes n v).length = n := by
  induction n with
  | zero => rfl
  | succ n ih => rw [beBytes, length_cons, ih]

theorem beFold_eq (bs : Bytes) (acc : Nat) :
    bs.foldl (fun acc b => acc * 256 + b.toNat) acc = acc * 256 ^ bs.length + beNat bs := by
  unfold beNat
  induction bs generalizing acc with
  | nil => simp
  | cons b bs ih =>
    rw [foldl_cons, foldl_cons, ih, ih (0 * 256 + b.toNat), length_cons, pow_succ]
    ring

theorem beNat_cons (b : UInt8) (bs : Bytes) :
    beNat (b :: bs) = b.toNat * 256 ^ bs.length + beNat bs := by
  rw [beNat, foldl_cons, beFold_eq, Nat.zero_mul, Nat.zero_add]

theorem beNat_beBytes : beNat (beBytes n v) = v % 256 ^ n := by
  induction n with
  | zero => rw [beBytes, pow_zero, Nat.mod_one]; rfl
  | succ n ih =>
    rw [beBytes, beNat_cons, beBytes_length, ih, UInt8.toNat_ofNat', pow_succ 256 n,
      Nat.mod_mul, Nat.add_comm, Nat.mul_comm (256 ^ n)]

theorem beNat_beBytes_of_lt (h : v < 256 ^ n) : beNat (beBytes n v) = v := by
  rw [beNat_beBytes, Nat.mod_eq_of_lt h]

end Bytes

variable (a : Nat)

theorem ofNat_shiftLeft_or (c k : Nat) (hk : k < 64) (hc : c < 2 ^ k) :
    (UInt64.ofNat a <<< UInt64.ofNat k) ||| UInt64.ofNat c = UInt64.ofNat (a * 2 ^ k + c) := by
  have hk64 : k < 2 ^ 64 := lt_trans hk (by norm_num)
  apply UInt64.toNat_inj.mp
  rw [UInt64.toNat_or, UInt64.toNat_shiftLeft, UInt64.toNat_ofNat', UInt64.toNat_ofNat',
    UInt64.toNat_ofNat', UInt64.toNat_ofNat', Nat.mod_eq_of_lt hk64, Nat.mod_eq_of_lt hk,
    ← Nat.or_mod_two_pow, ← Nat.shiftLeft_add_eq_or_of_lt hc, Nat.shiftLeft_eq]
  exact ((Nat.mod_modEq a (2 ^ 64)).mul_right (2 ^ k)).add_right c

variable (c : UInt8)

theorem ofNat_toNat_toUInt64 : UInt64.ofNat c.toNat = c.toUInt64 := by
  rw [← UInt8.toNat_toUInt64, UInt64.ofNat_toNat]

theorem ofNat_shiftLeft8_or :
    (UInt64.ofNat a <<< 8) ||| c.toUInt64 = UInt64.ofNat (a * 256 + c.toNat) := by
  have h := ofNat_shiftLeft_or a c.toNat 8 (by decide) c.toNat_lt
  rwa [ofNat_toNat_toUInt64] at h

theorem ofNat_shiftLeft7_or :
    (UInt64.ofNat a <<< 7) ||| (c &&& 0x7f).toUInt64 = UInt64.ofNat (a * 128 + c.toNat % 128) := by
  have hc : (c &&& 0x7f).toNat = c.toNat % 128 := by
    exact Nat.and_two_pow_sub_one_eq_mod c.toNat 7
  have h := ofNat_shiftLeft_or a (c.toNat % 128) 7 (by decide) (Nat.mod_lt _ (by decide))
  rwa [← hc, ofNat_toNat_toUInt64, hc] at h

theorem highBit_clear_iff : c &&& 0x80 = 0 ↔ c.toNat < 128 := by
  have h : ∀ i : Fin 256, (i.val &&& 128 = 0 ↔ i.val < 128) := by decide +kernel
  rw [← h ⟨c.toNat, c.toNat_lt⟩, ← UInt8.toNat_inj, UInt8.toNat_and]
  exact Iff.rfl

end Ladybug
