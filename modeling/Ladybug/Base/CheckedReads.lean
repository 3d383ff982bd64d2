import Ladybug.Base.Bytes

/-!
# Computations that settle

A computation over checked buffers settles when it returns a value or a message of its own: it
reads nothing outside its buffers, asks for no container that is too large and ends.
-/

namespace Ladybug

open List Except

variable {α β : Type}

def Settles (x : Except Stop α) : Prop := ∀ s, x = .error s → ∃ msg, s = .error msg

theorem settles_ok (a : α) : Settles (.ok a : Except Stop α) := nofun

theorem settles_error (msg : String) : Settles (.error (.error msg) : Except Stop α) :=
  fun _ h => ⟨msg, (error.inj h).symm⟩

theorem not_settles_outOfRange : ¬ Settles (.error .outOfRange : Except Stop α) := fun h => by
  obtain ⟨_, h⟩ := h _ rfl
  cases h

theorem not_settles_lengthError : ¬ Settles (.error .lengthError : Except Stop α) := fun h => by
  obtain ⟨_, h⟩ := h _ rfl
  cases h

variable {x : Except Stop α} {f : α → Except Stop β}

theorem settles_bind_iff : Settles (x >>= f) ↔ Settles x ∧ ∀ a, x = .ok a → Settles (f a) := by
  cases x with
  | error s =>
    constructor
    · intro h
      exact ⟨fun s' hs => h s' (congrArg error (error.inj hs)), nofun⟩
    · intro h s' hs
      exact h.1 s' (congrArg error (error.inj hs))
  | ok a =>
    constructor
    · intro h
      exact ⟨settles_ok a, fun b hb => ok.inj hb ▸ h⟩
    · intro h
      exact h.2 a rfl

theorem settles_bind (hx : Settles x) (hf : ∀ a, x = .ok a → Settles (f a)) : Settles (x >>= f) :=
  settles_bind_iff.mpr ⟨hx, hf⟩

theorem settles_mapM_iff (l : List α) : Settles (l.mapM f) ↔
      ∀ pre x post, l = pre ++ x :: post → (∀ y ∈ pre, ∃ b, f y = .ok b) → Settles (f x) := by
  induction l with
  | nil =>
    apply iff_of_true (settles_ok [])
    intro pre x post h
    exact absurd h.symm (append_ne_nil_of_right_ne_nil pre (cons_ne_nil x post))
  | cons y l ih =>
    rw [mapM_cons, settles_bind_iff]
    constructor
    · rintro ⟨hy, hl⟩ pre x post hsplit hpre
      cases pre with
      | nil =>
        rw [← (cons.inj hsplit).1]
        exact hy
      | cons z pre =>
        obtain ⟨rfl, htail⟩ := cons.inj hsplit
        obtain ⟨b, hb⟩ := hpre y mem_cons_self
        have hrest := (settles_bind_iff.mp (hl b hb)).1
        exact ih.mp hrest pre x post htail fun w hw => hpre w (mem_cons_of_mem y hw)
    · intro h
      refine ⟨h [] y l rfl (fun _ hz => absurd hz not_mem_nil), fun b hb => ?_⟩
      apply settles_bind
      · apply ih.mpr
        intro pre x post hsplit hpre
        apply h (y :: pre) x post (by rw [hsplit, cons_append])
        intro w hw
        obtain rfl | hw := mem_cons.mp hw
        · exact ⟨b, hb⟩
        · exact hpre w hw
      · intro bs _
        exact settles_ok (b :: bs)

theorem settles_range_mapM_iff {f : Nat → Except Stop β} (n : Nat) : Settles ((range n).mapM f) ↔
      ∀ i, i < n → (∀ j, j < i → ∃ b, f j = .ok b) → Settles (f i) := by
  rw [settles_mapM_iff]
  constructor
  · intro h i hi hpre
    apply h (range i) i ((range (n - i - 1)).map (· + (i + 1)))
    · have hn : n = i + (1 + (n - i - 1)) := by omega
      conv_lhs => rw [hn, range_add, range_add, map_append, map_map]
      show range i ++ ([i + 0] ++ _) = _
      rw [singleton_append]
      congr 2
      apply map_congr_left
      intro a _
      show i + (1 + a) = a + (i + 1)
      omega
    · intro j hj
      exact hpre j (mem_range.mp hj)
  · intro h pre x post hsplit hpre
    have hlen := congrArg length hsplit
    simp only [length_range, length_append, length_cons] at hlen
    have hat (j : Nat) (hj : j < n) : (pre ++ x :: post)[j]? = some j := by
      rw [← hsplit, getElem?_range hj]
    have hx : x = pre.length := by
      have hx := hat pre.length (by omega)
      rw [getElem?_append_right (Nat.le_refl _), Nat.sub_self] at hx
      exact Option.some.inj hx
    rw [hx]
    apply h pre.length (by omega)
    intro j hj
    have hj' := hat j (by omega)
    rw [getElem?_append_left hj] at hj'
    exact hpre j (mem_of_getElem? hj')

theorem mapM_length {l : List α} {bs : List β} (h : l.mapM f = .ok bs) : bs.length = l.length := by
  induction l generalizing bs with
  | nil =>
    rw [← ok.inj h]
    rfl
  | cons x l ih =>
    rw [mapM_cons] at h
    obtain ⟨b, _, h⟩ := bind_eq_ok.mp h
    obtain ⟨rest, hrest, h⟩ := bind_eq_ok.mp h
    rw [← ok.inj h, length_cons, length_cons, ih hrest]

namespace Bytes

theorem readByte_ok {b : Bytes} {i : Nat} (h : i < b.length) : ∃ x, readByte b i = .ok x := by
  unfold readByte
  rw [getElem?_eq_getElem h]
  exact ⟨_, rfl⟩

theorem readByte_settles_iff (b : Bytes) (i : Nat) : Settles (readByte b i) ↔ i < b.length := by
  constructor
  · intro h
    by_contra hi
    unfold readByte at h
    rw [getElem?_eq_none (Nat.le_of_not_lt hi)] at h
    exact not_settles_outOfRange h
  · intro h
    obtain ⟨x, hx⟩ := readByte_ok h
    rw [hx]
    exact settles_ok x

theorem readSlice_settles {b : Bytes} {off n : Nat} (h : off + n ≤ b.length) :
    Settles (readSlice b off n) := by
  rw [readSlice, if_pos h]
  exact settles_ok _

end Bytes

end Ladybug
