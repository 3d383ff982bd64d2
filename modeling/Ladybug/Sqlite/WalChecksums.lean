import Mathlib.Data.UInt
import Ladybug.Base.PairSums
import Ladybug.Sqlite.WalLayout

/-!
# Both WAL checksums against the documented one

SQLite's checksum takes the words of its input two at a time, whatever their byte order.  The
non-native branch of `WalChecksum.update` steps through the words one at a time and uses each for
both sums, as if every word stood twice.
-/

namespace Ladybug.Sqlite

open Bytes List
open scoped UInt32.CommRing

def beWords : Bytes → List UInt32
  | a :: b :: c :: d :: rest => UInt32.ofNat (beNat [a, b, c, d]) :: beWords rest
  | _ => []

def docWords (native : Bool) (data : Bytes) : List UInt32 :=
  if native then leWords data else beWords data

def docCksum (native : Bool) (s : UInt32 × UInt32) (data : Bytes) : UInt32 × UInt32 :=
  checksumWords (docWords native data) s

/-- What the claim of the format is: `update` runs the documented recurrence over `data`. -/
def WalChecksum.Documented (c : WalChecksum) (data : Bytes) : Prop :=
  let s := docCksum c.native (c.s0, c.s1) data
  c.update data = { c with s0 := s.1, s1 := s.2 }

def Balanced (s : UInt32 × UInt32) (data : Bytes) : Prop := pairDrift s (beWords data) = (0, 0)

variable {k : Nat} {data : Bytes}

theorem beWords_append {a : Bytes} (b : Bytes) (ha : a.length = 4 * k) :
    beWords (a ++ b) = beWords a ++ beWords b := by
  induction k generalizing a with
  | zero =>
    rw [length_eq_zero_iff.mp ha]
    rfl
  | succ k ih =>
    match a, ha with
    | x0 :: x1 :: x2 :: x3 :: rest, ha =>
      have hrest : rest.length = 4 * k := by
        simp only [length_cons] at ha
        omega
      show _ :: beWords (rest ++ b) = _ :: (beWords rest ++ beWords b)
      rw [ih hrest]

theorem beWords_length (h : data.length = 4 * k) : (beWords data).length = k := by
  induction k generalizing data with
  | zero =>
    rw [length_eq_zero_iff.mp h]
    rfl
  | succ k ih =>
    match data, h with
    | x0 :: x1 :: x2 :: x3 :: rest, h =>
      have hrest : rest.length = 4 * k := by
        simp only [length_cons] at h
        omega
      show (beWords rest).length + 1 = k + 1
      rw [ih hrest]

theorem checksumWords_eq_pairRun {ws : List UInt32} (h : ws.length = 2 * k) (s : UInt32 × UInt32) :
    checksumWords ws s = pairRun s ws := by
  induction k generalizing ws s with
  | zero =>
    rw [length_eq_zero_iff.mp h]
    rfl
  | succ k ih =>
    match ws, h with
    | x0 :: x1 :: rest, h =>
      have hrest : rest.length = 2 * k := by
        simp only [length_cons] at h
        omega
      exact ih hrest (s.1 + x0 + s.2, s.2 + x1 + (s.1 + x0 + s.2))

theorem u32BE_eq (a b c d : UInt8) : u32BE a b c d = UInt32.ofNat (beNat [a, b, c, d]) := by
  rw [← u32BE_toNat, UInt32.ofNat_toNat]

-- each word is taken for both sums
theorem updateNonNative_eq (data : Bytes) (c : WalChecksum) : c.updateNonNative data =
      { c with
        s0 := (pairRun (c.s0, c.s1) (doubled (beWords data))).1
        s1 := (pairRun (c.s0, c.s1) (doubled (beWords data))).2 } := by
  fun_induction WalChecksum.updateNonNative c data with
  | case1 c a0 a1 a2 a3 rest x s0 s1 ih =>
    have hstep : pairRun (c.s0, c.s1) (doubled (beWords (a0 :: a1 :: a2 :: a3 :: rest))) =
        pairRun (s0, s1) (doubled (beWords rest)) := by
      show pairRun (c.s0 + _ + c.s1, c.s1 + _ + (c.s0 + _ + c.s1)) (doubled (beWords rest)) = _
      rw [← u32BE_eq]
      simp only [s0, s1, x, UInt32.add_assoc]
    rw [ih, hstep]
  | case2 data c h =>
    have hs : beWords data = [] := by
      match data, h with
      | [], _ | [_], _ | [_, _], _ | [_, _, _], _ => rfl
      | a0 :: a1 :: a2 :: a3 :: rest, h => exact absurd rfl (h a0 a1 a2 a3 rest)
    rw [hs]
    rfl

theorem docCksum_eq_pairRun (h : 8 ∣ data.length) (s : UInt32 × UInt32) :
    docCksum false s data = pairRun s (beWords data) := by
  obtain ⟨k, hk⟩ := h
  have hwords : (beWords data).length = 2 * k := beWords_length (by omega)
  exact checksumWords_eq_pairRun hwords s

theorem update_nonNative (data : Bytes) (s : UInt32 × UInt32) :
    WalChecksum.update { native := false, s0 := s.1, s1 := s.2 } data =
      { native := false
        s0 := (pairRun s (doubled (beWords data))).1
        s1 := (pairRun s (doubled (beWords data))).2 } :=
  updateNonNative_eq data _

theorem doubled_documented_iff (h : 8 ∣ data.length) (s : UInt32 × UInt32) :
    pairRun s (doubled (beWords data)) = docCksum false s data ↔ Balanced s data := by
  rw [docCksum_eq_pairRun h]
  exact pairRun_doubled_iff s (beWords data)

theorem documented_iff (c : WalChecksum) (h : 8 ∣ data.length) :
    c.Documented data ↔ c.native = true ∨ Balanced (c.s0, c.s1) data := by
  obtain ⟨native, s0, s1⟩ := c
  cases native with
  | true =>
    have hnative := updateNative_eq_walCksum data { native := true, s0, s1 }
    exact iff_of_true hnative (.inl rfl)
  | false =>
    rw [or_iff_right (fun h => absurd h Bool.false_ne_true), ← doubled_documented_iff h]
    show WalChecksum.update { native := false, s0, s1 } data = _ ↔ _
    rw [update_nonNative data (s0, s1), Prod.ext_iff]
    constructor
    · intro hdoc
      exact ⟨congrArg WalChecksum.s0 hdoc, congrArg WalChecksum.s1 hdoc⟩
    · intro heq
      rw [heq.1, heq.2]

def magicOf (native : Bool) : UInt32 := if native then WAL_MAGIC_NATIVE else WAL_MAGIC_NON_NATIVE

namespace WalParams

variable (p : WalParams)

def headerCksumFor (native : Bool) : UInt32 × UInt32 :=
  docCksum native (0, 0) (p.headerFieldsFor (magicOf native))

def frameCksumFor (native : Bool) (s : UInt32 × UInt32) (f : WalFrame) : UInt32 × UInt32 :=
  docCksum native (docCksum native s (frameFields f)) f.image

def framesFor (native : Bool) : UInt32 × UInt32 → List WalFrame → Bytes
  | _, [] => []
  | s, f :: fs =>
    p.writtenFrame (frameCksumFor native s f) f ++ framesFor native (frameCksumFor native s f) fs

/-- The WAL file that holds `frames`, as a host of the given byte order writes it. -/
def walFor (native : Bool) (frames : List WalFrame) : Bytes :=
  p.writtenHeader (magicOf native) (p.headerCksumFor native) ++
    p.framesFor native (p.headerCksumFor native) frames

def Accepted (native : Bool) (frames : List WalFrame) (rest : Bytes) : Prop :=
  ∃ log, parseWal (p.walFor native frames ++ rest) = .ok log ∧ log.frames = frames

def FramesBalanced : UInt32 × UInt32 → List WalFrame → Prop
  | _, [] => True
  | s, f :: fs =>
    Balanced s (frameFields f ++ f.image) ∧ FramesBalanced (frameCksumFor false s f) fs

def LogBalanced (frames : List WalFrame) : Prop :=
  Balanced (0, 0) (p.headerFieldsFor WAL_MAGIC_NON_NATIVE) ∧
    FramesBalanced (p.headerCksumFor false) frames

theorem framesFor_native (s : UInt32 × UInt32) (frames : List WalFrame) :
    p.framesFor true s frames = p.framesBytes s frames := by
  induction frames generalizing s with
  | nil => rfl
  | cons f fs ih =>
    show p.frameBytes s f ++ p.framesFor true (frameCksum s f) fs = _
    rw [ih]
    rfl

theorem accepted_native (frames : List WalFrame) (rest : Bytes) (hf : ∀ f ∈ frames, p.Writes f)
    (hrest : p.EndsLog rest) : p.Accepted true frames rest := by
  have hfile : p.walFor true frames = p.walBytes frames := by
    show p.headerBytes ++ p.framesFor true p.headerCksum frames = _
    rw [framesFor_native]
    rfl
  have hparse := p.parseWal_walBytes frames rest hf hrest
  rw [← hfile] at hparse
  exact ⟨p.logOf frames, hparse, rfl⟩

theorem page_dvd : 8 ∣ p.pageSize.toNat := by
  obtain ⟨k, hlo, -, hk⟩ := p.pageSize_pow
  rw [hk]
  exact Nat.pow_dvd_pow (a := 2) (by omega : 3 ≤ k)

theorem update_frame (s : UInt32 × UInt32) (f : WalFrame) :
    ((WalChecksum.update { native := false, s0 := s.1, s1 := s.2 } (frameFields f)).update
      f.image) =
      { native := false
        s0 := (pairRun s (doubled (beWords (frameFields f ++ f.image)))).1
        s1 := (pairRun s (doubled (beWords (frameFields f ++ f.image)))).2 } := by
  have hlen := frameFields_length f
  have hwords : doubled (beWords (frameFields f ++ f.image)) =
      doubled (beWords (frameFields f)) ++ doubled (beWords f.image) := by
    rw [beWords_append f.image (by omega : (frameFields f).length = 4 * 2)]
    exact flatMap_append
  rw [update_nonNative, update_nonNative, hwords, pairRun_append]

theorem frame_balanced_iff (s : UInt32 × UInt32) {f : WalFrame} (hf : p.Writes f) :
    pairRun s (doubled (beWords (frameFields f ++ f.image))) = frameCksumFor false s f ↔
      Balanced s (frameFields f ++ f.image) := by
  have hlen := frameFields_length f
  have hpage := p.page_dvd
  have himage : 8 ∣ f.image.length := hf.image_length ▸ hpage
  have hboth : 8 ∣ (frameFields f ++ f.image).length := by
    rw [length_append, hlen]
    omega
  exact doubled_documented_iff hboth s

-- a frame whose sums do not vanish ends the parse with an error
theorem parseFrames_nonNative (ck : UInt32 × UInt32) (frames : List WalFrame) (pre rest : Bytes)
    (s : UInt32 × UInt32) (acc : List WalFrame) (fuel : Nat) (hf : ∀ f ∈ frames, p.Writes f)
    (hrest : p.EndsLog rest) (hfuel : (p.framesFor false s frames ++ rest).length < fuel) :
    (FramesBalanced s frames ∧ parseFrames (p.headerFor WAL_MAGIC_NON_NATIVE ck)
        (pre ++ (p.framesFor false s frames ++ rest)) fuel pre.length
        { native := false, s0 := s.1, s1 := s.2 } acc = .ok (acc ++ frames)) ∨
    (¬ FramesBalanced s frames ∧ ∃ stop, parseFrames (p.headerFor WAL_MAGIC_NON_NATIVE ck)
        (pre ++ (p.framesFor false s frames ++ rest)) fuel pre.length
        { native := false, s0 := s.1, s1 := s.2 } acc = .error stop) := by
  induction frames generalizing pre s acc fuel with
  | nil =>
    obtain ⟨fuel, rfl⟩ := Nat.exists_eq_succ_of_ne_zero (Nat.ne_zero_of_lt hfuel)
    left
    rw [framesFor, nil_append, append_nil]
    exact ⟨trivial, p.parseFrames_end WAL_MAGIC_NON_NATIVE ck pre rest _ acc fuel hrest⟩
  | cons f fs ih =>
    obtain ⟨fuel, rfl⟩ := Nat.exists_eq_succ_of_ne_zero (Nat.ne_zero_of_lt hfuel)
    have hw := hf f mem_cons_self
    have hl := p.writtenFrame_length (frameCksumFor false s f) f hw
    have hat : HasAt (pre ++ (p.framesFor false s (f :: fs) ++ rest)) pre.length
        (p.writtenFrame (frameCksumFor false s f) f) := by
      rw [framesFor, append_assoc]
      exact hasAt_append_middle _ _ _
    have hround := p.parseFrames_written WAL_MAGIC_NON_NATIVE ck
      { native := false, s0 := s.1, s1 := s.2 } acc fuel hat hw
    rw [update_frame] at hround
    have hiff := p.frame_balanced_iff s hw
    by_cases hbalanced : Balanced s (frameFields f ++ f.image)
    · rw [hiff.mpr hbalanced, if_neg (not_or.mpr ⟨not_not.mpr rfl, not_not.mpr rfl⟩)] at hround
      have hnext := ih (pre ++ p.writtenFrame (frameCksumFor false s f) f)
        (frameCksumFor false s f) (acc ++ [f]) fuel
        (fun g hg => hf g (mem_cons_of_mem _ hg)) (by
          rw [framesFor, append_assoc, length_append, hl, WAL_FRAME_HDR_SIZE] at hfuel
          omega)
      rw [length_append, hl, append_assoc,
        ← append_assoc (p.writtenFrame (frameCksumFor false s f) f),
        append_assoc acc] at hnext
      obtain ⟨hrestBalanced, hok⟩ | ⟨hnot, stop, hstop⟩ := hnext
      · exact .inl ⟨⟨hbalanced, hrestBalanced⟩, hround.trans hok⟩
      · exact .inr ⟨fun h => hnot h.2, stop, hround.trans hstop⟩
    · right
      refine ⟨fun h => hbalanced h.1, _, hround.trans (if_pos ?_)⟩
      rw [← not_and_or, ← Prod.ext_iff]
      exact fun h => hbalanced (hiff.mp h)

theorem accepted_nonNative_iff (frames : List WalFrame) (rest : Bytes)
    (hf : ∀ f ∈ frames, p.Writes f) (hrest : p.EndsLog rest) :
    p.Accepted false frames rest ↔ p.LogBalanced frames := by
  have hsplit : p.walFor false frames ++ rest =
      p.writtenHeader WAL_MAGIC_NON_NATIVE (p.headerCksumFor false) ++
        (p.framesFor false (p.headerCksumFor false) frames ++ rest) := by
    rfl
  have hat := hasAt_append_middle [] (p.writtenHeader WAL_MAGIC_NON_NATIVE (p.headerCksumFor false))
    (p.framesFor false (p.headerCksumFor false) frames ++ rest)
  rw [nil_append, ← hsplit, length_nil] at hat
  have hparse := @parseWal_written p _ WAL_MAGIC_NON_NATIVE (p.headerCksumFor false) (.inr rfl) hat
  have hflag : (WAL_MAGIC_NON_NATIVE == WAL_MAGIC_NATIVE) = false := by decide
  have hfields : 8 ∣ (p.headerFieldsFor WAL_MAGIC_NON_NATIVE).length := by
    exact ⟨3, rfl⟩
  have hiff := doubled_documented_iff hfields (0, 0)
  rw [hflag, update_nonNative _ (0, 0)] at hparse
  unfold Accepted LogBalanced
  by_cases hheader : Balanced (0, 0) (p.headerFieldsFor WAL_MAGIC_NON_NATIVE)
  · have hcksum : pairRun (0, 0) (doubled (beWords (p.headerFieldsFor WAL_MAGIC_NON_NATIVE))) =
        p.headerCksumFor false := hiff.mpr hheader
    rw [hcksum, if_neg (not_or.mpr ⟨not_not.mpr rfl, not_not.mpr rfl⟩)] at hparse
    have hlen := p.writtenHeader_length WAL_MAGIC_NON_NATIVE (p.headerCksumFor false)
    have hframes := p.parseFrames_nonNative (p.headerCksumFor false) frames
      (p.writtenHeader WAL_MAGIC_NON_NATIVE (p.headerCksumFor false)) rest
      (p.headerCksumFor false) [] ((p.walFor false frames ++ rest).length + 1) hf hrest (by
        have hl := congrArg List.length hsplit
        simp only [length_append] at hl ⊢
        omega)
    rw [hlen, ← hsplit, nil_append] at hframes
    rw [and_iff_right hheader]
    obtain ⟨hbalanced, hok⟩ | ⟨hnot, stop, hstop⟩ := hframes
    · apply iff_of_true _ hbalanced
      rw [hok] at hparse
      exact ⟨_, hparse, rfl⟩
    · apply iff_of_false _ hnot
      rintro ⟨log, hlog, -⟩
      rw [hparse, hstop] at hlog
      cases hlog
  · apply iff_of_false _ (fun h => hheader h.1)
    rintro ⟨log, hlog, -⟩
    rw [hparse, if_pos] at hlog
    · cases hlog
    · rw [← not_and_or, ← Prod.ext_iff]
      exact fun h => hheader (hiff.mp h)

end WalParams

/-- The native branch is the documented checksum, and the other is exactly where the weighted sums
of its words vanish; a log is accepted with either checksum exactly when they do all along it. -/
theorem checksums_documented_iff (c : WalChecksum) {data : Bytes} (h : 8 ∣ data.length)
    (p : WalParams) {frames : List WalFrame} {rest : Bytes} (hf : ∀ f ∈ frames, p.Writes f)
    (hrest : p.EndsLog rest) :
    (c.Documented data ↔ c.native = true ∨ Balanced (c.s0, c.s1) data) ∧
    ((p.Accepted false frames rest ↔ p.Accepted true frames rest) ↔ p.LogBalanced frames) := by
  constructor
  · exact documented_iff c h
  · rw [iff_true_right (p.accepted_native frames rest hf hrest)]
    exact p.accepted_nonNative_iff frames rest hf hrest

theorem checksums_documented_iff_small :
    (WalChecksum.Documented { native := false } (replicate 8 0) ↔
      false = true ∨ Balanced (0, 0) (replicate 8 0)) ∧
    ((smallWal.Accepted false [] [] ↔ smallWal.Accepted true [] []) ↔ smallWal.LogBalanced []) :=
  checksums_documented_iff { native := false } ⟨1, rfl⟩ smallWal
    (fun f hf => absurd hf not_mem_nil) (.inl (by decide))

-- the words 1 and 2, and an empty log
theorem nonNative_checksum_differs :
    (¬ ∀ (c : WalChecksum) (data : Bytes), 8 ∣ data.length → c.Documented data) ∧
    parseWal (smallWal.walFor false []) = .error (.error "WAL header checksum mismatch") := by
  constructor
  · intro h
    have hdoc := h { native := false } [0, 0, 0, 1, 0, 0, 0, 2] ⟨1, rfl⟩
    exact absurd (congrArg WalChecksum.s0 hdoc) (by decide)
  · decide +kernel

end Ladybug.Sqlite
