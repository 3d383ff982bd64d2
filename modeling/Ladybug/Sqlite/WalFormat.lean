import Ladybug.Base.Bytes

/-!
# The SQLite WAL layout (`cdc/wal_format.h`)

Word readers, the running WAL checksum and the varint reader.  All multi-byte integers of the
format are big-endian; only the native checksum reads its words little-endian.
-/

namespace Ladybug.Sqlite

open Bytes List Except

def WAL_MAGIC_NATIVE : UInt32 := 0x377f0682
def WAL_MAGIC_NON_NATIVE : UInt32 := 0x377f0683
def WAL_FORMAT_VERSION : UInt32 := 3007000
def WAL_HDR_SIZE : Nat := 32
def WAL_FRAME_HDR_SIZE : Nat := 24

structure WalHeader where
  magic : UInt32 := 0
  format : UInt32 := 0
  pageSize : UInt32 := 0
  checkpointSeq : UInt32 := 0
  salt1 : UInt32 := 0
  salt2 : UInt32 := 0
  checksum1 : UInt32 := 0
  checksum2 : UInt32 := 0
  deriving DecidableEq

structure WalFrameHeader where
  pageNo : UInt32 := 0
  commitSize : UInt32 := 0
  salt1 : UInt32 := 0
  salt2 : UInt32 := 0
  checksum1 : UInt32 := 0
  checksum2 : UInt32 := 0
  deriving DecidableEq

def u16BE (a b : UInt8) : UInt16 := (a.toUInt16 <<< 8) ||| b.toUInt16

def u32BE (a b c d : UInt8) : UInt32 :=
  (a.toUInt32 <<< 24) ||| (b.toUInt32 <<< 16) ||| (c.toUInt32 <<< 8) ||| d.toUInt32

def u32LE (a b c d : UInt8) : UInt32 :=
  a.toUInt32 ||| (b.toUInt32 <<< 8) ||| (c.toUInt32 <<< 16) ||| (d.toUInt32 <<< 24)

def readU16BE (p : Bytes) (off : Nat) : Except Stop UInt16 := do
  let a ← readByte p off
  let b ← readByte p (off + 1)
  return u16BE a b

def readU32BE (p : Bytes) (off : Nat) : Except Stop UInt32 := do
  let a ← readByte p off
  let b ← readByte p (off + 1)
  let c ← readByte p (off + 2)
  let d ← readByte p (off + 3)
  return u32BE a b c d

/-- The checksum accumulator.  The native magic steps over little-endian words two at a time, the
non-native one over big-endian words one at a time. -/
structure WalChecksum where
  native : Bool := true
  s0 : UInt32 := 0
  s1 : UInt32 := 0
  deriving DecidableEq

/-- One pass over `data`; a trailing group shorter than the step is ignored, as by the source's
`i + 8 <= nByte` and `i + 4 <= nByte`. -/
def WalChecksum.updateNative (c : WalChecksum) : Bytes → WalChecksum
  | a0 :: a1 :: a2 :: a3 :: b0 :: b1 :: b2 :: b3 :: rest =>
    let s0 := c.s0 + (u32LE a0 a1 a2 a3 + c.s1)
    let s1 := c.s1 + (u32LE b0 b1 b2 b3 + s0)
    updateNative { c with s0 := s0, s1 := s1 } rest
  | _ => c

def WalChecksum.updateNonNative (c : WalChecksum) : Bytes → WalChecksum
  | a0 :: a1 :: a2 :: a3 :: rest =>
    let x := u32BE a0 a1 a2 a3
    let s0 := c.s0 + (x + c.s1)
    let s1 := c.s1 + (x + s0)
    updateNonNative { c with s0 := s0, s1 := s1 } rest
  | _ => c

def WalChecksum.update (c : WalChecksum) (data : Bytes) : WalChecksum :=
  if c.native then c.updateNative data else c.updateNonNative data

/-- The loop of `readVarint` with `n` of its nine rounds left, so at index `i = 9 - n`. -/
def readVarintLoop (p : Bytes) (off maxLen : Nat) :
    Nat → UInt64 → Except Stop (Option (UInt64 × Nat))
  | 0, _ => .ok none
  | n + 1, value =>
    let i := 8 - n
    if i < maxLen then do
      let c ← readByte p (off + i)
      if i = 8 then
        return some ((value <<< 8) ||| c.toUInt64, 9)
      else
        let value := (value <<< 7) ||| (c &&& 0x7f).toUInt64
        if c &&& 0x80 = 0 then return some (value, i + 1)
        else readVarintLoop p off maxLen n value
    else .ok none

def readVarint (p : Bytes) (off maxLen : Nat) : Except Stop (Option (UInt64 × Nat)) :=
  readVarintLoop p off maxLen 9 0

private theorem or_shift (x y k : Nat) (h : y < 2 ^ k) : x <<< k ||| y = x * 2 ^ k + y := by
  rw [← Nat.shiftLeft_add_eq_or_of_lt h, Nat.shiftLeft_eq]

theorem u16BE_toNat (a b : UInt8) : (u16BE a b).toNat = beNat [a, b] := by
  have ha := a.toNat_lt
  have hb := b.toNat_lt
  have hs : (a.toUInt16 <<< 8).toNat = a.toNat <<< 8 := by
    change a.toNat <<< 8 % 2 ^ 16 = _
    rw [Nat.mod_eq_of_lt (by rw [Nat.shiftLeft_eq]; omega)]
  rw [u16BE, UInt16.toNat_or, hs, UInt8.toNat_toUInt16, or_shift _ _ 8 (by omega)]
  simp only [beNat, foldl_cons, foldl_nil]
  omega

theorem u32BE_toNat (a b c d : UInt8) : (u32BE a b c d).toNat = beNat [a, b, c, d] := by
  have hb := b.toNat_lt
  have hc := c.toNat_lt
  have hd := d.toNat_lt
  have hs (x : UInt8) (k : UInt32) (hk : k.toNat ≤ 24) :
      (x.toUInt32 <<< k).toNat = x.toNat * 2 ^ k.toNat := by
    have hx := x.toNat_lt
    rw [UInt32.toNat_shiftLeft, UInt8.toNat_toUInt32, Nat.mod_eq_of_lt (by omega : k.toNat < 32),
      Nat.shiftLeft_eq, Nat.mod_eq_of_lt]
    calc x.toNat * 2 ^ k.toNat < 2 ^ 8 * 2 ^ k.toNat := by
          exact Nat.mul_lt_mul_of_pos_right hx (by positivity)
      _ ≤ 2 ^ 8 * 2 ^ 24 := Nat.mul_le_mul_left _ (Nat.pow_le_pow_right (by decide) hk)
  rw [u32BE, UInt32.toNat_or, UInt32.toNat_or, UInt32.toNat_or, hs a 24 (by decide),
    hs b 16 (by decide), hs c 8 (by decide), UInt8.toNat_toUInt32]
  change ((a.toNat * 2 ^ 24 ||| b.toNat * 2 ^ 16) ||| c.toNat * 2 ^ 8) ||| d.toNat = _
  have h1 : a.toNat * 2 ^ 24 ||| b.toNat * 2 ^ 16 = (a.toNat * 2 ^ 8 + b.toNat) * 2 ^ 16 := by
    rw [← or_shift a.toNat b.toNat 8 (by omega), ← Nat.shiftLeft_eq, ← Nat.shiftLeft_eq,
      ← Nat.shiftLeft_eq, Nat.shiftLeft_or_distrib, ← Nat.shiftLeft_add]
  have h2 (x : Nat) : x * 2 ^ 16 ||| c.toNat * 2 ^ 8 = (x * 2 ^ 8 + c.toNat) * 2 ^ 8 := by
    rw [← or_shift x c.toNat 8 (by omega), ← Nat.shiftLeft_eq, ← Nat.shiftLeft_eq,
      ← Nat.shiftLeft_eq, Nat.shiftLeft_or_distrib, ← Nat.shiftLeft_add]
  rw [h1, h2, ← Nat.shiftLeft_eq, or_shift _ _ 8 (by omega)]
  simp only [beNat, foldl_cons, foldl_nil]
  omega

theorem u16BE_be (v : UInt16) : u16BE (UInt8.ofNat (v.toNat / 256 ^ 1))
    (UInt8.ofNat (v.toNat / 256 ^ 0)) = v := by
  apply UInt16.toNat_inj.mp
  rw [u16BE_toNat]
  exact beNat_beBytes_of_lt 2 v.toNat v.toNat_lt

theorem u32BE_be (v : UInt32) : u32BE (UInt8.ofNat (v.toNat / 256 ^ 3))
    (UInt8.ofNat (v.toNat / 256 ^ 2)) (UInt8.ofNat (v.toNat / 256 ^ 1))
    (UInt8.ofNat (v.toNat / 256 ^ 0)) = v := by
  apply UInt32.toNat_inj.mp
  rw [u32BE_toNat]
  exact beNat_beBytes_of_lt 4 v.toNat v.toNat_lt

variable {b : Bytes} {off : Nat} {v : UInt32}

theorem readU16BE_of_hasAt {v : UInt16} (h : HasAt b off (beBytes 2 v.toNat)) :
    readU16BE b off = .ok v := by
  have h0 := readByte_of_hasAt h 0 (by simp)
  have h1 := readByte_of_hasAt h 1 (by simp)
  rw [Nat.add_zero] at h0
  rw [readU16BE, h0, h1]
  exact congrArg ok (u16BE_be v)

theorem readU32BE_of_hasAt (h : HasAt b off (beBytes 4 v.toNat)) : readU32BE b off = .ok v := by
  have h0 := readByte_of_hasAt h 0 (by simp)
  have h1 := readByte_of_hasAt h 1 (by simp)
  have h2 := readByte_of_hasAt h 2 (by simp)
  have h3 := readByte_of_hasAt h 3 (by simp)
  rw [Nat.add_zero] at h0
  rw [readU32BE, h0, h1, h2, h3]
  exact congrArg ok (u32BE_be v)

theorem readU32BE_grow (h : readU32BE b off = .ok v) (c : Bytes) :
    readU32BE (b ++ c) off = .ok v := by
  simp only [readU32BE, bind_eq_ok] at h
  obtain ⟨x0, h0, x1, h1, x2, h2, x3, h3, hv⟩ := h
  rw [readU32BE, readByte_grow h0, readByte_grow h1, readByte_grow h2, readByte_grow h3]
  exact hv

theorem readU32BE_of_le (b : Bytes) (off : Nat) (h : off + 4 ≤ b.length) :
    ∃ v, readU32BE b off = .ok v ∧ v.toNat = beNat ((b.drop off).take 4) := by
  obtain ⟨w, hw⟩ : ∃ w, (b.drop off).take 4 = w := ⟨_, rfl⟩
  have hl : w.length = 4 := by rw [← hw, length_take, length_drop]; omega
  have ha : HasAt b off w := ⟨by omega, by rw [hl, hw]⟩
  match w, hl with
  | [x0, x1, x2, x3], _ =>
    have h0 := readByte_of_hasAt ha 0 (by simp)
    have h1 := readByte_of_hasAt ha 1 (by simp)
    have h2 := readByte_of_hasAt ha 2 (by simp)
    have h3 := readByte_of_hasAt ha 3 (by simp)
    rw [Nat.add_zero] at h0
    refine ⟨u32BE x0 x1 x2 x3, ?_, by rw [hw, u32BE_toNat]⟩
    rw [readU32BE, h0, h1, h2, h3]
    rfl

end Ladybug.Sqlite
