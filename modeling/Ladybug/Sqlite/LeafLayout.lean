import Mathlib.Data.Fintype.Card
import Ladybug.Sqlite.WalLayout
import Ladybug.Sqlite.BtreePageDecoder

/-!
# Table leaf pages as SQLite stores them, and their decoding

The writer's side of the file format: varints, serial types, records, overflow chains, cells and
leaf pages.  `decodeTableLeafPage` returns exactly the rows a leaf page stores.
-/

namespace Ladybug.Sqlite

open Bytes List

/-! ## 1. Varints -/

/-- `n` groups of seven bits of `v`, high group first, each with its continuation bit set. -/
def contGroups : Nat → Nat → Bytes
  | 0, _ => []
  | n + 1, v => UInt8.ofNat (128 + v / 128 ^ n % 128) :: contGroups n v

/-- The encodings of `v` as a varint: seven bits a byte in up to eight bytes, or nine bytes of
which the last carries eight bits.  SQLite writes the shortest one. -/
inductive IsVarint : Nat → Bytes → Prop where
  | short (n v : Nat) (hn : n < 8) (hv : v < 128 ^ (n + 1)) :
      IsVarint v (contGroups n (v / 128) ++ [UInt8.ofNat (v % 128)])
  | long (v : Nat) (hv : v < 2 ^ 64) :
      IsVarint v (contGroups 8 (v / 256) ++ [UInt8.ofNat (v % 256)])

@[simp] theorem contGroups_length (n v : Nat) : (contGroups n v).length = n := by
  induction n with
  | zero => rfl
  | succ n ih => rw [contGroups, length_cons, ih]

variable {v off usable pageSize : Nat} {bs p payload image : Bytes} {fetcher : PageFetcher}
  {pages : List UInt32}

theorem IsVarint.lt (h : IsVarint v bs) : v < 2 ^ 64 := by
  cases h with
  | short n v hn hv =>
    calc v < 128 ^ (n + 1) := hv
      _ ≤ 128 ^ 8 := Nat.pow_le_pow_right (by decide) hn
      _ < 2 ^ 64 := by norm_num
  | long v hv => exact hv

theorem IsVarint.length_pos (h : IsVarint v bs) : 0 < bs.length := by
  cases h <;> simp

variable {maxLen w serial recordOff : Nat}

theorem readVarintLoop_cont {n : Nat} {c : UInt8} (a : Nat)
    (hc : readByte p (off + (8 - n)) = .ok c) (hcont : 128 ≤ c.toNat) (hlen : 8 - n < maxLen)
    (hn : 0 < n) : readVarintLoop p off maxLen (n + 1) (UInt64.ofNat a) =
      readVarintLoop p off maxLen n (UInt64.ofNat (a * 128 + c.toNat % 128)) := by
  have hbit : ¬ c &&& 0x80 = 0 := by
    rw [highBit_clear_iff]
    omega
  rw [readVarintLoop, if_pos hlen, hc]
  simp only [bind, Except.bind]
  rw [if_neg (by omega), if_neg hbit, ofNat_shiftLeft7_or]

theorem readVarintLoop_groups (maxLen m n a w : Nat) (hn : n ≤ 8) (hm : m ≤ n)
    (hat : HasAt p (off + (8 - n)) (contGroups m w)) (hlen : 8 - n + m ≤ maxLen) :
    readVarintLoop p off maxLen (n + 1) (UInt64.ofNat a) =
      readVarintLoop p off maxLen (n - m + 1) (UInt64.ofNat (a * 128 ^ m + w % 128 ^ m)) := by
  induction m generalizing n a with
  | zero => simp only [pow_zero, Nat.mod_one, Nat.mul_one, Nat.add_zero, Nat.sub_zero]
  | succ m ih =>
    have hbyte := readByte_of_hasAt hat 0 (by simp)
    have hc : (UInt8.ofNat (128 + w / 128 ^ m % 128)).toNat = 128 + w / 128 ^ m % 128 := by
      rw [UInt8.toNat_ofNat', Nat.mod_eq_of_lt (by omega)]
    have htail : HasAt p (off + (8 - (n - 1))) (contGroups m w) := by
      have h : HasAt p (off + (8 - n))
          ([UInt8.ofNat (128 + w / 128 ^ m % 128)] ++ contGroups m w) := hat
      have ht := h.right
      rwa [length_singleton, show off + (8 - n) + 1 = off + (8 - (n - 1)) by omega] at ht
    rw [readVarintLoop_cont a hbyte (by rw [hc]; omega) (by omega) (by omega), hc]
    obtain ⟨n, rfl⟩ := Nat.exists_eq_succ_of_ne_zero (by omega : n ≠ 0)
    rw [Nat.succ_eq_add_one, ih n _ (by omega) (by omega) htail (by omega), Nat.add_sub_add_right]
    congr 2
    rw [show (128 + w / 128 ^ m % 128) % 128 = w / 128 ^ m % 128 by omega, Nat.pow_succ 128 m,
      Nat.mod_mul]
    ring

theorem readVarint_of_hasAt (hv : IsVarint v bs) (hat : HasAt p off bs) (hlen : bs.length ≤ maxLen) :
    readVarint p off maxLen = .ok (some (UInt64.ofNat v, bs.length)) := by
  cases hv with
  | short n v hn hv =>
    rw [length_append, contGroups_length, length_singleton] at hlen ⊢
    have hlast := readByte_of_hasAt hat.right 0 (by simp)
    rw [contGroups_length, Nat.add_zero] at hlast
    have hmod : v % 128 < 128 := Nat.mod_lt _ (by decide)
    have hc : (UInt8.ofNat (v % 128)).toNat = v % 128 := by
      rw [UInt8.toNat_ofNat', Nat.mod_eq_of_lt (by omega)]
    have hbit : UInt8.ofNat (v % 128) &&& 0x80 = 0 := by
      rw [highBit_clear_iff, hc]
      exact hmod
    have hsum : v / 128 % 128 ^ n * 128 + v % 128 = v := by
      have hdiv : v / 128 < 128 ^ n := by
        rw [Nat.div_lt_iff_lt_mul (by decide)]
        exact hv
      rw [Nat.mod_eq_of_lt hdiv]
      omega
    have hgroups := readVarintLoop_groups maxLen n 8 0 (v / 128) le_rfl (by omega)
      hat.left (by omega)
    simp only [Nat.zero_mul, Nat.zero_add] at hgroups
    refine hgroups.trans ?_
    rw [readVarintLoop, if_pos (by omega), show 8 - (8 - n) = n by omega, hlast]
    simp only [readByte, getElem?_cons_zero, bind, Except.bind]
    rw [if_neg (by omega), if_pos hbit, ofNat_shiftLeft7_or, hc, Nat.mod_mod, hsum]
    rfl
  | long v hv =>
    rw [length_append, contGroups_length, length_singleton] at hlen ⊢
    have hlast := readByte_of_hasAt hat.right 0 (by simp)
    rw [contGroups_length, Nat.add_zero] at hlast
    have hc : (UInt8.ofNat (v % 256)).toNat = v % 256 := by
      rw [UInt8.toNat_ofNat', Nat.mod_eq_of_lt (by omega)]
    have hsum : v / 256 % 128 ^ 8 * 256 + v % 256 = v := by
      omega
    have hgroups := readVarintLoop_groups maxLen 8 8 0 (v / 256) le_rfl le_rfl hat.left (by omega)
    simp only [Nat.zero_mul, Nat.zero_add] at hgroups
    refine hgroups.trans ?_
    rw [readVarintLoop, if_pos (by omega), show 8 - (8 - 8) = 8 by omega, hlast]
    simp only [readByte, getElem?_cons_zero, bind, Except.bind, if_true]
    rw [ofNat_shiftLeft8_or, hc, hsum]
    rfl

/-! ## 2. Values and records -/

def integerWidths : List (Nat × Nat) := [(1, 1), (2, 2), (3, 3), (4, 4), (5, 6), (6, 8)]

/-- `StoresValue value serial body`: `value` may be stored under this serial type with this body.
An integer may use any width it fits, and 0 and 1 have bodiless types of their own. -/
inductive StoresValue : SqliteValue → Nat → Bytes → Prop where
  | null : StoresValue .null 0 []
  | integer (v : Int64) (serial w : Nat) (hw : (serial, w) ∈ integerWidths)
      (hlo : -(2 : Int) ^ (8 * w - 1) ≤ v.toInt) (hhi : v.toInt < (2 : Int) ^ (8 * w - 1)) :
      StoresValue (.integer v) serial (beBytes w (v.toInt % 256 ^ w).toNat)
  | real (bits : UInt64) : StoresValue (.real bits) 7 (beBytes 8 bits.toNat)
  | zero : StoresValue (.integer 0) 8 []
  | one : StoresValue (.integer 1) 9 []
  | blob (bytes : Bytes) : StoresValue (.blob bytes) (12 + 2 * bytes.length) bytes
  | text (bytes : Bytes) : StoresValue (.text bytes) (13 + 2 * bytes.length) bytes

structure StoredColumn where
  value : SqliteValue
  serial : Nat
  type : Bytes
  body : Bytes
  stores : StoresValue value serial body
  type_varint : IsVarint serial type

/-- The header length counts itself, the serial types follow it, then the bodies. -/
def StoresRecord (values : List SqliteValue) (payload : Bytes) : Prop :=
  ∃ (cols : List StoredColumn) (hdr : Bytes), cols.map StoredColumn.value = values ∧
    IsVarint (hdr.length + (cols.flatMap StoredColumn.type).length) hdr ∧
    payload = hdr ++ (cols.flatMap StoredColumn.type ++ cols.flatMap StoredColumn.body)

theorem foldl_shiftIn (bs : Bytes) (a : Nat) :
    bs.foldl shiftIn (UInt64.ofNat a) = UInt64.ofNat (a * 256 ^ bs.length + beNat bs) := by
  induction bs generalizing a with
  | nil => simp [beNat]
  | cons b bs ih =>
    rw [foldl_cons, shiftIn, ofNat_shiftLeft8_or, ih, beNat_cons, length_cons, pow_succ]
    congr 1
    ring

theorem toInt64_ofNat_of_emod (n : Nat) (v : Int64) (h : (n : Int) % 2 ^ 64 = v.toInt % 2 ^ 64) :
    (UInt64.ofNat n).toInt64 = v := by
  have hb : BitVec.ofNat 64 n = v.toBitVec := by
    apply BitVec.eq_of_toNat_eq
    rw [BitVec.toNat_ofNat, ← BitVec.ofInt_toInt (x := v.toBitVec), BitVec.toNat_ofInt]
    change n % 2 ^ 64 = (v.toInt % ((2 ^ 64 : Nat) : Int)).toNat
    omega
  exact Int64.toBitVec_inj.mp hb

theorem readIntBE_of_hasAt {b : Bytes} {p : Nat} {v : Int64} (hw : 0 < w)
    (hlo : -(2 : Int) ^ (8 * w - 1) ≤ v.toInt) (hhi : v.toInt < (2 : Int) ^ (8 * w - 1))
    (hat : HasAt b p (beBytes w (v.toInt % 256 ^ w).toNat)) : readIntBE b p w = .ok v := by
  obtain ⟨w, rfl⟩ := Nat.exists_eq_succ_of_ne_zero (Nat.pos_iff_ne_zero.mp hw)
  obtain ⟨m, hm⟩ : ∃ m, (v.toInt % 256 ^ (w + 1)).toNat = m := ⟨_, rfl⟩
  have hhalf : (2 : Int) ^ (8 * (w + 1) - 1) = 128 * 256 ^ w := by
    rw [show 8 * (w + 1) - 1 = 7 + 8 * w by omega, pow_add, pow_mul]
    norm_num
  rw [Nat.succ_eq_add_one, hhalf] at hlo hhi
  -- the residue is `v` itself or `v + 256 ^ (w + 1)`, by the sign of `v`
  have hres : (m : Int) = if v.toInt < 0 then v.toInt + 256 ^ (w + 1) else v.toInt := by
    rw [← hm, Int.toNat_of_nonneg (Int.emod_nonneg _ (by positivity))]
    split
    · rw [← Int.add_emod_right, Int.emod_eq_of_lt (by omega) (by omega)]
    · rw [Int.emod_eq_of_lt (by omega) (by omega)]
  have hbound : m < 256 ^ (w + 1) := by
    have h : (m : Int) < 256 ^ (w + 1) := by rw [hres]; split <;> omega
    exact_mod_cast h
  have hfirst := readByte_of_hasAt hat 0 (by simp)
  have hdiv : m / 256 ^ w < 256 := by
    rw [Nat.div_lt_iff_lt_mul (by positivity)]
    rw [pow_succ, mul_comm] at hbound
    exact hbound
  have hc : (UInt8.ofNat (m / 256 ^ w)).toNat = m / 256 ^ w := by
    rw [UInt8.toNat_ofNat', Nat.mod_eq_of_lt hdiv]
  have hsign : UInt8.ofNat (m / 256 ^ w) &&& 0x80 = 0 ↔ ¬ v.toInt < 0 := by
    rw [highBit_clear_iff, hc, Nat.div_lt_iff_lt_mul (by positivity)]
    have hz : m < 128 * 256 ^ w ↔ (m : Int) < 128 * 256 ^ w := by exact_mod_cast Iff.rfl
    rw [hz, hres]
    split <;> omega
  have hslice := readSlice_of_hasAt hat
  rw [Nat.succ_eq_add_one, hm, beBytes_length] at hslice
  rw [Nat.succ_eq_add_one, hm, Nat.add_zero] at hfirst
  rw [Nat.succ_eq_add_one, readIntBE, hfirst]
  rw [hslice]
  refine congrArg Except.ok (?_ : UInt64.toInt64 _ = v)
  by_cases hneg : v.toInt < 0
  · rw [if_neg (by rw [hsign]; exact not_not.mpr hneg),
      show (0xffffffffffffffff : UInt64) = UInt64.ofNat (2 ^ 64 - 1) by rfl, foldl_shiftIn,
      beBytes_length, beNat_beBytes_of_lt _ _ hbound]
    apply toInt64_ofNat_of_emod
    rw [if_pos hneg] at hres
    have hwrap : (((2 ^ 64 - 1) * 256 ^ (w + 1) + m : Nat) : Int) =
        v.toInt + 2 ^ 64 * 256 ^ (w + 1) := by
      push_cast
      rw [hres]
      ring
    rw [hwrap, Int.add_mul_emod_self_left]
  · rw [if_pos (by rw [hsign]; exact hneg), show (0 : UInt64) = UInt64.ofNat 0 by rfl,
      foldl_shiftIn, beBytes_length, beNat_beBytes_of_lt _ _ hbound, Nat.zero_mul, Nat.zero_add]
    apply toInt64_ofNat_of_emod
    rw [hres, if_neg hneg]

theorem integerWidths_cases (h : (serial, w) ∈ integerWidths) :
    0 < w ∧ UInt64.ofNat serial ≠ 0 ∧ UInt64.ofNat serial ≤ 6 ∧
      serialWidth (UInt64.ofNat serial) = w := by
  simp only [integerWidths, mem_cons, Prod.mk.injEq, not_mem_nil, or_false] at h
  rcases h with ⟨rfl, rfl⟩ | ⟨rfl, rfl⟩ | ⟨rfl, rfl⟩ | ⟨rfl, rfl⟩ | ⟨rfl, rfl⟩ | ⟨rfl, rfl⟩ <;> decide

theorem bigSerial (n k : Nat) (hk : k = 12 ∨ k = 13) (hn : k + 2 * n < 2 ^ 64) :
    ¬ UInt64.ofNat (k + 2 * n) = 0 ∧ ¬ UInt64.ofNat (k + 2 * n) ≤ 6 ∧
    ¬ UInt64.ofNat (k + 2 * n) = 7 ∧ ¬ UInt64.ofNat (k + 2 * n) = 8 ∧
    ¬ UInt64.ofNat (k + 2 * n) = 9 ∧ ¬ UInt64.ofNat (k + 2 * n) ≤ 11 ∧
    (UInt64.ofNat (k + 2 * n) % 2 = 0 ↔ k = 12) ∧
    ((UInt64.ofNat (k + 2 * n) - UInt64.ofNat k) / 2).toNat = n := by
  have hs : (UInt64.ofNat (k + 2 * n)).toNat = k + 2 * n := by
    rw [UInt64.toNat_ofNat', Nat.mod_eq_of_lt hn]
  have hsmall : (UInt64.ofNat k).toNat = k := by
    rw [UInt64.toNat_ofNat', Nat.mod_eq_of_lt (by omega)]
  have hsub : (UInt64.ofNat (k + 2 * n) - UInt64.ofNat k).toNat = 2 * n := by
    rw [UInt64.toNat_sub_of_le _ _ (by rw [UInt64.le_iff_toNat_le, hs, hsmall]; omega), hs, hsmall]
    omega
  simp only [UInt64.le_iff_toNat_le, ← UInt64.toNat_inj, UInt64.toNat_div, UInt64.toNat_mod, hs,
    hsub, UInt64.reduceToNat]
  omega

variable {record : Bytes}

theorem decodeSerialValue_of_stores {p remaining : Nat} {value : SqliteValue} {body : Bytes}
    (hs : StoresValue value serial body) (hlt : serial < 2 ^ 64) (hat : HasAt record p body)
    (hrem : body.length ≤ remaining) :
    decodeSerialValue (UInt64.ofNat serial) record p remaining 1 = .ok (value, body.length) := by
  cases hs with
  | null | zero | one => rfl
  | integer v _ w hw hlo hhi =>
    obtain ⟨hpos, hne, hle, hwidth⟩ := integerWidths_cases hw
    rw [beBytes_length] at hrem ⊢
    rw [decodeSerialValue, if_neg hne, if_pos hle, hwidth]
    rw [if_neg (by omega), readIntBE_of_hasAt hpos hlo hhi hat]
    rfl
  | real bits =>
    have hslice := readSlice_of_hasAt hat
    rw [beBytes_length] at hrem hslice ⊢
    rw [decodeSerialValue, if_neg (by decide), if_neg (by decide), if_pos (by decide),
      if_neg (by omega), hslice]
    simp only [bind, Except.bind]
    rw [show (0 : UInt64) = UInt64.ofNat 0 by rfl, foldl_shiftIn, beNat_beBytes_of_lt _ _
      (by have hb := bits.toNat_lt; norm_num at hb ⊢; exact hb), Nat.zero_mul, Nat.zero_add,
      UInt64.ofNat_toNat]
    rfl
  | blob bytes =>
    obtain ⟨h0, h6, h7, h8, h9, h11, heven, hlen⟩ := bigSerial body.length 12 (.inl rfl) hlt
    have hmod : UInt64.ofNat (12 + 2 * body.length) % 2 = 0 := heven.mpr rfl
    rw [decodeSerialValue, if_neg h0, if_neg h6, if_neg h7, if_neg h8, if_neg h9, if_neg h11]
    simp only [hmod, if_true]
    rw [show (12 : UInt64) = UInt64.ofNat 12 by rfl, hlen, if_neg (by omega),
      readSlice_of_hasAt hat]
    rfl
  | text bytes =>
    obtain ⟨h0, h6, h7, h8, h9, h11, hodd, hlen⟩ := bigSerial body.length 13 (.inr rfl) hlt
    have hmod : ¬ UInt64.ofNat (13 + 2 * body.length) % 2 = 0 := by
      rw [hodd]
      decide
    rw [decodeSerialValue, if_neg h0, if_neg h6, if_neg h7, if_neg h8, if_neg h9, if_neg h11]
    simp only [hmod, if_false, ne_eq, not_true_eq_false]
    rw [show (13 : UInt64) = UInt64.ofNat 13 by rfl, hlen, if_neg (by omega),
      readSlice_of_hasAt hat]
    rfl

theorem decodeValues_of_hasAt (cols : List StoredColumn) (vp vremaining : Nat)
    (hat : HasAt record vp (cols.flatMap StoredColumn.body))
    (hrem : (cols.flatMap StoredColumn.body).length ≤ vremaining) :
    decodeValues record 1 (cols.map fun c => UInt64.ofNat c.serial) vp vremaining =
      .ok (cols.map StoredColumn.value) := by
  induction cols generalizing vp vremaining with
  | nil => rfl
  | cons c cols ih =>
    rw [flatMap_cons] at hat hrem
    rw [length_append] at hrem
    rw [map_cons, decodeValues,
      decodeSerialValue_of_stores c.stores c.type_varint.lt hat.left (by omega)]
    simp only [bind, Except.bind]
    rw [ih (vp + c.body.length) (vremaining - c.body.length) hat.right (by omega)]
    rfl

theorem readSerials_of_hasAt (cols : List StoredColumn) (pos fuel : Nat) (acc : List UInt64)
    (hat : HasAt record pos (cols.flatMap StoredColumn.type)) (hfuel : cols.length ≤ fuel) :
    readSerials record (pos + (cols.flatMap StoredColumn.type).length) fuel pos acc =
      .ok (acc ++ cols.map fun c => UInt64.ofNat c.serial) := by
  induction cols generalizing pos fuel acc with
  | nil =>
    rw [flatMap_nil, length_nil, Nat.add_zero, map_nil, append_nil]
    cases fuel <;> rw [readSerials, if_neg (Nat.lt_irrefl pos)]
  | cons c cols ih =>
    rw [flatMap_cons] at hat
    have hpos := c.type_varint.length_pos
    have hle := hat.1
    rw [length_append] at hle
    obtain ⟨fuel, rfl⟩ := Nat.exists_eq_succ_of_ne_zero
      (by rw [length_cons] at hfuel; omega : fuel ≠ 0)
    rw [flatMap_cons, length_append, ← Nat.add_assoc, readSerials,
      if_pos (by omega), readVarint_of_hasAt c.type_varint hat.left (by omega)]
    simp only [bind, Except.bind]
    rw [ih (pos + c.type.length) fuel _ hat.right (by rw [length_cons] at hfuel; omega),
      append_assoc]
    rfl

theorem decodeRecord_of_stores {values : List SqliteValue} (h : StoresRecord values payload)
    (hlen : payload.length < 2 ^ 63) : decodeRecord payload 1 = .ok values := by
  obtain ⟨cols, hdr, rfl, hhdr, rfl⟩ := h
  have htypes := hasAt_append_middle hdr (cols.flatMap StoredColumn.type)
    (cols.flatMap StoredColumn.body)
  have hbodies := hasAt_append_middle (hdr ++ cols.flatMap StoredColumn.type)
    (cols.flatMap StoredColumn.body) []
  have hhead := hasAt_append_middle [] hdr
    (cols.flatMap StoredColumn.type ++ cols.flatMap StoredColumn.body)
  rw [nil_append, length_nil] at hhead
  rw [append_nil, append_assoc, length_append] at hbodies
  have hcols : cols.length ≤ (cols.flatMap StoredColumn.type).length := by
    clear hhdr hlen htypes hbodies hhead
    induction cols with
    | nil => rfl
    | cons c cols ih =>
      have hpos := c.type_varint.length_pos
      rw [flatMap_cons, length_append, length_cons]
      omega
  simp only [length_append] at hlen
  have hheader : (UInt64.ofNat (hdr.length + (cols.flatMap StoredColumn.type).length)).toNat =
      hdr.length + (cols.flatMap StoredColumn.type).length := by
    rw [UInt64.toNat_ofNat', Nat.mod_eq_of_lt hhdr.lt]
  have hfits := hhead.1
  have hsub : subSize (hdr ++ (cols.flatMap StoredColumn.type ++
      cols.flatMap StoredColumn.body)).length
      (hdr.length + (cols.flatMap StoredColumn.type).length) =
      (cols.flatMap StoredColumn.body).length := by
    simp only [length_append]
    unfold subSize
    omega
  rw [decodeRecord, readVarint_of_hasAt hhdr hhead (by omega)]
  simp only [bind, Except.bind]
  rw [hheader, readSerials_of_hasAt cols hdr.length _ [] htypes
    (by simp only [length_append]; omega), nil_append]
  simp only
  rw [hsub, decodeValues_of_hasAt cols _ _ hbodies le_rfl]

/-! ## 3. Overflow chains and cells -/

/-- `OverflowChain fetcher usable first pages content`: the chain that starts at page `first` and
runs through `pages` holds `content`.  An overflow page is the number of the next one, then up to
`usable - 4` bytes; every page but the last is full and the last one points to page 0. -/
inductive OverflowChain (fetcher : PageFetcher) (usable : Nat) :
    UInt32 → List UInt32 → Bytes → Prop where
  | last (no : UInt32) (page content : Bytes) (hno : no ≠ 0) (hpage : fetcher no = some page)
      (hat : HasAt page 0 (be32 0 ++ content)) (hne : content ≠ [])
      (hlen : content.length ≤ usable - 4) : OverflowChain fetcher usable no [no] content
  | more (no next : UInt32) (pages : List UInt32) (page chunk content : Bytes) (hno : no ≠ 0)
      (hpage : fetcher no = some page) (hat : HasAt page 0 (be32 next ++ chunk))
      (hlen : chunk.length = usable - 4) (hrest : OverflowChain fetcher usable next pages content) :
      OverflowChain fetcher usable no (no :: pages) (chunk ++ content)

/-- Bytes of a `size`-byte payload a leaf cell keeps: all of them up to `usable - 35`, else the
share that leaves the overflow pages full when the cell may keep it, else the least share. -/
def localSize (usable size : Nat) : Nat :=
  let least := (usable - 12) * 32 / 255 - 23
  let filling := least + (size - least) % (usable - 4)
  if size ≤ usable - 35 then size else if filling ≤ usable - 35 then filling else least

/-- A cell is the payload length, the rowid, and the payload or its local part with the number of
the first overflow page.  A chain visits no page twice. -/
def StoresCell (fetcher : PageFetcher) (usable : Nat) (row : DecodedRow) (cell : Bytes) : Prop :=
  ∃ payload len id, IsVarint payload.length len ∧ IsVarint row.rowid.toUInt64.toNat id ∧
    StoresRecord row.values payload ∧
    ((payload.length ≤ usable - 35 ∧ cell = len ++ (id ++ payload)) ∨
      (usable - 35 < payload.length ∧ ∃ first pages, pages.Nodup ∧
        OverflowChain fetcher usable first pages (payload.drop (localSize usable payload.length)) ∧
        cell = len ++ (id ++ (payload.take (localSize usable payload.length) ++ be32 first))))

theorem leafLocalPayload_eq_localSize (usable size : Nat) :
    leafLocalPayload usable size = localSize usable size := rfl

theorem localSize_lt {size : Nat} (husable : 480 ≤ usable) (hsize : usable - 35 < size) :
    localSize usable size < size := by
  unfold localSize
  split
  · omega
  · dsimp only
    split <;> omega

variable {first : UInt32}

theorem OverflowChain.length_le {content : Bytes}
    (h : OverflowChain fetcher usable first pages content) :
    content.length ≤ pages.length * (usable - 4) := by
  induction h with
  | last no page content hno hpage hat hne hlen => rwa [length_singleton, Nat.one_mul]
  | more no next pages page chunk content hno hpage hat hlen hrest ih =>
    rw [length_append, length_cons, Nat.add_mul, Nat.one_mul, hlen, Nat.add_comm]
    exact Nat.add_le_add_right ih _

theorem length_le_of_nodup (h : pages.Nodup) : pages.length ≤ 2 ^ 32 := by
  have hnodup : (pages.map UInt32.toNat).Nodup :=
    h.map fun a b hab => UInt32.toNat_inj.mp hab
  have hsub : pages.map UInt32.toNat ⊆ range (2 ^ 32) := by
    intro n hn
    obtain ⟨p, -, rfl⟩ := mem_map.mp hn
    exact mem_range.mpr p.toNat_lt
  have hlen := (hnodup.subperm hsub).length_le
  rwa [length_map, length_range] at hlen

theorem followOverflow_of_chain {content : Bytes}
    (h : OverflowChain fetcher usable first pages content) (husable : 4 < usable) (fuel : Nat)
    (hfuel : content.length ≤ fuel) (record : Bytes) :
    followOverflow fetcher usable fuel first content.length record = .ok (record ++ content) := by
  induction h generalizing fuel record with
  | last no page content hno hpage hat hne hlen =>
    obtain ⟨n, hn⟩ := Nat.exists_eq_succ_of_ne_zero
      (by rwa [ne_eq, length_eq_zero_iff] : content.length ≠ 0)
    obtain ⟨fuel, rfl⟩ := Nat.exists_eq_succ_of_ne_zero (by omega : fuel ≠ 0)
    have hslice := readSlice_of_hasAt hat.right
    rw [be32_length, Nat.zero_add] at hslice
    rw [hn, Nat.succ_eq_add_one, followOverflow, if_neg hno, hpage]
    simp only
    rw [readU32BE_of_hasAt hat.left, ← Nat.succ_eq_add_one, ← hn, Nat.min_eq_left hlen]
    simp only [bind, Except.bind]
    rw [hslice]
    simp only
    rw [Nat.sub_self, followOverflow]
  | more no next pages page chunk content hno hpage hat hlen hrest ih =>
    rw [length_append] at hfuel ⊢
    obtain ⟨n, hn⟩ := Nat.exists_eq_succ_of_ne_zero (by omega : chunk.length + content.length ≠ 0)
    obtain ⟨fuel, rfl⟩ := Nat.exists_eq_succ_of_ne_zero (by omega : fuel ≠ 0)
    have hslice := readSlice_of_hasAt hat.right
    rw [be32_length, Nat.zero_add] at hslice
    rw [hn, Nat.succ_eq_add_one, followOverflow, if_neg hno, hpage]
    simp only
    rw [readU32BE_of_hasAt hat.left, ← Nat.succ_eq_add_one, ← hn,
      Nat.min_eq_right (by omega), ← hlen]
    simp only [bind, Except.bind]
    rw [hslice]
    simp only
    rw [Nat.add_sub_cancel_left, ih fuel (by omega), append_assoc]

theorem assembleRecord_of_local (hat : HasAt image recordOff payload)
    (hpage : image.length = pageSize) (hlen : payload.length < 2 ^ 63)
    (hfits : payload.length ≤ usable - 35) :
    assembleRecord image pageSize usable fetcher recordOff payload.length = .ok payload := by
  have hlocal : leafLocalPayload usable payload.length = payload.length := by
    rw [leafLocalPayload_eq_localSize, localSize, if_pos hfits]
  have hend := hat.1
  rw [assembleRecord, hlocal, if_neg (by unfold vectorMaxSize; omega), if_pos rfl,
    if_neg (by omega), readSlice_of_hasAt hat]

theorem assembleRecord_of_spilled
    (hat : HasAt image recordOff (payload.take (localSize usable payload.length) ++ be32 first))
    (hpage : image.length = pageSize) (hlen : payload.length < 2 ^ 63) (husable : 480 ≤ usable)
    (hspill : usable - 35 < payload.length)
    (hchain : OverflowChain fetcher usable first pages
      (payload.drop (localSize usable payload.length))) :
    assembleRecord image pageSize usable fetcher recordOff payload.length = .ok payload := by
  have hlt := localSize_lt husable hspill
  have htake : (payload.take (localSize usable payload.length)).length =
      localSize usable payload.length := by
    rw [length_take, Nat.min_eq_left hlt.le]
  have hend := hat.1
  rw [length_append, htake, be32_length] at hend
  have hhead := readSlice_of_hasAt hat.left
  have hroot := hat.right
  rw [htake] at hhead hroot
  have hfollow := followOverflow_of_chain hchain (by omega) (payload.drop _).length le_rfl
    (payload.take (localSize usable payload.length))
  rw [take_append_drop, length_drop] at hfollow
  rw [assembleRecord, leafLocalPayload_eq_localSize, if_neg (by unfold vectorMaxSize; omega),
    if_neg (by omega), if_neg (by omega), hhead]
  rw [readU32BE_of_hasAt hroot]
  exact hfollow

/-- A payload is far below the limit of the record buffer: its local part lies on the page and
its chain has at most one page for each page number. -/
theorem OverflowChain.payload_lt (husable : 480 ≤ usable) (hmax : usable ≤ 65536)
    (hspill : usable - 35 < payload.length) (hnodup : pages.Nodup)
    (hchain : OverflowChain fetcher usable first pages
      (payload.drop (localSize usable payload.length))) :
    payload.length < 2 ^ 63 := by
  have hlocal : localSize usable payload.length ≤ usable := by
    unfold localSize
    split
    · omega
    · dsimp only
      split <;> omega
  have hcontent := hchain.length_le
  have hpages : pages.length * (usable - 4) ≤ 2 ^ 32 * 65536 :=
    Nat.mul_le_mul (length_le_of_nodup hnodup) (by omega)
  rw [length_drop] at hcontent
  omega

theorem decodeCell_of_stores {ci : Nat} {row : DecodedRow} {cell : Bytes}
    (hpage : image.length = pageSize) (hmax : pageSize ≤ 65536) (husable : 480 ≤ usable)
    (hle : usable ≤ pageSize) (hptr : HasAt image (8 + 2 * ci) (beBytes 2 off)) (hoff : off < 65536)
    (hcell : StoresCell fetcher usable row cell) (hat : HasAt image off cell) :
    decodeCell image pageSize usable 1 fetcher ci = .ok row := by
  obtain ⟨payload, len, id, hvlen, hvid, hrecord, hcase⟩ := hcell
  -- both kinds of cell start with the two varints and carry the record behind them
  obtain ⟨rest, rfl, hlen, hassemble⟩ : ∃ rest, cell = len ++ (id ++ rest) ∧
      payload.length < 2 ^ 63 ∧
      (HasAt image (off + len.length + id.length) rest →
        assembleRecord image pageSize usable fetcher (off + len.length + id.length)
          payload.length = .ok payload) := by
    rcases hcase with ⟨hfits, rfl⟩ | ⟨hspill, first, pages, hnodup, hchain, rfl⟩
    · exact ⟨payload, rfl, by omega, fun h => assembleRecord_of_local h hpage (by omega) hfits⟩
    · have hlt := OverflowChain.payload_lt husable (by omega) hspill hnodup hchain
      exact ⟨_, rfl, hlt, fun h => assembleRecord_of_spilled h hpage hlt husable hspill hchain⟩
  have hpos := hvlen.length_pos
  have hend := hat.1
  have hoffset : (UInt16.ofNat off).toNat = off := by
    rw [UInt16.toNat_ofNat', Nat.mod_eq_of_lt (by omega)]
  have hpayload : (UInt64.ofNat payload.length).toNat = payload.length := by
    rw [UInt64.toNat_ofNat', Nat.mod_eq_of_lt (by omega)]
  simp only [length_append] at hend
  rw [decodeCell, readU16BE_of_hasAt (v := UInt16.ofNat off) (by rwa [hoffset])]
  simp only [bind, Except.bind]
  rw [hoffset, if_neg (by omega), readVarint_of_hasAt hvlen hat.left (by omega)]
  simp only
  rw [readVarint_of_hasAt hvid hat.right.left (by omega)]
  simp only
  rw [hpayload, hassemble hat.right.right]
  simp only
  rw [decodeRecord_of_stores hrecord hlen, UInt64.ofNat_toNat]
  rfl

/-! ## 4. Leaf pages -/

structure StoresLeaf (fetcher : PageFetcher) (pageSize : Nat) (reserved : UInt8)
    (rows : List DecodedRow) (image : Bytes) : Prop where
  size : image.length = pageSize
  flags : HasAt image 0 [0x0D]
  count_lt : rows.length < 65536
  count : HasAt image 3 (beBytes 2 rows.length)
  cells : ∀ (i : Nat) (row : DecodedRow), rows[i]? = some row → ∃ off cell, off < 65536 ∧
    HasAt image (8 + 2 * i) (beBytes 2 off) ∧
    StoresCell fetcher (pageSize - reserved.toNat) row cell ∧ HasAt image off cell

theorem mapM_range_eq_ok {α : Type} {f : Nat → Except Stop α} (xs : List α)
    (h : ∀ i x, xs[i]? = some x → f i = .ok x) : (range xs.length).mapM f = .ok xs := by
  induction xs using reverseRecOn with
  | nil => rfl
  | append_singleton xs x ih =>
    have hinit : (range xs.length).mapM f = .ok xs := by
      apply ih
      intro i y hy
      apply h
      rw [getElem?_append_left (List.getElem?_eq_some_iff.mp hy).1, hy]
    have hlast : f xs.length = .ok x := h _ _ (by simp)
    rw [length_append, length_singleton, range_succ, mapM_append, hinit]
    simp [hlast, bind, Except.bind, pure, Except.pure]

theorem decodeTableLeafPage_of_stores {fetcher : PageFetcher} {pageSize : Nat} {reserved : UInt8}
    {rows : List DecodedRow} {image : Bytes}
    (hsize : ∃ k, 9 ≤ k ∧ k ≤ 16 ∧ pageSize = 2 ^ k) (husable : 480 ≤ pageSize - reserved.toNat)
    (h : StoresLeaf fetcher pageSize reserved rows image) :
    decodeTableLeafPage image image.length pageSize reserved 1 fetcher = .ok rows := by
  obtain ⟨k, hk9, hk16, rfl⟩ := hsize
  have hmin : 2 ^ 9 ≤ 2 ^ k := Nat.pow_le_pow_right (by decide) hk9
  have hmax : 2 ^ k ≤ 2 ^ 16 := Nat.pow_le_pow_right (by decide) hk16
  have hflags := readByte_of_hasAt h.flags 0 (by simp)
  have hcount : (UInt16.ofNat rows.length).toNat = rows.length := by
    rw [UInt16.toNat_ofNat', Nat.mod_eq_of_lt h.count_lt]
  rw [decodeTableLeafPage, if_neg (by rw [h.size]; omega), hflags]
  simp only [readByte, getElem?_cons_zero, bind, Except.bind, ne_eq, not_true_eq_false, if_false]
  rw [readU16BE_of_hasAt (v := UInt16.ofNat rows.length) (by rw [hcount]; exact h.count)]
  simp only
  rw [hcount]
  apply mapM_range_eq_ok
  intro i row hrow
  obtain ⟨off, cell, hoff, hptr, hcell, hat⟩ := h.cells i row hrow
  exact decodeCell_of_stores h.size (by omega) husable (Nat.sub_le _ _) hptr hoff hcell hat

def spillRows : List DecodedRow :=
  [{ rowid := -1, values := [.null, .integer (-2), .text [97, 98]] },
    { rowid := 7, values := [.blob (replicate 500 5)] }]

def spillPage : Bytes :=
  [0x0D, 0, 0, 0, 2, 0, 0, 0, 1, 0, 1, 64] ++ replicate 244 0 ++
    ([7] ++ (replicate 9 0xFF ++ [4, 0, 1, 17, 0xFE, 97, 98])) ++ replicate 47 0 ++
    ([0x83, 0x77] ++ ([7] ++ (([3, 0x87, 0x74] ++ replicate 36 5) ++ be32 2))) ++
    replicate 146 0

def spillFetcher : PageFetcher := fun no =>
  if no = 2 then some (be32 0 ++ replicate 464 5 ++ replicate 44 0) else none

theorem storesRecord_first : StoresRecord [.null, .integer (-2), .text [97, 98]]
    [4, 0, 1, 17, 0xFE, 97, 98] :=
  ⟨[⟨.null, 0, [0], [], .null, .short 0 0 (by decide) (by decide)⟩,
    ⟨.integer (-2), 1, [1], [0xFE], .integer (-2) 1 1 (by decide) (by decide) (by decide),
      .short 0 1 (by decide) (by decide)⟩,
    ⟨.text [97, 98], 17, [17], [97, 98], .text [97, 98], .short 0 17 (by decide) (by decide)⟩],
    [4], rfl, .short 0 4 (by decide) (by decide), rfl⟩

theorem storesRecord_second : StoresRecord [.blob (replicate 500 5)]
    ([3, 0x87, 0x74] ++ replicate 500 5) := by
  have hvalue := StoresValue.blob (replicate 500 5)
  rw [length_replicate] at hvalue
  refine ⟨[⟨.blob (replicate 500 5), 1012, [0x87, 0x74], replicate 500 5, hvalue,
    .short 1 1012 (by decide) (by decide)⟩], [3], rfl, .short 0 3 (by decide) (by decide), ?_⟩
  simp only [flatMap_cons, flatMap_nil, append_nil, cons_append, nil_append]

theorem storesCell_second : StoresCell spillFetcher 512
    { rowid := 7, values := [.blob (replicate 500 5)] }
    ([0x83, 0x77] ++ ([7] ++ (([3, 0x87, 0x74] ++ replicate 36 5) ++ be32 2))) := by
  have hlen : ([3, 0x87, 0x74] ++ replicate 500 5 : Bytes).length = 503 := by
    rw [length_append, length_replicate]
    rfl
  have hchain : OverflowChain spillFetcher 512 2 [2] (replicate 464 5) :=
    .last 2 (be32 0 ++ replicate 464 5 ++ replicate 44 0) _ (by decide) rfl
      (by decide +kernel) (by decide +kernel) (by decide +kernel)
  refine ⟨[3, 0x87, 0x74] ++ replicate 500 5, [0x83, 0x77], [7], ?_,
    .short 0 7 (by decide) (by decide), storesRecord_second, .inr ⟨?_, 2, [2], by simp, ?_, ?_⟩⟩
  · rw [hlen]
    exact .short 1 503 (by decide) (by decide)
  · rw [hlen]
    decide
  · rw [hlen, show ([3, 0x87, 0x74] ++ replicate 500 5 : Bytes).drop (localSize 512 503) =
      replicate 464 5 by decide +kernel]
    exact hchain
  · rw [hlen, show ([3, 0x87, 0x74] ++ replicate 500 5 : Bytes).take (localSize 512 503) =
      [3, 0x87, 0x74] ++ replicate 36 5 by decide +kernel]

theorem spillPage_stores : StoresLeaf spillFetcher 512 0 spillRows spillPage where
  size := by decide +kernel
  flags := by decide +kernel
  count_lt := by decide
  count := by decide +kernel
  cells := by
    intro i row hrow
    match i, hrow with
    | 0, hrow =>
      cases hrow
      exact ⟨256, [7] ++ (replicate 9 0xFF ++ [4, 0, 1, 17, 0xFE, 97, 98]), by decide,
        by decide +kernel,
        ⟨[4, 0, 1, 17, 0xFE, 97, 98], [7], replicate 9 0xFF,
          .short 0 7 (by decide) (by decide), .long (2 ^ 64 - 1) (by decide),
          storesRecord_first, .inl ⟨by decide, rfl⟩⟩,
        by decide +kernel⟩
    | 1, hrow =>
      cases hrow
      exact ⟨320, _, by decide, by decide +kernel, storesCell_second, by decide +kernel⟩

theorem decodeTableLeafPage_of_stores_spill :
    decodeTableLeafPage spillPage spillPage.length 512 0 1 spillFetcher = .ok spillRows :=
  decodeTableLeafPage_of_stores ⟨9, by decide, by decide, by decide⟩ (by decide) spillPage_stores

end Ladybug.Sqlite
