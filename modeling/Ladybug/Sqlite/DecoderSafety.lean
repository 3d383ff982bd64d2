import Mathlib.Order.Interval.Finset.Nat
import Ladybug.Base.CheckedReads
import Ladybug.Sqlite.BtreePageDecoder

/-!
# What the page decoder reads

Every read of a leaf decode and of a leaf walk is inside its page or record and both end, except
that neither loop compares the cell pointer array with the page, and that a cell may announce more
payload than a vector can get.
-/

namespace Ladybug.Sqlite

open Bytes List

/-! ## 1. Words and varints -/

theorem readU16BE_settles_iff (p : Bytes) (off : Nat) :
    Settles (readU16BE p off) ↔ off + 2 ≤ p.length := by
  constructor
  · intro h
    obtain ⟨hfirst, hrest⟩ := settles_bind_iff.mp h
    obtain ⟨a, ha⟩ := readByte_ok ((readByte_settles_iff p off).mp hfirst)
    have hsecond := (settles_bind_iff.mp (hrest a ha)).1
    have hlt := (readByte_settles_iff p (off + 1)).mp hsecond
    omega
  · intro h
    apply settles_bind ((readByte_settles_iff p off).mpr (by omega))
    intro a _
    apply settles_bind ((readByte_settles_iff p (off + 1)).mpr (by omega))
    intro b _
    exact settles_ok _

variable {p : Bytes}

theorem readU16BE_ok {off : Nat} (h : off + 2 ≤ p.length) : ∃ v, readU16BE p off = .ok v := by
  obtain ⟨a, ha⟩ := readByte_ok (show off < p.length by omega)
  obtain ⟨b, hb⟩ := readByte_ok (show off + 1 < p.length by omega)
  exact ⟨u16BE a b, by rw [readU16BE, ha, hb]; rfl⟩

variable {off n remaining pageSize usable reserveMax : Nat} {fetcher : PageFetcher} {image : Bytes}
  {s : List UInt32 × List (UInt32 × Nat)}

theorem readU32BE_settles (h : off + 4 ≤ p.length) : Settles (readU32BE p off) := by
  obtain ⟨v, hv, -⟩ := readU32BE_of_le p off h
  rw [hv]
  exact settles_ok v

theorem readVarintLoop_ok {maxLen : Nat} (h : off + maxLen ≤ p.length) (n : Nat) (hn : n ≤ 9)
    (value : UInt64) :
    ∃ r, readVarintLoop p off maxLen n value = .ok r ∧
      ∀ v len, r = some (v, len) → 1 ≤ len ∧ len ≤ maxLen := by
  induction n generalizing value with
  | zero => exact ⟨none, rfl, nofun⟩
  | succ n ih =>
    rw [readVarintLoop]
    by_cases hi : 8 - n < maxLen
    · rw [if_pos hi]
      obtain ⟨c, hc⟩ := readByte_ok (show off + (8 - n) < p.length by omega)
      rw [hc]
      show ∃ r, (if 8 - n = 8 then _ else _) = Except.ok r ∧ _
      by_cases hlast : 8 - n = 8
      · rw [if_pos hlast]
        refine ⟨_, rfl, fun v len hr => ?_⟩
        have hlen : 9 = len := congrArg Prod.snd (Option.some.inj hr)
        omega
      · rw [if_neg hlast]
        by_cases hbit : c &&& 0x80 = 0
        · rw [if_pos hbit]
          refine ⟨_, rfl, fun v len hr => ?_⟩
          have hlen : 8 - n + 1 = len := congrArg Prod.snd (Option.some.inj hr)
          omega
        · rw [if_neg hbit]
          exact ih (by omega) _
    · rw [if_neg hi]
      exact ⟨none, rfl, nofun⟩

theorem readVarint_ok {off maxLen : Nat} (h : off + maxLen ≤ p.length) :
    ∃ r, readVarint p off maxLen = .ok r ∧ ∀ v len, r = some (v, len) → 1 ≤ len ∧ len ≤ maxLen :=
  readVarintLoop_ok h 9 (Nat.le_refl 9) 0

/-! ## 2. Records -/

theorem readIntBE_settles {record : Bytes} {p : Nat} (hn : 0 < n) (h : p + n ≤ record.length) :
    Settles (readIntBE record p n) := by
  apply settles_bind ((readByte_settles_iff record p).mpr (by omega))
  intro first _
  apply settles_bind (readSlice_settles h)
  intro bytes _
  exact settles_ok _

theorem serialWidth_pos (serial : UInt64) : 0 < serialWidth serial := by
  unfold serialWidth
  split_ifs <;> decide

def Takes (x : Except Stop (SqliteValue × Nat)) (remaining : Nat) : Prop :=
  Settles x ∧ ∀ value w, x = .ok (value, w) → w ≤ remaining

theorem takes_error (msg : String) (remaining : Nat) :
    Takes (.error (.error msg)) remaining := ⟨settles_error msg, nofun⟩

theorem takes_ok (v : SqliteValue) (h : n ≤ remaining) : Takes (.ok (v, n)) remaining := by
  refine ⟨settles_ok _, fun value w hok => ?_⟩
  have hw : n = w := congrArg Prod.snd (Except.ok.inj hok)
  omega

theorem takes_read {α : Type} {x : Except Stop α} (f : α → SqliteValue) (hx : Settles x)
    (h : n ≤ remaining) : Takes (do let a ← x; return (f a, n)) remaining := by
  cases x with
  | error s =>
    refine ⟨settles_bind hx fun a _ => settles_ok _, fun value w hok => ?_⟩
    cases hok
  | ok a => exact takes_ok (f a) h

theorem takes_checked {c : Prop} [Decidable c] {msg : String} {x : Except Stop (SqliteValue × Nat)}
    (h : ¬ c → Takes x remaining) : Takes (if c then .error (.error msg) else x) remaining := by
  by_cases hc : c
  · rw [if_pos hc]
    exact takes_error msg remaining
  · rw [if_neg hc]
    exact h hc

theorem decodeSerialValue_takes (serial : UInt64) {record : Bytes} {p : Nat} (enc : UInt8)
    (h : p + remaining ≤ record.length) :
    Takes (decodeSerialValue serial record p remaining enc) remaining := by
  unfold decodeSerialValue
  by_cases h0 : serial = 0
  · rw [if_pos h0]
    exact takes_ok _ (Nat.zero_le remaining)
  rw [if_neg h0]
  by_cases h6 : serial ≤ 6
  · rw [if_pos h6]
    apply takes_checked
    intro hfits
    have hpos := serialWidth_pos serial
    exact takes_read _ (readIntBE_settles hpos (by omega)) (by omega)
  rw [if_neg h6]
  by_cases h7 : serial = 7
  · rw [if_pos h7]
    apply takes_checked
    intro hfits
    exact takes_read _ (readSlice_settles (by omega)) (by omega)
  rw [if_neg h7]
  by_cases h8 : serial = 8
  · rw [if_pos h8]
    exact takes_ok _ (Nat.zero_le remaining)
  rw [if_neg h8]
  by_cases h9 : serial = 9
  · rw [if_pos h9]
    exact takes_ok _ (Nat.zero_le remaining)
  rw [if_neg h9]
  by_cases h11 : serial ≤ 11
  · rw [if_pos h11]
    exact takes_error _ remaining
  rw [if_neg h11]
  generalize (if serial % 2 = 0 then (serial - 12) / 2 else (serial - 13) / 2).toNat = len
  apply takes_checked
  intro hfits
  by_cases hblob : serial % 2 = 0
  · rw [if_pos hblob]
    exact takes_read _ (readSlice_settles (by omega)) (by omega)
  rw [if_neg hblob]
  apply takes_checked
  intro _
  exact takes_read _ (readSlice_settles (by omega)) (by omega)

theorem decodeValues_settles (record : Bytes) (enc : UInt8) (serials : List UInt64)
    {vp vremaining : Nat} (h : vp + vremaining ≤ record.length) :
    Settles (decodeValues record enc serials vp vremaining) := by
  induction serials generalizing vp vremaining with
  | nil => exact settles_ok []
  | cons serial serials ih =>
    rw [decodeValues]
    obtain ⟨hsettles, hwidth⟩ := decodeSerialValue_takes serial enc h
    apply settles_bind hsettles
    rintro ⟨value, w⟩ hok
    have hw := hwidth value w hok
    apply settles_bind (ih (by omega))
    intro values _
    exact settles_ok _

-- every round takes a byte of the record at least
theorem readSerials_settles (record : Bytes) (headerLen fuel : Nat) {pos : Nat}
    (serials : List UInt64) (hpos : pos ≤ record.length) (hfuel : record.length < fuel + pos) :
    Settles (readSerials record headerLen fuel pos serials) ∧
      ∀ out, readSerials record headerLen fuel pos serials = .ok out →
        headerLen ≤ record.length := by
  induction fuel generalizing pos serials with
  | zero => omega
  | succ fuel ih =>
    rw [readSerials]
    by_cases hmore : pos < headerLen
    · rw [if_pos hmore]
      obtain ⟨r, hr, hlen⟩ :=
        @readVarint_ok record pos (record.length - pos) (by omega)
      rw [hr]
      cases r with
      | none => exact ⟨settles_error _, nofun⟩
      | some v =>
        obtain ⟨hlo, hhi⟩ := hlen v.1 v.2 rfl
        exact ih (serials ++ [v.1]) (by omega) (by omega)
    · rw [if_neg hmore]
      exact ⟨settles_ok _, fun _ _ => by omega⟩

theorem subSize_le {a b : Nat} (h : b ≤ a) : subSize a b ≤ a - b := by
  have hsplit : a + 2 ^ 64 - b = a - b + 2 ^ 64 := by omega
  rw [subSize, hsplit, Nat.add_mod_right]
  exact Nat.mod_le _ _

theorem decodeRecord_settles (record : Bytes) (enc : UInt8) :
    Settles (decodeRecord record enc) := by
  unfold decodeRecord
  obtain ⟨r, hr, hlen⟩ := @readVarint_ok record 0 record.length (by omega)
  rw [hr]
  cases r with
  | none => exact settles_error _
  | some v =>
    obtain ⟨hlo, hhi⟩ := hlen v.1 v.2 rfl
    obtain ⟨hsettles, hheader⟩ :=
      readSerials_settles record v.1.toNat record.length [] hhi (by omega)
    apply settles_bind hsettles
    intro serials hserials
    have hle := hheader serials hserials
    have hsub := subSize_le hle
    exact decodeValues_settles record enc serials (by omega)

/-! ## 3. Leaf cells -/

def WholePages (fetcher : PageFetcher) (pageSize : Nat) : Prop :=
  ∀ pageNo image, fetcher pageNo = some image → image.length = pageSize

theorem leafLocalPayload_le {usable payloadLen : Nat} (h : 257 ≤ usable) :
    leafLocalPayload usable payloadLen ≤ payloadLen := by
  unfold leafLocalPayload
  dsimp only
  by_cases hlocal : payloadLen ≤ usable - 35
  · rw [if_pos hlocal]
  rw [if_neg hlocal]
  generalize (usable - 12) * 32 / 255 - 23 + (payloadLen - ((usable - 12) * 32 / 255 - 23)) %
    (usable - 4) = surplus
  by_cases hsurplus : surplus ≤ usable - 35
  · rw [if_pos hsurplus]
    omega
  · rw [if_neg hsurplus]
    omega

theorem followOverflow_settles (hpages : WholePages fetcher pageSize) (hlo : 257 ≤ usable)
    (hhi : usable ≤ pageSize) (fuel : Nat) (next : UInt32) (record : Bytes)
    (hfuel : remaining ≤ fuel) :
    Settles (followOverflow fetcher usable fuel next remaining record) := by
  induction fuel generalizing next remaining record with
  | zero =>
    rw [Nat.le_zero.mp hfuel]
    exact settles_ok record
  | succ fuel ih =>
    cases remaining with
    | zero => exact settles_ok record
    | succ remaining =>
      rw [followOverflow]
      by_cases hend : next = 0
      · rw [if_pos hend]
        exact settles_error _
      rw [if_neg hend]
      cases hpage : fetcher next with
      | none => exact settles_error _
      | some page =>
        have hlen := hpages next page hpage
        apply settles_bind (readU32BE_settles (by omega))
        intro nextPage _
        apply settles_bind (readSlice_settles (by omega))
        intro bytes _
        exact ih nextPage (record ++ bytes) (by omega)

theorem assembleRecord_settles (himage : image.length = pageSize)
    (hpages : WholePages fetcher pageSize) (hlo : 257 ≤ usable) (hhi : usable ≤ pageSize)
    (recordOff : Nat) {payloadLen : Nat} (hmax : payloadLen ≤ reserveMax) :
    Settles (assembleRecord image pageSize usable fetcher recordOff payloadLen reserveMax) := by
  have hlocal := @leafLocalPayload_le usable payloadLen hlo
  unfold assembleRecord
  rw [if_neg (Nat.not_lt.mpr hmax)]
  generalize leafLocalPayload usable payloadLen = localLen at hlocal ⊢
  by_cases hwhole : localLen = payloadLen
  · rw [if_pos hwhole]
    by_cases hpast : recordOff + payloadLen > pageSize
    · rw [if_pos hpast]
      exact settles_error _
    · rw [if_neg hpast]
      exact readSlice_settles (by omega)
  · rw [if_neg hwhole]
    by_cases hpast : recordOff + localLen + 4 > pageSize
    · rw [if_pos hpast]
      exact settles_error _
    · rw [if_neg hpast]
      apply settles_bind (readSlice_settles (by omega))
      intro head _
      apply settles_bind (readU32BE_settles (by omega))
      intro overflowRoot _
      exact followOverflow_settles hpages hlo hhi _ overflowRoot head (Nat.le_refl _)

def CellAnnounces (image : Bytes) (pageSize ci : Nat) (payloadLen : UInt64) : Prop :=
  ∃ cellOff lenLen rowid idLen, readU16BE image (8 + 2 * ci) = .ok cellOff ∧
    cellOff.toNat < pageSize ∧
    readVarint image cellOff.toNat (pageSize - cellOff.toNat) = .ok (some (payloadLen, lenLen)) ∧
    readVarint image (cellOff.toNat + lenLen) (pageSize - cellOff.toNat - lenLen) =
      .ok (some (rowid, idLen))

/-- The pointer to cell `ci` lies in the page, and a vector can get what the cell announces. -/
def CellFits (image : Bytes) (pageSize ci reserveMax : Nat) : Prop :=
  8 + 2 * ci + 2 ≤ pageSize ∧
    ∀ payloadLen, CellAnnounces image pageSize ci payloadLen → payloadLen.toNat ≤ reserveMax

theorem decodeCell_settles_iff (enc : UInt8) (himage : image.length = pageSize)
    (hpages : WholePages fetcher pageSize) (hlo : 257 ≤ usable) (hhi : usable ≤ pageSize) (ci : Nat) :
    Settles (decodeCell image pageSize usable enc fetcher ci reserveMax) ↔
      CellFits image pageSize ci reserveMax := by
  by_cases hptr : 8 + 2 * ci + 2 ≤ pageSize
  · obtain ⟨cellOff, hcell⟩ := @readU16BE_ok image (8 + 2 * ci) (by omega)
    rw [CellFits, and_iff_right hptr, decodeCell, hcell]
    dsimp only [bind, Except.bind]
    by_cases hrange : pageSize ≤ cellOff.toNat
    · rw [if_pos hrange]
      apply iff_of_true (settles_error _)
      rintro payloadLen ⟨cellOff', lenLen, rowid, idLen, hcell', hlt, -⟩
      rw [hcell] at hcell'
      rw [← Except.ok.inj hcell'] at hlt
      omega
    rw [if_neg hrange]
    obtain ⟨r, hr, hlen⟩ :=
      @readVarint_ok image cellOff.toNat (pageSize - cellOff.toNat) (by omega)
    rw [hr]
    cases r with
    | none =>
      apply iff_of_true (settles_error _)
      rintro payloadLen ⟨cellOff', lenLen, rowid, idLen, hcell', -, hfirst, -⟩
      rw [hcell] at hcell'
      rw [← Except.ok.inj hcell', hr] at hfirst
      cases hfirst
    | some v =>
      obtain ⟨payloadLen, lenLen⟩ := v
      obtain ⟨-, hle⟩ := hlen payloadLen lenLen rfl
      obtain ⟨r', hr', -⟩ := @readVarint_ok image (cellOff.toNat + lenLen)
        (pageSize - cellOff.toNat - lenLen) (by omega)
      dsimp only
      rw [hr']
      cases r' with
      | none =>
        apply iff_of_true (settles_error _)
        rintro payloadLen' ⟨cellOff', lenLen', rowid, idLen, hcell', -, hfirst, hsecond⟩
        rw [hcell] at hcell'
        rw [← Except.ok.inj hcell', hr] at hfirst
        cases hfirst
        rw [← Except.ok.inj hcell', hr'] at hsecond
        cases hsecond
      | some v' =>
        obtain ⟨rowid, idLen⟩ := v'
        have hann : CellAnnounces image pageSize ci payloadLen :=
          ⟨cellOff, lenLen, rowid, idLen, hcell, by omega, hr, hr'⟩
        constructor
        · intro h payloadLen' hann'
          obtain ⟨cellOff', lenLen', rowid', idLen', hcell', -, hfirst, -⟩ := hann'
          rw [hcell] at hcell'
          rw [← Except.ok.inj hcell', hr] at hfirst
          cases hfirst
          by_contra hmax
          have hassemble := (settles_bind_iff.mp h).1
          rw [assembleRecord, if_pos (Nat.lt_of_not_le hmax)] at hassemble
          exact not_settles_lengthError hassemble
        · intro h
          apply settles_bind (assembleRecord_settles himage hpages hlo hhi _ (h _ hann))
          intro record _
          apply settles_bind (decodeRecord_settles record enc)
          intro values _
          exact settles_ok _
  · apply iff_of_false
    · intro h
      have hread := (settles_bind_iff.mp h).1
      have hfits := (readU16BE_settles_iff image (8 + 2 * ci)).mp hread
      omega
    · exact fun h => hptr h.1

def CellReached (image : Bytes) (pageSize : Nat) (reserved enc : UInt8) (fetcher : PageFetcher)
    (reserveMax ci : Nat) : Prop :=
  ∀ cj, cj < ci → ∃ row,
    decodeCell image pageSize (pageSize - reserved.toNat) enc fetcher cj reserveMax = .ok row

/-- Every cell that is reached fits. -/
def LeafFits (image : Bytes) (pageSize : Nat) (reserved enc : UInt8) (fetcher : PageFetcher)
    (reserveMax : Nat) : Prop :=
  readByte image 0 = .ok 0x0D → ∀ nCell, readU16BE image 3 = .ok nCell →
    ∀ ci, ci < nCell.toNat → CellReached image pageSize reserved enc fetcher reserveMax ci →
      CellFits image pageSize ci reserveMax

theorem decodeTableLeafPage_settles_iff (reserved enc : UInt8) (himage : image.length = pageSize)
    (hsize : 512 ≤ pageSize) (hpages : WholePages fetcher pageSize) :
    Settles (decodeTableLeafPage image pageSize pageSize reserved enc fetcher reserveMax) ↔
      LeafFits image pageSize reserved enc fetcher reserveMax := by
  have hreserved := reserved.toNat_lt
  have hgood : ¬ (pageSize ≠ pageSize ∨ pageSize < 512) := by omega
  obtain ⟨flags, hflags⟩ := @readByte_ok image 0 (by omega)
  obtain ⟨nCell, hcount⟩ := @readU16BE_ok image 3 (by omega)
  rw [decodeTableLeafPage, if_neg hgood, hflags, LeafFits]
  dsimp only [bind, Except.bind]
  by_cases hleaf : flags = 0x0D
  · rw [if_neg (not_not.mpr hleaf), hcount]
    rw [hflags, hleaf, imp_iff_right rfl]
    rw [settles_range_mapM_iff]
    constructor
    · intro h n hn ci hci hreached
      rw [← Except.ok.inj hn] at hci
      exact (decodeCell_settles_iff enc himage hpages (by omega) (by omega) ci).mp
        (h ci hci hreached)
    · intro h ci hci hreached
      exact (decodeCell_settles_iff enc himage hpages (by omega) (by omega) ci).mpr
        (h nCell rfl ci hci hreached)
  · rw [if_pos hleaf]
    apply iff_of_true (settles_error _)
    intro hflag
    rw [hflags] at hflag
    exact absurd (Except.ok.inj hflag) hleaf

/-! ## 4. The leaf walk -/

/-- The pointers of an interior page that lie in it are in range, and there are more. -/
def Overruns (image : Bytes) (pageSize : Nat) : Prop :=
  ∃ nCell, readU16BE image 3 = .ok nCell ∧ (pageSize - 12) / 2 < nCell.toNat ∧
    ∀ i, i < (pageSize - 12) / 2 → ∃ cellOff, readU16BE image (12 + 2 * i) = .ok cellOff ∧
      cellOff.toNat + 4 ≤ pageSize

/-- One round of the loop over the cell pointers. -/
def childAt (image : Bytes) (pageSize i : Nat) : Except Stop UInt32 := do
  let cellOff ← readU16BE image (12 + 2 * i)
  if cellOff.toNat + 4 > pageSize then .error (.error "Interior cell out of range")
  else readU32BE image cellOff.toNat

theorem interiorChildren_eq (image : Bytes) (pageSize : Nat) : interiorChildren image pageSize = do
      let nCell ← readU16BE image 3
      let children ← (range nCell.toNat).mapM (childAt image pageSize)
      let right ← readU32BE image 8
      return children ++ [right] := rfl

section

variable (himage : image.length = pageSize)

include himage

theorem childAt_settles_iff (i : Nat) :
    Settles (childAt image pageSize i) ↔ 12 + 2 * i + 2 ≤ pageSize := by
  constructor
  · intro h
    have hread := (readU16BE_settles_iff image (12 + 2 * i)).mp (settles_bind_iff.mp h).1
    omega
  · intro h
    apply settles_bind ((readU16BE_settles_iff image (12 + 2 * i)).mpr (by omega))
    intro cellOff _
    by_cases hpast : cellOff.toNat + 4 > pageSize
    · rw [if_pos hpast]
      exact settles_error _
    · rw [if_neg hpast]
      exact readU32BE_settles (by omega)

theorem childAt_ok_iff {i : Nat} (hi : 12 + 2 * i + 2 ≤ pageSize) :
    (∃ child, childAt image pageSize i = .ok child) ↔
      ∃ cellOff, readU16BE image (12 + 2 * i) = .ok cellOff ∧ cellOff.toNat + 4 ≤ pageSize := by
  obtain ⟨cellOff, hread⟩ := @readU16BE_ok image (12 + 2 * i) (by omega)
  rw [childAt, hread]
  dsimp only [bind, Except.bind]
  by_cases hpast : cellOff.toNat + 4 > pageSize
  · rw [if_pos hpast]
    apply iff_of_false
    · rintro ⟨child, h⟩
      cases h
    · rintro ⟨cellOff', h, hle⟩
      rw [← Except.ok.inj h] at hle
      omega
  · rw [if_neg hpast]
    obtain ⟨child, hchild, -⟩ := readU32BE_of_le image cellOff.toNat (by omega)
    exact iff_of_true ⟨child, hchild⟩ ⟨cellOff, rfl, by omega⟩

theorem interiorChildren_settles_iff (hsize : 512 ≤ pageSize) :
    Settles (interiorChildren image pageSize) ↔ ¬ Overruns image pageSize := by
  obtain ⟨nCell, hcount⟩ := @readU16BE_ok image 3 (by omega)
  have hloop : Settles (interiorChildren image pageSize) ↔
      Settles ((range nCell.toNat).mapM (childAt image pageSize)) := by
    rw [interiorChildren_eq, hcount]
    show Settles (do
      let children ← (range nCell.toNat).mapM (childAt image pageSize)
      let right ← readU32BE image 8
      return children ++ [right]) ↔ _
    constructor
    · exact fun h => (settles_bind_iff.mp h).1
    · intro h
      apply settles_bind h
      intro children _
      apply settles_bind (readU32BE_settles (by omega))
      intro right _
      exact settles_ok _
  rw [hloop, settles_range_mapM_iff]
  constructor
  · rintro h ⟨nCell', hcount', hmany, hrange⟩
    rw [hcount] at hcount'
    rw [← Except.ok.inj hcount'] at hmany
    have hlast := h ((pageSize - 12) / 2) hmany fun j hj =>
      (childAt_ok_iff himage (by omega)).mpr (hrange j hj)
    have hin := (childAt_settles_iff himage _).mp hlast
    omega
  · intro h i hi hpre
    apply (childAt_settles_iff himage i).mpr
    by_contra hpast
    apply h
    refine ⟨nCell, hcount, by omega, fun j hj => ?_⟩
    exact (childAt_ok_iff himage (by omega)).mp (hpre j (by omega))

end

theorem interiorChildren_length {children : List UInt32}
    (h : interiorChildren image pageSize = .ok children) : children.length ≤ 2 ^ 16 := by
  rw [interiorChildren_eq] at h
  obtain ⟨nCell, _, h⟩ := bind_eq_ok.mp h
  obtain ⟨cells, hcells, h⟩ := bind_eq_ok.mp h
  obtain ⟨right, _, h⟩ := bind_eq_ok.mp h
  have hlen := mapM_length hcells
  have hcount := nCell.toNat_lt
  rw [← Except.ok.inj h, length_append, hlen, length_range, length_singleton]
  omega

/-- An entry of the stack that the walk does not skip. -/
def Fresh (visited : List UInt32) (e : UInt32 × Nat) : Prop :=
  ¬ (e.1 = 0 ∨ e.2 > maxDepth ∨ e.1 ∈ visited)

instance (visited : List UInt32) (e : UInt32 × Nat) : Decidable (Fresh visited e) :=
  inferInstanceAs (Decidable (¬ _))

inductive WalkStep (fetcher : PageFetcher) (pageSize : Nat) :
    List UInt32 × List (UInt32 × Nat) → List UInt32 × List (UInt32 × Nat) → Prop
  | skip {visited e stack} : ¬ Fresh visited e →
      WalkStep fetcher pageSize (visited, e :: stack) (visited, stack)
  | leaf {visited e stack image} : Fresh visited e → fetcher e.1 = some image →
      readByte image 0 = .ok 0x0D →
      WalkStep fetcher pageSize (visited, e :: stack) (e.1 :: visited, stack)
  | interior {visited e stack image children} : Fresh visited e → fetcher e.1 = some image →
      readByte image 0 = .ok 0x05 → interiorChildren image pageSize = .ok children →
      WalkStep fetcher pageSize (visited, e :: stack)
        (e.1 :: visited, (children.map fun child => (child, e.2 + 1)).reverse ++ stack)

theorem WalkStep.unique {t u : List UInt32 × List (UInt32 × Nat)}
    (ht : WalkStep fetcher pageSize s t) (hu : WalkStep fetcher pageSize s u) : t = u := by
  have hflags : (0x0D : UInt8) ≠ 0x05 := by decide
  cases ht with
  | skip hstale =>
    cases hu with
    | skip _ => rfl
    | leaf hfresh _ _ => exact absurd hfresh hstale
    | interior hfresh _ _ _ => exact absurd hfresh hstale
  | leaf hfresh hpage hflag =>
    cases hu with
    | skip hstale => exact absurd hfresh hstale
    | leaf _ _ _ => rfl
    | interior _ hpage' hflag' _ =>
      rw [hpage] at hpage'
      cases hpage'
      exact absurd (Except.ok.inj (hflag.symm.trans hflag')) hflags
  | interior hfresh hpage hflag hchildren =>
    cases hu with
    | skip hstale => exact absurd hfresh hstale
    | leaf _ hpage' hflag' =>
      rw [hpage] at hpage'
      cases hpage'
      exact absurd (Except.ok.inj (hflag'.symm.trans hflag)) hflags
    | interior _ hpage' _ hchildren' =>
      rw [hpage] at hpage'
      cases hpage'
      rw [hchildren] at hchildren'
      cases hchildren'
      rfl

/-- The walk is about to read the cell pointers of this interior page. -/
def Enters (fetcher : PageFetcher) (s : List UInt32 × List (UInt32 × Nat)) (image : Bytes) : Prop :=
  ∃ visited e stack, s = (visited, e :: stack) ∧ Fresh visited e ∧ fetcher e.1 = some image ∧
    readByte image 0 = .ok 0x05

/-- The interior pages the walk comes to from here hold the pointers they count. -/
def FitsFrom (fetcher : PageFetcher) (pageSize : Nat)
    (s : List UInt32 × List (UInt32 × Nat)) : Prop :=
  ∀ s' image, Relation.ReflTransGen (WalkStep fetcher pageSize) s s' → Enters fetcher s' image →
    ¬ Overruns image pageSize

theorem fitsFrom_step {t : List UInt32 × List (UInt32 × Nat)}
    (hstep : WalkStep fetcher pageSize s t) :
    FitsFrom fetcher pageSize s ↔ (∀ image, Enters fetcher s image → ¬ Overruns image pageSize) ∧
        FitsFrom fetcher pageSize t := by
  constructor
  · intro h
    exact ⟨fun image => h s image Relation.ReflTransGen.refl,
      fun s' image hreach => h s' image (Relation.ReflTransGen.head hstep hreach)⟩
  · rintro ⟨hhere, hthere⟩ s' image hreach
    rcases Relation.ReflTransGen.cases_head hreach with rfl | ⟨u, hu, hrest⟩
    · exact hhere image
    · exact hthere s' image (hstep.unique hu ▸ hrest)

theorem fitsFrom_stop (hstop : ∀ t, ¬ WalkStep fetcher pageSize s t)
    (hhere : ∀ image, ¬ Enters fetcher s image) : FitsFrom fetcher pageSize s := by
  intro s' image hreach
  rcases Relation.ReflTransGen.cases_head hreach with rfl | ⟨u, hu, _⟩
  · exact fun h => absurd h (hhere image)
  · exact absurd hu (hstop u)

theorem fitsFrom_nil (fetcher : PageFetcher) (pageSize : Nat) (visited : List UInt32) :
    FitsFrom fetcher pageSize (visited, []) := by
  apply fitsFrom_stop
  · intro t h
    cases h
  · rintro image ⟨visited', e, stack, hs, -⟩
    cases hs

-- what the walk enters from a state is the page on top of its stack
variable {visited : List UInt32}

theorem enters_cons {e : UInt32 × Nat} {stack : List (UInt32 × Nat)}
    (h : Enters fetcher (visited, e :: stack) image) :
    Fresh visited e ∧ fetcher e.1 = some image ∧ readByte image 0 = .ok 0x05 := by
  obtain ⟨visited', e', stack', hs, hrest⟩ := h
  cases hs
  exact hrest

-- pages are numbered with 32 bits, and each is visited once
theorem visited_length (hnodup : visited.Nodup) (hzero : 0 ∉ visited) :
    visited.length ≤ 2 ^ 32 - 1 := by
  have hmap : (visited.map UInt32.toNat).Nodup :=
    hnodup.map fun _ _ h => UInt32.toNat_inj.mp h
  have hcard := toFinset_card_of_nodup hmap
  have hsub : (visited.map UInt32.toNat).toFinset ⊆ Finset.Ico 1 (2 ^ 32) := by
    intro n hn
    obtain ⟨p, hp, rfl⟩ := mem_map.mp (mem_toFinset.mp hn)
    have hne : p.toNat ≠ 0 := by
      intro h
      apply hzero
      have hp0 : p = 0 := UInt32.toNat_inj.mp h
      exact hp0 ▸ hp
    exact Finset.mem_Ico.mpr ⟨Nat.one_le_iff_ne_zero.mpr hne, p.toNat_lt⟩
  have hle := Finset.card_le_card hsub
  rw [hcard, length_map, Nat.card_Ico] at hle
  exact hle

/-- The rounds that are left at most: the entries on the stack, and those that the pages not yet
visited can push. -/
def walkBound (visited : List UInt32) (stack : List (UInt32 × Nat)) : Nat :=
  stack.length + (2 ^ 32 - 1 - visited.length) * 2 ^ 16

theorem walkBound_visit {e : UInt32 × Nat} {stack more : List (UInt32 × Nat)} {fuel : Nat}
    (hvisited : (e.1 :: visited).length ≤ 2 ^ 32 - 1) (hmore : more.length ≤ 2 ^ 16)
    (hfuel : walkBound visited (e :: stack) ≤ fuel + 1) :
    walkBound (e.1 :: visited) (more ++ stack) ≤ fuel := by
  unfold walkBound at hfuel ⊢
  rw [length_cons] at hvisited hfuel ⊢
  rw [length_append]
  have hleft : 2 ^ 32 - 1 - visited.length = 2 ^ 32 - 1 - (visited.length + 1) + 1 := by omega
  rw [hleft, Nat.add_one_mul] at hfuel
  omega

theorem walkPages_settles_iff (hsize : 512 ≤ pageSize) (hpages : WholePages fetcher pageSize)
    (fuel : Nat) (visited : List UInt32) (stack : List (UInt32 × Nat)) (leaves : List UInt32)
    (hnodup : visited.Nodup) (hzero : 0 ∉ visited) (hfuel : walkBound visited stack ≤ fuel) :
    Settles (walkPages fetcher pageSize fuel visited stack leaves) ↔
      FitsFrom fetcher pageSize (visited, stack) := by
  induction fuel generalizing visited stack leaves with
  | zero =>
    have hnil : stack = [] := by
      unfold walkBound at hfuel
      exact length_eq_zero_iff.mp (by omega)
    rw [hnil, walkPages]
    exact iff_of_true (settles_ok _) (fitsFrom_nil fetcher pageSize visited)
  | succ fuel ih =>
    cases stack with
    | nil =>
      rw [walkPages]
      exact iff_of_true (settles_ok _) (fitsFrom_nil fetcher pageSize visited)
    | cons e stack =>
      obtain ⟨pageNo, depth⟩ := e
      rw [walkPages]
      by_cases hskip : pageNo = 0 ∨ depth > maxDepth ∨ pageNo ∈ visited
      · rw [if_pos hskip]
        have hstale : ¬ Fresh visited (pageNo, depth) := not_not.mpr hskip
        have hfuel' : walkBound visited stack ≤ fuel := by
          unfold walkBound at hfuel ⊢
          rw [length_cons] at hfuel
          omega
        rw [ih visited stack leaves hnodup hzero hfuel', fitsFrom_step (.skip hstale),
          and_iff_right fun image h => absurd (enters_cons h).1 hstale]
      rw [if_neg hskip]
      have hfresh : Fresh visited (pageNo, depth) := hskip
      have hnodup' : (pageNo :: visited).Nodup :=
        nodup_cons.mpr ⟨fun h => hskip (.inr (.inr h)), hnodup⟩
      have hzero' : 0 ∉ pageNo :: visited := by
        intro h
        rcases mem_cons.mp h with h | h
        · exact hskip (.inl h.symm)
        · exact hzero h
      have hcount := visited_length hnodup' hzero'
      cases hpage : fetcher pageNo with
      | none =>
        apply iff_of_true (settles_error _)
        apply fitsFrom_stop
        · intro t hstep
          cases hstep with
          | skip hstale => exact absurd hfresh hstale
          | leaf _ hsome _ => rw [hpage] at hsome; cases hsome
          | interior _ hsome _ _ => rw [hpage] at hsome; cases hsome
        · intro image h
          have hsome := (enters_cons h).2.1
          rw [hpage] at hsome
          cases hsome
      | some image =>
        have himage := hpages pageNo image hpage
        obtain ⟨flags, hflags⟩ := @readByte_ok image 0 (by omega)
        -- the flags that are read here are those of every page fetched under this number
        have hsame (image' : Bytes) (h : fetcher pageNo = some image') (c : UInt8)
            (hc : readByte image' 0 = .ok c) : image' = image ∧ flags = c := by
          rw [hpage] at h
          cases h
          exact ⟨rfl, Except.ok.inj (hflags.symm.trans hc)⟩
        dsimp only
        rw [hflags]
        dsimp only [bind, Except.bind]
        by_cases hleaf : flags = 0x0D
        · have hstep : WalkStep fetcher pageSize (visited, (pageNo, depth) :: stack)
              (pageNo :: visited, stack) := .leaf hfresh hpage (by rw [hflags, hleaf])
          have hfuel' := @walkBound_visit visited (pageNo, depth) stack [] _ hcount (Nat.zero_le _) hfuel
          rw [if_pos hleaf, ih (pageNo :: visited) stack _ hnodup' hzero' hfuel',
            fitsFrom_step hstep, and_iff_right]
          intro image' h
          obtain ⟨-, hsome, hflag⟩ := enters_cons h
          rw [(hsame image' hsome 0x05 hflag).2] at hleaf
          exact absurd hleaf (by decide)
        rw [if_neg hleaf]
        by_cases hinterior : flags ≠ 0x05
        · rw [if_pos hinterior]
          apply iff_of_true (settles_error _)
          apply fitsFrom_stop
          · intro t hstep
            cases hstep with
            | skip hstale => exact absurd hfresh hstale
            | leaf _ hsome hflag => exact absurd (hsame _ hsome _ hflag).2 hleaf
            | interior _ hsome hflag _ => exact absurd (hsame _ hsome _ hflag).2 hinterior
          · intro image' h
            obtain ⟨-, hsome, hflag⟩ := enters_cons h
            exact absurd (hsame image' hsome _ hflag).2 hinterior
        rw [if_neg hinterior]
        have hflag : readByte image 0 = .ok 0x05 := by rw [hflags, not_not.mp hinterior]
        have henters : Enters fetcher (visited, (pageNo, depth) :: stack) image :=
          ⟨visited, _, stack, rfl, hfresh, hpage, hflag⟩
        show Settles (do
          let children ← interiorChildren image pageSize
          walkPages fetcher pageSize fuel (pageNo :: visited)
            ((children.map fun child => (child, depth + 1)).reverse ++ stack) leaves) ↔ _
        rw [settles_bind_iff, interiorChildren_settles_iff himage hsize]
        cases hchildren : interiorChildren image pageSize with
        | error stop =>
          -- the pointers are refused, or read past the page
          constructor
          · rintro ⟨hfits, -⟩ s' image' hreach hin
            rcases Relation.ReflTransGen.cases_head hreach with rfl | ⟨u, hu, _⟩
            · obtain ⟨-, hsome, hflag'⟩ := enters_cons hin
              rw [(hsame image' hsome _ hflag').1]
              exact hfits
            · cases hu with
              | skip hstale => exact absurd hfresh hstale
              | leaf _ hsome hflag' => exact absurd (hsame _ hsome _ hflag').2 hleaf
              | interior _ hsome hflag' hok =>
                rw [(hsame _ hsome _ hflag').1, hchildren] at hok
                cases hok
          · intro h
            exact ⟨h _ image Relation.ReflTransGen.refl henters, nofun⟩
        | ok children =>
          have hlen : (children.map fun child => (child, depth + 1)).reverse.length ≤ 2 ^ 16 := by
            rw [length_reverse, length_map]
            exact interiorChildren_length hchildren
          have hrest := ih _ _ leaves hnodup' hzero' (walkBound_visit hcount hlen hfuel)
          rw [fitsFrom_step (.interior hfresh hpage hflag hchildren), ← hrest]
          constructor
          · rintro ⟨hfits, hwalk⟩
            refine ⟨fun image' hin => ?_, hwalk children rfl⟩
            obtain ⟨-, hsome, hflag'⟩ := enters_cons hin
            rw [(hsame image' hsome _ hflag').1]
            exact hfits
          · rintro ⟨hhere, hwalk⟩
            refine ⟨hhere image henters, fun children' hok => ?_⟩
            rw [← Except.ok.inj hok]
            exact hwalk

theorem collectLeafPages_settles_iff (hsize : 512 ≤ pageSize) (hpages : WholePages fetcher pageSize)
    (rootPage : UInt32) :
    Settles (collectLeafPages rootPage fetcher pageSize) ↔
      FitsFrom fetcher pageSize ([], [(rootPage, 0)]) := by
  rw [collectLeafPages, if_neg (Nat.not_lt.mpr hsize)]
  have hfuel : walkBound [] [(rootPage, 0)] ≤ walkFuel := by
    show 1 + (2 ^ 32 - 1 - 0) * 2 ^ 16 ≤ 2 ^ 48
    norm_num
  exact walkPages_settles_iff hsize hpages walkFuel [] [(rootPage, 0)] [] nodup_nil
    not_mem_nil hfuel

/-! ## 5. The decoder is safe -/

def uniformPage (header : Bytes) (x : UInt8) : Bytes := header ++ replicate 504 x

theorem uniformPage_length {header : Bytes} (h : header.length = 8) (x : UInt8) :
    (uniformPage header x).length = 512 := by
  rw [uniformPage, length_append, h, length_replicate]

/-- Whatever the allocator gives, a leaf decode settles exactly when the cells it reaches fit, and a
walk exactly when the interior pages it enters do not overrun. -/
theorem decoder_safe_iff {pageSize : Nat} (hsize : 512 ≤ pageSize) {fetcher : PageFetcher}
    (hpages : WholePages fetcher pageSize) :
    (∀ (image : Bytes) (reserved enc : UInt8) (reserveMax : Nat), image.length = pageSize →
      (Settles (decodeTableLeafPage image pageSize pageSize reserved enc fetcher reserveMax) ↔
        LeafFits image pageSize reserved enc fetcher reserveMax)) ∧
    (∀ rootPage : UInt32, Settles (collectLeafPages rootPage fetcher pageSize) ↔
      FitsFrom fetcher pageSize ([], [(rootPage, 0)])) := by
  constructor
  · intro image reserved enc reserveMax himage
    exact decodeTableLeafPage_settles_iff reserved enc himage hsize hpages
  · intro rootPage
    exact collectLeafPages_settles_iff hsize hpages rootPage

-- page 1 is the parent of a leaf with one small cell
def smallTree : PageFetcher := fun pageNo =>
  some (uniformPage (if pageNo = 1 then [0x05, 0, 0, 0, 1, 0, 0, 0] else [0x0D, 0, 0, 0, 1, 0, 0, 0]) 1)

theorem decoder_safe_iff_smallTree :
    LeafFits (uniformPage [0x0D, 0, 0, 0, 1, 0, 0, 0] 1) 512 0 1 smallTree 512 ∧
      FitsFrom smallTree 512 ([], [(1, 0)]) := by
  have hpages : WholePages smallTree 512 := by
    rintro pageNo image h
    cases h
    exact uniformPage_length (by split <;> rfl) 1
  have hleaf : decodeTableLeafPage (uniformPage [0x0D, 0, 0, 0, 1, 0, 0, 0] 1) 512 512 0 1 smallTree
      512 = .ok [{ rowid := 1 }] := by decide +kernel
  have hwalk : collectLeafPages 1 smallTree 512 = .ok [0x01010101] := by decide +kernel
  obtain ⟨hdecode, hcollect⟩ := decoder_safe_iff (by decide) hpages
  exact ⟨(hdecode _ 0 1 512 (uniformPage_length rfl 1)).mp (hleaf ▸ settles_ok _),
    (hcollect 1).mp (hwalk ▸ settles_ok _)⟩

theorem readU16BE_uniformPage {header : Bytes} (h : header.length = 8) (x : UInt8) (hlo : 8 ≤ off)
    (hhi : off + 2 ≤ 512) : readU16BE (uniformPage header x) off = .ok (u16BE x x) := by
  have hbyte (i : Nat) (hilo : 8 ≤ i) (hihi : i < 512) :
      readByte (uniformPage header x) i = .ok x := by
    rw [readByte, uniformPage, getElem?_append_right (by omega),
      getElem?_replicate_of_lt (by omega)]
  rw [readU16BE, hbyte off hlo (by omega), hbyte (off + 1) (by omega) (by omega)]
  rfl

/-- A leaf that counts 253 cells, the pointers of the 252 that fit all to one small cell. -/
def crowdedLeaf : Bytes := uniformPage [0x0D, 0, 0, 0, 253, 0, 0, 0] 1

def crowdedInterior : Bytes := uniformPage [0x05, 0, 0, 0, 251, 0, 0, 0] 0

theorem crowdedLeaf_decodes (ci : Nat) (hci : ci < 252) :
    decodeCell crowdedLeaf 512 512 1 (fun _ => none) ci = .ok { rowid := 1, values := [] } := by
  have hptr : readU16BE crowdedLeaf (8 + 2 * ci) = .ok 257 :=
    readU16BE_uniformPage rfl 1 (by omega) (by omega)
  have hcell : (readVarint crowdedLeaf 257 (512 - 257) = .ok (some (1, 1)) ∧
      readVarint crowdedLeaf (257 + 1) (512 - 257 - 1) = .ok (some (1, 1))) ∧
      assembleRecord crowdedLeaf 512 512 (fun _ => none) (257 + 1 + 1) 1 = .ok [1] ∧
      decodeRecord [1] 1 = .ok [] := by decide +kernel
  obtain ⟨⟨hlen, hrowid⟩, hassemble, hdecode⟩ := hcell
  have hoff : (257 : UInt16).toNat = 257 := rfl
  have hpayload : (1 : UInt64).toNat = 1 := rfl
  rw [decodeCell, hptr]
  simp only [bind, Except.bind, hoff, hlen, hrowid, hpayload, hassemble, hdecode]
  rfl

theorem decoder_reads_past_page :
    ¬ Settles (decodeTableLeafPage crowdedLeaf 512 512 0 1 fun _ => none) ∧
    ¬ Settles (collectLeafPages 1 (fun _ => some crowdedInterior) 512) := by
  constructor
  · have himage : crowdedLeaf.length = 512 := uniformPage_length rfl 1
    have hpages : WholePages (fun _ => none) 512 := fun _ _ h => by cases h
    rw [decodeTableLeafPage_settles_iff 0 1 himage (by decide) hpages]
    intro h
    have hlast := h (by decide +kernel) 253 (by decide +kernel) 252 (by decide)
      (fun cj hcj => ⟨_, crowdedLeaf_decodes cj hcj⟩)
    exact absurd hlast.1 (by decide)
  · have hpages : WholePages (fun _ => some crowdedInterior) 512 := by
      intro pageNo image h
      rw [← Option.some.inj h]
      exact uniformPage_length rfl 0
    rw [collectLeafPages_settles_iff (by decide) hpages]
    intro h
    apply h _ crowdedInterior Relation.ReflTransGen.refl
    · exact ⟨[], (1, 0), [], rfl, by decide, rfl, by decide +kernel⟩
    · refine ⟨251, by decide +kernel, by decide, fun i hi => ⟨0, ?_, by decide⟩⟩
      exact readU16BE_uniformPage rfl 0 (by omega) (by omega)

end Ladybug.Sqlite
