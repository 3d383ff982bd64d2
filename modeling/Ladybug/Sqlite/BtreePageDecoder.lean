import Mathlib.Data.List.Sort
import Ladybug.Sqlite.WalTailer

/-!
# The b-tree page decoder (`cdc/btree_page_decoder.h`, `cdc/btree_page_decoder.cpp`)

`collectLeafPages` walks the interior pages of a table b-tree to its leaf set;
`decodeTableLeafPage` decodes the cells of one leaf, following overflow chains through the fetcher.
-/

namespace Ladybug.Sqlite

open Bytes

/-- Decoded storage values (serial-type layer, no affinity applied).  A real is its bit pattern. -/
inductive SqliteValue where
  | null
  | integer (v : Int64)
  | real (bits : UInt64)
  | text (bytes : Bytes)
  | blob (bytes : Bytes)
  deriving DecidableEq

/-- One table-b-tree leaf cell: rowid and record values in schema order. -/
structure DecodedRow where
  rowid : Int64 := 0
  values : List SqliteValue := []
  deriving DecidableEq

/-- The full image of a page, or `none` when the page is unknown. -/
abbrev PageFetcher := UInt32 → Option Bytes

/-- `max_size()` of a vector of bytes: a larger `reserve` throws `std::length_error`. -/
def vectorMaxSize : Nat := 2 ^ 63 - 1

def subSize (a b : Nat) : Nat := (a + 2 ^ 64 - b) % 2 ^ 64

/-- `(v << 8) | c`. -/
def shiftIn (v : UInt64) (c : UInt8) : UInt64 := (v <<< 8) ||| c.toUInt64

/-- Sign-extending read of `n` bytes; the accumulator holds the two's-complement bits. -/
def readIntBE (b : Bytes) (p n : Nat) : Except Stop Int64 := do
  let first ← readByte b p
  let start : UInt64 := if first &&& 0x80 = 0 then 0 else 0xffffffffffffffff
  let bytes ← readSlice b p n
  return (bytes.foldl shiftIn start).toInt64

def serialWidth (serial : UInt64) : Nat :=
  if serial = 1 then 1 else if serial = 2 then 2 else if serial = 3 then 3
  else if serial = 4 then 4 else if serial = 5 then 6 else 8

def decodeSerialValue (serial : UInt64) (record : Bytes) (p remaining : Nat) (textEncoding : UInt8) :
    Except Stop (SqliteValue × Nat) :=
  if serial = 0 then .ok (.null, 0)
  else if serial ≤ 6 then
    let w := serialWidth serial
    if remaining < w then .error (.error "Truncated integer serial value")
    else do
      let v ← readIntBE record p w
      return (.integer v, w)
  else if serial = 7 then
    if remaining < 8 then .error (.error "Truncated float serial value")
    else do
      let bytes ← readSlice record p 8
      return (.real (bytes.foldl shiftIn 0), 8)
  else if serial = 8 then .ok (.integer 0, 0)
  else if serial = 9 then .ok (.integer 1, 0)
  else if serial ≤ 11 then .error (.error "Reserved serial type")
  else
    let isBlob := serial % 2 = 0
    let len := (if isBlob then (serial - 12) / 2 else (serial - 13) / 2).toNat
    if remaining < len then .error (.error "Truncated blob/text serial value")
    else if isBlob then do
      let bytes ← readSlice record p len
      return (.blob bytes, len)
    else if textEncoding ≠ 1 then .error (.error "Non-UTF8 text encoding not supported")
    else do
      let bytes ← readSlice record p len
      return (.text bytes, len)

def leafLocalPayload (usable payloadLen : Nat) : Nat :=
  let maxLocal := usable - 35
  if payloadLen ≤ maxLocal then payloadLen
  else
    let minLocal := (usable - 12) * 32 / 255 - 23
    let surplus := minLocal + (payloadLen - minLocal) % (usable - 4)
    if surplus ≤ maxLocal then surplus else minLocal

def setInsert (p : UInt32) (pages : List UInt32) : List UInt32 :=
  if p ∈ pages then pages else pages.orderedInsert (· ≤ ·) p

/-- The child pointers of an interior page, cells first, the rightmost pointer last.  The interior
header is 12 bytes, so the cell pointer array starts at 12. -/
def interiorChildren (image : Bytes) (pageSize : Nat) : Except Stop (List UInt32) := do
  let nCell ← readU16BE image 3
  let children ← (List.range nCell.toNat).mapM fun i => do
    let cellOff ← readU16BE image (12 + 2 * i)
    if cellOff.toNat + 4 > pageSize then .error (.error "Interior cell out of range")
    else readU32BE image cellOff.toNat
  let right ← readU32BE image 8
  return children ++ [right]

def maxDepth : Nat := 64

/-- The `while (!stack.empty())` loop; the top of the stack is the head of the list. -/
def walkPages (fetcher : PageFetcher) (pageSize : Nat) : Nat → List UInt32 →
    List (UInt32 × Nat) → List UInt32 → Except Stop (List UInt32)
  | _, _, [], leaves => .ok leaves
  | 0, _, _, _ => .error .diverged
  | fuel + 1, visited, (pageNo, depth) :: stack, leaves =>
    if pageNo = 0 ∨ depth > maxDepth ∨ pageNo ∈ visited then
      walkPages fetcher pageSize fuel visited stack leaves
    else
      match fetcher pageNo with
      | none => .error (.error ("Page " ++ toString pageNo.toNat ++ " unavailable"))
      | some image => do
          let flags ← readByte image 0
          if flags = 0x0D then
            walkPages fetcher pageSize fuel (pageNo :: visited) stack (setInsert pageNo leaves)
          else if flags ≠ 0x05 then
            .error (.error ("Page " ++ toString pageNo.toNat ++
              " is not a table b-tree page (flags " ++ hexLiteral flags.toNat ++ ")"))
          else do
            let children ← interiorChildren image pageSize
            walkPages fetcher pageSize fuel (pageNo :: visited)
              ((children.map fun child => (child, depth + 1)).reverse ++ stack) leaves

/-- A bound on the rounds of the walk: every round but the visits pops an entry, and each of fewer
than `2 ^ 32` pages is visited once and pushes at most `2 ^ 16` entries. -/
def walkFuel : Nat := 2 ^ 48

/-- The table-leaf page numbers under `rootPage`, in increasing order. -/
def collectLeafPages (rootPage : UInt32) (fetcher : PageFetcher) (pageSize : Nat) :
    Except Stop (List UInt32) :=
  if pageSize < 512 then .error (.error "Bad page size")
  else walkPages fetcher pageSize walkFuel [] [(rootPage, 0)] []

/-- The overflow loop.  Each round takes at least one byte, so `remaining` bounds the rounds. -/
def followOverflow (fetcher : PageFetcher) (usable : Nat) :
    Nat → UInt32 → Nat → Bytes → Except Stop Bytes
  | _, _, 0, record => .ok record
  | 0, _, _ + 1, _ => .error .diverged
  | fuel + 1, next, remaining + 1, record =>
    if next = 0 then .error (.error "Truncated overflow chain")
    else
      match fetcher next with
      | none => .error (.error ("Overflow page " ++ toString next.toNat ++ " unavailable"))
      | some page => do
          let nextPage ← readU32BE page 0
          let chunk := min (remaining + 1) (usable - 4)
          let bytes ← readSlice page 4 chunk
          followOverflow fetcher usable fuel nextPage (remaining + 1 - chunk) (record ++ bytes)

/-- `record.reserve` stands before every check.  It throws for more than `reserveMax` bytes, what the
allocator gives: `std::bad_alloc`, and beyond `max_size()` `std::length_error`. -/
def assembleRecord (image : Bytes) (pageSize usable : Nat) (fetcher : PageFetcher)
    (recordOff payloadLen : Nat) (reserveMax : Nat := vectorMaxSize) : Except Stop Bytes :=
  let localLen := leafLocalPayload usable payloadLen
  if reserveMax < payloadLen then .error .lengthError
  else if localLen = payloadLen then
    if recordOff + payloadLen > pageSize then .error (.error "Cell extends past page end")
    else readSlice image recordOff payloadLen
  else if recordOff + localLen + 4 > pageSize then
    .error (.error "Spilled cell header past page end")
  else do
    let head ← readSlice image recordOff localLen
    let overflowRoot ← readU32BE image (recordOff + localLen)
    followOverflow fetcher usable (payloadLen - localLen) overflowRoot (payloadLen - localLen) head

def readSerials (record : Bytes) (headerLen : Nat) :
    Nat → Nat → List UInt64 → Except Stop (List UInt64)
  | 0, pos, serials => if pos < headerLen then .error .diverged else .ok serials
  | fuel + 1, pos, serials =>
    if pos < headerLen then do
      match ← readVarint record pos (record.length - pos) with
      | none => .error (.error "Truncated record serial types")
      | some (serial, serialLen) =>
        readSerials record headerLen fuel (pos + serialLen) (serials ++ [serial])
    else .ok serials

def decodeValues (record : Bytes) (textEncoding : UInt8) :
    List UInt64 → Nat → Nat → Except Stop (List SqliteValue)
  | [], _, _ => .ok []
  | serial :: serials, vp, vremaining => do
      let (value, w) ← decodeSerialValue serial record vp vremaining textEncoding
      let values ← decodeValues record textEncoding serials (vp + w) (vremaining - w)
      return value :: values

def decodeRecord (record : Bytes) (textEncoding : UInt8) : Except Stop (List SqliteValue) := do
  match ← readVarint record 0 record.length with
  | none => .error (.error "Truncated record header")
  | some (headerLen, headerLenBytes) =>
    let serials ← readSerials record headerLen.toNat record.length headerLenBytes []
    decodeValues record textEncoding serials headerLen.toNat (subSize record.length headerLen.toNat)

def decodeCell (image : Bytes) (pageSize usable : Nat) (textEncoding : UInt8)
    (fetcher : PageFetcher) (ci : Nat) (reserveMax : Nat := vectorMaxSize) :
    Except Stop DecodedRow := do
  let cellOff := (← readU16BE image (8 + 2 * ci)).toNat
  if pageSize ≤ cellOff then .error (.error "Cell pointer out of range")
  else
    match ← readVarint image cellOff (pageSize - cellOff) with
    | none => .error (.error "Truncated cell header")
    | some (payloadLen, lenLen) =>
      match ← readVarint image (cellOff + lenLen) (pageSize - cellOff - lenLen) with
      | none => .error (.error "Truncated cell header")
      | some (rowid, idLen) => do
          let record ← assembleRecord image pageSize usable fetcher (cellOff + lenLen + idLen)
            payloadLen.toNat reserveMax
          let values ← decodeRecord record textEncoding
          return { rowid := rowid.toInt64, values }

def decodeTableLeafPage (image : Bytes) (imageSize pageSize : Nat) (reserved textEncoding : UInt8)
    (fetcher : PageFetcher) (reserveMax : Nat := vectorMaxSize) : Except Stop (List DecodedRow) :=
  if imageSize ≠ pageSize ∨ pageSize < 512 then .error (.error "Bad page image size")
  else do
    let flags ← readByte image 0
    if flags ≠ 0x0D then
      .error (.error ("Not a table leaf page (flags " ++ hexLiteral flags.toNat ++ ")"))
    else do
      let nCell ← readU16BE image 3
      (List.range nCell.toNat).mapM fun ci =>
        decodeCell image pageSize (pageSize - reserved.toNat) textEncoding fetcher ci reserveMax

end Ladybug.Sqlite
