import Ladybug.Sqlite.WalFormat

/-!
# The WAL tailer (`cdc/wal_tailer.h`, `cdc/wal_tailer.cpp`)

`parseWal` verifies a WAL image held in memory: magic and format, header checksum, per-frame salts
and chained checksums.  A torn trailing frame ends the log; any other inconsistency fails the
parse.  Verified frames are then grouped into commits at nonzero commit sizes.
-/

namespace Ladybug.Sqlite

open Bytes

structure WalFrame where
  pageNo : UInt32 := 0
  commitSize : UInt32 := 0
  image : Bytes := []
  deriving DecidableEq

/-- Frames of a single committed transaction, as 0-based indices into the frames of the log. -/
structure CommitBatch where
  firstFrame : Nat := 0
  lastFrame : Nat := 0
  commitSize : UInt32 := 0
  deriving DecidableEq

structure WalLog where
  header : WalHeader := {}
  frames : List WalFrame := []
  commits : List CommitBatch := []
  uncommittedFrames : Nat := 0
  deriving DecidableEq

/-- The rendering `{:#x}` of `std::format`. -/
def hexLiteral (n : Nat) : String := "0x" ++ String.ofList (Nat.toDigits 16 n)

def readWalHeader (data : Bytes) : Except Stop WalHeader := do
  let magic ← readU32BE data 0
  let format ← readU32BE data 4
  let pageSize ← readU32BE data 8
  let checkpointSeq ← readU32BE data 12
  let salt1 ← readU32BE data 16
  let salt2 ← readU32BE data 20
  let checksum1 ← readU32BE data 24
  let checksum2 ← readU32BE data 28
  return { magic, format, pageSize, checkpointSeq, salt1, salt2, checksum1, checksum2 }

def readFrameHeader (data : Bytes) (offset : Nat) : Except Stop WalFrameHeader := do
  let pageNo ← readU32BE data offset
  let commitSize ← readU32BE data (offset + 4)
  let salt1 ← readU32BE data (offset + 8)
  let salt2 ← readU32BE data (offset + 12)
  let checksum1 ← readU32BE data (offset + 16)
  let checksum2 ← readU32BE data (offset + 20)
  return { pageNo, commitSize, salt1, salt2, checksum1, checksum2 }

/-- The `while (true)` loop over frames.  Every round that goes on consumes a frame, so the length
of the data bounds the rounds. -/
def parseFrames (hdr : WalHeader) (data : Bytes) :
    Nat → Nat → WalChecksum → List WalFrame → Except Stop (List WalFrame)
  | 0, _, _, _ => .error .diverged
  | fuel + 1, offset, running, frames =>
    let frameSize := WAL_FRAME_HDR_SIZE + hdr.pageSize.toNat
    if data.length - offset < WAL_FRAME_HDR_SIZE then
      .ok frames -- no more (complete) frame headers: clean end or torn write
    else do
      let fh ← readFrameHeader data offset
      if data.length - offset < frameSize then
        return frames -- torn page image: keep the verified prefix
      else if fh.pageNo = 0 ∨ fh.salt1 ≠ hdr.salt1 ∨ fh.salt2 ≠ hdr.salt2 then
        return frames -- the WAL was restarted here
      else do
        let fields ← readSlice data offset 8
        let image ← readSlice data (offset + WAL_FRAME_HDR_SIZE) hdr.pageSize.toNat
        let frameCksum := (running.update fields).update image
        if frameCksum.s0 ≠ fh.checksum1 ∨ frameCksum.s1 ≠ fh.checksum2 then
          .error (.error ("WAL frame " ++ toString frames.length ++ " checksum mismatch"))
        else
          parseFrames hdr data fuel (offset + frameSize) frameCksum
            (frames ++ [{ pageNo := fh.pageNo, commitSize := fh.commitSize, image }])

/-- The grouping loop from frame `i` on, with the current commit begun at `batchStart`.  Returns
the commits and the final `batchStart`. -/
def groupCommits : List WalFrame → Nat → Nat → List CommitBatch × Nat
  | [], _, batchStart => ([], batchStart)
  | f :: fs, i, batchStart =>
    if f.commitSize ≠ 0 then
      let (commits, stop) := groupCommits fs (i + 1) (i + 1)
      ({ firstFrame := batchStart, lastFrame := i, commitSize := f.commitSize } :: commits, stop)
    else groupCommits fs (i + 1) batchStart

def parseLog (hdr : WalHeader) (data : Bytes) : Except Stop WalLog := do
  let fields ← readSlice data 0 (WAL_HDR_SIZE - 8)
  let cksum := WalChecksum.update { native := hdr.magic == WAL_MAGIC_NATIVE } fields
  if cksum.s0 ≠ hdr.checksum1 ∨ cksum.s1 ≠ hdr.checksum2 then
    .error (.error "WAL header checksum mismatch")
  else do
    let frames ← parseFrames hdr data (data.length + 1) WAL_HDR_SIZE cksum []
    let (commits, batchStart) := groupCommits frames 0 0
    return { header := hdr, frames, commits, uncommittedFrames := frames.length - batchStart }

def parseWal (data : Bytes) : Except Stop WalLog :=
  if data.length < WAL_HDR_SIZE then
    .error (.error "WAL too short for header")
  else do
    let hdr ← readWalHeader data
    if hdr.magic ≠ WAL_MAGIC_NATIVE ∧ hdr.magic ≠ WAL_MAGIC_NON_NATIVE then
      .error (.error ("Bad WAL magic: " ++ hexLiteral hdr.magic.toNat))
    else if hdr.format ≠ WAL_FORMAT_VERSION then
      .error (.error ("Unsupported WAL format version: " ++ toString hdr.format.toNat))
    else if hdr.pageSize < 512 ∨ 65536 < hdr.pageSize ∨ hdr.pageSize &&& (hdr.pageSize - 1) ≠ 0 then
      .error (.error ("Invalid WAL page size: " ++ toString hdr.pageSize.toNat))
    else
      parseLog hdr data

end Ladybug.Sqlite
