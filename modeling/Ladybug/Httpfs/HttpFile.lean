import Ladybug.Base.Loops
import Ladybug.Base.MachineInt

/-!
# Reading a remote file (`httpfs/src/httpfs.cpp`)

A read is served from four layers: the blocks that the file handle keeps in memory, the spans that were
prefetched, the spans on disk, and the network.  A span is an array with its length; `std::format` of
a start and a length is an injective key, so spans are keyed by the pair.
-/

namespace Ladybug.Httpfs

structure HTTPOptions where
  cacheFile : Bool
  cacheBlocks : Bool
  prefetchDepth : Int
  readBufferSize : Int
  metadataReadBufferSize : Int
  readCacheBlocks : Int

structure HTTPConfig where
  cacheFile : Bool
  cacheBlocks : Bool
  prefetchDepth : Nat
  readBufferSize : Nat
  metadataReadBufferSize : Nat
  readCacheBlocks : Nat
  readBufferSize_pos : 0 < readBufferSize
  metadataReadBufferSize_pos : 0 < metadataReadBufferSize
  readCacheBlocks_pos : 0 < readCacheBlocks

def checkOption (name : String) (value : Int) : Except String Nat :=
  if value < 0 then .error s!"Invalid option value for {name}" else .ok value.toNat

/-- The guard against a value of zero. -/
def orDefault (value default : Nat) : Nat := if value = 0 then default else value

theorem orDefault_pos (value : Nat) {default : Nat} (h : 0 < default) : 0 < orDefault value default := by
  unfold orDefault
  split_ifs <;> omega

/-- The constructor of `HTTPConfig`, from the settings of the context. -/
def HTTPConfig.ofOptions (options : HTTPOptions) : Except String HTTPConfig := do
  let prefetchDepth ← checkOption "http_prefetch_depth" options.prefetchDepth
  let readBufferSize ← checkOption "http_read_buffer_size" options.readBufferSize
  let metadataReadBufferSize ←
    checkOption "http_metadata_read_buffer_size" options.metadataReadBufferSize
  let readCacheBlocks ← checkOption "http_read_cache_blocks" options.readCacheBlocks
  .ok {
    cacheFile := options.cacheFile
    cacheBlocks := options.cacheBlocks
    prefetchDepth
    readBufferSize := orDefault readBufferSize 1000000
    metadataReadBufferSize := orDefault metadataReadBufferSize 65536
    readCacheBlocks := orDefault readCacheBlocks 8
    readBufferSize_pos := orDefault_pos _ (by decide)
    metadataReadBufferSize_pos := orDefault_pos _ (by decide)
    readCacheBlocks_pos := orDefault_pos _ (by decide) }

/-- An array of bytes; its length is kept beside it. -/
abbrev Bytes := Nat → UInt8

/-- The length was read as a signed number. -/
structure RemoteFile where
  content : Bytes
  length : Nat
  length_lt : length < 2 ^ 63

def RemoteFile.getRangeRequest (file : RemoteFile) (fileOffset : Nat) : Bytes :=
  fun i => file.content (fileOffset + i)

structure CachedBlock where
  offset : Nat
  length : Nat
  data : Bytes

structure ReadyEntry where
  payload : Bytes
  size : Nat
  consumeCount : Nat

structure PrefetchZone where
  ready : List ((Nat × Nat) × ReadyEntry)
  inflight : List (Nat × Nat)

/-- The files of the disk cache, with their sizes. -/
abbrev BlockCache := Nat × Nat → Option (Nat × Bytes)

/-- What the file system keeps for the path of a file. -/
structure HTTPFileSystem where
  prefetchPool : Bool
  zone : PrefetchZone
  blockCache : Option BlockCache

structure LocalFile where
  content : Bytes
  length : Nat
  offset : Nat

structure HTTPFileInfo where
  length : Nat
  fileOffset : Nat
  httpConfig : HTTPConfig
  cachedFileInfo : Option LocalFile
  readCache : List CachedBlock
  immutableContent : Bool

def CachedBlock.covers (b : CachedBlock) (pos : Nat) : Bool :=
  decide (pos ≥ b.offset) && decide (pos < b.offset + b.length)

def lookupCachedBlock (readCache : List CachedBlock) (pos : Nat) :
    Option (CachedBlock × List CachedBlock) :=
  match readCache.find? (·.covers pos) with
  | none => none
  | some b => some (b, b :: readCache.eraseP (·.covers pos))

def cacheBlock (readCacheBlocks : Nat) (readCache : List CachedBlock) (b : CachedBlock) :
    List CachedBlock :=
  (b :: readCache).take readCacheBlocks

def PrefetchZone.contains (z : PrefetchZone) (key : Nat × Nat) : Bool :=
  z.ready.any fun e => e.1 = key

/-- The payload for a key; the entry counts how often it was taken. -/
def PrefetchZone.take (z : PrefetchZone) (key : Nat × Nat) : Option (ReadyEntry × PrefetchZone) :=
  match z.ready.find? fun e => e.1 = key with
  | none => none
  | some e => some (e.2, { z with
      ready := z.ready.map fun e =>
        if e.1 = key then (e.1, { e.2 with consumeCount := e.2.consumeCount + 1 }) else e })

def maxReadyEntries : Nat := 64

/-- The end of a prefetch: the payload goes to the landing zone, unless that is full of entries that
were never taken. -/
def PrefetchZone.complete (z : PrefetchZone) (key : Nat × Nat) (payload : Bytes) : PrefetchZone :=
  let z := { z with inflight := z.inflight.filter (· ≠ key) }
  let entry : (Nat × Nat) × ReadyEntry := (key, ⟨payload, key.2, 0⟩)
  if z.ready.length ≥ maxReadyEntries then
    if z.ready.any fun e => e.2.consumeCount > 0 then
      { z with
        ready := entry :: (z.ready.eraseP fun e => e.2.consumeCount > 0).filter fun e => e.1 ≠ key }
    else z
  else { z with ready := entry :: z.ready.filter fun e => e.1 ≠ key }

/-- Ask for the blocks after an offset; `start` has 64 bits. -/
def PrefetchZone.submit (z : PrefetchZone) (prefetchDepth length nextOffset blockSize : Nat) :
    PrefetchZone :=
  if blockSize = 0 ∨ prefetchDepth = 0 then z
  else
    let starts := (List.range prefetchDepth).map fun i => (nextOffset + i * blockSize) % 2 ^ 64
    (starts.takeWhile fun start => decide (start < length)).foldl (fun z start =>
      let key := (start, min blockSize (length - start))
      if key ∈ z.inflight ∨ z.contains key then z
      else { z with inflight := key :: z.inflight }) z

def BlockCache.get (c : BlockCache) (offset length : Nat) : Option Bytes :=
  match c (offset, length) with
  | none => none
  | some (size, data) => if size ≠ length then none else some data

def BlockCache.put (c : BlockCache) (offset length : Nat) (data : Bytes) : BlockCache :=
  if (c (offset, length)).isSome then c
  else Function.update c (offset, length) (some (length, data))

/-- What other threads do to the shared layers. -/
inductive Event where
  /-- Another reader of the file asks for spans. -/
  | submitted (prefetchDepth nextOffset blockSize : Nat)
  | completed (start len : Nat)
  /-- A prefetch was dropped or has failed. -/
  | failed (start len : Nat)
  /-- Another reader of the file stores a span. -/
  | stored (start len : Nat)
  | pruned (start len : Nat)

def HTTPFileSystem.apply (file : RemoteFile) (fs : HTTPFileSystem) : Event → HTTPFileSystem
  | .submitted prefetchDepth nextOffset blockSize =>
    { fs with zone := fs.zone.submit prefetchDepth file.length nextOffset blockSize }
  | .completed start len =>
    -- a range that is not in the file has a shorter body, which is dropped
    if (start, len) ∈ fs.zone.inflight ∧ start + len ≤ file.length then
      { fs with zone := fs.zone.complete (start, len) (file.getRangeRequest start) }
    else fs
  | .failed start len =>
    { fs with zone := { fs.zone with inflight := fs.zone.inflight.filter (· ≠ (start, len)) } }
  | .stored start len =>
    if start + len ≤ file.length then
      { fs with blockCache := fs.blockCache.map (·.put start len (file.getRangeRequest start)) }
    else fs
  | .pruned start len =>
    { fs with blockCache := fs.blockCache.map fun c => Function.update c (start, len) none }

/-- The memory around the buffer of a read, by the distance from its start. -/
abbrev Memory := Int → UInt8

def memcpy (m : Memory) (dest : Int) (src : Bytes) (len : Nat) : Memory :=
  fun a => if dest ≤ a ∧ a < dest + len then src (a - dest).toNat else m a

def copySpanPortion (m : Memory) (dest : Int) (spanData : Bytes)
    (spanStart spanLen pos remaining : Nat) : Memory × Nat :=
  let spanOffset := (pos + 2 ^ 64 - spanStart) % 2 ^ 64
  if spanOffset ≥ spanLen then (m, 0)
  else
    let len := min (spanLen - spanOffset) remaining
    (memcpy m dest (fun i => spanData (spanOffset + i)) len, len)

/-- `bufferOffset` is an `int`. -/
structure ReadLoop where
  fs : HTTPFileSystem
  info : HTTPFileInfo
  buffer : Memory
  bufferOffset : Int
  numBytesToRead : Nat
  round : Nat
  stopped : Bool

def ReadLoop.currentPos (l : ReadLoop) (position : Nat) : Nat :=
  addInt64 position l.bufferOffset

def ReadLoop.cache (l : ReadLoop) (b : CachedBlock) : ReadLoop :=
  { l with info := { l.info with
      readCache := cacheBlock l.info.httpConfig.readCacheBlocks l.info.readCache b } }

/-- `diskCache`, if there is one for this file. -/
def ReadLoop.diskCache (l : ReadLoop) : Option BlockCache :=
  if l.info.immutableContent || l.info.httpConfig.cacheBlocks then l.fs.blockCache else none

def ReadLoop.hasZone (l : ReadLoop) : Bool := l.info.immutableContent && l.fs.prefetchPool

/-- The network layer: the span is written through to the disk, and the next ones are asked for. -/
def ReadLoop.fetch (file : RemoteFile) (l : ReadLoop) (blockSize fetchStart fetchLen : Nat) : ReadLoop :=
  let blockData := file.getRangeRequest fetchStart
  let blockCache := match l.diskCache with
    | some c => some (c.put fetchStart fetchLen blockData)
    | none => l.fs.blockCache
  let zone := if l.hasZone then
      l.fs.zone.submit l.info.httpConfig.prefetchDepth l.info.length (fetchStart + fetchLen) blockSize
    else l.fs.zone
  { l with fs := { l.fs with blockCache, zone } }.cache ⟨fetchStart, fetchLen, blockData⟩

def ReadLoop.fromDisk (file : RemoteFile) (l : ReadLoop) (blockSize fetchStart fetchLen : Nat) :
    ReadLoop :=
  match l.diskCache.bind (·.get fetchStart fetchLen) with
  | some data => l.cache ⟨fetchStart, fetchLen, data⟩
  | none => l.fetch file blockSize fetchStart fetchLen

/-- The landing zone and the layers below. -/
def ReadLoop.fromZone (file : RemoteFile) (l : ReadLoop) (blockSize fetchStart fetchLen : Nat) :
    ReadLoop :=
  if l.hasZone then
    match l.fs.zone.take (fetchStart, fetchLen) with
    | some (entry, zone) =>
      let l := { l with fs := { l.fs with zone } }
      if entry.size = fetchLen then l.cache ⟨fetchStart, fetchLen, entry.payload⟩
      else l.fromDisk file blockSize fetchStart fetchLen
    | none => l.fromDisk file blockSize fetchStart fetchLen
  else l.fromDisk file blockSize fetchStart fetchLen

def ReadLoop.below (file : RemoteFile) (l : ReadLoop) (currentPos : Nat) : ReadLoop :=
  let blockSize := if l.numBytesToRead ≤ l.info.httpConfig.metadataReadBufferSize
    then l.info.httpConfig.metadataReadBufferSize else l.info.httpConfig.readBufferSize
  let fetchStart := currentPos / blockSize * blockSize
  if fetchStart ≥ l.info.length then { l with stopped := true }
  else
    let fetchLen := min blockSize (l.info.length - fetchStart)
    if fetchLen = 0 then { l with stopped := true }
    else l.fromZone file blockSize fetchStart fetchLen

/-- One round of the loop, after what the other threads have done in the meantime. -/
def ReadLoop.next (file : RemoteFile) (events : Nat → List Event) (position : Nat) (l : ReadLoop) :
    ReadLoop :=
  let l := { l with fs := (events l.round).foldl (HTTPFileSystem.apply file) l.fs, round := l.round + 1 }
  let currentPos := l.currentPos position
  match lookupCachedBlock l.info.readCache currentPos with
  | none => l.below file currentPos
  | some (block, readCache) =>
    let (buffer, served) := copySpanPortion l.buffer l.bufferOffset block.data block.offset
      block.length currentPos l.numBytesToRead
    let l := { l with
      info := { l.info with readCache, fileOffset := (l.info.fileOffset + served) % 2 ^ 64 }
      buffer
      bufferOffset := toInt32 (l.bufferOffset + served)
      numBytesToRead := l.numBytesToRead - served }
    if served > 0 then l else l.below file currentPos

structure Handle where
  fs : HTTPFileSystem
  info : HTTPFileInfo

def ReadLoop.start (h : Handle) (m : Memory) (numBytes position : Nat) : ReadLoop where
  fs := h.fs
  info := { h.info with fileOffset := position }
  buffer := m
  bufferOffset := 0
  numBytesToRead := numBytes
  round := 0
  stopped := false

def ReadLoop.running (l : ReadLoop) : Bool := !l.stopped && decide (l.numBytesToRead > 0)

/-- The handle and the memory after a read, for at most the given number of rounds.  There is no branch
for a handle with a local copy. -/
def readFromFile (file : RemoteFile) (events : Nat → List Event) (h : Handle) (m : Memory)
    (numBytes position fuel : Nat) : Option (Handle × Memory) :=
  (whileLoop ReadLoop.running (fun l => some (l.next file events position)) fuel
    (.start h m numBytes position)).map fun l => (⟨l.fs, l.info⟩, l.buffer)

def LocalFile.readFile (f : LocalFile) (m : Memory) (numBytes : Nat) : LocalFile × Memory × Nat :=
  let n := min numBytes (f.length - f.offset)
  ({ f with offset := f.offset + n }, memcpy m 0 (fun i => f.content (f.offset + i)) n, n)

def getFileSize (info : HTTPFileInfo) : Nat :=
  match info.cachedFileInfo with
  | some f => f.length
  | none => info.length

/-- The number of bytes is returned too. -/
def readFile (file : RemoteFile) (events : Nat → List Event) (h : Handle) (m : Memory)
    (numBytes fuel : Nat) : Option (Handle × Memory × Nat) :=
  match h.info.cachedFileInfo with
  | some f =>
    let (f, m, n) := f.readFile m numBytes
    some ({ h with info := { h.info with cachedFileInfo := some f } }, m, n)
  | none =>
    let maxNumBytesToRead := (h.info.length + 2 ^ 64 - h.info.fileOffset) % 2 ^ 64
    let numBytes := min maxNumBytesToRead numBytes
    if h.info.fileOffset > getFileSize h.info then some (h, m, 0)
    else (readFromFile file events h m numBytes h.info.fileOffset fuel).map fun r =>
      (r.1, r.2, numBytes)

def seek (h : Handle) (offset : Nat) : Handle :=
  match h.info.cachedFileInfo with
  | some f => { h with info := { h.info with cachedFileInfo := some { f with offset } } }
  | none => { h with info := { h.info with fileOffset := offset } }

/-- `HTTPFileInfo::initialize`.  With a local copy that is already there, the metadata of the remote file
are not asked for. -/
def openFile (file : RemoteFile) (fs : HTTPFileSystem) (config : HTTPConfig) (immutableContent copied : Bool) :
    Handle where
  fs := fs
  info := {
    length := if config.cacheFile && copied then 0 else file.length
    fileOffset := 0
    httpConfig := config
    cachedFileInfo := if config.cacheFile && copied then some ⟨file.content, file.length, 0⟩ else none
    readCache := []
    immutableContent := immutableContent }

/-- The end of the download of a local copy, which was made by `readFile`. -/
def downloaded (file : RemoteFile) (h : Handle) : Handle :=
  { h with info := { h.info with
      fileOffset := 0
      cachedFileInfo := some ⟨file.content, file.length, 0⟩ } }

def HTTPFileSystem.created (prefetchPool blockCache : Bool) : HTTPFileSystem where
  prefetchPool := prefetchPool
  zone := ⟨[], []⟩
  blockCache := if blockCache then some (fun _ => none) else none

inductive Reached (file : RemoteFile) : Handle → Prop where
  | opened (prefetchPool blockCache : Bool) (config : HTTPConfig) (immutableContent copied : Bool) :
      Reached file (openFile file (.created prefetchPool blockCache) config immutableContent copied)
  | downloaded {h : Handle} : Reached file h → h.info.httpConfig.cacheFile →
      Reached file (downloaded file h)
  | event {h : Handle} (e : Event) : Reached file h → Reached file { h with fs := h.fs.apply file e }
  | readFromFile {h h' : Handle} {m m' : Memory} (events : Nat → List Event)
      (numBytes position fuel : Nat) : position < 2 ^ 64 → Reached file h →
      readFromFile file events h m numBytes position fuel = some (h', m') → Reached file h'
  | readFile {h h' : Handle} {m m' : Memory} {n : Nat} (events : Nat → List Event)
      (numBytes fuel : Nat) : Reached file h →
      readFile file events h m numBytes fuel = some (h', m', n) → Reached file h'
  | seek {h : Handle} (offset : Nat) : offset < 2 ^ 64 → Reached file h → Reached file (seek h offset)

end Ladybug.Httpfs
