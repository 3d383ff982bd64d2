import Ladybug.Httpfs.ReadCalls

/-!
# Local copies of remote files (`httpfs/src/cached_file_manager.cpp`)

With `http_cache_file` an open looks for a local copy in the directory of its transaction, under the last
component of the path, and downloads the file if there is none.  Sequential reads use the copy; a
positional read never does.
-/

namespace Ladybug.CachedFiles

open Ladybug.Httpfs

/-- A file in the cache directory. -/
structure LocalCopy where
  content : Httpfs.Bytes
  length : Nat

def LocalCopy.created : LocalCopy := ⟨fun _ => 0, 0⟩

def LocalCopy.writeFile (c : LocalCopy) (buffer : Memory) (numBytes offset : Nat) : LocalCopy where
  content := fun i =>
    if offset ≤ i ∧ i < offset + numBytes then buffer ((i - offset : Nat) : Int) else c.content i
  length := if numBytes = 0 then c.length else max c.length (offset + numBytes)

def LocalCopy.opened (c : LocalCopy) : LocalFile := ⟨c.content, c.length, 0⟩

/-- Where a download fails: before its first byte, or in a round, when some bytes of the segment are in
the local file. -/
inductive Fault where
  | metadata
  | segment (round written : Nat)
  deriving DecidableEq

def failsIn (fault : Option Fault) (round : Nat) : Option Nat :=
  match fault with
  | some (.segment r written) => if r = round then some written else none
  | _ => none

def maxSegmentSize : Nat := 50000000

structure Download where
  handle : Handle
  downloadBuffer : Memory
  copy : LocalCopy
  offsetToWrite : Nat
  numBytesRead : Nat
  round : Nat
  failed : Bool

def Download.start (handle : Handle) (downloadBuffer : Memory) : Download where
  handle
  downloadBuffer
  copy := .created
  offsetToWrite := 0
  numBytesRead := 0
  round := 0
  failed := false

/-- A segment is read and written to the local file. -/
def Download.store (d : Download) (fault : Option Fault) (handle : Handle) (buffer : Memory)
    (numBytesRead : Nat) : Download :=
  match failsIn fault d.round with
  | some written =>
    { d with
      handle
      downloadBuffer := buffer
      copy := d.copy.writeFile buffer (min written numBytesRead) d.offsetToWrite
      numBytesRead
      round := d.round + 1
      failed := true }
  | none =>
    { d with
      handle
      downloadBuffer := buffer
      copy := d.copy.writeFile buffer numBytesRead d.offsetToWrite
      offsetToWrite := d.offsetToWrite + numBytesRead
      numBytesRead
      round := d.round + 1 }

variable (file : RemoteFile) (events : Nat → Nat → List Event) (fault : Option Fault)

def Download.next (fuel : Nat) (d : Download) : Option Download :=
  (readFile file (events d.round) d.handle d.downloadBuffer maxSegmentSize fuel).map fun r =>
    d.store fault r.1 r.2.1 r.2.2

def Download.running (d : Download) : Bool := !d.failed && decide (d.numBytesRead ≠ 0)

/-- `downloadFile`, after `initMetadata`: the loop has its condition at the end. -/
def downloadFile (handle : Handle) (downloadBuffer : Memory) (fuel : Nat) : Option Download :=
  ((Download.start handle downloadBuffer).next file events fault fuel).bind
    (whileLoop Download.running (Download.next file events fault fuel) fuel)

structure OpenFile where
  path : String
  info : HTTPFileInfo

/-- What is kept for each path, the local copies by transaction and file name, and the files that were
opened. -/
structure CachingFileSystem where
  layers : String → HTTPFileSystem
  copies : Nat × String → Option LocalCopy
  openFiles : List OpenFile

def CachingFileSystem.created (prefetchPool blockCache : Bool) : CachingFileSystem where
  layers := fun _ => .created prefetchPool blockCache
  copies := fun _ => none
  openFiles := []

inductive Call where
  | openFile (transactionID : Nat) (path : String) (config : HTTPConfig) (immutableContent : Bool)
      (fault : Option Fault) (downloadBuffer : Memory) (events : Nat → Nat → List Event)
  | readFile (k numBytes : Nat) (buffer : Memory) (events : Nat → List Event)
  | readFromFile (k numBytes position : Nat) (buffer : Memory) (events : Nat → List Event)
  | seek (k offset : Nat)
  | cleanUP (transactionID : Nat)
  /-- Another thread works on the layers of a path. -/
  | event (path : String) (e : Event)

/-- The files of the servers, and two functions of the file system below. -/
structure Site where
  files : String → RemoteFile
  getFileName : String → String
  isCompressedFile : String → Bool

def CachingFileSystem.setLayers (s : CachingFileSystem) (path : String) (fs : HTTPFileSystem) :
    CachingFileSystem :=
  { s with layers := Function.update s.layers path fs }

def CachingFileSystem.setCopy (s : CachingFileSystem) (key : Nat × String) (c : LocalCopy) :
    CachingFileSystem :=
  { s with copies := Function.update s.copies key (some c) }

def CachingFileSystem.addFile (s : CachingFileSystem) (path : String) (info : HTTPFileInfo) :
    CachingFileSystem :=
  { s with openFiles := s.openFiles ++ [⟨path, info⟩] }

/-- After a call on the file `k`. -/
def CachingFileSystem.setHandle (s : CachingFileSystem) (k : Nat) (path : String) (h : Handle) :
    CachingFileSystem :=
  { s.setLayers path h.fs with openFiles := s.openFiles.set k ⟨path, h.info⟩ }

/-- The copy that an open uses is looked for under this key, if it is looked for. -/
def Site.copyKey (site : Site) (transactionID : Nat) (path : String) (config : HTTPConfig) :
    Option (Nat × String) :=
  if config.cacheFile && !site.isCompressedFile path then some (transactionID, site.getFileName path)
  else none

def CachingFileSystem.afterDownload (s : CachingFileSystem) (key : Nat × String) (path : String)
    (fault : Option Fault) (d : Download) : Option CachingFileSystem :=
  let s := (s.setLayers path d.handle.fs).setCopy key d.copy
  if d.failed then if fault.isSome then some s else none
  else
    -- a fault of a later round is none of this download
    if fault.isSome then none
    else some (s.addFile path
      { (seek d.handle 0).info with cachedFileInfo := some d.copy.opened })

/-- `HTTPFileInfo::initialize`: a file whose copy is there does not ask for the length. -/
def CachingFileSystem.openFile (site : Site) (s : CachingFileSystem) (transactionID : Nat)
    (path : String) (config : HTTPConfig) (immutableContent : Bool) (fault : Option Fault)
    (downloadBuffer : Memory) (events : Nat → Nat → List Event) (fuel : Nat) :
    Option CachingFileSystem :=
  let opened := Httpfs.openFile (site.files path) (s.layers path) config immutableContent false
  match site.copyKey transactionID path config with
  | none =>
    match fault with
    | none => some (s.addFile path opened.info)
    | some _ => some s
  | some key =>
    match s.copies key, fault with
    | some c, none => some (s.addFile path
        { opened.info with length := 0, cachedFileInfo := some c.opened })
    | some _, some _ => none
    | none, some .metadata => some (s.setCopy key .created)
    | none, _ =>
      (downloadFile (site.files path) events fault opened downloadBuffer fuel).bind
        (s.afterDownload key path fault)

def CachingFileSystem.step (site : Site) (s : CachingFileSystem) (c : Call) (fuel : Nat) :
    Option CachingFileSystem :=
  match c with
  | .openFile transactionID path config immutableContent fault downloadBuffer events =>
    s.openFile site transactionID path config immutableContent fault downloadBuffer events fuel
  | .readFile k numBytes buffer events =>
    s.openFiles[k]?.bind fun f =>
      (readFile (site.files f.path) events ⟨s.layers f.path, f.info⟩ buffer numBytes fuel).map
        fun r => s.setHandle k f.path r.1
  | .readFromFile k numBytes position buffer events =>
    if position < 2 ^ 64 then
      s.openFiles[k]?.bind fun f =>
        (readFromFile (site.files f.path) events ⟨s.layers f.path, f.info⟩ buffer numBytes position
          fuel).map fun r => s.setHandle k f.path r.1
    else none
  | .seek k offset =>
    if offset < 2 ^ 64 then
      s.openFiles[k]?.map fun f => s.setHandle k f.path (seek ⟨s.layers f.path, f.info⟩ offset)
    else none
  | .cleanUP transactionID =>
    some { s with copies := fun key => if key.1 = transactionID then none else s.copies key }
  | .event path e => some (s.setLayers path ((s.layers path).apply (site.files path) e))

/-- The states after calls that return. -/
inductive Run (site : Site) : List Call → CachingFileSystem → Prop where
  | created (prefetchPool blockCache : Bool) : Run site [] (.created prefetchPool blockCache)
  | step {calls : List Call} {s s' : CachingFileSystem} (c : Call) :
      Run site calls s → Halts (s.step site c) s' → Run site (calls ++ [c]) s'

/-- The path that a copy was made from, and whether its download was completed. -/
def Call.origin (site : Site) (key : Nat × String) (origin : Option (String × Bool)) (c : Call) :
    Option (String × Bool) :=
  match c with
  | .openFile transactionID path config _ fault _ _ =>
    if site.copyKey transactionID path config = some key then
      match origin with
      | none => some (path, fault.isNone)
      | some o => some o
    else origin
  | .cleanUP transactionID => if key.1 = transactionID then none else origin
  | _ => origin

def origin (site : Site) (calls : List Call) (key : Nat × String) : Option (String × Bool) :=
  calls.foldl (Call.origin site key) none

/-- An open finds no copy but a complete one of its own path: since the last `cleanUP` of the
transaction, the first open with its file name was of the same path and did not fail. -/
def Undisturbed (site : Site) (calls : List Call) : Prop :=
  ∀ before transactionID path config immutableContent fault downloadBuffer events after,
    calls = before ++
      .openFile transactionID path config immutableContent fault downloadBuffer events :: after →
    ∀ key, site.copyKey transactionID path config = some key →
      origin site before key = none ∨ origin site before key = some (path, true)

/-- Every read through a file returns the bytes of its own path: sequential reads from the local copy if
there is one, positional reads up to the length that the open has learned. -/
def OpenFile.ReadsOwn (file : RemoteFile) (fs : HTTPFileSystem) (f : OpenFile) : Prop :=
  (∀ numBytes buffer events, (f.info.cachedFileInfo = none → numBytes ≤ 2 ^ 31) →
    ∃ h' buffer' n, Halts (readFile file events ⟨fs, f.info⟩ buffer numBytes) (h', buffer', n) ∧
      n = min numBytes (file.length - (⟨fs, f.info⟩ : Handle).position) ∧
      observe buffer' n = bytesOf file (⟨fs, f.info⟩ : Handle).position n) ∧
  ∀ numBytes position buffer events, numBytes ≤ 2 ^ 31 → position + numBytes ≤ f.info.length →
    ∃ h' buffer', Halts (readFromFile file events ⟨fs, f.info⟩ buffer numBytes position)
        (h', buffer') ∧
      observe buffer' numBytes = bytesOf file position numBytes

end Ladybug.CachedFiles
