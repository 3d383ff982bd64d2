import Ladybug.Base.Bytes

/-!
# Multipart uploads (`httpfs/src/s3fs.cpp`)

A file that is written is cut into parts.  The thread that holds the file fills one buffer after the
other; each full buffer is given to a detached thread that uploads it.  The buffers of all files of a
file system are counted in one `uint16_t`.  One step below is what a thread does between two places
where other threads can see or stop it.
-/

namespace Ladybug.S3

structure S3UploadParams where
  maxFileSize : Nat
  maxNumPartsPerFile : Nat
  maxUploadThreads : Nat
  deriving DecidableEq

def awsMinimumPartSize : Nat := 5242880

def uint16 (n : Nat) : Nat := n % 65536

structure S3WriteBuffer where
  partID : Nat
  numBytesWritten : Nat
  startOffset : Nat
  data : Bytes
  uploading : Bool
  deriving DecidableEq

def S3WriteBuffer.created (startOffset size : Nat) : S3WriteBuffer where
  partID := uint16 (startOffset / size)
  numBytesWritten := 0
  startOffset
  data := List.replicate size 0
  uploading := false

def S3WriteBuffer.body (b : S3WriteBuffer) : Bytes := b.data.take b.numBytesWritten

/-- How far an upload thread is. -/
inductive UploadPhase where
  | sending
  | etagStored
  | counted
  | released
  | failed
  deriving DecidableEq

structure Upload where
  buffer : S3WriteBuffer
  phase : UploadPhase
  deriving DecidableEq

/-- Where the thread that holds the file is: in no call, at the head of the loop of `writeFile`, after
`getBuffer`, in the destructor. -/
inductive Writer (ETag : Type) where
  | idle
  | writing (buffer : Bytes) (offset numBytesWritten : Nat)
  | filling (buffer : Bytes) (offset numBytesWritten : Nat)
  | closing (buffersToFlush : List Nat)
  | closed (parts : List (ETag × Nat))
  deriving DecidableEq

structure S3FileInfo (ETag : Type) where
  write : Bool
  uploadParams : S3UploadParams
  partSize : Nat
  fileOffset : Nat
  writeBuffers : List (Nat × S3WriteBuffer)
  uploads : List Upload
  uploadsInProgress : Nat
  partEtags : List (Nat × ETag)
  numPartsUploaded : Nat
  uploaderHasException : Bool
  writer : Writer ETag
  /-- The parts that the server has received, by part number. -/
  stored : List (Nat × Bytes)

/-- A step out of bounds, into freed memory or through a division by zero has no defined effect. -/
inductive Fate where
  | running
  | terminated
  | undefined
  deriving DecidableEq

structure S3FileSystem (ETag : Type) where
  numUsedBuffers : Nat
  files : List (S3FileInfo ETag)
  fate : Fate

section

variable {ETag : Type}

def S3FileSystem.created : S3FileSystem ETag where
  numUsedBuffers := 0
  files := []
  fate := .running

/-- `S3FileInfo::initialize`, for parameters that do not divide by zero. -/
def S3FileInfo.initialized (write : Bool) (params : S3UploadParams) : S3FileInfo ETag where
  write
  uploadParams := params
  partSize := if write then max awsMinimumPartSize (params.maxFileSize / params.maxNumPartsPerFile)
    else 0
  fileOffset := 0
  writeBuffers := []
  uploads := []
  uploadsInProgress := 0
  partEtags := []
  numPartsUploaded := 0
  uploaderHasException := false
  writer := .idle
  stored := []

/-- What a step of a thread leads to. -/
inductive Outcome (ETag : Type) where
  | next (numUsedBuffers : Nat) (file : S3FileInfo ETag)
  | stop (fate : Fate)

def S3FileInfo.setWriter (f : S3FileInfo ETag) (w : Writer ETag) : S3FileInfo ETag :=
  { f with writer := w }

def S3FileInfo.eraseBuffer (f : S3FileInfo ETag) (key : Nat) : S3FileInfo ETag :=
  { f with writeBuffers := f.writeBuffers.filter fun entry => entry.1 ≠ key }

def S3FileInfo.setBuffer (f : S3FileInfo ETag) (key : Nat) (b : S3WriteBuffer) : S3FileInfo ETag :=
  { f with writeBuffers := f.writeBuffers.map fun entry =>
      if entry.1 = key then (key, b) else entry }

/-- `flushBuffer`, and whether the recorded exception is thrown again. -/
def S3FileInfo.flushBuffer (f : S3FileInfo ETag) (key : Nat) (b : S3WriteBuffer) :
    S3FileInfo ETag × Bool :=
  if b.numBytesWritten = 0 then (f, false)
  else if b.uploading then (f, false)
  else if f.uploaderHasException then (f.setBuffer key { b with uploading := true }, true)
  else
    let erased := f.eraseBuffer b.partID
    ({ erased with
        uploadsInProgress := uint16 (f.uploadsInProgress + 1)
        uploads := f.uploads ++ [⟨{ b with uploading := true }, .sending⟩] }, false)

def S3FileInfo.getBuffer (f : S3FileInfo ETag) (numUsedBuffers writeBufferIdx : Nat) :
    Option (Nat × S3FileInfo ETag) :=
  match f.writeBuffers.lookup writeBufferIdx with
  | some _ => some (numUsedBuffers, f)
  | none =>
    if numUsedBuffers ≥ uint16 f.uploadParams.maxUploadThreads then none
    else some (uint16 (numUsedBuffers + 1), { f with writeBuffers := f.writeBuffers ++
          [(writeBufferIdx, .created (writeBufferIdx * f.partSize) f.partSize)] })

def S3WriteBuffer.fill (b : S3WriteBuffer) (offsetToWrite : Nat) (src : Bytes) : S3WriteBuffer :=
  { b with
      data := b.data.take offsetToWrite ++ (src ++ b.data.drop (offsetToWrite + src.length))
      numBytesWritten := b.numBytesWritten + src.length }

def roomAt (partSize offsetToWrite : Nat) : Nat :=
  if offsetToWrite ≤ partSize then partSize - offsetToWrite
  else 2 ^ 64 - (offsetToWrite - partSize)

def S3FileInfo.endRound (f : S3FileInfo ETag) (numUsedBuffers : Nat) (buffer : Bytes)
    (offset numBytesWritten numBytesToWrite key : Nat) (b : S3WriteBuffer) : Outcome ETag :=
  let f := f.setBuffer key b
  let (f, threw) := if b.numBytesWritten ≥ f.partSize then f.flushBuffer key b else (f, false)
  if threw then .next numUsedBuffers (f.setWriter .idle)
  else .next numUsedBuffers { f with
    fileOffset := f.fileOffset + numBytesToWrite
    writer := .writing buffer offset (numBytesWritten + numBytesToWrite) }

/-- The rest of a round of the loop in `writeFile`, with the buffer at hand. -/
def S3FileInfo.fillBuffer (f : S3FileInfo ETag) (numUsedBuffers : Nat) (buffer : Bytes)
    (offset numBytesWritten key : Nat) (b : S3WriteBuffer) : Outcome ETag :=
  let offsetToWrite := offset + numBytesWritten - b.startOffset
  let numBytesToWrite := min (buffer.length - numBytesWritten) (roomAt f.partSize offsetToWrite)
  if offsetToWrite + numBytesToWrite > f.partSize then .stop .undefined
  else
    f.endRound numUsedBuffers buffer offset numBytesWritten numBytesToWrite key
      (b.fill offsetToWrite ((buffer.drop numBytesWritten).take numBytesToWrite))

/-- `getFinalizeUploadQueryBody`. -/
def S3FileInfo.finalizeParts (f : S3FileInfo ETag) : Option (List (ETag × Nat)) :=
  (List.range f.numPartsUploaded).mapM fun i => (f.partEtags.lookup i).map fun etag => (etag, i + 1)

/-- The next step of the thread that holds the file: `none` while it waits. -/
def S3FileInfo.run (f : S3FileInfo ETag) (numUsedBuffers : Nat) : Option (Outcome ETag) :=
  match f.writer with
  | .idle => none
  | .closed _ => none
  | .writing buffer offset numBytesWritten =>
    if numBytesWritten < buffer.length then
      -- a write that is not sequential throws
      if offset + numBytesWritten ≠ f.fileOffset then
        some (.next numUsedBuffers (f.setWriter .idle))
      else
        match f.getBuffer numUsedBuffers (uint16 ((offset + numBytesWritten) / f.partSize)) with
        | none => none
        | some (numUsedBuffers, f) =>
          some (.next numUsedBuffers (f.setWriter (.filling buffer offset numBytesWritten)))
    else some (.next numUsedBuffers (f.setWriter .idle))
  | .filling buffer offset numBytesWritten =>
    let key := uint16 ((offset + numBytesWritten) / f.partSize)
    match f.writeBuffers.lookup key with
    | none => none
    | some b => some (f.fillBuffer numUsedBuffers buffer offset numBytesWritten key b)
  | .closing (key :: buffersToFlush) =>
    let f := f.setWriter (.closing buffersToFlush)
    match f.writeBuffers.lookup key with
    | none => some (.next numUsedBuffers f)
    | some b =>
      if b.uploading then some (.next numUsedBuffers f)
      else
        let (f, threw) := f.flushBuffer key b
        -- an exception that leaves a destructor ends the process
        if threw then some (.stop .terminated) else some (.next numUsedBuffers f)
  | .closing [] =>
    if f.uploadsInProgress ≠ 0 then none
    else if f.uploaderHasException then some (.stop .terminated)
    else if f.numPartsUploaded = 0 then
      some (.next numUsedBuffers { f with writeBuffers := [], writer := .closed [] })
    else
      match f.finalizeParts with
      | none => some (.stop .terminated)
      | some parts =>
        some (.next numUsedBuffers { f with writeBuffers := [], writer := .closed parts })

def S3FileInfo.isClosed (f : S3FileInfo ETag) : Bool :=
  match f.writer with
  | .closed _ => true
  | _ => false

def S3FileInfo.writeFile (f : S3FileInfo ETag) (buffer : Bytes) (offset : Nat) :
    Option (S3FileInfo ETag) :=
  match f.writer with
  | .idle => if f.write then some (f.setWriter (.writing buffer offset 0)) else some f
  | _ => none

/-- The destructor is called; the buffers are in a hash map, so they come in any order. -/
def S3FileInfo.close (f : S3FileInfo ETag) (buffersToFlush : List Nat) : Option (S3FileInfo ETag) :=
  match f.writer with
  | .idle =>
    if f.write then
      if buffersToFlush.isPerm (f.writeBuffers.map Prod.fst) then
        some (f.setWriter (.closing buffersToFlush))
      else none
    else some (f.setWriter (.closed []))
  | _ => none

def emplace (etags : List (Nat × ETag)) (key : Nat) (etag : ETag) : List (Nat × ETag) :=
  match etags.lookup key with
  | some _ => etags
  | none => etags ++ [(key, etag)]

def S3FileInfo.setPhase (f : S3FileInfo ETag) (k : Nat) (u : Upload) (phase : UploadPhase) :
    S3FileInfo ETag :=
  { f with uploads := f.uploads.set k { u with phase } }

def S3FileInfo.endUpload (f : S3FileInfo ETag) (k : Nat) : S3FileInfo ETag :=
  { f with
      uploads := f.uploads.eraseIdx k
      uploadsInProgress := uint16 (f.uploadsInProgress + 65535) }

variable (server : Nat → Bytes → ETag)

/-- The next step of an upload thread whose request succeeds: the counter is lowered last but one. -/
def S3FileInfo.uploadBuffer (f : S3FileInfo ETag) (numUsedBuffers k : Nat) :
    Option (Nat × S3FileInfo ETag) :=
  match f.uploads[k]? with
  | none => none
  | some u =>
    match u.phase with
    | .sending =>
      let partNumber := u.buffer.partID + 1
      let sent := { f with
        stored := f.stored ++ [(partNumber, u.buffer.body)]
        partEtags := emplace f.partEtags u.buffer.partID (server partNumber u.buffer.body) }
      some (numUsedBuffers, sent.setPhase k u .etagStored)
    | .etagStored =>
      let counted := { f with numPartsUploaded := uint16 (f.numPartsUploaded + 1) }
      some (numUsedBuffers, counted.setPhase k u .counted)
    | .counted => some (uint16 (numUsedBuffers + 65535), f.setPhase k u .released)
    | .released => some (numUsedBuffers, f.endUpload k)
    | .failed => some (numUsedBuffers, f.endUpload k)

def S3FileInfo.uploadFails (f : S3FileInfo ETag) (k : Nat) : Option (S3FileInfo ETag) :=
  match f.uploads[k]? with
  | none => none
  | some u =>
    if u.phase = .sending then
      some ({ f with uploaderHasException := true }.setPhase k u .failed)
    else none

inductive Event where
  | openFile (write : Bool) (params : S3UploadParams)
  | writeFile (file : Nat) (buffer : Bytes) (offset : Nat)
  | close (file : Nat) (buffersToFlush : List Nat)
  | run (file : Nat)
  | finalizeFails (file : Nat)
  | upload (file k : Nat)
  | uploadFails (file k : Nat)
  deriving DecidableEq

def S3FileSystem.setFile (fs : S3FileSystem ETag) (i : Nat) (f : S3FileInfo ETag) :
    S3FileSystem ETag :=
  { fs with files := fs.files.set i f }

def S3FileSystem.apply (fs : S3FileSystem ETag) (i : Nat) : Outcome ETag → S3FileSystem ETag
  | .next numUsedBuffers f => { fs with numUsedBuffers, files := fs.files.set i f }
  | .stop fate => { fs with fate }

/-- A request of the destructor that fails ends the process. -/
def S3FileInfo.waitsForServer (f : S3FileInfo ETag) : Bool :=
  match f.writer with
  | .closing [] => f.uploadsInProgress == 0 && !f.uploaderHasException && f.numPartsUploaded != 0
  | _ => false

def S3FileSystem.step (fs : S3FileSystem ETag) (e : Event) : Option (S3FileSystem ETag) :=
  if fs.fate ≠ .running then none
  else
    match e with
    | .openFile write params =>
      if write ∧ params.maxNumPartsPerFile = 0 then some { fs with fate := .undefined }
      else some { fs with files := fs.files ++ [.initialized write params] }
    | .writeFile i buffer offset =>
      (fs.files[i]?.bind fun f => f.writeFile buffer offset).map (fs.setFile i)
    | .close i buffersToFlush =>
      (fs.files[i]?.bind fun f => f.close buffersToFlush).map (fs.setFile i)
    | .run i => (fs.files[i]?.bind fun f => f.run fs.numUsedBuffers).map (fs.apply i)
    | .finalizeFails i =>
      if (fs.files[i]?.map S3FileInfo.waitsForServer).getD false then
        some { fs with fate := .terminated }
      else none
    | .upload i k =>
      match fs.files[i]? with
      | none => none
      | some f =>
        -- the thread would use a file that no longer exists
        if f.isClosed then (f.uploads[k]?).map fun _ => { fs with fate := .undefined }
        else (f.uploadBuffer server fs.numUsedBuffers k).map fun (numUsedBuffers, f) =>
          { fs with numUsedBuffers, files := fs.files.set i f }
    | .uploadFails i k =>
      match fs.files[i]? with
      | none => none
      | some f => if f.isClosed then none else (f.uploadFails k).map (fs.setFile i)

/-- The state after some steps: `none` if one of them is not possible. -/
def S3FileSystem.steps (fs : S3FileSystem ETag) (es : List Event) : Option (S3FileSystem ETag) :=
  es.foldlM (S3FileSystem.step server) fs

end

end Ladybug.S3
