import Ladybug.Httpfs.S3FileSteps

/-!
# One file that is written from start to end

One file is opened, written in pieces of any sizes, each right after the one before it, and closed.
The upload threads finish in any order, and none of them fails.  The invariant says which bytes are in
the buffer, on their way and at the server; the steps of the upload threads keep it.
-/

namespace Ladybug.S3

open List

section

variable {ETag : Type}

def S3UploadParams.partSize (params : S3UploadParams) : Nat :=
  max awsMinimumPartSize (params.maxFileSize / params.maxNumPartsPerFile)

/-- The only file of a file system, and the writes still to come; the next one is at `offset`. -/
structure Transfer (ETag : Type) where
  fs : S3FileSystem ETag
  writes : List Bytes
  offset : Nat

def Transfer.opened (params : S3UploadParams) (writes : List Bytes) : Transfer ETag where
  fs := { numUsedBuffers := 0, files := [.initialized true params], fate := .running }
  writes
  offset := 0

inductive Choice where
  | call (buffersToFlush : List Nat)
  | run
  | upload (k : Nat)
  deriving DecidableEq

/-- The next call: each write right after the one before it, and the destructor at the end. -/
def Transfer.call (server : Nat → Bytes → ETag) (t : Transfer ETag) (buffersToFlush : List Nat) :
    Option (Transfer ETag) :=
  match t.writes with
  | buffer :: writes =>
    (t.fs.step server (.writeFile 0 buffer t.offset)).map fun fs =>
      { fs, writes, offset := t.offset + buffer.length }
  | [] => (t.fs.step server (.close 0 buffersToFlush)).map fun fs => { t with fs }

def Transfer.step (server : Nat → Bytes → ETag) (t : Transfer ETag) : Choice →
    Option (Transfer ETag)
  | .call buffersToFlush => t.call server buffersToFlush
  | .run => (t.fs.step server (.run 0)).map fun fs => { t with fs }
  | .upload k => (t.fs.step server (.upload 0 k)).map fun fs => { t with fs }

/-- The file is closed; the parts listed in the last request, with the server's own etags, are the
parts that the server has, in order, and together they are the file. -/
def S3FileInfo.Assembled (server : Nat → Bytes → ETag) (params : S3UploadParams) (content : Bytes)
    (f : S3FileInfo ETag) : Prop :=
  ∃ parts : List Bytes,
    f.writer = .closed (parts.mapIdx fun i part => (server (i + 1) part, i + 1)) ∧
    f.stored.Perm (parts.mapIdx fun i part => (i + 1, part)) ∧
    parts.length ≤ params.maxNumPartsPerFile ∧
    (∀ part ∈ parts.dropLast, part.length = params.partSize) ∧
    parts.flatten = content

def Transfer.Assembled (server : Nat → Bytes → ETag) (params : S3UploadParams) (content : Bytes)
    (t : Transfer ETag) : Prop :=
  t.fs.fate = .running ∧ ∃ f, t.fs.files = [f] ∧ f.Assembled server params content

def partOf (partSize : Nat) (content : Bytes) (i : Nat) : Bytes :=
  (content.drop (i * partSize)).take partSize

def Upload.isSending (u : Upload) : Bool := u.phase == .sending

/-- The upload thread has not raised `numPartsUploaded` yet. -/
def Upload.isUncounted (u : Upload) : Bool := u.phase == .sending || u.phase == .etagStored

def Upload.sends (u : Upload) : Nat × Bytes := (u.buffer.partID + 1, u.buffer.body)

/-- The upload threads of a file of which `flushed` parts have been given to threads. -/
structure S3FileInfo.Uploading (server : Nat → Bytes → ETag) (params : S3UploadParams)
    (content : Bytes) (used flushed : Nat) (f : S3FileInfo ETag) : Prop where
  settings : f.uploadParams = params
  partSize : f.partSize = params.partSize
  write : f.write = true
  count : flushed * params.partSize < content.length + params.partSize
  inside : f.fileOffset ≤ content.length
  noException : f.uploaderHasException = false
  healthy : ∀ u ∈ f.uploads, u.phase ≠ .failed
  progress : f.uploadsInProgress = f.uploads.length
  threads : f.uploads.length ≤ flushed
  counted : f.numPartsUploaded + f.uploads.countP Upload.isUncounted = flushed
  sent : (f.stored ++ (f.uploads.filter Upload.isSending).map Upload.sends).Perm
    ((List.range flushed).map fun i => (i + 1, partOf params.partSize content i))
  etags : f.partEtags = f.stored.map fun part => (part.1 - 1, server part.1 part.2)
  budget : used = f.live
  budgetSmall : used ≤ 65535

structure S3WriteBuffer.Holds (partSize : Nat) (content : Bytes) (flushed written : Nat)
    (b : S3WriteBuffer) : Prop where
  uploading : b.uploading = false
  partID : b.partID = flushed
  start : b.startOffset = flushed * partSize
  size : b.data.length = partSize
  above : flushed * partSize ≤ written
  room : written ≤ flushed * partSize + partSize
  numBytes : b.numBytesWritten = written - flushed * partSize
  body : b.body = (content.take written).drop (flushed * partSize)

/-- The buffers between two rounds: none, or one that is neither empty nor full. -/
def S3FileInfo.Buffered (partSize : Nat) (content : Bytes) (flushed : Nat) (f : S3FileInfo ETag) :
    Prop :=
  (f.writeBuffers = [] ∧ f.fileOffset = flushed * partSize) ∨
  ∃ b, f.writeBuffers = [(flushed, b)] ∧ b.Holds partSize content flushed f.fileOffset ∧
    flushed * partSize < f.fileOffset ∧ f.fileOffset < flushed * partSize + partSize

/-- Where the thread that holds the file is, with `writes` still to come. -/
def S3FileInfo.At (server : Nat → Bytes → ETag) (params : S3UploadParams) (content : Bytes)
    (flushed : Nat) (f : S3FileInfo ETag) (writes : List Bytes) (next : Nat) : Prop :=
  match f.writer with
  | .idle =>
    next = f.fileOffset ∧ content.drop f.fileOffset = writes.flatten ∧
      f.Buffered params.partSize content flushed
  | .writing buffer offset n =>
    n ≤ buffer.length ∧ f.fileOffset = offset + n ∧ next = offset + buffer.length ∧
      content.drop f.fileOffset = buffer.drop n ++ writes.flatten ∧
      f.Buffered params.partSize content flushed
  | .filling buffer offset n =>
    n < buffer.length ∧ f.fileOffset = offset + n ∧ next = offset + buffer.length ∧
      content.drop f.fileOffset = buffer.drop n ++ writes.flatten ∧
      f.fileOffset < flushed * params.partSize + params.partSize ∧
      ∃ b, f.writeBuffers = [(flushed, b)] ∧ b.Holds params.partSize content flushed f.fileOffset
  | .closing [] => writes = [] ∧ f.writeBuffers = [] ∧ content.length ≤ flushed * params.partSize
  | .closing keys =>
    writes = [] ∧ keys = [flushed] ∧ f.fileOffset = content.length ∧
      flushed * params.partSize < f.fileOffset ∧
      ∃ b, f.writeBuffers = [(flushed, b)] ∧ b.Holds params.partSize content flushed f.fileOffset
  | .closed _ => writes = [] ∧ f.uploads = [] ∧ f.Assembled server params content

def Transfer.Good (server : Nat → Bytes → ETag) (params : S3UploadParams) (content : Bytes)
    (t : Transfer ETag) : Prop :=
  t.fs.fate = .running ∧ ∃ f flushed, t.fs.files = [f] ∧
    f.Uploading server params content t.fs.numUsedBuffers flushed ∧
    f.At server params content flushed t.writes t.offset

def UploadPhase.work : UploadPhase → Nat
  | .sending => 4
  | .etagStored => 3
  | .counted => 2
  | .released => 1
  | .failed => 1

def Writer.work : Writer ETag → Nat
  | .idle => 3
  | .writing _ _ _ => 10
  | .filling _ _ _ => 3
  | .closing keys => keys.length + 1
  | .closed _ => 0

/-- Every step of a thread lowers this number. -/
def S3FileInfo.work (content : Bytes) (f : S3FileInfo ETag) : Nat :=
  16 * (content.length - f.fileOffset) + f.writer.work + 6 * f.writeBuffers.length +
    (f.uploads.map fun u => u.phase.work).sum

def Transfer.work (content : Bytes) (t : Transfer ETag) : Nat :=
  16 * t.writes.length + (t.fs.files.map (S3FileInfo.work content)).sum

variable {server : Nat → Bytes → ETag} {params : S3UploadParams} {content : Bytes}

theorem partSize_pos (params : S3UploadParams) : 0 < params.partSize :=
  Nat.lt_of_lt_of_le (by decide) (le_max_left awsMinimumPartSize _)

variable {used flushed k : Nat} {f : S3FileInfo ETag} {uploads : List Upload} {u : Upload}

theorem S3FileInfo.Uploading.flushed_lt (h : f.Uploading server params content used flushed)
    (hsize : content.length ≤ 65535 * params.partSize) : flushed < 65536 := by
  have hcount := h.count
  have hlt : flushed * params.partSize < 65536 * params.partSize := by omega
  exact Nat.lt_of_mul_lt_mul_right hlt

theorem count_split (p : Upload → Bool) (hu : uploads[k]? = some u) (u' : Upload) :
    uploads.countP p = (uploads.eraseIdx k).countP p + (if p u then 1 else 0) ∧
      (uploads.set k u').countP p = (uploads.eraseIdx k).countP p + (if p u' then 1 else 0) := by
  have hold := (uploads_split hu).1.countP_eq p
  have hnew := ((uploads_split hu).2 u').countP_eq p
  rw [countP_cons] at hold hnew
  exact ⟨hold, hnew⟩

theorem work_split (hu : uploads[k]? = some u) (u' : Upload) :
    (uploads.map fun u => u.phase.work).sum =
        u.phase.work + ((uploads.eraseIdx k).map fun u => u.phase.work).sum ∧
      ((uploads.set k u').map fun u => u.phase.work).sum =
        u'.phase.work + ((uploads.eraseIdx k).map fun u => u.phase.work).sum := by
  have hold := ((uploads_split hu).1.map fun u => u.phase.work).sum_eq
  have hnew := (((uploads_split hu).2 u').map fun u => u.phase.work).sum_eq
  exact ⟨hold, hnew⟩

theorem sending_split (hu : uploads[k]? = some u) (u' : Upload) :
    ((uploads.filter Upload.isSending).map Upload.sends).Perm
        ((if u.isSending then [u.sends] else []) ++
          ((uploads.eraseIdx k).filter Upload.isSending).map Upload.sends) ∧
      (((uploads.set k u').filter Upload.isSending).map Upload.sends).Perm
        ((if u'.isSending then [u'.sends] else []) ++
          ((uploads.eraseIdx k).filter Upload.isSending).map Upload.sends) := by
  have hcons : ∀ v : Upload, ((v :: uploads.eraseIdx k).filter Upload.isSending).map Upload.sends =
      (if v.isSending then [v.sends] else []) ++
        ((uploads.eraseIdx k).filter Upload.isSending).map Upload.sends := by
    intro v
    rw [filter_cons]
    split <;> rfl
  have hold := ((uploads_split hu).1.filter Upload.isSending).map Upload.sends
  have hnew := (((uploads_split hu).2 u').filter Upload.isSending).map Upload.sends
  rw [hcons] at hold hnew
  exact ⟨hold, hnew⟩

theorem sent_fresh {stored pending : List (Nat × Bytes)} {n : Nat} {part : Nat → Bytes}
    (h : (stored ++ pending).Perm ((List.range n).map fun i => (i + 1, part i))) {x : Nat × Bytes}
    (hx : x ∈ pending) : ∀ y ∈ stored, 1 ≤ y.1 ∧ y.1 ≠ x.1 := by
  intro y hy
  have hnodup : ((stored ++ pending).map Prod.fst).Nodup := by
    rw [(h.map Prod.fst).nodup_iff, map_map]
    exact nodup_range.map fun i j hij => by
      have heq : i + 1 = j + 1 := hij
      omega
  constructor
  · obtain ⟨i, _, hi⟩ := mem_map.mp (h.subset (mem_append_left pending hy))
    rw [← hi]
    exact Nat.le_add_left 1 i
  · rw [map_append, nodup_append] at hnodup
    exact hnodup.2.2 y.1 (mem_map_of_mem hy) x.1 (mem_map_of_mem hx)

theorem emplace_fresh {etags : List (Nat × ETag)} {key : Nat} (etag : ETag)
    (h : ∀ entry ∈ etags, entry.1 ≠ key) : emplace etags key etag = etags ++ [(key, etag)] := by
  have hnone : etags.lookup key = none := by
    rw [lookup_eq_none_iff]
    intro entry hentry
    have hne := h entry hentry
    simpa using fun heq => hne heq.symm
  unfold emplace
  rw [hnone]

structure SameFile (f f' : S3FileInfo ETag) : Prop where
  settings : f'.uploadParams = f.uploadParams
  partSize : f'.partSize = f.partSize
  write : f'.write = f.write
  fileOffset : f'.fileOffset = f.fileOffset
  writeBuffers : f'.writeBuffers = f.writeBuffers
  writer : f'.writer = f.writer
  uploaderHasException : f'.uploaderHasException = f.uploaderHasException

section

variable (h : f.Uploading server params content used flushed)

include h

theorem S3FileInfo.Uploading.healthy_set {u' : Upload} (hu' : u'.phase ≠ .failed) :
    ∀ v ∈ f.uploads.set k u', v.phase ≠ .failed := by
  intro v hv
  rcases mem_or_eq_of_mem_set hv with hin | rfl
  · exact h.healthy v hin
  · exact hu'

theorem S3FileInfo.Uploading.threads_set (k : Nat) (u' : Upload) :
    f.uploadsInProgress = (f.uploads.set k u').length ∧
      (f.uploads.set k u').length ≤ flushed := by
  rw [length_set]
  exact ⟨h.progress, h.threads⟩

theorem sending_next (hu : f.uploads[k]? = some u) (hphase : u.phase = .sending) : ({ f with
        stored := f.stored ++ [(u.buffer.partID + 1, u.buffer.body)]
        partEtags := emplace f.partEtags u.buffer.partID
          (server (u.buffer.partID + 1) u.buffer.body) }.setPhase k u .etagStored).Uploading
      server params content used flushed := by
  have hsending : u.isSending = true := by
    unfold Upload.isSending
    rw [hphase]
    rfl
  have hsplit := sending_split hu { u with phase := .etagStored }
  rw [if_pos hsending] at hsplit
  have hsent : (f.stored ++ ([u.sends] ++
      ((f.uploads.eraseIdx k).filter Upload.isSending).map Upload.sends)).Perm
        ((List.range flushed).map fun i => (i + 1, partOf params.partSize content i)) :=
    (hsplit.1.symm.append_left f.stored).trans h.sent
  have hfresh := sent_fresh hsent (mem_append_left _ (mem_singleton_self u.sends))
  have hkeys : ∀ entry ∈ f.partEtags, entry.1 ≠ u.buffer.partID := by
    intro entry hentry
    rw [h.etags] at hentry
    obtain ⟨part, hpart, rfl⟩ := mem_map.mp hentry
    have hne := hfresh part hpart
    have hother : part.1 ≠ u.buffer.partID + 1 := hne.2
    omega
  have hcount := count_split Upload.isUncounted hu { u with phase := .etagStored }
  have huncounted : u.isUncounted = true ∧
      Upload.isUncounted { u with phase := .etagStored } = true := by
    unfold Upload.isUncounted
    rw [hphase]
    exact ⟨rfl, rfl⟩
  rw [huncounted.1, huncounted.2] at hcount
  have hlive := setPhase_live hu .etagStored
  rw [hphase] at hlive
  exact { h with
    healthy := h.healthy_set (nofun)
    progress := (h.threads_set k _).1
    threads := (h.threads_set k _).2
    counted := by
      have hold := h.counted
      show f.numPartsUploaded + (f.uploads.set k _).countP Upload.isUncounted = flushed
      omega
    sent := by
      show (f.stored ++ [u.sends] ++
        ((f.uploads.set k { u with phase := .etagStored }).filter Upload.isSending).map
          Upload.sends).Perm _
      rw [append_assoc]
      exact ((hsplit.2.append_left [u.sends]).append_left f.stored).trans hsent
    etags := by
      show emplace f.partEtags u.buffer.partID _ = (f.stored ++ [_]).map _
      rw [emplace_fresh _ hkeys, map_append, h.etags]
      rfl
    budget := by
      have hold := h.budget
      show used = (f.setPhase k u .etagStored).live
      have hone : UploadPhase.sending.held = UploadPhase.etagStored.held := rfl
      omega }

end

theorem sent_set (hu : uploads[k]? = some u) (hsent : u.isSending = false) {u' : Upload}
    (hsent' : u'.isSending = false) :
    (((uploads.set k u').filter Upload.isSending).map Upload.sends).Perm
      ((uploads.filter Upload.isSending).map Upload.sends) := by
  have hsplit := sending_split hu u'
  rw [hsent, hsent'] at hsplit
  exact hsplit.2.trans hsplit.1.symm

section

variable (h : f.Uploading server params content used flushed)

include h

theorem etagStored_next (hsize : content.length ≤ 65535 * params.partSize)
    (hu : f.uploads[k]? = some u) (hphase : u.phase = .etagStored) :
    ({ f with numPartsUploaded := uint16 (f.numPartsUploaded + 1) }.setPhase k u
      .counted).Uploading server params content used flushed := by
  have hsending : u.isSending = false ∧ Upload.isSending { u with phase := .counted } = false := by
    unfold Upload.isSending
    rw [hphase]
    exact ⟨rfl, rfl⟩
  have huncounted : u.isUncounted = true ∧
      Upload.isUncounted { u with phase := .counted } = false := by
    unfold Upload.isUncounted
    rw [hphase]
    exact ⟨rfl, rfl⟩
  have hcount := count_split Upload.isUncounted hu { u with phase := .counted }
  rw [huncounted.1, huncounted.2, if_pos rfl, if_neg (by decide)] at hcount
  have hlive := setPhase_live hu .counted
  rw [hphase] at hlive
  have hlt := h.flushed_lt hsize
  have hcounted := h.counted
  exact { h with
    healthy := h.healthy_set (nofun)
    progress := (h.threads_set k _).1
    threads := (h.threads_set k _).2
    counted := by
      show uint16 (f.numPartsUploaded + 1) +
        (f.uploads.set k { u with phase := .counted }).countP Upload.isUncounted = flushed
      unfold uint16
      omega
    sent := ((sent_set hu hsending.1 hsending.2).append_left f.stored).trans h.sent
    budget := by
      have hold := h.budget
      show used = (f.setPhase k u .counted).live
      have hone : UploadPhase.etagStored.held = UploadPhase.counted.held := rfl
      omega }

theorem counted_next (hu : f.uploads[k]? = some u) (hphase : u.phase = .counted) :
    (f.setPhase k u .released).Uploading server params content (uint16 (used + 65535)) flushed := by
  have hsending : u.isSending = false ∧ Upload.isSending { u with phase := .released } = false := by
    unfold Upload.isSending
    rw [hphase]
    exact ⟨rfl, rfl⟩
  have huncounted : u.isUncounted = false ∧
      Upload.isUncounted { u with phase := .released } = false := by
    unfold Upload.isUncounted
    rw [hphase]
    exact ⟨rfl, rfl⟩
  have hcount := count_split Upload.isUncounted hu { u with phase := .released }
  rw [huncounted.1, huncounted.2] at hcount
  have hlive := setPhase_live hu .released
  rw [hphase] at hlive
  have hone : UploadPhase.counted.held = 1 := rfl
  have hzero : UploadPhase.released.held = 0 := rfl
  have hbudget := h.budget
  have hsmall := h.budgetSmall
  -- the buffer of this thread is in use, so the counter is not zero
  have hlower : uint16 (used + 65535) + 1 = used := by
    unfold uint16
    omega
  generalize uint16 (used + 65535) = used' at hlower
  exact { h with
    healthy := h.healthy_set (nofun)
    progress := (h.threads_set k _).1
    threads := (h.threads_set k _).2
    counted := by
      have hcounted := h.counted
      show f.numPartsUploaded +
        (f.uploads.set k { u with phase := .released }).countP Upload.isUncounted = flushed
      omega
    sent := ((sent_set hu hsending.1 hsending.2).append_left f.stored).trans h.sent
    budget := by omega
    budgetSmall := by omega }

section

variable (hsize : content.length ≤ 65535 * params.partSize) (hu : f.uploads[k]? = some u)

include hsize hu

theorem released_next (hphase : u.phase = .released) :
    (f.endUpload k).Uploading server params content used flushed := by
  have hk := (List.getElem?_eq_some_iff.mp hu).1
  have hsending : u.isSending = false := by
    unfold Upload.isSending
    rw [hphase]
    rfl
  have huncounted : u.isUncounted = false := by
    unfold Upload.isUncounted
    rw [hphase]
    rfl
  have hcount := (count_split Upload.isUncounted hu u).1
  rw [huncounted, if_neg (by decide)] at hcount
  have hsplit := (sending_split hu u).1
  rw [hsending] at hsplit
  have hlive := endUpload_live hu
  rw [hphase] at hlive
  have hzero : UploadPhase.released.held = 0 := rfl
  have hprogress := h.progress
  have hthreads := h.threads
  have hlt := h.flushed_lt hsize
  have hlen := length_eraseIdx_of_lt hk
  exact { h with
    healthy := fun v hv => h.healthy v (mem_of_mem_eraseIdx hv)
    progress := by
      show uint16 (f.uploadsInProgress + 65535) = (f.uploads.eraseIdx k).length
      unfold uint16
      omega
    threads := by
      show (f.uploads.eraseIdx k).length ≤ flushed
      omega
    counted := by
      have hcounted := h.counted
      show f.numPartsUploaded + (f.uploads.eraseIdx k).countP Upload.isUncounted = flushed
      omega
    sent := (hsplit.symm.append_left f.stored).trans h.sent
    budget := by
      have hbudget := h.budget
      omega }

theorem upload_next : ∃ used' f', f.uploadBuffer server used k = some (used', f') ∧
      f'.Uploading server params content used' flushed ∧ SameFile f f' ∧
      f'.work content < f.work content := by
  have hset : ∀ (g : S3FileInfo ETag) (phase : UploadPhase), SameFile f g → g.uploads = f.uploads →
      phase.work < u.phase.work →
      SameFile f (g.setPhase k u phase) ∧ (g.setPhase k u phase).work content < f.work content := by
    intro g phase hsame huploads hless
    refine ⟨⟨hsame.settings, hsame.partSize, hsame.write, hsame.fileOffset, hsame.writeBuffers,
      hsame.writer, hsame.uploaderHasException⟩, ?_⟩
    have hsplit := work_split hu { u with phase }
    have hphase : Upload.phase { u with phase } = phase := rfl
    rw [hphase] at hsplit
    show 16 * (content.length - g.fileOffset) + g.writer.work + 6 * g.writeBuffers.length +
      ((g.uploads.set k { u with phase }).map fun u => u.phase.work).sum < _
    unfold S3FileInfo.work
    rw [hsame.fileOffset, hsame.writer, hsame.writeBuffers, huploads]
    omega
  unfold S3FileInfo.uploadBuffer
  simp only [hu]
  cases hphase : u.phase with
  | sending =>
    rw [hphase] at hset
    obtain ⟨hsame, hwork⟩ := hset { f with
      stored := f.stored ++ [(u.buffer.partID + 1, u.buffer.body)]
      partEtags := emplace f.partEtags u.buffer.partID
        (server (u.buffer.partID + 1) u.buffer.body) } .etagStored
      ⟨rfl, rfl, rfl, rfl, rfl, rfl, rfl⟩ rfl (by decide)
    exact ⟨used, _, rfl, sending_next h hu hphase, hsame, hwork⟩
  | etagStored =>
    rw [hphase] at hset
    obtain ⟨hsame, hwork⟩ := hset { f with
      numPartsUploaded := uint16 (f.numPartsUploaded + 1) } .counted
      ⟨rfl, rfl, rfl, rfl, rfl, rfl, rfl⟩ rfl (by decide)
    exact ⟨used, _, rfl, etagStored_next h hsize hu hphase, hsame, hwork⟩
  | counted =>
    rw [hphase] at hset
    obtain ⟨hsame, hwork⟩ := hset f .released ⟨rfl, rfl, rfl, rfl, rfl, rfl, rfl⟩ rfl (by decide)
    exact ⟨uint16 (used + 65535), f.setPhase k u .released, rfl, counted_next h hu hphase, hsame,
      hwork⟩
  | released =>
    have hwork := (work_split hu u).1
    rw [hphase] at hwork
    have hone : UploadPhase.released.work = 1 := rfl
    refine ⟨used, _, rfl, released_next h hsize hu hphase, ⟨rfl, rfl, rfl, rfl, rfl, rfl, rfl⟩, ?_⟩
    show 16 * (content.length - f.fileOffset) + f.writer.work + 6 * f.writeBuffers.length +
      ((f.uploads.eraseIdx k).map fun u => u.phase.work).sum < _
    unfold S3FileInfo.work
    omega
  | failed => exact absurd hphase (h.healthy u (List.mem_of_getElem? hu))

end

end

end

end Ladybug.S3
