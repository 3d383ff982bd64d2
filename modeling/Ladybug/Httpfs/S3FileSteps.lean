import Mathlib.Data.List.Nodup
import Mathlib.Algebra.BigOperators.Group.List.Basic
import Ladybug.Httpfs.S3Upload

/-!
# Buffers in use

What holds of a file between any two steps of its threads, and what each step does to the number of
buffers that the file has in use.  `numUsedBuffers` is raised for each buffer that is allocated and
lowered where an upload that succeeds lets go of its buffer; a failed upload lowers nothing.
-/

namespace Ladybug.S3

open List Option

section

variable {ETag : Type}

/-! ## 1. Buffers in use -/

/-- The thread still has its buffer, which is neither uploaded nor failed. -/
def Upload.holdsBuffer (u : Upload) : Bool :=
  match u.phase with
  | .sending => true
  | .etagStored => true
  | .counted => true
  | .released => false
  | .failed => false

def S3FileInfo.live (f : S3FileInfo ETag) : Nat :=
  f.writeBuffers.length + f.uploads.countP Upload.holdsBuffer

/-- The buffers that are allocated and not yet uploaded, failed or discarded. -/
def S3FileSystem.live (fs : S3FileSystem ETag) : Nat := (fs.files.map S3FileInfo.live).sum

def Event.isFailure : Event → Bool
  | .uploadFails _ _ => true
  | _ => false

/-! ## 2. What holds of a file -/

def S3FileInfo.inRound (f : S3FileInfo ETag) : Prop :=
  match f.writer with
  | .filling buffer _ numBytesWritten => numBytesWritten < buffer.length
  | _ => True

/-- The buffer of a round of the loop, which may still be empty. -/
def S3FileInfo.fillsKey (f : S3FileInfo ETag) (key : Nat) : Prop :=
  match f.writer with
  | .filling _ offset numBytesWritten => key = uint16 ((offset + numBytesWritten) / f.partSize)
  | _ => False

def S3FileInfo.Flushing (f : S3FileInfo ETag) (key : Nat) : Prop :=
  match f.writer with
  | .closing buffersToFlush => key ∈ buffersToFlush
  | _ => True

structure S3FileInfo.Sound (f : S3FileInfo ETag) : Prop where
  partSize : f.write = true → 0 < f.partSize
  reading : f.write = false → f.writeBuffers = [] ∧ f.uploads = []
  writing : f.write = false → f.writer = .idle ∨ f.isClosed = true
  round : f.inRound
  partID : ∀ entry ∈ f.writeBuffers, entry.2.partID = entry.1
  start : ∀ entry ∈ f.writeBuffers, entry.2.startOffset = entry.1 * f.partSize
  nodup : (f.writeBuffers.map Prod.fst).Nodup
  uploading : ∀ entry ∈ f.writeBuffers, entry.2.uploading = true → f.uploaderHasException = true
  written : ∀ entry ∈ f.writeBuffers, 0 < entry.2.numBytesWritten ∨ f.fillsKey entry.1
  flushing : ∀ entry ∈ f.writeBuffers, f.Flushing entry.1 ∨ f.uploaderHasException = true
  closed : f.isClosed = true → f.writeBuffers = []

theorem initialized_sound (write : Bool) (params : S3UploadParams) :
    (S3FileInfo.initialized write params : S3FileInfo ETag).Sound := by
  constructor
  · intro hwrite
    have hpos : 0 < awsMinimumPartSize := by decide
    show 0 < (if write then max awsMinimumPartSize _ else 0)
    have hw : write = true := hwrite
    rw [if_pos hw]
    omega
  · exact fun _ => ⟨rfl, rfl⟩
  · exact fun _ => .inl rfl
  · trivial
  · exact nofun
  · exact nofun
  · exact nodup_nil
  · exact nofun
  · exact nofun
  · exact nofun
  · exact fun _ => rfl

/-! ## 3. The buffers of a file -/

variable {β : Type} {l : List (Nat × β)} {k used used' offset n : Nat} {f f' : S3FileInfo ETag}
  {b : S3WriteBuffer} {u : Upload}

theorem mem_of_lookup {b : β} (h : l.lookup k = some b) : (k, b) ∈ l := by
  obtain ⟨l₁, l₂, hl, _⟩ := lookup_eq_some_iff.mp h
  rw [hl]
  exact mem_append_right l₁ mem_cons_self

theorem notMem_of_lookup (h : l.lookup k = none) : k ∉ l.map Prod.fst := by
  intro hk
  obtain ⟨entry, hentry, hfst⟩ := mem_map.mp hk
  have hne := lookup_eq_none_iff.mp h entry hentry
  rw [hfst] at hne
  simp at hne

theorem length_filter_ne {b : β} (hnodup : (l.map Prod.fst).Nodup) (h : (k, b) ∈ l) :
    (l.filter fun entry => entry.1 ≠ k).length + 1 = l.length := by
  induction l with
  | nil => cases h
  | cons entry l ih =>
    rw [map_cons, nodup_cons] at hnodup
    by_cases hk : entry.1 = k
    · have hrest : (l.filter fun entry => entry.1 ≠ k) = l := by
        rw [filter_eq_self]
        intro e he
        have hne : e.1 ≠ k := fun heq =>
          hnodup.1 (hk.trans heq.symm ▸ mem_map_of_mem he)
        simpa using hne
      rw [filter_cons_of_neg (by simpa using hk), hrest, length_cons]
    · have hmem : (k, b) ∈ l := by
        rcases mem_cons.mp h with heq | hin
        · exact absurd (congrArg Prod.fst heq).symm hk
        · exact hin
      rw [filter_cons_of_pos (by simpa using hk), length_cons, length_cons, ih hnodup.2 hmem]

theorem getBuffer_cases {idx : Nat} (h : f.getBuffer used idx = some (used', f')) :
    (used' = used ∧ f' = f ∧ ∃ b, f.writeBuffers.lookup idx = some b) ∨
    (f.writeBuffers.lookup idx = none ∧ used < uint16 f.uploadParams.maxUploadThreads ∧
      used' = uint16 (used + 1) ∧ f' = { f with writeBuffers := f.writeBuffers ++
        [(idx, .created (idx * f.partSize) f.partSize)] }) := by
  unfold S3FileInfo.getBuffer at h
  cases hlookup : f.writeBuffers.lookup idx with
  | some b =>
    simp only [hlookup] at h
    cases h
    exact .inl ⟨rfl, rfl, b, rfl⟩
  | none =>
    simp only [hlookup] at h
    split at h
    · cases h
    · rename_i hfree
      cases h
      exact .inr ⟨rfl, by omega, rfl, rfl⟩

theorem flushBuffer_cases (f : S3FileInfo ETag) (key : Nat) (hwritten : 0 < b.numBytesWritten) :
    (b.uploading = true ∧ f.flushBuffer key b = (f, false)) ∨
    (b.uploading = false ∧ f.uploaderHasException = true ∧
      f.flushBuffer key b = (f.setBuffer key { b with uploading := true }, true)) ∨
    (b.uploading = false ∧ f.uploaderHasException = false ∧
      f.flushBuffer key b = ({ f.eraseBuffer b.partID with
        uploadsInProgress := uint16 (f.uploadsInProgress + 1)
        uploads := f.uploads ++ [⟨{ b with uploading := true }, .sending⟩] }, false)) := by
  have hne : b.numBytesWritten ≠ 0 := by omega
  unfold S3FileInfo.flushBuffer
  rw [if_neg hne]
  cases hup : b.uploading with
  | true => exact .inl ⟨rfl, rfl⟩
  | false =>
    cases hex : f.uploaderHasException with
    | true => exact .inr (.inl ⟨rfl, rfl, rfl⟩)
    | false => exact .inr (.inr ⟨rfl, rfl, rfl⟩)

/-! ## 4. Steps of the thread that holds the file -/

section

variable (h : f.Sound)

include h

theorem S3FileInfo.Sound.setWriter {w : Writer ETag} (hwrite : f.write = true)
    (hround : (f.setWriter w).inRound)
    (hwritten : ∀ entry ∈ f.writeBuffers, 0 < entry.2.numBytesWritten ∨ (f.setWriter w).fillsKey entry.1)
    (hflushing : ∀ entry ∈ f.writeBuffers, (f.setWriter w).Flushing entry.1 ∨ f.uploaderHasException = true)
    (hclosed : (f.setWriter w).isClosed = true → f.writeBuffers = []) : (f.setWriter w).Sound where
  partSize := h.partSize
  reading := h.reading
  writing := fun hread => absurd (hwrite.symm.trans hread) (by decide)
  round := hround
  partID := h.partID
  start := h.start
  nodup := h.nodup
  uploading := h.uploading
  written := hwritten
  flushing := hflushing
  closed := hclosed

theorem S3FileInfo.Sound.setOpen {w : Writer ETag} (hwrite : f.write = true)
    (hwritten : ∀ entry ∈ f.writeBuffers, 0 < entry.2.numBytesWritten)
    (hclosing : ∀ keys, w ≠ .closing keys) (hclosed : ∀ parts, w ≠ .closed parts)
    (hround : (f.setWriter w).inRound) : (f.setWriter w).Sound := by
  apply h.setWriter hwrite hround
  · exact fun entry he => .inl (hwritten entry he)
  · intro entry he
    left
    cases w with
    | closing keys => exact absurd rfl (hclosing keys)
    | _ => trivial
  · intro hc
    cases w with
    | closed parts => exact absurd rfl (hclosed parts)
    | _ => cases hc

theorem S3FileInfo.Sound.written_of_not_filling {w : Writer ETag} (hw : f.writer = w)
    (hfilling : ∀ buffer offset n, w ≠ .filling buffer offset n) :
    ∀ entry ∈ f.writeBuffers, 0 < entry.2.numBytesWritten := by
  intro entry hentry
  apply (h.written entry hentry).resolve_right
  unfold S3FileInfo.fillsKey
  rw [hw]
  cases w with
  | filling buffer offset n => exact absurd rfl (hfilling buffer offset n)
  | _ => exact id

theorem S3FileInfo.Sound.write_of_busy {w : Writer ETag} (hw : f.writer = w) (hidle : w ≠ .idle)
    (hclosed : ∀ parts, w ≠ .closed parts) : f.write = true := by
  cases hwrite : f.write with
  | true => rfl
  | false =>
    rcases h.writing hwrite with hw' | hw'
    · exact absurd (hw.symm.trans hw') hidle
    · unfold S3FileInfo.isClosed at hw'
      rw [hw] at hw'
      cases w with
      | closed parts => exact absurd rfl (hclosed parts)
      | _ => cases hw'

theorem flushed_sound (u : Upload) (progress : Nat) (hwrite : f.write = true) :
    ({ f.eraseBuffer b.partID with
        uploadsInProgress := progress, uploads := f.uploads ++ [u] } : S3FileInfo ETag).Sound := by
  have hsub : ∀ entry ∈ f.writeBuffers.filter (fun entry => entry.1 ≠ b.partID),
      entry ∈ f.writeBuffers := fun entry hentry => (mem_filter.mp hentry).1
  exact { h with
    reading := fun hread => absurd (hwrite.symm.trans hread) (by decide)
    writing := fun hread => absurd (hwrite.symm.trans hread) (by decide)
    partID := fun entry hentry => h.partID entry (hsub entry hentry)
    start := fun entry hentry => h.start entry (hsub entry hentry)
    nodup := (filter_sublist.map Prod.fst).nodup h.nodup
    uploading := fun entry hentry => h.uploading entry (hsub entry hentry)
    written := fun entry hentry => h.written entry (hsub entry hentry)
    flushing := fun entry hentry => h.flushing entry (hsub entry hentry)
    closed := fun hclosed => by
      show f.writeBuffers.filter _ = []
      rw [h.closed hclosed]
      rfl }

theorem S3FileInfo.Sound.setBuffer {key : Nat} {b' : S3WriteBuffer} (hb : (key, b) ∈ f.writeBuffers)
    (hid : b'.partID = b.partID) (hstart : b'.startOffset = b.startOffset)
    (hwritten : 0 < b'.numBytesWritten) (hup : b'.uploading = true → f.uploaderHasException = true) :
    (f.setBuffer key b').Sound := by
  have hentry : ∀ entry ∈ (f.setBuffer key b').writeBuffers,
      entry = (key, b') ∨ (entry ∈ f.writeBuffers ∧ entry.1 ≠ key) := by
    intro entry he
    obtain ⟨old, hold, rfl⟩ := mem_map.mp he
    by_cases hk : old.1 = key
    · rw [if_pos hk]
      exact .inl rfl
    · rw [if_neg hk]
      exact .inr ⟨hold, hk⟩
  have hkeys : (f.setBuffer key b').writeBuffers.map Prod.fst = f.writeBuffers.map Prod.fst := by
    show (f.writeBuffers.map _).map Prod.fst = _
    rw [List.map_map]
    apply map_congr_left
    intro entry _
    by_cases hk : entry.1 = key
    · simp [hk]
    · simp [hk]
  constructor
  · exact h.partSize
  · intro hread
    rw [(h.reading hread).1] at hb
    cases hb
  · exact h.writing
  · exact h.round
  · intro entry he
    rcases hentry entry he with rfl | ⟨he, _⟩
    · exact hid.trans (h.partID _ hb)
    · exact h.partID entry he
  · intro entry he
    rcases hentry entry he with rfl | ⟨he, _⟩
    · exact hstart.trans (h.start _ hb)
    · exact h.start entry he
  · rw [hkeys]
    exact h.nodup
  · intro entry he
    rcases hentry entry he with rfl | ⟨he, _⟩
    · exact hup
    · exact h.uploading entry he
  · intro entry he
    rcases hentry entry he with rfl | ⟨he, _⟩
    · exact .inl hwritten
    · exact h.written entry he
  · intro entry he
    rcases hentry entry he with rfl | ⟨he, _⟩
    · exact h.flushing (key, b) hb
    · exact h.flushing entry he
  · intro hclosed
    rw [h.closed hclosed] at hb
    cases hb

end

theorem setBuffer_live (f : S3FileInfo ETag) (key : Nat) (b : S3WriteBuffer) :
    (f.setBuffer key b).live = f.live := by
  unfold S3FileInfo.live S3FileInfo.setBuffer
  simp only [length_map]

theorem flushed_live (h : f.Sound) {key : Nat} (hb : (key, b) ∈ f.writeBuffers) (b' : S3WriteBuffer)
    (progress : Nat) :
    ({ f.eraseBuffer b.partID with
        uploadsInProgress := progress, uploads := f.uploads ++ [Upload.mk b' .sending] } :
      S3FileInfo ETag).live = f.live := by
  have hid := h.partID _ hb
  have hlength := length_filter_ne h.nodup hb
  show (f.writeBuffers.filter fun entry => entry.1 ≠ b.partID).length +
    (f.uploads ++ [Upload.mk b' .sending]).countP Upload.holdsBuffer = f.live
  rw [countP_append, hid]
  unfold S3FileInfo.live
  simp only [countP_singleton, Upload.holdsBuffer, ite_true]
  omega

/-- What a flush leaves: the same number of buffers in use, in the map or with a thread. -/
structure Flushed (f f' : S3FileInfo ETag) : Prop where
  sound : f'.Sound
  live : f'.live = f.live
  write : f'.write = f.write
  exception : f'.uploaderHasException = f.uploaderHasException
  written : (∀ entry ∈ f.writeBuffers, 0 < entry.2.numBytesWritten) →
    ∀ entry ∈ f'.writeBuffers, 0 < entry.2.numBytesWritten
  keys : ∀ entry ∈ f'.writeBuffers, entry.1 ∈ f.writeBuffers.map Prod.fst

theorem flushBuffer_flushed (h : f.Sound) (hwrite : f.write = true) {key : Nat}
    (hb : (key, b) ∈ f.writeBuffers) (hwritten : 0 < b.numBytesWritten) :
    Flushed f (f.flushBuffer key b).1 := by
  rcases flushBuffer_cases f key hwritten with
    ⟨_, hflush⟩ | ⟨_, hex, hflush⟩ | ⟨_, _, hflush⟩
  · rw [hflush]
    exact ⟨h, rfl, rfl, rfl, id, fun entry he => mem_map_of_mem he⟩
  · rw [hflush]
    refine ⟨h.setBuffer hb rfl rfl hwritten fun _ => hex, setBuffer_live _ _ _, rfl, rfl, ?_, ?_⟩
    · intro hall entry he
      obtain ⟨old, hold, rfl⟩ := mem_map.mp he
      split
      · exact hwritten
      · exact hall old hold
    · intro entry he
      obtain ⟨old, hold, rfl⟩ := mem_map.mp he
      split
      · exact mem_map.mpr ⟨(key, b), hb, rfl⟩
      · exact mem_map_of_mem hold
  · rw [hflush]
    refine ⟨flushed_sound h _ _ hwrite, flushed_live h hb _ _, rfl, rfl, ?_, ?_⟩
    · exact fun hall entry he => hall entry (mem_filter.mp he).1
    · exact fun entry he => mem_map_of_mem (mem_filter.mp he).1

theorem offsetToWrite_cases (pos : Nat) {size : Nat} (hsize : 0 < size) :
    (pos / size < 65536 ∧ pos - uint16 (pos / size) * size = pos % size) ∨
      (65536 ≤ pos / size ∧ size < pos - uint16 (pos / size) * size) := by
  have hdiv := Nat.div_add_mod pos size
  unfold uint16
  by_cases hq : pos / size < 65536
  · left
    rw [Nat.mod_eq_of_lt hq, Nat.mul_comm]
    omega
  · right
    have hlow : (pos / size % 65536 + 65536) * size ≤ pos / size * size :=
      Nat.mul_le_mul_right size (by omega)
    have hpos : pos / size * size ≤ pos := Nat.div_mul_le_self pos size
    rw [Nat.add_mul] at hlow
    omega

theorem endRound_next {m key : Nat} {buffer : Bytes} {b' : S3WriteBuffer} (h : f.Sound)
    (hwrite : f.write = true) (hb : (key, b) ∈ f.writeBuffers) (hid : b'.partID = b.partID)
    (hstart : b'.startOffset = b.startOffset) (hup : b'.uploading = b.uploading)
    (hwritten : 0 < b'.numBytesWritten)
    (hothers : ∀ entry ∈ f.writeBuffers, entry.1 ≠ key → 0 < entry.2.numBytesWritten)
    (hend : f.endRound used buffer offset n m key b' = .next used' f') :
    f'.Sound ∧ used' = used ∧ f'.live = f.live := by
  have hset : (f.setBuffer key b').Sound :=
    h.setBuffer hb hid hstart hwritten fun hb' => h.uploading _ hb (hup ▸ hb')
  have hmem : (key, b') ∈ (f.setBuffer key b').writeBuffers :=
    mem_map.mpr ⟨(key, b), hb, if_pos rfl⟩
  have hall : ∀ entry ∈ (f.setBuffer key b').writeBuffers, 0 < entry.2.numBytesWritten := by
    intro entry he
    obtain ⟨old, hold, rfl⟩ := mem_map.mp he
    by_cases hk : old.1 = key
    · rw [if_pos hk]
      exact hwritten
    · rw [if_neg hk]
      exact hothers old hold hk
  -- the buffer is flushed or not
  have hflushed : Flushed (f.setBuffer key b') (if b'.numBytesWritten ≥ (f.setBuffer key b').partSize
      then (f.setBuffer key b').flushBuffer key b' else (f.setBuffer key b', false)).1 := by
    split
    · exact flushBuffer_flushed hset hwrite hmem hwritten
    · exact ⟨hset, rfl, rfl, rfl, id, fun entry he => mem_map_of_mem he⟩
  unfold S3FileInfo.endRound at hend
  simp only at hend
  generalize (if b'.numBytesWritten ≥ (f.setBuffer key b').partSize
      then (f.setBuffer key b').flushBuffer key b' else (f.setBuffer key b', false)) = r at *
  have hlive : r.1.live = f.live := hflushed.live.trans (setBuffer_live f key b')
  have hwrite' : r.1.write = true := hflushed.write.trans hwrite
  have hwritten' := hflushed.written hall
  have hset' := fun w => @S3FileInfo.Sound.setOpen ETag r.1 hflushed.sound w hwrite' hwritten'
  split at hend
  · cases hend
    exact ⟨hset' .idle nofun nofun trivial, rfl, hlive⟩
  · cases hend
    have hs := hset' (.writing buffer offset (n + m)) nofun nofun trivial
    exact ⟨{ hs with }, rfl, hlive⟩

theorem fillBuffer_next {buffer : Bytes} (h : f.Sound) (hw : f.writer = .filling buffer offset n)
    (hlookup : f.writeBuffers.lookup (uint16 ((offset + n) / f.partSize)) = some b)
    (hfill : f.fillBuffer used buffer offset n (uint16 ((offset + n) / f.partSize)) b =
      .next used' f') : f'.Sound ∧ used' = used ∧ f'.live = f.live := by
  have hb := mem_of_lookup hlookup
  have hwrite := h.write_of_busy hw nofun nofun
  have hsize := h.partSize hwrite
  have hround : n < buffer.length := by
    have hr := h.round
    unfold S3FileInfo.inRound at hr
    rw [hw] at hr
    exact hr
  have hstart : b.startOffset = uint16 ((offset + n) / f.partSize) * f.partSize := h.start _ hb
  unfold S3FileInfo.fillBuffer at hfill
  simp only at hfill
  split at hfill
  · cases hfill
  rename_i hinside
  generalize hm : min (buffer.length - n) (roomAt f.partSize (offset + n - b.startOffset)) = m at *
  have hmpos : 0 < m := by
    unfold roomAt at hm
    rcases offsetToWrite_cases (offset + n) hsize with ⟨_, hoffset⟩ | ⟨_, hoffset⟩
    · rw [← hstart] at hoffset
      have hmod := Nat.mod_lt (offset + n) hsize
      rw [if_pos (by omega)] at hm
      omega
    · rw [← hstart] at hoffset
      omega
  refine endRound_next h hwrite hb ?_ ?_ ?_ ?_ ?_ hfill
  · rfl
  · rfl
  · rfl
  · show 0 < b.numBytesWritten + ((buffer.drop n).take m).length
    rw [length_take, length_drop]
    omega
  · intro entry he hk
    apply (h.written entry he).resolve_right
    unfold S3FileInfo.fillsKey
    rw [hw]
    exact hk

theorem getBuffer_next {buffer : Bytes} (h : f.Sound) (hw : f.writer = .writing buffer offset n)
    (hround : n < buffer.length)
    (hget : f.getBuffer used (uint16 ((offset + n) / f.partSize)) = some (used', f')) :
    (f'.setWriter (.filling buffer offset n)).Sound ∧ used' + f.live = used + f'.live ∧
      (used < 65536 → used' < 65536) := by
  have hwrite := h.write_of_busy hw nofun nofun
  have hwritten := h.written_of_not_filling hw nofun
  rcases getBuffer_cases hget with ⟨rfl, rfl, b, hb⟩ | ⟨hnone, hfree, rfl, rfl⟩
  · exact ⟨h.setOpen hwrite hwritten nofun nofun hround, rfl, id⟩
  · have hmax : uint16 f.uploadParams.maxUploadThreads < 65536 := Nat.mod_lt _ (by decide)
    have hadd : uint16 (used + 1) = used + 1 := Nat.mod_eq_of_lt (by omega)
    have hsize := h.partSize hwrite
    generalize hkey : uint16 ((offset + n) / f.partSize) = key at *
    have hkey' : key < 65536 := by
      rw [← hkey]
      exact Nat.mod_lt _ (by decide)
    have hid : (S3WriteBuffer.created (key * f.partSize) f.partSize).partID = key := by
      show uint16 (key * f.partSize / f.partSize) = key
      rw [Nat.mul_div_cancel key hsize]
      exact Nat.mod_eq_of_lt hkey'
    have hentry : ∀ entry ∈ f.writeBuffers ++
        [(key, S3WriteBuffer.created (key * f.partSize) f.partSize)],
        entry ∈ f.writeBuffers ∨ entry = (key, .created (key * f.partSize) f.partSize) := by
      intro entry he
      rcases mem_append.mp he with he | he
      · exact .inl he
      · exact .inr (mem_singleton.mp he)
    refine ⟨?_, ?_, fun _ => by omega⟩
    · constructor
      · exact h.partSize
      · exact fun hread => absurd (hwrite.symm.trans hread) (by decide)
      · exact fun hread => absurd (hwrite.symm.trans hread) (by decide)
      · exact hround
      · intro entry he
        rcases hentry entry he with he | rfl
        · exact h.partID entry he
        · exact hid
      · intro entry he
        rcases hentry entry he with he | rfl
        · exact h.start entry he
        · rfl
      · show ((f.writeBuffers ++ [_]).map Prod.fst).Nodup
        rw [map_append, nodup_append]
        refine ⟨h.nodup, nodup_singleton _, ?_⟩
        intro k hk k' hk' heq
        rw [map_singleton, mem_singleton] at hk'
        rw [heq, hk'] at hk
        exact notMem_of_lookup hnone hk
      · intro entry he hup
        rcases hentry entry he with he | rfl
        · exact h.uploading entry he hup
        · cases hup
      · intro entry he
        rcases hentry entry he with he | rfl
        · exact .inl (hwritten entry he)
        · exact .inr hkey.symm
      · exact fun entry he => .inl trivial
      · exact nofun
    · rw [hadd]
      unfold S3FileInfo.live
      simp only [length_append, length_singleton]
      omega

/-! ## 5. Every step -/

theorem flush_next {key : Nat} {rest : List Nat} (h : f.Sound)
    (hw : f.writer = .closing (key :: rest)) (hrun : f.run used = some (.next used' f')) :
    f'.Sound ∧ used' + f.live = used + f'.live ∧ (used < 65536 → used' < 65536) := by
  have hbuffers : (f.setWriter (.closing rest)).writeBuffers = f.writeBuffers := rfl
  unfold S3FileInfo.run at hrun
  simp only [hw, hbuffers] at hrun
  have hwrite := h.write_of_busy hw nofun nofun
  have hwritten := h.written_of_not_filling hw nofun
  have hflushing : ∀ entry ∈ f.writeBuffers,
      entry.1 = key ∨ entry.1 ∈ rest ∨ f.uploaderHasException = true := by
    intro entry he
    have hf := h.flushing entry he
    unfold S3FileInfo.Flushing at hf
    rw [hw] at hf
    rcases hf with hf | hf
    · rcases mem_cons.mp hf with hf | hf
      · exact .inl hf
      · exact .inr (.inl hf)
    · exact .inr (.inr hf)
  -- the file without the key in the list, if no buffer of the key is left to flush
  have hskip : (∀ entry ∈ f.writeBuffers, entry.1 = key → f.uploaderHasException = true) →
      (f.setWriter (.closing rest)).Sound := by
    intro hkey
    apply h.setWriter hwrite
    · trivial
    · exact fun entry he => .inl (hwritten entry he)
    · intro entry he
      rcases hflushing entry he with hk | hk | hk
      · exact .inr (hkey entry he hk)
      · exact .inl hk
      · exact .inr hk
    · exact nofun
  cases hlookup : f.writeBuffers.lookup key with
  | none =>
    rw [hlookup] at hrun
    cases hrun
    refine ⟨hskip ?_, rfl, id⟩
    intro entry he hk
    exact absurd (hk ▸ mem_map_of_mem he) (notMem_of_lookup hlookup)
  | some b =>
    rw [hlookup] at hrun
    have hb := mem_of_lookup hlookup
    simp only at hrun
    cases hup : b.uploading with
    | true =>
      rw [if_pos hup] at hrun
      cases hrun
      exact ⟨hskip fun entry _ _ => h.uploading _ hb hup, rfl, id⟩
    | false =>
      rw [if_neg (by rw [hup]; decide)] at hrun
      rcases flushBuffer_cases (f.setWriter (.closing rest)) key
        (hwritten _ hb) with ⟨htrue, _⟩ | ⟨_, _, hflush⟩ | ⟨_, _, hflush⟩
      · rw [hup] at htrue
        cases htrue
      · rw [hflush] at hrun
        cases hrun
      · rw [hflush] at hrun
        cases hrun
        have hsound := flushed_sound h (b := b) ⟨{ b with uploading := true }, .sending⟩
          (uint16 (f.uploadsInProgress + 1)) hwrite
        refine ⟨hsound.setWriter (w := .closing rest) hwrite trivial ?_ ?_ nofun, ?_, id⟩
        · exact fun entry he => .inl (hwritten entry (mem_filter.mp he).1)
        · intro entry he
          obtain ⟨he, hk⟩ := mem_filter.mp he
          have hid : b.partID = key := h.partID _ hb
          have hne : entry.1 ≠ key := by
            rw [← hid]
            simpa using hk
          exact (hflushing entry he).resolve_left hne
        · have hlive := flushed_live h hb { b with uploading := true }
            (uint16 (f.uploadsInProgress + 1))
          exact congrArg (used + ·) hlive.symm

theorem close_next (h : f.Sound) (hw : f.writer = .closing [])
    (hrun : f.run used = some (.next used' f')) :
    f'.Sound ∧ used' + f.live = used + f'.live ∧ (used < 65536 → used' < 65536) := by
  unfold S3FileInfo.run at hrun
  simp only [hw] at hrun
  have hwrite := h.write_of_busy hw nofun nofun
  split at hrun
  · cases hrun
  split at hrun
  · cases hrun
  rename_i hexception
  -- without an exception every buffer was flushed
  have hempty : f.writeBuffers = [] := by
    apply eq_nil_iff_forall_not_mem.mpr
    intro entry he
    have hf := h.flushing entry he
    unfold S3FileInfo.Flushing at hf
    rw [hw] at hf
    rcases hf with hf | hf
    · cases hf
    · exact hexception hf
  have hclosed : ∀ parts : List (ETag × Nat),
      ({ f with writeBuffers := [], writer := .closed parts } : S3FileInfo ETag).Sound ∧
        used + f.live =
          used + ({ f with writeBuffers := [], writer := .closed parts } : S3FileInfo ETag).live := by
    intro parts
    have hs : (f.setWriter (.closed parts)).Sound := by
      apply h.setWriter hwrite
      · trivial
      · intro entry he
        rw [hempty] at he
        cases he
      · exact fun entry he => .inl trivial
      · exact fun _ => hempty
    have heq : ({ f with writeBuffers := [], writer := .closed parts } : S3FileInfo ETag) =
        f.setWriter (.closed parts) := by
      unfold S3FileInfo.setWriter
      rw [hempty]
    rw [heq]
    exact ⟨hs, rfl⟩
  split at hrun
  · cases hrun
    exact ⟨(hclosed []).1, (hclosed []).2, id⟩
  · cases hparts : f.finalizeParts with
    | none => rw [hparts] at hrun; cases hrun
    | some parts =>
      rw [hparts] at hrun
      cases hrun
      exact ⟨(hclosed parts).1, (hclosed parts).2, id⟩

theorem run_next (h : f.Sound) (hrun : f.run used = some (.next used' f')) :
    f'.Sound ∧ used' + f.live = used + f'.live ∧ (used < 65536 → used' < 65536) := by
  cases hw : f.writer with
  | idle | closed =>
    unfold S3FileInfo.run at hrun
    rw [hw] at hrun
    cases hrun
  | writing buffer offset n =>
    unfold S3FileInfo.run at hrun
    simp only [hw] at hrun
    have hwrite := h.write_of_busy hw nofun nofun
    have hidle : (f.setWriter .idle).Sound :=
      h.setOpen hwrite (h.written_of_not_filling hw nofun) nofun nofun trivial
    split at hrun
    · rename_i hround
      split at hrun
      · cases hrun
        exact ⟨hidle, rfl, id⟩
      · cases hget : f.getBuffer used (uint16 ((offset + n) / f.partSize)) with
        | none => rw [hget] at hrun; cases hrun
        | some r =>
          rw [hget] at hrun
          cases hrun
          exact getBuffer_next h hw hround hget
    · cases hrun
      exact ⟨hidle, rfl, id⟩
  | filling buffer offset n =>
    unfold S3FileInfo.run at hrun
    simp only [hw] at hrun
    cases hlookup : f.writeBuffers.lookup (uint16 ((offset + n) / f.partSize)) with
    | none => rw [hlookup] at hrun; cases hrun
    | some b =>
      rw [hlookup] at hrun
      obtain ⟨hs, rfl, hlive⟩ := fillBuffer_next h hw hlookup (some.inj hrun)
      exact ⟨hs, by rw [hlive], id⟩
  | closing keys =>
    cases keys with
    | cons key rest => exact flush_next h hw hrun
    | nil => exact close_next h hw hrun

theorem uploads_split {uploads : List Upload} (h : uploads[k]? = some u) :
    uploads.Perm (u :: uploads.eraseIdx k) ∧
      ∀ u', (uploads.set k u').Perm (u' :: uploads.eraseIdx k) := by
  obtain ⟨hk, rfl⟩ := List.getElem?_eq_some_iff.mp h
  exact ⟨(getElem_cons_eraseIdx_perm hk).symm, set_perm_cons_eraseIdx hk⟩

theorem S3FileInfo.Sound.setUploads (h : f.Sound) (hwrite : f.write = true) (hsame : f' = { f with
      uploads := f'.uploads, uploadsInProgress := f'.uploadsInProgress, partEtags := f'.partEtags
      numPartsUploaded := f'.numPartsUploaded, stored := f'.stored
      uploaderHasException := f'.uploaderHasException })
    (hexception : f.uploaderHasException = true → f'.uploaderHasException = true) : f'.Sound := by
  rw [hsame]
  exact { h with
    reading := fun hread => absurd (hwrite.symm.trans hread) (by decide)
    uploading := fun entry he hup => hexception (h.uploading entry he hup)
    flushing := fun entry he => (h.flushing entry he).imp_right hexception }

theorem S3FileInfo.Sound.write_of_upload (h : f.Sound) (hu : f.uploads[k]? = some u) :
    f.write = true := by
  cases hwrite : f.write with
  | true => rfl
  | false =>
    rw [(h.reading hwrite).2] at hu
    cases hu

def UploadPhase.held (phase : UploadPhase) : Nat :=
  match phase with
  | .sending => 1
  | .etagStored => 1
  | .counted => 1
  | .released => 0
  | .failed => 0

theorem held_eq (u : Upload) : (if u.holdsBuffer = true then 1 else 0) = u.phase.held := by
  unfold Upload.holdsBuffer
  cases u.phase <;> rfl

section

variable (hu : f.uploads[k]? = some u)

include hu

theorem live_split :
    f.live = f.writeBuffers.length + (f.uploads.eraseIdx k).countP Upload.holdsBuffer +
      u.phase.held := by
  have hcount := (uploads_split hu).1.countP_eq Upload.holdsBuffer
  rw [countP_cons, held_eq] at hcount
  unfold S3FileInfo.live
  omega

theorem setPhase_live (phase : UploadPhase) :
    (f.setPhase k u phase).live + u.phase.held = f.live + phase.held := by
  have hcount := ((uploads_split hu).2 { u with phase }).countP_eq Upload.holdsBuffer
  rw [countP_cons, held_eq] at hcount
  rw [live_split hu]
  show f.writeBuffers.length + (f.uploads.set k { u with phase }).countP Upload.holdsBuffer +
    u.phase.held = _ + phase.held
  rw [hcount]
  show _ + (_ + phase.held) + _ = _
  omega

theorem endUpload_live : (f.endUpload k).live + u.phase.held = f.live := by
  rw [live_split hu]
  rfl

end

variable {server : Nat → Bytes → ETag}

theorem uploadBuffer_next (h : f.Sound) (hused : used < 65536) (hlive : f.live ≤ used)
    (hstep : f.uploadBuffer server used k = some (used', f')) :
    f'.Sound ∧ used' + f.live = used + f'.live ∧ used' < 65536 := by
  unfold S3FileInfo.uploadBuffer at hstep
  cases hu : f.uploads[k]? with
  | none => rw [hu] at hstep; cases hstep
  | some u =>
    simp only [hu] at hstep
    have hwrite := h.write_of_upload hu
    have hsplit := live_split hu
    have hend := endUpload_live hu
    have hkeep : ∀ phase : UploadPhase, phase.held = u.phase.held →
        (f.setPhase k u phase).live = f.live := by
      intro phase hheld
      have hset := setPhase_live hu phase
      omega
    have hone : UploadPhase.counted.held = 1 := rfl
    have hzero : UploadPhase.released.held = 0 := rfl
    cases hphase : u.phase with
    | sending =>
      simp only [hphase] at hstep
      cases hstep
      have hcount := hkeep .etagStored (by rw [hphase]; rfl)
      exact ⟨h.setUploads hwrite rfl id, congrArg (used + ·) hcount.symm, hused⟩
    | etagStored =>
      simp only [hphase] at hstep
      cases hstep
      have hcount := hkeep .counted (by rw [hphase]; rfl)
      exact ⟨h.setUploads hwrite rfl id, congrArg (used + ·) hcount.symm, hused⟩
    | counted =>
      simp only [hphase] at hstep
      rw [some.injEq, Prod.mk.injEq] at hstep
      obtain ⟨rfl, rfl⟩ := hstep
      rw [hphase] at hsplit
      have hlower : uint16 (used + 65535) = used - 1 := by
        unfold uint16
        omega
      have hcount := setPhase_live hu .released
      rw [hphase] at hcount
      refine ⟨h.setUploads hwrite rfl id, ?_, ?_⟩
      · omega
      · omega
    | released | failed =>
      simp only [hphase] at hstep
      cases hstep
      rw [hphase] at hend
      exact ⟨h.setUploads hwrite rfl id, congrArg (used + ·) hend.symm, hused⟩

theorem uploadFails_next (h : f.Sound) (hstep : f.uploadFails k = some f') :
    f'.Sound ∧ f.live = f'.live + 1 := by
  unfold S3FileInfo.uploadFails at hstep
  cases hu : f.uploads[k]? with
  | none => rw [hu] at hstep; cases hstep
  | some u =>
    simp only [hu] at hstep
    split at hstep
    · rename_i hphase
      cases hstep
      have hset := setPhase_live hu .failed
      rw [hphase] at hset
      exact ⟨h.setUploads (h.write_of_upload hu) rfl fun _ => rfl, hset.symm⟩
    · cases hstep

/-- A step of a thread of one file. -/
inductive FileStep (server : Nat → Bytes → ETag) (used : Nat) (f : S3FileInfo ETag) :
    Event → Nat → S3FileInfo ETag → Prop
  | writeFile {i buffer offset f'} : f.writeFile buffer offset = some f' →
    FileStep server used f (.writeFile i buffer offset) used f'
  | close {i keys f'} : f.close keys = some f' → FileStep server used f (.close i keys) used f'
  | run {i used' f'} : f.run used = some (.next used' f') → FileStep server used f (.run i) used' f'
  | upload {i k used' f'} : f.isClosed = false →
    f.uploadBuffer server used k = some (used', f') → FileStep server used f (.upload i k) used' f'
  | uploadFails {i k f'} : f.isClosed = false → f.uploadFails k = some f' →
    FileStep server used f (.uploadFails i k) used f'

/-- A step ends the process, opens a file or changes one file. -/
theorem S3FileSystem.step_cases {fs fs' : S3FileSystem ETag} {e : Event}
    (hstep : fs.step server e = some fs') :
    ((∃ fate, fs' = { fs with fate }) ∧ e.isFailure = false) ∨
    (∃ write params, e = .openFile write params ∧
      fs' = { fs with files := fs.files ++ [.initialized write params] }) ∨
    ∃ i f used' f', fs.files[i]? = some f ∧ FileStep server fs.numUsedBuffers f e used' f' ∧
      fs' = { fs with numUsedBuffers := used', files := fs.files.set i f' } := by
  unfold S3FileSystem.step at hstep
  split at hstep
  · cases hstep
  cases e with
  | openFile write params =>
    simp only at hstep
    split at hstep
    · cases hstep
      exact .inl ⟨⟨_, rfl⟩, rfl⟩
    · cases hstep
      exact .inr (.inl ⟨_, _, rfl, rfl⟩)
  | writeFile i buffer offset =>
    obtain ⟨f', hf', rfl⟩ := map_eq_some_iff.mp hstep
    obtain ⟨f, hf, hnext⟩ := bind_eq_some_iff.mp hf'
    exact .inr (.inr ⟨_, _, _, _, hf, .writeFile hnext, rfl⟩)
  | close i keys =>
    obtain ⟨f', hf', rfl⟩ := map_eq_some_iff.mp hstep
    obtain ⟨f, hf, hnext⟩ := bind_eq_some_iff.mp hf'
    exact .inr (.inr ⟨_, _, _, _, hf, .close hnext, rfl⟩)
  | run i =>
    obtain ⟨outcome, houtcome, rfl⟩ := map_eq_some_iff.mp hstep
    obtain ⟨f, hf, hnext⟩ := bind_eq_some_iff.mp houtcome
    cases outcome with
    | stop fate => exact .inl ⟨⟨_, rfl⟩, rfl⟩
    | next used' f' => exact .inr (.inr ⟨_, _, _, _, hf, .run hnext, rfl⟩)
  | finalizeFails i =>
    simp only at hstep
    split at hstep
    · cases hstep
      exact .inl ⟨⟨_, rfl⟩, rfl⟩
    · cases hstep
  | upload i k =>
    simp only at hstep
    cases hf : fs.files[i]? with
    | none => rw [hf] at hstep; cases hstep
    | some f =>
      rw [hf] at hstep
      simp only at hstep
      split at hstep
      · obtain ⟨u, _, rfl⟩ := map_eq_some_iff.mp hstep
        exact .inl ⟨⟨_, rfl⟩, rfl⟩
      · rename_i hopen
        obtain ⟨r, hr, rfl⟩ := map_eq_some_iff.mp hstep
        exact .inr (.inr ⟨_, _, _, _, hf, .upload (Bool.not_eq_true _ ▸ hopen) hr, rfl⟩)
  | uploadFails i k =>
    simp only at hstep
    cases hf : fs.files[i]? with
    | none => rw [hf] at hstep; cases hstep
    | some f =>
      rw [hf] at hstep
      simp only at hstep
      split at hstep
      · cases hstep
      · rename_i hopen
        obtain ⟨f', hf', rfl⟩ := map_eq_some_iff.mp hstep
        exact .inr (.inr ⟨_, _, _, _, hf, .uploadFails (Bool.not_eq_true _ ▸ hopen) hf', rfl⟩)

end

end Ladybug.S3
