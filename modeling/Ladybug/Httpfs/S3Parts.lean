import Ladybug.Httpfs.S3Transfer

/-!
# The thread that writes a file

Each step of the thread that holds the file keeps the invariant of a transfer: the loop of `writeFile`,
the destructor and the request that lists the parts.
-/

namespace Ladybug.S3

open List

section

variable {ETag : Type} {server : Nat → Bytes → ETag} {params : S3UploadParams} {content : Bytes}

/-! ## 1. The thread that holds the file -/

variable {used flushed offset n : Nat} {f : S3FileInfo ETag} {b : S3WriteBuffer}
  {f' : S3FileInfo ETag} {written m : Nat} {α β : Type}

theorem S3FileInfo.Uploading.setMap (h : f.Uploading server params content used flushed)
    (hsame : f' = { f with
      writer := f'.writer, fileOffset := f'.fileOffset, writeBuffers := f'.writeBuffers })
    (hlen : f'.writeBuffers.length = f.writeBuffers.length)
    (hinside : f'.fileOffset ≤ content.length) :
    f'.Uploading server params content used flushed := by
  have hbudget : used = f'.live := by
    have hold := h.budget
    unfold S3FileInfo.live at hold ⊢
    rw [hlen, hsame]
    exact hold
  rw [hsame] at hbudget ⊢
  exact { h with inside := hinside, budget := hbudget }

theorem key_eq (h : f.Uploading server params content used flushed)
    (hsize : content.length ≤ 65535 * params.partSize)
    (hlow : flushed * params.partSize ≤ f.fileOffset)
    (hhigh : f.fileOffset < flushed * params.partSize + params.partSize) :
    uint16 (f.fileOffset / f.partSize) = flushed := by
  have hlt := h.flushed_lt hsize
  have hdiv : f.fileOffset / params.partSize = flushed := by
    rw [Nat.div_eq_iff (partSize_pos params)]
    omega
  unfold uint16
  rw [h.partSize, hdiv]
  omega

variable {partSize : Nat}

theorem created_holds (hpos : 0 < partSize) (hlt : flushed < 65536) (content : Bytes) :
    (S3WriteBuffer.created (flushed * partSize) partSize).Holds partSize content flushed
      (flushed * partSize) where
  uploading := rfl
  partID := by
    show uint16 (flushed * partSize / partSize) = flushed
    rw [Nat.mul_div_cancel _ hpos]
    unfold uint16
    omega
  start := rfl
  size := length_replicate
  above := Nat.le_refl _
  room := Nat.le_add_right _ _
  numBytes := (Nat.sub_self _).symm
  body := by
    show (replicate partSize (0 : UInt8)).take 0 = (content.take _).drop _
    rw [take_zero, drop_eq_nil_of_le]
    rw [length_take]
    exact min_le_left _ _

theorem S3WriteBuffer.Holds.fill (h : b.Holds partSize content flushed written) {src : Bytes}
    (hsrc : src.length = m) (hnext : (content.drop written).take m = src)
    (hinside : written ≤ content.length) (hroom : written + m ≤ flushed * partSize + partSize) :
    (b.fill (written - b.startOffset) src).Holds partSize content flushed (written + m) := by
  have habove := h.above
  have hsize := h.size
  have hnum := h.numBytes
  have hat : written - b.startOffset = b.numBytesWritten := by rw [h.start, hnum]
  have htake : (b.data.take b.numBytesWritten).length = b.numBytesWritten := by
    rw [length_take]
    omega
  rw [hat]
  exact { h with
    size := by
      show (b.data.take b.numBytesWritten ++
        (src ++ b.data.drop (b.numBytesWritten + src.length))).length = partSize
      rw [length_append, length_append, htake, length_drop]
      omega
    above := by omega
    room := hroom
    numBytes := by
      show b.numBytesWritten + src.length = _
      omega
    body := by
      have hold : b.data.take b.numBytesWritten = (content.take written).drop (flushed * partSize) :=
        h.body
      show (b.data.take b.numBytesWritten ++
        (src ++ b.data.drop (b.numBytesWritten + src.length))).take (b.numBytesWritten + src.length)
          = _
      have hfirst : (b.data.take b.numBytesWritten ++ src).length =
          b.numBytesWritten + src.length := by
        rw [length_append, htake]
      rw [← append_assoc, ← hfirst, take_left, hold, take_add, hnext, drop_append_of_le_length]
      rw [length_take]
      omega }

theorem S3WriteBuffer.Holds.body_eq (h : b.Holds partSize content flushed written)
    (hend : written = flushed * partSize + partSize ∨ written = content.length) :
    b.body = partOf partSize content flushed := by
  have hroom := h.room
  rw [h.body, drop_take]
  unfold partOf
  cases hend with
  | inl hfull =>
    have hlen : written - flushed * partSize = partSize := by omega
    rw [hlen]
  | inr hlast =>
    have hshort : (content.drop (flushed * partSize)).length ≤ partSize := by
      rw [length_drop]
      omega
    rw [take_of_length_le hshort, take_of_length_le]
    rw [length_drop]
    omega

theorem flush_uploading (h : f.Uploading server params content used flushed)
    (hsize : content.length ≤ 65535 * params.partSize) (hbuffers : f.writeBuffers = [(flushed, b)])
    (hpart : b.partID = flushed) (hidle : b.uploading = false) (hwritten : 0 < b.numBytesWritten)
    (hbody : b.body = partOf params.partSize content flushed)
    (hcount : (flushed + 1) * params.partSize < content.length + params.partSize) :
    ∃ f', f.flushBuffer flushed b = (f', false) ∧
      f'.Uploading server params content used (flushed + 1) ∧ f'.writeBuffers = [] ∧
      f'.fileOffset = f.fileOffset ∧ f'.writer = f.writer ∧
      (f'.uploads.map fun u ↦ u.phase.work).sum = (f.uploads.map fun u ↦ u.phase.work).sum + 4 := by
  have hempty : (f.eraseBuffer b.partID).writeBuffers = [] := by
    unfold S3FileInfo.eraseBuffer
    rw [hbuffers, hpart]
    simp
  have hthreads := h.threads
  have hprogress := h.progress
  have hnext : flushed + 1 < 65536 := by
    have hlt : (flushed + 1) * params.partSize < 65536 * params.partSize := by omega
    exact Nat.lt_of_mul_lt_mul_right hlt
  have hnew : Upload.isUncounted ⟨{ b with uploading := true }, .sending⟩ = true ∧
      Upload.isSending ⟨{ b with uploading := true }, .sending⟩ = true ∧
      Upload.holdsBuffer ⟨{ b with uploading := true }, .sending⟩ = true := ⟨rfl, rfl, rfl⟩
  obtain ⟨hup, _⟩ | ⟨_, hex, _⟩ | ⟨_, _, hflush⟩ := flushBuffer_cases f flushed hwritten
  · rw [hidle] at hup
    cases hup
  · rw [h.noException] at hex
    cases hex
  · refine ⟨_, hflush, ?_, hempty, rfl, rfl, ?_⟩
    · exact { h with
        count := hcount
        healthy := by
          intro u hu
          rcases mem_append.mp hu with hin | hlast
          · exact h.healthy u hin
          · rw [mem_singleton.mp hlast]
            nofun
        progress := by
          show uint16 (f.uploadsInProgress + 1) = (f.uploads ++ [_]).length
          rw [length_append, length_singleton]
          unfold uint16
          omega
        threads := by
          rw [length_append, length_singleton]
          omega
        counted := by
          have hold := h.counted
          show f.numPartsUploaded + (f.uploads ++ [_]).countP Upload.isUncounted = flushed + 1
          rw [countP_append, countP_singleton, if_pos hnew.1]
          omega
        sent := by
          have hsends : Upload.sends ⟨{ b with uploading := true }, .sending⟩ =
              (flushed + 1, partOf params.partSize content flushed) := by
            show (b.partID + 1, b.body) = _
            rw [hpart, hbody]
          rw [filter_append, filter_singleton, hnew.2.1, map_append,
            range_succ, map_append, ← append_assoc]
          show (_ ++ [Upload.sends _]).Perm _
          rw [hsends]
          exact h.sent.append_right _
        budget := by
          have hold := h.budget
          show used = (f.eraseBuffer b.partID).writeBuffers.length +
            (f.uploads ++ [_]).countP Upload.holdsBuffer
          unfold S3FileInfo.live at hold
          rw [hbuffers] at hold
          rw [hempty, countP_append, countP_singleton, if_pos hnew.2.2]
          rw [length_singleton] at hold
          rw [length_nil]
          omega }
    · rw [map_append, sum_append]
      rfl

variable {writes : List Bytes}

theorem writeFile_at {next : Nat} {buffer : Bytes} (hidle : f.writer = .idle)
    (h : f.At server params content flushed (buffer :: writes) next) :
    (f.setWriter (.writing buffer next 0)).At server params content flushed writes
      (next + buffer.length) := by
  unfold S3FileInfo.At at h
  rw [hidle] at h
  obtain ⟨hnext, hrest, hbuffered⟩ := h
  refine ⟨Nat.zero_le _, hnext.symm, rfl, ?_, hbuffered⟩
  exact hrest

theorem lookup_only (h : f.writeBuffers = [(flushed, b)]) :
    f.writeBuffers.lookup flushed = some b := by
  rw [h, lookup_cons, beq_self_eq_true]

theorem getBuffer_only (h : f.writeBuffers = [(flushed, b)]) :
    f.getBuffer used flushed = some (used, f) := by
  unfold S3FileInfo.getBuffer
  rw [lookup_only h]

theorem getBuffer_new {key : Nat} (h : f.writeBuffers = []) : f.getBuffer used key =
      if used ≥ uint16 f.uploadParams.maxUploadThreads then none
      else some (uint16 (used + 1),
        { f with writeBuffers := [(key, .created (key * f.partSize) f.partSize)] }) := by
  have hnone : f.writeBuffers.lookup key = none := by
    rw [h]
    rfl
  unfold S3FileInfo.getBuffer
  simp only [hnone]
  rw [h, nil_append]

theorem writing_next {next : Nat} {buffer : Bytes}
    (h : f.Uploading server params content used flushed)
    (hsize : content.length ≤ 65535 * params.partSize)
    (hwriter : f.writer = .writing buffer offset n)
    (hat : f.At server params content flushed writes next) :
    (f.run used = none ∧ f.writeBuffers = [] ∧ content ≠ [] ∧
      uint16 params.maxUploadThreads ≤ used) ∨
    ∃ used' f', f.run used = some (.next used' f') ∧
      f'.Uploading server params content used' flushed ∧
      f'.At server params content flushed writes next ∧ f'.work content < f.work content := by
  unfold S3FileInfo.At at hat
  simp only [hwriter] at hat
  obtain ⟨hn, hoffset, hnext, hrest, hbuffered⟩ := hat
  unfold S3FileInfo.run
  simp only [hwriter]
  by_cases hmore : n < buffer.length
  · rw [if_pos hmore, if_neg (by omega), ← hoffset]
    have hinside : f.fileOffset < content.length := by
      have hlen := congrArg length hrest
      rw [length_drop, length_append, length_drop] at hlen
      omega
    have hmeasure : ∀ f' : S3FileInfo ETag, f'.fileOffset = f.fileOffset →
        f'.writer = .filling buffer offset n → f'.uploads = f.uploads →
        f'.writeBuffers.length ≤ f.writeBuffers.length + 1 → f'.work content < f.work content := by
      intro f' ho hw hu hl
      unfold S3FileInfo.work
      rw [ho, hw, hu, hwriter]
      show 16 * _ + 3 + 6 * _ + _ < 16 * _ + 10 + 6 * _ + _
      omega
    rcases hbuffered with ⟨hnone, hstart⟩ | ⟨b, hbuffer, hholds, hlow, hhigh⟩
    · rw [key_eq h hsize (by omega) (by omega)]
      rw [getBuffer_new hnone]
      by_cases hfull : used ≥ uint16 f.uploadParams.maxUploadThreads
      · left
        rw [if_pos hfull]
        refine ⟨rfl, hnone, fun hempty => ?_, h.settings ▸ hfull⟩
        rw [hempty, length_nil] at hinside
        omega
      · right
        have hlimit : uint16 f.uploadParams.maxUploadThreads < 65536 := Nat.mod_lt _ (by decide)
        have hraise : uint16 (used + 1) = used + 1 := by
          unfold uint16 at hfull hlimit ⊢
          omega
        rw [if_neg hfull, hraise]
        refine ⟨used + 1, _, rfl, ?_, ?_, ?_⟩
        · have hbudget := h.budget
          unfold S3FileInfo.live at hbudget
          rw [hnone, length_nil] at hbudget
          exact { h with
            budget := by
              show used + 1 = [_].length + f.uploads.countP Upload.holdsBuffer
              rw [length_singleton]
              omega
            budgetSmall := by omega }
        · refine ⟨hmore, hoffset, hnext, hrest, ?_,
            .created (flushed * params.partSize) params.partSize, ?_, ?_⟩
          · show f.fileOffset < _
            omega
          · show [(flushed, S3WriteBuffer.created (flushed * f.partSize) f.partSize)] = _
            rw [h.partSize]
          · have hcreated := created_holds (partSize_pos params) (h.flushed_lt hsize) content
            rw [hstart]
            exact hcreated
        · apply hmeasure
          · rfl
          · rfl
          · rfl
          · exact Nat.le_add_left 1 _
    · right
      rw [key_eq h hsize (by omega) hhigh]
      rw [getBuffer_only hbuffer]
      refine ⟨used, f.setWriter (.filling buffer offset n), rfl, ?_, ?_, ?_⟩
      · exact h.setMap rfl rfl h.inside
      · exact ⟨hmore, hoffset, hnext, hrest, hhigh, b, hbuffer, hholds⟩
      · exact hmeasure _ rfl rfl rfl (Nat.le_succ _)
  · right
    rw [if_neg hmore]
    refine ⟨used, f.setWriter .idle, rfl, h.setMap rfl rfl h.inside, ?_, ?_⟩
    · refine ⟨?_, ?_, hbuffered⟩
      · show next = f.fileOffset
        omega
      · show content.drop f.fileOffset = writes.flatten
        rw [hrest, drop_eq_nil_of_le (by omega), nil_append]
    · unfold S3FileInfo.work
      rw [hwriter]
      show 16 * _ + 3 + 6 * _ + _ < 16 * _ + 10 + 6 * _ + _
      show 16 * (content.length - f.fileOffset) + 3 + 6 * f.writeBuffers.length +
        (f.uploads.map fun u => u.phase.work).sum < _
      omega

theorem setBuffer_only (h : f.writeBuffers = [(flushed, b)]) (b' : S3WriteBuffer) :
    (f.setBuffer flushed b').writeBuffers = [(flushed, b')] := by
  unfold S3FileInfo.setBuffer
  rw [h]
  simp

section

variable (h : f.Uploading server params content used flushed)

include h

theorem endRound_at {next : Nat} {buffer : Bytes} {writes : List Bytes} {b' : S3WriteBuffer}
    (hsize : content.length ≤ 65535 * params.partSize) (hbuffer : f.writeBuffers = [(flushed, b)])
    (hholds : b'.Holds params.partSize content flushed (f.fileOffset + m)) (hm : 0 < m)
    (hlow : flushed * params.partSize ≤ f.fileOffset) (hle : n + m ≤ buffer.length)
    (hoffset : f.fileOffset = offset + n) (hnext : next = offset + buffer.length)
    (hrest : content.drop f.fileOffset = buffer.drop n ++ writes.flatten) :
    ∃ f' flushed', f.endRound used buffer offset n m flushed b' = .next used f' ∧
      f'.Uploading server params content used flushed' ∧
      f'.At server params content flushed' writes next ∧
      f'.writer = .writing buffer offset (n + m) ∧ f'.fileOffset = f.fileOffset + m ∧
      6 * f'.writeBuffers.length + (f'.uploads.map fun u => u.phase.work).sum ≤
        6 + (f.uploads.map fun u => u.phase.work).sum := by
  have hset := setBuffer_only hbuffer b'
  have hroom := hholds.room
  have hnum := hholds.numBytes
  have hinside : f.fileOffset + m ≤ content.length := by
    have hlen := congrArg length hrest
    rw [length_drop, length_append, length_drop] at hlen
    omega
  have hrest' : content.drop (f.fileOffset + m) = buffer.drop (n + m) ++ writes.flatten := by
    rw [← drop_drop, hrest, drop_append_of_le_length, drop_drop]
    rw [length_drop]
    omega
  have hset_uploading : (f.setBuffer flushed b').Uploading server params content used flushed :=
    h.setMap rfl (by rw [hset, hbuffer]; rfl) h.inside
  have hmul : (flushed + 1) * params.partSize = flushed * params.partSize + params.partSize := by
    rw [Nat.add_mul, Nat.one_mul]
  unfold S3FileInfo.endRound
  by_cases hfull : b'.numBytesWritten ≥ (f.setBuffer flushed b').partSize
  · simp only [if_pos hfull]
    have hpart : (f.setBuffer flushed b').partSize = params.partSize := h.partSize
    have hend : f.fileOffset + m = flushed * params.partSize + params.partSize := by omega
    obtain ⟨f', hflush, huploading, hempty, hoff, _, hwork⟩ := flush_uploading hset_uploading hsize
      hset hholds.partID hholds.uploading (by omega) (hholds.body_eq (.inl hend)) (by omega)
    rw [hflush]
    have hoff' : f'.fileOffset = f.fileOffset := hoff
    refine ⟨_, flushed + 1, rfl, huploading.setMap rfl rfl ?_, ?_, rfl, ?_, ?_⟩
    · show f'.fileOffset + m ≤ content.length
      omega
    · refine ⟨hle, ?_, hnext, ?_, .inl ⟨hempty, ?_⟩⟩
      · show f'.fileOffset + m = offset + (n + m)
        omega
      · rw [hoff', hrest']
      · show f'.fileOffset + m = (flushed + 1) * params.partSize
        omega
    · show f'.fileOffset + m = f.fileOffset + m
      omega
    · rw [hempty, hwork, length_nil]
      show 6 * 0 + ((f.uploads.map fun u => u.phase.work).sum + 4) ≤ _
      omega
  · simp only [if_neg hfull]
    have hpart : (f.setBuffer flushed b').partSize = params.partSize := h.partSize
    refine ⟨_, flushed, rfl, h.setMap rfl (by rw [hset, hbuffer]; rfl) hinside, ?_, rfl, rfl, ?_⟩
    · refine ⟨hle, ?_, hnext, hrest', .inr ⟨b', hset, hholds, ?_, ?_⟩⟩
      · show f.fileOffset + m = offset + (n + m)
        omega
      · show flushed * params.partSize < f.fileOffset + m
        omega
      · show f.fileOffset + m < flushed * params.partSize + params.partSize
        omega
    · show 6 * (f.setBuffer flushed b').writeBuffers.length + (f.uploads.map fun u ↦ u.phase.work).sum ≤ _
      rw [hset, length_singleton]

theorem filling_next {next : Nat} {buffer : Bytes} {writes : List Bytes}
    (hsize : content.length ≤ 65535 * params.partSize)
    (hwriter : f.writer = .filling buffer offset n)
    (hat : f.At server params content flushed writes next) :
    ∃ f' flushed', f.run used = some (.next used f') ∧
      f'.Uploading server params content used flushed' ∧
      f'.At server params content flushed' writes next ∧ f'.work content < f.work content := by
  unfold S3FileInfo.At at hat
  simp only [hwriter] at hat
  obtain ⟨hn, hoffset, hnext, hrest, hhigh, b, hbuffer, hholds⟩ := hat
  have hlow := hholds.above
  have hinside : f.fileOffset < content.length := by
    have hlen := congrArg length hrest
    rw [length_drop, length_append, length_drop] at hlen
    omega
  have hstart := hholds.start
  have hroomAt : roomAt f.partSize (f.fileOffset - b.startOffset) =
      flushed * params.partSize + params.partSize - f.fileOffset := by
    unfold roomAt
    rw [h.partSize, hstart, if_pos (by omega)]
    omega
  -- the bytes of this round: up to the end of the write or of the buffer
  obtain ⟨m, hmin⟩ : ∃ m, m = min (buffer.length - n)
      (flushed * params.partSize + params.partSize - f.fileOffset) := ⟨_, rfl⟩
  have hm : 0 < m := by omega
  have hle : n + m ≤ buffer.length := by omega
  have hsrc : ((buffer.drop n).take m).length = m := by
    rw [length_take, length_drop]
    omega
  have hbytes : (content.drop f.fileOffset).take m = (buffer.drop n).take m := by
    rw [hrest, take_append_of_le_length]
    rw [length_drop]
    omega
  have hfilled := hholds.fill hsrc hbytes h.inside (by omega)
  obtain ⟨f', flushed', hround, huploading, hat', hwriter', hoff', hless⟩ := endRound_at h hsize
    hbuffer hfilled hm hlow hle hoffset hnext hrest
  refine ⟨f', flushed', ?_, huploading, hat', ?_⟩
  · unfold S3FileInfo.run
    simp only [hwriter]
    rw [← hoffset, key_eq h hsize hlow hhigh, lookup_only hbuffer]
    have hfits : ¬ f.fileOffset - b.startOffset + m > f.partSize := by
      rw [h.partSize, hstart]
      omega
    unfold S3FileInfo.fillBuffer
    dsimp only
    rw [← hoffset, hroomAt, ← hmin, if_neg hfits, hround]
  · unfold S3FileInfo.work
    rw [hwriter, hwriter', hoff', hbuffer, length_singleton]
    show 16 * (content.length - (f.fileOffset + m)) + 10 + 6 * f'.writeBuffers.length +
      (f'.uploads.map fun u ↦ u.phase.work).sum < 16 * (content.length - f.fileOffset) + 3 + 6 * 1 +
      (f.uploads.map fun u => u.phase.work).sum
    omega

theorem close_at {next : Nat} {keys : List Nat} (hidle : f.writer = .idle)
    (hat : f.At server params content flushed [] next) (hclose : f.close keys = some f') :
    f'.Uploading server params content used flushed ∧
      f'.At server params content flushed [] next ∧ f'.work content < f.work content := by
  unfold S3FileInfo.At at hat
  rw [hidle] at hat
  obtain ⟨_, hrest, hbuffered⟩ := hat
  have hinside := h.inside
  have hend : f.fileOffset = content.length := by
    have hlen := congrArg length hrest
    rw [length_drop, flatten_nil, length_nil] at hlen
    omega
  have hmeasure : ∀ keys : List Nat, keys.length ≤ 1 →
      (f.setWriter (.closing keys)).work content < f.work content := by
    intro keys hkeys
    unfold S3FileInfo.work
    rw [hidle]
    show 16 * (content.length - f.fileOffset) + (keys.length + 1) + 6 * f.writeBuffers.length +
      (f.uploads.map fun u => u.phase.work).sum < 16 * (content.length - f.fileOffset) + 3 + _ + _
    omega
  unfold S3FileInfo.close at hclose
  rw [hidle] at hclose
  simp only [h.write, if_true] at hclose
  by_cases hperm : keys.isPerm (f.writeBuffers.map Prod.fst)
  · rw [if_pos hperm] at hclose
    cases hclose
    have hkeys := isPerm_iff.mp hperm
    rcases hbuffered with ⟨hnone, hstart⟩ | ⟨b, hbuffer, hholds, hlow, _⟩
    · rw [hnone, map_nil] at hkeys
      rw [perm_nil.mp hkeys]
      refine ⟨h.setMap rfl rfl hinside, ⟨rfl, hnone, ?_⟩, hmeasure [] (Nat.zero_le 1)⟩
      omega
    · rw [hbuffer, map_singleton] at hkeys
      rw [perm_singleton.mp hkeys]
      exact ⟨h.setMap rfl rfl hinside, ⟨rfl, rfl, hend, hlow, b, hbuffer, hholds⟩,
        hmeasure [flushed] (Nat.le_refl 1)⟩
  · rw [if_neg hperm] at hclose
    cases hclose

theorem closing_next {next key : Nat} {keys : List Nat} {writes : List Bytes}
    (hsize : content.length ≤ 65535 * params.partSize) (hwriter : f.writer = .closing (key :: keys))
    (hat : f.At server params content flushed writes next) :
    ∃ f', f.run used = some (.next used f') ∧
      f'.Uploading server params content used (flushed + 1) ∧
      f'.At server params content (flushed + 1) writes next ∧ f'.work content < f.work content := by
  unfold S3FileInfo.At at hat
  simp only [hwriter] at hat
  obtain ⟨hwrites, hkeys, hend, hlow, b, hbuffer, hholds⟩ := hat
  rw [cons.injEq] at hkeys
  obtain ⟨rfl, rfl⟩ := hkeys
  have hroom := hholds.room
  have hnum := hholds.numBytes
  have hmul : (key + 1) * params.partSize = key * params.partSize + params.partSize := by
    rw [Nat.add_mul, Nat.one_mul]
  have hclosed : (f.setWriter (.closing [])).Uploading server params content used key :=
    h.setMap rfl rfl h.inside
  obtain ⟨f', hflush, huploading, hempty, hoff, hclosing, hwork⟩ := flush_uploading
    hclosed hsize hbuffer hholds.partID
    hholds.uploading (by omega) (hholds.body_eq (.inr hend)) (by omega)
  refine ⟨f', ?_, huploading, ?_, ?_⟩
  · unfold S3FileInfo.run
    simp only [hwriter]
    rw [lookup_only (f := f.setWriter (.closing [])) hbuffer]
    simp only [hholds.uploading, hflush, Bool.false_eq_true, if_false]
  · unfold S3FileInfo.At
    rw [hclosing]
    refine ⟨hwrites, hempty, ?_⟩
    omega
  · unfold S3FileInfo.work
    rw [hwriter, hclosing, hoff, hempty, hwork, hbuffer]
    show 16 * (content.length - f.fileOffset) + 1 + 6 * 0 +
      ((f.uploads.map fun u => u.phase.work).sum + 4) < 16 * (content.length - f.fileOffset) + 2 +
        6 * 1 + (f.uploads.map fun u => u.phase.work).sum
    omega

end

/-! ## 2. The last request -/

theorem parts_flatten (partSize : Nat) (content : Bytes) (n : Nat) :
    ((range n).map (partOf partSize content)).flatten = content.take (n * partSize) := by
  induction n with
  | zero => rw [Nat.zero_mul, take_zero]; rfl
  | succ n ih =>
    rw [range_succ, map_append, flatten_append, ih, Nat.add_mul, Nat.one_mul, take_add]
    simp [partOf]

theorem mapIdx_range (g : Nat → α → β) (part : Nat → α) (n : Nat) :
    ((range n).map part).mapIdx g = (range n).map fun i => g i (part i) := by
  apply ext_getElem
  · simp
  · intro i h₁ h₂
    simp

theorem lookup_etag {stored : List (Nat × Bytes)} {i : Nat} {part : Nat → Bytes}
    (h : stored.Perm ((range n).map fun i => (i + 1, part i))) (hi : i < n) :
    (stored.map fun part => (part.1 - 1, server part.1 part.2)).lookup i =
      some (server (i + 1) (part i)) := by
  have hall : ∀ x ∈ stored, x = (x.1 - 1 + 1, part (x.1 - 1)) := by
    intro x hx
    obtain ⟨j, _, rfl⟩ := mem_map.mp (h.subset hx)
    rfl
  cases hlookup : (stored.map fun part => (part.1 - 1, server part.1 part.2)).lookup i with
  | none =>
    have hmem : (i + 1, part i) ∈ stored :=
      h.symm.subset (mem_map.mpr ⟨i, mem_range.mpr hi, rfl⟩)
    have hnot := notMem_of_lookup hlookup
    apply absurd _ hnot
    exact mem_map.mpr ⟨_, mem_map_of_mem hmem, Nat.add_sub_cancel i 1⟩
  | some etag =>
    obtain ⟨x, hx, heq⟩ := mem_map.mp (mem_of_lookup hlookup)
    rw [Prod.mk.injEq] at heq
    rw [← heq.2, hall x hx, heq.1]

theorem mapM_eq_map {g : α → Option β} {g' : α → β} {l : List α} (h : ∀ x ∈ l, g x = some (g' x)) :
    l.mapM g = some (l.map g') := by
  induction l with
  | nil => rfl
  | cons x l ih =>
    rw [mapM_cons, h x mem_cons_self, ih fun y hy => h y (mem_cons_of_mem x hy)]
    rfl

theorem finalize_next {next : Nat} (h : f.Uploading server params content used flushed)
    (hsize : content.length ≤ 65535 * params.partSize)
    (hparts : content.length ≤ params.maxNumPartsPerFile * params.partSize)
    (hwriter : f.writer = .closing []) (hdone : f.uploads = [])
    (hat : f.At server params content flushed writes next) :
    ∃ f', f.run used = some (.next used f') ∧ f'.Uploading server params content used flushed ∧
      f'.At server params content flushed writes next ∧ f'.work content < f.work content := by
  unfold S3FileInfo.At at hat
  simp only [hwriter] at hat
  obtain ⟨hwrites, hempty, hall⟩ := hat
  have hcounted := h.counted
  rw [hdone, countP_nil, Nat.add_zero] at hcounted
  have hstored := h.sent
  rw [hdone, filter_nil, map_nil, append_nil] at hstored
  have hprogress := h.progress
  rw [hdone, length_nil] at hprogress
  obtain ⟨parts, hpartsEq⟩ : ∃ parts, parts =
      (range flushed).map (partOf params.partSize content) := ⟨_, rfl⟩
  -- the list of parts in the request
  have hrequest : f.finalizeParts =
      some (parts.mapIdx fun i part => (server (i + 1) part, i + 1)) := by
    unfold S3FileInfo.finalizeParts
    rw [hcounted, hpartsEq, mapIdx_range, h.etags]
    apply mapM_eq_map
    intro i hi
    rw [lookup_etag hstored (mem_range.mp hi)]
    rfl
  have hassembled : ∀ f' : S3FileInfo ETag, f'.stored = f.stored →
      f'.writer = .closed (parts.mapIdx fun i part => (server (i + 1) part, i + 1)) →
      f'.Assembled server params content := by
    intro f' hstored' hwriter'
    have hcount := h.count
    refine ⟨parts, hwriter', ?_, ?_, ?_, ?_⟩
    · rw [hstored', hpartsEq, mapIdx_range]
      exact hstored
    · rw [hpartsEq, length_map, length_range]
      have hlt : flushed * params.partSize < (params.maxNumPartsPerFile + 1) * params.partSize := by
        rw [Nat.add_mul, Nat.one_mul]
        omega
      exact Nat.le_of_lt_succ (Nat.lt_of_mul_lt_mul_right hlt)
    · rw [hpartsEq]
      cases flushed with
      | zero => nofun
      | succ n =>
        rw [range_succ, map_append, map_singleton, dropLast_concat]
        intro part hpart
        obtain ⟨i, hi, rfl⟩ := mem_map.mp hpart
        have hle : (i + 1) * params.partSize ≤ n * params.partSize :=
          Nat.mul_le_mul_right _ (mem_range.mp hi)
        rw [Nat.add_mul, Nat.one_mul] at hle hcount
        unfold partOf
        rw [length_take, length_drop]
        omega
    · rw [hpartsEq, parts_flatten, take_of_length_le hall]
  have hmeasure : ∀ (f' : S3FileInfo ETag) listed, f'.fileOffset = f.fileOffset →
      f'.writer = .closed listed → f'.writeBuffers = [] → f'.uploads = f.uploads →
      f'.work content < f.work content := by
    intro f' listed hoff hclosed hbuffers huploads
    unfold S3FileInfo.work
    rw [hoff, hclosed, hbuffers, huploads, hwriter, hempty]
    show 16 * _ + 0 + 6 * 0 + _ < 16 * _ + 1 + 6 * 0 + _
    omega
  have hkept : ∀ listed, ({ f with writeBuffers := [], writer := .closed listed } :
      S3FileInfo ETag).Uploading server params content used flushed :=
    fun listed => h.setMap rfl (by rw [hempty]) h.inside
  have hstep : f.run used = some (.next used { f with
      writeBuffers := [], writer := .closed (parts.mapIdx fun i part ↦ (server (i + 1) part, i + 1)) }) := by
    unfold S3FileInfo.run
    simp only [hwriter]
    rw [if_neg (by omega), if_neg (by rw [h.noException]; decide)]
    by_cases hzero : f.numPartsUploaded = 0
    · have hnil : parts = [] := by
        rw [hpartsEq, ← hcounted, hzero]
        rfl
      rw [if_pos hzero, hnil]
      rfl
    · rw [if_neg hzero]
      simp only [hrequest]
  exact ⟨_, hstep, hkept _, ⟨hwrites, hdone, hassembled _ rfl rfl⟩, hmeasure _ _ rfl rfl rfl rfl⟩

end

end Ladybug.S3
