import Mathlib.Algebra.Group.Action.Defs
import Mathlib.Algebra.Order.BigOperators.Group.List
import Ladybug.Base.Progress
import Ladybug.Httpfs.S3Parts

/-!
# What a multipart upload leaves at the server

Whatever the order of the threads, a transfer ends, and it ends with the server in possession of the
file, exactly if the file is not too large for its number of parts and for the 16-bit counters.
-/

namespace Ladybug.S3

open List Option

section

variable {ETag : Type} {server : Nat → Bytes → ETag} {params : S3UploadParams} {content : Bytes}

/-! ## 1. Runs -/

variable {used flushed size used' : Nat} {f f' : S3FileInfo ETag} {t : Transfer ETag}

variable {writes : List Bytes}

theorem thread_next {next : Nat} (h : f.Uploading server params content used flushed)
    (hsize : content.length ≤ 65535 * params.partSize)
    (hparts : content.length ≤ params.maxNumPartsPerFile * params.partSize)
    (hat : f.At server params content flushed writes next) :
    (f.run used = none ∧ (f.writer = .idle ∨ f.isClosed = true ∨ f.uploads ≠ [] ∨
      content ≠ [] ∧ uint16 params.maxUploadThreads = 0)) ∨
    ∃ used' f' flushed', f.run used = some (.next used' f') ∧
      f'.Uploading server params content used' flushed' ∧
      f'.At server params content flushed' writes next ∧ f'.work content < f.work content := by
  cases hwriter : f.writer with
  | idle =>
    left
    refine ⟨?_, .inl rfl⟩
    unfold S3FileInfo.run
    rw [hwriter]
  | writing buffer offset n =>
    rcases writing_next h hsize hwriter hat with ⟨hnone, hempty, hcontent, hfull⟩ | hnext
    · left
      refine ⟨hnone, .inr (.inr ?_)⟩
      by_cases hidle : f.uploads = []
      · -- no buffer is in use
        have hbudget := h.budget
        unfold S3FileInfo.live at hbudget
        rw [hempty, hidle, length_nil, countP_nil] at hbudget
        exact .inr ⟨hcontent, by omega⟩
      · exact .inl hidle
    · obtain ⟨used', f', hrest⟩ := hnext
      exact .inr ⟨used', f', flushed, hrest⟩
  | filling buffer offset n =>
    obtain ⟨f', flushed', hrest⟩ := filling_next h hsize hwriter hat
    exact .inr ⟨used, f', flushed', hrest⟩
  | closing keys =>
    cases keys with
    | cons key keys =>
      obtain ⟨f', hrest⟩ := closing_next h hsize hwriter hat
      exact .inr ⟨used, f', flushed + 1, hrest⟩
    | nil =>
      by_cases hidle : f.uploads = []
      · obtain ⟨f', hrest⟩ := finalize_next h hsize hparts hwriter hidle hat
        exact .inr ⟨used, f', flushed, hrest⟩
      · left
        refine ⟨?_, .inr (.inr (.inl hidle))⟩
        have hpos := length_pos_iff.mpr hidle
        have hprogress := h.progress
        unfold S3FileInfo.run
        simp only [hwriter]
        rw [if_pos (by omega)]
  | closed listed =>
    left
    refine ⟨?_, .inr (.inl ?_)⟩
    · unfold S3FileInfo.run
      rw [hwriter]
    · unfold S3FileInfo.isClosed
      rw [hwriter]

theorem S3FileInfo.At.of_same {next : Nat} (h : f.At server params content flushed writes next)
    (hsame : SameFile f f') (hopen : f.isClosed = false) :
    f'.At server params content flushed writes next := by
  have hoff := hsame.fileOffset
  have hbuffers := hsame.writeBuffers
  unfold S3FileInfo.At S3FileInfo.Buffered at h ⊢
  rw [hsame.writer]
  cases hwriter : f.writer with
  | closed listed =>
    unfold S3FileInfo.isClosed at hopen
    rw [hwriter] at hopen
    cases hopen
  | idle | writing | filling =>
    rw [hwriter] at h
    rw [hoff, hbuffers]
    exact h
  | closing keys =>
    rw [hwriter] at h
    cases keys with
    | nil =>
      rw [hbuffers]
      exact h
    | cons key keys =>
      rw [hoff, hbuffers]
      exact h

structure Transfer.Holds (t : Transfer ETag) (f : S3FileInfo ETag) : Prop where
  fate : t.fs.fate = .running
  files : t.fs.files = [f]

theorem Transfer.Holds.step_run (h : t.Holds f) :
    t.step server .run = (f.run t.fs.numUsedBuffers).map fun out =>
      { t with fs := t.fs.apply 0 out } := by
  show (t.fs.step server (.run 0)).map _ = _
  unfold S3FileSystem.step
  rw [if_neg (fun hne => hne h.fate)]
  simp only [h.files, getElem?_cons_zero, bind_some, Option.map_map]
  rfl

theorem Transfer.Holds.step_upload (h : t.Holds f) (hopen : f.isClosed = false) (k : Nat) :
    t.step server (.upload k) = (f.uploadBuffer server t.fs.numUsedBuffers k).map fun out =>
      { t with fs := { t.fs with numUsedBuffers := out.1, files := [out.2] } } := by
  show (t.fs.step server (.upload 0 k)).map _ = _
  unfold S3FileSystem.step
  rw [if_neg (fun hne => hne h.fate)]
  simp only [h.files, getElem?_cons_zero, hopen, Bool.false_eq_true, if_false, Option.map_map]
  rfl

theorem Transfer.Holds.step_call (h : t.Holds f) (keys : List Nat) : t.step server (.call keys) =
      match t.writes with
      | buffer :: writes => (f.writeFile buffer t.offset).map fun f' =>
          { fs := { t.fs with files := [f'] }, writes, offset := t.offset + buffer.length }
      | [] => (f.close keys).map fun f' => { t with fs := { t.fs with files := [f'] } } := by
  show t.call server keys = _
  unfold Transfer.call
  cases t.writes with
  | nil =>
    unfold S3FileSystem.step
    rw [if_neg (fun hne => hne h.fate)]
    simp only [h.files, getElem?_cons_zero, bind_some, Option.map_map]
    unfold S3FileSystem.setFile
    rw [h.files]
    rfl
  | cons buffer writes =>
    show (t.fs.step server (.writeFile 0 buffer t.offset)).map _ = _
    unfold S3FileSystem.step
    rw [if_neg (fun hne => hne h.fate)]
    simp only [h.files, getElem?_cons_zero, bind_some, Option.map_map]
    unfold S3FileSystem.setFile
    rw [h.files]
    rfl

theorem closed_at {next : Nat} (h : f.At server params content flushed writes next)
    (hclosed : f.isClosed = true) :
    writes = [] ∧ f.uploads = [] ∧ f.Assembled server params content := by
  unfold S3FileInfo.isClosed at hclosed
  unfold S3FileInfo.At at h
  cases hwriter : f.writer with
  | closed listed =>
    rw [hwriter] at h
    exact h
  | idle | writing | filling | closing => rw [hwriter] at hclosed; cases hclosed

theorem Transfer.Holds.step_closed (h : t.Holds f) (hclosed : f.isClosed = true)
    (hidle : f.uploads = []) (k : Nat) : t.step server (.upload k) = none := by
  show (t.fs.step server (.upload 0 k)).map _ = none
  unfold S3FileSystem.step
  rw [if_neg (fun hne => hne h.fate)]
  simp only [h.files, getElem?_cons_zero, hclosed, if_true, hidle]
  rfl

theorem work_eq (h : t.fs.files = [f]) :
    t.work content = 16 * t.writes.length + f.work content := by
  unfold Transfer.work
  rw [h, map_singleton, sum_singleton]

section

variable (hsize : content.length ≤ 65535 * params.partSize)
  (hparts : content.length ≤ params.maxNumPartsPerFile * params.partSize)

include hsize hparts

theorem Transfer.Good.step {t t' : Transfer ETag} {c : Choice} (h : t.Good server params content)
    (hstep : t.step server c = some t') :
    t'.Good server params content ∧ t'.work content < t.work content := by
  obtain ⟨hfate, f, flushed, hfiles, huploading, hat⟩ := h
  have hholds : t.Holds f := ⟨hfate, hfiles⟩
  rw [work_eq hfiles]
  cases c with
  | run =>
    rw [hholds.step_run] at hstep
    rcases thread_next huploading hsize hparts hat with
      ⟨hnone, _⟩ | ⟨used', f', flushed', hrun, huploading', hat', hless⟩
    · rw [hnone] at hstep
      cases hstep
    · rw [hrun] at hstep
      cases hstep
      have hfiles' : t.fs.files.set 0 f' = [f'] := by
        rw [hfiles]
        rfl
      refine ⟨⟨hfate, f', flushed', hfiles', huploading', hat'⟩, ?_⟩
      rw [work_eq hfiles']
      show 16 * t.writes.length + _ < _
      omega
  | upload k =>
    cases hclosed : f.isClosed with
    | true =>
      rw [hholds.step_closed hclosed (closed_at hat hclosed).2.1] at hstep
      cases hstep
    | false =>
      rw [hholds.step_upload hclosed] at hstep
      cases hu : f.uploads[k]? with
      | none =>
        unfold S3FileInfo.uploadBuffer at hstep
        rw [hu] at hstep
        cases hstep
      | some u =>
        obtain ⟨used', f', hup, huploading', hsame, hless⟩ := upload_next huploading hsize hu
        rw [hup] at hstep
        cases hstep
        refine ⟨⟨hfate, f', flushed, rfl, huploading', hat.of_same hsame hclosed⟩, ?_⟩
        show 16 * t.writes.length + f'.work content < _
        omega
  | call keys =>
    rw [hholds.step_call] at hstep
    cases hwriter : f.writer with
    | idle =>
      cases hwrites : t.writes with
      | nil =>
        rw [hwrites] at hstep hat
        cases hclose : f.close keys with
        | none => simp only [hclose] at hstep; cases hstep
        | some f' =>
          simp only [hclose] at hstep
          cases hstep
          obtain ⟨huploading', hat', hless⟩ := close_at huploading hwriter hat hclose
          refine ⟨⟨hfate, f', flushed, rfl, huploading', hat'⟩, ?_⟩
          show 16 * 0 + f'.work content < 16 * 0 + f.work content
          omega
      | cons buffer writes =>
        rw [hwrites] at hstep hat
        have hwrite : f.writeFile buffer t.offset =
            some (f.setWriter (.writing buffer t.offset 0)) := by
          unfold S3FileInfo.writeFile
          rw [hwriter]
          simp only [huploading.write, if_true]
        simp only [hwrite] at hstep
        cases hstep
        refine ⟨⟨hfate, _, flushed, rfl, huploading.setMap rfl rfl huploading.inside,
          writeFile_at hwriter hat⟩, ?_⟩
        unfold S3FileInfo.work
        rw [hwriter]
        show 16 * writes.length + (16 * (content.length - f.fileOffset) + 10 +
          6 * f.writeBuffers.length + (f.uploads.map fun u => u.phase.work).sum) <
          16 * (writes.length + 1) + (16 * (content.length - f.fileOffset) + 3 + _ + _)
        omega
    | writing buffer offset n | filling buffer offset n | closing listed | closed listed =>
      have hnoWrite : ∀ buffer, f.writeFile buffer t.offset = none := by
        intro buffer
        unfold S3FileInfo.writeFile
        rw [hwriter]
      have hnoClose : f.close keys = none := by
        unfold S3FileInfo.close
        rw [hwriter]
      cases hwrites : t.writes with
      | nil => simp only [hwrites, hnoClose] at hstep; cases hstep
      | cons buffer writes => simp only [hwrites, hnoWrite] at hstep; cases hstep

theorem Transfer.Good.stuck (hlimit : params.maxUploadThreads % 65536 ≠ 0 ∨ content = [])
    {t : Transfer ETag} (h : t.Good server params content)
    (hstuck : Stuck (Transfer.step server) t) :
    t.Assembled server params content := by
  obtain ⟨hfate, f, flushed, hfiles, huploading, hat⟩ := h
  have hholds : t.Holds f := ⟨hfate, hfiles⟩
  cases hclosed : f.isClosed with
  | true => exact ⟨hfate, f, hfiles, (closed_at hat hclosed).2.2⟩
  | false =>
    exfalso
    have hrun := hstuck .run
    rw [hholds.step_run, map_eq_none_iff] at hrun
    rcases thread_next huploading hsize hparts hat with
      ⟨_, hidle | hdone | hbusy | ⟨hcontent, hzero⟩⟩ | ⟨_, _, _, hsome, _⟩
    · -- the next call is possible
      have hcall := hstuck (.call (f.writeBuffers.map Prod.fst))
      rw [hholds.step_call] at hcall
      cases hwrites : t.writes with
      | nil =>
        have hclose : f.close (f.writeBuffers.map Prod.fst) =
            some (f.setWriter (.closing (f.writeBuffers.map Prod.fst))) := by
          unfold S3FileInfo.close
          rw [hidle]
          simp only [huploading.write, if_true]
          rw [if_pos (isPerm_iff.mpr (Perm.refl _))]
        simp only [hwrites, hclose] at hcall
        cases hcall
      | cons buffer writes =>
        have hwrite : f.writeFile buffer t.offset =
            some (f.setWriter (.writing buffer t.offset 0)) := by
          unfold S3FileInfo.writeFile
          rw [hidle]
          simp only [huploading.write, if_true]
        simp only [hwrites, hwrite] at hcall
        cases hcall
    · rw [hclosed] at hdone
      cases hdone
    · -- the first upload thread can go on
      have hpos := length_pos_iff.mpr hbusy
      have hup := hstuck (.upload 0)
      rw [hholds.step_upload hclosed, map_eq_none_iff] at hup
      obtain ⟨_, _, hsome, _⟩ := upload_next huploading hsize (getElem?_eq_getElem hpos)
      rw [hsome] at hup
      cases hup
    · rcases hlimit with hne | hempty
      · exact hne hzero
      · exact hcontent hempty
    · rw [hsome] at hrun
      cases hrun

end

theorem opened_good (server : Nat → Bytes → ETag) (params : S3UploadParams) (writes : List Bytes) :
    (Transfer.opened params writes).Good server params writes.flatten := by
  have hpos := partSize_pos params
  refine ⟨rfl, .initialized true params, 0, rfl, ?_, ?_⟩
  · exact {
      settings := rfl
      partSize := rfl
      write := rfl
      count := by omega
      inside := Nat.zero_le _
      noException := rfl
      healthy := nofun
      progress := rfl
      threads := Nat.le_refl 0
      counted := rfl
      sent := Perm.refl _
      etags := rfl
      budget := rfl
      budgetSmall := Nat.zero_le _ }
  · refine ⟨rfl, rfl, .inl ⟨rfl, ?_⟩⟩
    rw [Nat.zero_mul]
    rfl

/-- Under the bounds, whatever the order of the threads, the transfer ends with the file assembled. -/
theorem opened_completes (server : Nat → Bytes → ETag) {params : S3UploadParams}
    (hsize : writes.flatten.length ≤ params.partSize * min params.maxNumPartsPerFile 65535)
    (hlimit : params.maxUploadThreads % 65536 ≠ 0 ∨ writes.flatten = []) :
    Completes (Transfer.step server) (Transfer.opened params writes)
      (Transfer.Assembled server params writes.flatten) := by
  have hsmall : writes.flatten.length ≤ 65535 * params.partSize := by
    rw [Nat.mul_comm]
    exact hsize.trans (Nat.mul_le_mul_left _ (min_le_right _ _))
  have hparts : writes.flatten.length ≤ params.maxNumPartsPerFile * params.partSize := by
    rw [Nat.mul_comm]
    exact hsize.trans (Nat.mul_le_mul_left _ (min_le_left _ _))
  exact completes_of_measure (Transfer.work writes.flatten)
    (fun t c t' hgood hstep => hgood.step hsmall hparts hstep)
    (fun t hgood hstuck ↦ hgood.stuck hsmall hparts hlimit hstuck) (opened_good server params writes)

/-! ## 2. What every transfer keeps -/

/-- A property of the file that every operation on it keeps. -/
structure Kept (server : Nat → Bytes → ETag) (P : S3FileInfo ETag → Prop) : Prop where
  setWriter : ∀ f w, P f → (∀ parts, w ≠ .closed parts) → (∀ b o n, w ≠ .filling b o n) →
    P (f.setWriter w)
  run : ∀ f used used' f', P f → f.run used = some (.next used' f') → P f'
  upload : ∀ f used k used' f', P f → f.uploadBuffer server used k = some (used', f') → P f'

variable {P : S3FileInfo ETag → Prop}

theorem Kept.step (h : Kept server P) {t t' : Transfer ETag} {c : Choice}
    (hwrite : ∀ f, P f → f.write = true) (hinv : ∃ f, t.fs.files = [f] ∧ P f)
    (hstep : t.step server c = some t') :
    ∃ f, t'.fs.files = [f] ∧ P f := by
  obtain ⟨f, hfiles, hf⟩ := hinv
  obtain ⟨e, hfs, hopen, hfails⟩ : ∃ e, t.fs.step server e = some t'.fs ∧
      (∀ write params, e ≠ .openFile write params) ∧ ∀ i k, e ≠ .uploadFails i k := by
    cases c with
    | call keys =>
      replace hstep : t.call server keys = some t' := hstep
      unfold Transfer.call at hstep
      split at hstep
      all_goals
        obtain ⟨fs, hfs, rfl⟩ := map_eq_some_iff.mp hstep
        exact ⟨_, hfs, nofun, nofun⟩
    | _ =>
      obtain ⟨fs, hfs, rfl⟩ := map_eq_some_iff.mp hstep
      exact ⟨_, hfs, nofun, nofun⟩
  rcases S3FileSystem.step_cases hfs with
    ⟨⟨fate, heq⟩, -⟩ | ⟨write, params, rfl, -⟩ | ⟨i, g, used', f', hg, hnext, heq⟩
  · exact ⟨f, by rw [heq]; exact hfiles, hf⟩
  · exact absurd rfl (hopen write params)
  rw [hfiles] at hg
  cases i with
  | succ i => cases hg
  | zero =>
    cases hg
    refine ⟨f', by rw [heq, hfiles]; rfl, ?_⟩
    cases hnext with
    | writeFile hf' =>
      unfold S3FileInfo.writeFile at hf'
      split at hf'
      · rw [hwrite f hf, if_pos rfl] at hf'
        cases hf'
        exact h.setWriter f _ hf (nofun) (nofun)
      · cases hf'
    | close hf' =>
      unfold S3FileInfo.close at hf'
      split at hf'
      · rw [hwrite f hf, if_pos rfl] at hf'
        split at hf'
        · cases hf'
          exact h.setWriter f _ hf (nofun) (nofun)
        · cases hf'
      · cases hf'
    | run hrun => exact h.run f _ used' f' hf hrun
    | upload _ hup => exact h.upload f _ _ used' f' hf hup
    | uploadFails => exact absurd rfl (hfails _ _)

/-- No buffer, and so no part, is larger than the part size; at most 65535 parts are listed. -/
structure S3FileInfo.Bounded (size : Nat) (f : S3FileInfo ETag) : Prop where
  write : f.write = true
  partSize : f.partSize = size
  buffers : ∀ entry ∈ f.writeBuffers, entry.2.data.length = size
  uploads : ∀ u ∈ f.uploads, u.buffer.data.length = size
  stored : ∀ part ∈ f.stored, part.2.length ≤ size
  counted : f.numPartsUploaded < 65536
  closed : ∀ parts, f.writer = .closed parts → parts.length < 65536

theorem S3FileInfo.Bounded.setMap (h : f.Bounded size) (hsame : f' = { f with
      writer := f'.writer, fileOffset := f'.fileOffset, writeBuffers := f'.writeBuffers })
    (hbuffers : ∀ entry ∈ f'.writeBuffers, entry.2.data.length = size)
    (hclosed : ∀ parts, f'.writer = .closed parts → parts.length < 65536) : f'.Bounded size := by
  rw [hsame] at hbuffers hclosed ⊢
  exact { h with buffers := hbuffers, closed := hclosed }

theorem S3FileInfo.Bounded.flushBuffer {b : S3WriteBuffer} (h : f.Bounded size) (key : Nat)
    (hb : b.data.length = size) : (f.flushBuffer key b).1.Bounded size := by
  unfold S3FileInfo.flushBuffer
  split
  · exact h
  · split
    · exact h
    · split
      · apply h.setMap rfl
        · intro entry hentry
          obtain ⟨entry', hentry', heq⟩ := mem_map.mp hentry
          split at heq
          · rw [← heq]
            exact hb
          · rw [← heq]
            exact h.buffers entry' hentry'
        · exact h.closed
      · exact { h with
          buffers := fun entry hentry => h.buffers entry (mem_of_mem_filter hentry)
          uploads := by
            intro u hu
            rcases mem_append.mp hu with hin | hlast
            · exact h.uploads u hin
            · rw [mem_singleton.mp hlast]
              exact hb }

theorem mapM_length {α β : Type} {g : α → Option β} {l : List α} {l' : List β}
    (h : l.mapM g = some l') : l'.length = l.length := by
  induction l generalizing l' with
  | nil =>
    cases h
    rfl
  | cons x l ih =>
    rw [mapM_cons] at h
    obtain ⟨y, _, hrest⟩ := bind_eq_some_iff.mp h
    obtain ⟨ys, hys, hlast⟩ := bind_eq_some_iff.mp hrest
    cases hlast
    rw [length_cons, length_cons, ih hys]

theorem fill_length {b : S3WriteBuffer} (hb : b.data.length = size) (start : Nat) (src : Bytes)
    (hfits : start + src.length ≤ size) : (b.fill start src).data.length = size := by
  show (b.data.take start ++ (src ++ b.data.drop (start + src.length))).length = size
  rw [length_append, length_append, length_take, length_drop]
  omega

theorem bounded_run (h : f.Bounded size) (hrun : f.run used = some (.next used' f')) :
    f'.Bounded size := by
  have hset : ∀ (g : S3FileInfo ETag) w, g.Bounded size → (∀ parts, w ≠ .closed parts) →
      (g.setWriter w).Bounded size := by
    intro g w hg hw
    exact hg.setMap rfl hg.buffers fun parts hparts => absurd hparts (hw parts)
  unfold S3FileInfo.run at hrun
  cases hwriter : f.writer with
  | idle | closed => rw [hwriter] at hrun; cases hrun
  | writing buffer offset n =>
    simp only [hwriter] at hrun
    split at hrun
    · split at hrun
      · cases hrun
        exact hset f _ h (nofun)
      · cases hget : f.getBuffer used (uint16 ((offset + n) / f.partSize)) with
        | none => rw [hget] at hrun; cases hrun
        | some out =>
          obtain ⟨used₁, f₁⟩ := out
          rw [hget] at hrun
          cases hrun
          refine hset f₁ (.filling buffer offset n) ?_ (nofun)
          rcases getBuffer_cases hget with ⟨_, rfl, _⟩ | ⟨_, _, _, rfl⟩
          · exact h
          · apply h.setMap rfl
            · intro entry hentry
              rcases mem_append.mp hentry with hin | hlast
              · exact h.buffers entry hin
              · rw [mem_singleton.mp hlast, ← h.partSize]
                exact length_replicate
            · exact h.closed
    · cases hrun
      exact hset f _ h (nofun)
  | filling buffer offset n =>
    simp only [hwriter] at hrun
    split at hrun
    · cases hrun
    · rename_i b hlookup
      have hb := h.buffers _ (mem_of_lookup hlookup)
      unfold S3FileInfo.fillBuffer at hrun
      dsimp only at hrun
      split at hrun
      · cases hrun
      · rename_i hfits
        have hlen := fill_length hb (offset + n - b.startOffset)
          ((buffer.drop n).take (min (buffer.length - n)
            (roomAt f.partSize (offset + n - b.startOffset)))) (by
              rw [length_take, length_drop]
              rw [h.partSize] at hfits ⊢
              omega)
        unfold S3FileInfo.endRound at hrun
        dsimp only at hrun
        generalize hb' : b.fill (offset + n - b.startOffset) _ = b' at hrun hlen
        have hbuffer : (f.setBuffer (uint16 ((offset + n) / f.partSize)) b').Bounded size := by
          apply h.setMap rfl
          · intro entry hentry
            obtain ⟨entry', hentry', heq⟩ := mem_map.mp hentry
            split at heq
            · rw [← heq]
              exact hlen
            · rw [← heq]
              exact h.buffers entry' hentry'
          · exact h.closed
        split at hrun
        · have hflushed := hbuffer.flushBuffer (uint16 ((offset + n) / f.partSize)) hlen
          split at hrun
          · cases hrun
            exact hset _ _ hflushed (nofun)
          · cases hrun
            exact hflushed.setMap rfl hflushed.buffers (nofun)
        · split at hrun
          · cases hrun
            exact hset _ _ hbuffer (nofun)
          · cases hrun
            exact hbuffer.setMap rfl hbuffer.buffers (nofun)
  | closing keys =>
    cases keys with
    | cons key keys =>
      simp only [hwriter] at hrun
      have hf := hset f (.closing keys) h (nofun)
      split at hrun
      · cases hrun
        exact hf
      · rename_i b hlookup
        split at hrun
        · cases hrun
          exact hf
        · split at hrun
          · cases hrun
          · cases hrun
            exact hf.flushBuffer key (hf.buffers _ (mem_of_lookup hlookup))
    | nil =>
      simp only [hwriter] at hrun
      obtain ⟨-, hrun⟩ := ite_none_left_eq_some.mp hrun
      split at hrun
      · cases hrun
      · split at hrun
        · cases hrun
          apply h.setMap rfl (forall_mem_nil _)
          intro parts hparts
          cases hparts
          exact Nat.zero_lt_succ _
        · split at hrun
          · cases hrun
          · rename_i parts' hparts'
            cases hrun
            apply h.setMap rfl (forall_mem_nil _)
            intro parts hparts
            cases hparts
            have hlen := mapM_length hparts'
            rw [length_range] at hlen
            have hcounted := h.counted
            omega

theorem bounded_upload {k : Nat} (h : f.Bounded size)
    (hup : f.uploadBuffer server used k = some (used', f')) : f'.Bounded size := by
  have hset : ∀ (u u' : Upload), f.uploads[k]? = some u → u'.buffer = u.buffer →
      ∀ v ∈ f.uploads.set k u', v.buffer.data.length = size := by
    intro u u' hu hbuffer v hv
    rcases mem_or_eq_of_mem_set hv with hin | rfl
    · exact h.uploads v hin
    · rw [hbuffer]
      exact h.uploads u (mem_of_getElem? hu)
  have hend : ∀ v ∈ f.uploads.eraseIdx k, v.buffer.data.length = size :=
    fun v hv => h.uploads v (mem_of_mem_eraseIdx hv)
  unfold S3FileInfo.uploadBuffer at hup
  cases hu : f.uploads[k]? with
  | none => rw [hu] at hup; cases hup
  | some u =>
    simp only [hu] at hup
    cases hphase : u.phase with
    | sending =>
      simp only [hphase] at hup
      cases hup
      exact { h with
        uploads := hset u _ hu rfl
        stored := by
          intro part hpart
          rcases mem_append.mp hpart with hin | hlast
          · exact h.stored part hin
          · rw [mem_singleton.mp hlast]
            have hlen := h.uploads u (mem_of_getElem? hu)
            show (u.buffer.data.take u.buffer.numBytesWritten).length ≤ size
            rw [length_take]
            omega }
    | etagStored =>
      simp only [hphase] at hup
      cases hup
      exact { h with
        uploads := hset u _ hu rfl
        counted := Nat.mod_lt _ (by decide) }
    | counted =>
      simp only [hphase] at hup
      rw [some.injEq, Prod.mk.injEq] at hup
      obtain ⟨_, rfl⟩ := hup
      exact { h with uploads := hset u _ hu rfl }
    | released | failed =>
      simp only [hphase] at hup
      cases hup
      exact { h with uploads := hend }

theorem bounded_kept (server : Nat → Bytes → ETag) (size : Nat) :
    Kept server (S3FileInfo.Bounded size) where
  setWriter _ _ h hopen _ :=
    h.setMap rfl h.buffers fun parts hparts => absurd hparts (hopen parts)
  run _ _ _ _ h hrun := bounded_run h hrun
  upload _ _ _ _ _ h hup := bounded_upload h hup

/-- Without upload threads nothing is ever written. -/
structure S3FileInfo.Starved (f : S3FileInfo ETag) : Prop where
  write : f.write = true
  noThreads : uint16 f.uploadParams.maxUploadThreads = 0
  writeBuffers : f.writeBuffers = []
  uploads : f.uploads = []
  counted : f.numPartsUploaded = 0
  filling : ∀ buffer offset n, f.writer ≠ .filling buffer offset n
  closed : ∀ parts, f.writer = .closed parts → parts = []

theorem S3FileInfo.Starved.setWriter (h : f.Starved) {w : Writer ETag}
    (hopen : ∀ parts, w ≠ .closed parts)
    (hfilling : ∀ buffer offset n, w ≠ .filling buffer offset n) : (f.setWriter w).Starved :=
  { h with filling := hfilling, closed := fun parts hparts => absurd hparts (hopen parts) }

theorem starved_run (h : f.Starved) (hrun : f.run used = some (.next used' f')) : f'.Starved := by
  unfold S3FileInfo.run at hrun
  cases hwriter : f.writer with
  | idle | closed => rw [hwriter] at hrun; cases hrun
  | filling buffer offset n => exact absurd hwriter (h.filling buffer offset n)
  | writing buffer offset n =>
    simp only [hwriter] at hrun
    split at hrun
    · split at hrun
      · cases hrun
        exact h.setWriter (nofun) (nofun)
      · rw [getBuffer_new h.writeBuffers, h.noThreads, if_pos (Nat.zero_le used)] at hrun
        cases hrun
    · cases hrun
      exact h.setWriter (nofun) (nofun)
  | closing keys =>
    cases keys with
    | cons key keys =>
      simp only [hwriter] at hrun
      have hnone : (f.setWriter (.closing keys)).writeBuffers.lookup key = none := by
        show f.writeBuffers.lookup key = none
        rw [h.writeBuffers]
        rfl
      rw [hnone] at hrun
      cases hrun
      exact h.setWriter (nofun) (nofun)
    | nil =>
      simp only [hwriter] at hrun
      split at hrun
      · cases hrun
      · split at hrun
        · cases hrun
        · rw [if_pos h.counted] at hrun
          cases hrun
          exact { h with
            writeBuffers := rfl
            filling := nofun
            closed := by
              intro parts hparts
              cases hparts
              rfl }

theorem starved_kept (server : Nat → Bytes → ETag) : Kept server S3FileInfo.Starved where
  setWriter _ _ h hopen hfilling := h.setWriter hopen hfilling
  run _ _ _ _ h hrun := starved_run h hrun
  upload f used k used' f' h hup := by
    unfold S3FileInfo.uploadBuffer at hup
    rw [h.uploads] at hup
    cases hup

/-! ## 3. When a transfer assembles the file -/

theorem transfer_keeps (h : Kept server P) (hwrite : ∀ f, P f → f.write = true) {cs : List Choice}
    (hstart : P (.initialized true params))
    (hrun : cs.foldlM (Transfer.step server) (Transfer.opened params writes) = some t) :
    ∃ f, t.fs.files = [f] ∧ P f := by
  apply run_keeps (fun t : Transfer ETag => ∃ f, t.fs.files = [f] ∧ P f) _ _ hrun
  · intro t c t' hinv hstep
    exact h.step hwrite hinv hstep
  · exact ⟨.initialized true params, rfl, hstart⟩

section

variable
  (h : Completes (Transfer.step server) (Transfer.opened params writes) (Transfer.Assembled server params writes.flatten))

include h

theorem completes_fits :
    writes.flatten.length ≤ params.partSize * min params.maxNumPartsPerFile 65535 := by
  obtain ⟨cs, t, hrun, _, f, hfiles, parts, hclosed, hstored, hmax, _, hflat⟩ := h.exists_final
  have hstart : S3FileInfo.Bounded params.partSize
      (S3FileInfo.initialized true params : S3FileInfo ETag) :=
    ⟨rfl, rfl, nofun, nofun, nofun, Nat.zero_lt_succ _, nofun⟩
  obtain ⟨f', hfiles', hbounded⟩ := transfer_keeps (bounded_kept server params.partSize)
    (fun f hf => hf.write) hstart hrun
  rw [hfiles] at hfiles'
  cases hfiles'
  have hcount := hbounded.closed _ hclosed
  rw [length_mapIdx] at hcount
  have hlen : ∀ n ∈ parts.map length, n ≤ params.partSize := by
    intro n hn
    obtain ⟨part, hpart, rfl⟩ := mem_map.mp hn
    obtain ⟨i, hi, rfl⟩ := getElem_of_mem hpart
    apply hbounded.stored (i + 1, parts[i])
    apply hstored.symm.subset
    rw [mem_mapIdx]
    exact ⟨i, hi, rfl⟩
  have hsum := sum_le_card_nsmul (parts.map length) params.partSize hlen
  rw [length_map, smul_eq_mul, ← length_flatten, hflat] at hsum
  calc writes.flatten.length ≤ parts.length * params.partSize := hsum
    _ ≤ min params.maxNumPartsPerFile 65535 * params.partSize :=
        Nat.mul_le_mul_right _ (le_min hmax (by omega))
    _ = params.partSize * min params.maxNumPartsPerFile 65535 := Nat.mul_comm _ _

theorem completes_threads : params.maxUploadThreads % 65536 ≠ 0 ∨ writes.flatten = [] := by
  by_cases hzero : params.maxUploadThreads % 65536 = 0
  · right
    obtain ⟨cs, t, hrun, _, f, hfiles, parts, hclosed, _, _, _, hflat⟩ := h.exists_final
    have hstart : (S3FileInfo.initialized true params : S3FileInfo ETag).Starved :=
      ⟨rfl, hzero, rfl, rfl, rfl, nofun, nofun⟩
    obtain ⟨f', hfiles', hstarved⟩ := transfer_keeps (starved_kept server)
      (fun f hf => hf.write) hstart hrun
    rw [hfiles] at hfiles'
    cases hfiles'
    have hnil := hstarved.closed _ hclosed
    rw [mapIdx_eq_nil_iff] at hnil
    rw [← hflat, hnil]
    rfl
  · exact .inl hzero

end

/-- For every order of the threads the server ends with the file, if and only if the file has at most
`maxNumPartsPerFile` parts, no more than the 16-bit counter of parts can count, and the 16-bit limit
of threads is not zero. -/
theorem multipartUpload_assembles_iff (server : Nat → Bytes → ETag) (params : S3UploadParams)
    (writes : List Bytes) :
    Completes (Transfer.step server) (Transfer.opened params writes)
        (Transfer.Assembled server params writes.flatten) ↔
      writes.flatten.length ≤ params.partSize * min params.maxNumPartsPerFile 65535 ∧
        (params.maxUploadThreads % 65536 ≠ 0 ∨ writes.flatten = []) :=
  ⟨fun h => ⟨completes_fits h, completes_threads h⟩, fun h => opened_completes server h.1 h.2⟩

/-- The part size is rounded down: a file of the maximal size can need one part more than allowed. -/
theorem maxFileSize_needs_more_parts :
    ∃ params : S3UploadParams, ∃ writes : List Bytes, 0 < params.maxFileSize ∧
      0 < params.maxNumPartsPerFile ∧ 0 < params.maxUploadThreads ∧
      writes.flatten.length ≤ params.maxFileSize ∧
      ¬ Completes (Transfer.step fun partNumber _ => partNumber) (Transfer.opened params writes)
        (Transfer.Assembled (fun partNumber _ => partNumber) params writes.flatten) := by
  refine ⟨⟨15728642, 3, 50⟩, [replicate 15728642 0], by decide, by decide, by decide, ?_, ?_⟩
  · rw [flatten_singleton, length_replicate]
  · intro h
    have hfits := completes_fits h
    rw [flatten_singleton, length_replicate] at hfits
    revert hfits
    decide

end

end Ladybug.S3
