import Ladybug.Httpfs.S3FileSteps

/-!
# The shared budget of write buffers

In every run the counter of the file system is the number of buffers in use plus the number of failed
uploads.
-/

namespace Ladybug.S3

open List Option

section

variable {ETag : Type} {server : Nat → Bytes → ETag}

/-! ## 1. Runs -/

structure S3FileSystem.Counts (fs : S3FileSystem ETag) (failures : Nat) : Prop where
  used : fs.numUsedBuffers = fs.live + failures
  small : fs.numUsedBuffers < 65536
  sound : ∀ f ∈ fs.files, f.Sound

theorem created_counts : (S3FileSystem.created : S3FileSystem ETag).Counts 0 :=
  ⟨rfl, show 0 < 65536 by decide, nofun⟩

variable {i failures used' offset used : Nat} {f f' : S3FileInfo ETag} {fs fs' : S3FileSystem ETag}

theorem sum_live_set {files : List (S3FileInfo ETag)} (h : files[i]? = some f)
    (f' : S3FileInfo ETag) :
    ((files.set i f').map S3FileInfo.live).sum + f.live =
      (files.map S3FileInfo.live).sum + f'.live := by
  obtain ⟨hi, rfl⟩ := List.getElem?_eq_some_iff.mp h
  have hset := ((set_perm_cons_eraseIdx hi f').map S3FileInfo.live).sum_eq
  have hsplit := ((getElem_cons_eraseIdx_perm hi).map S3FileInfo.live).sum_eq
  rw [map_cons, sum_cons] at hset hsplit
  omega

theorem live_le (h : fs.files[i]? = some f) : f.live ≤ fs.live := by
  have hset := sum_live_set h (S3FileInfo.initialized false ⟨0, 0, 0⟩)
  have hzero : (S3FileInfo.initialized false ⟨0, 0, 0⟩ : S3FileInfo ETag).live = 0 := rfl
  unfold S3FileSystem.live
  omega

theorem S3FileSystem.Counts.setFile {failures' : Nat} (h : fs.Counts failures)
    (hf : fs.files[i]? = some f) (hsound : f'.Sound) (hsmall : used' < 65536)
    (hcount : used' + f.live + failures = fs.numUsedBuffers + f'.live + failures') :
    S3FileSystem.Counts { fs with numUsedBuffers := used', files := fs.files.set i f' } failures' := by
  have hsum := sum_live_set hf f'
  have hused := h.used
  refine ⟨?_, hsmall, ?_⟩
  · unfold S3FileSystem.live at hused ⊢
    simp only
    omega
  · intro g hg
    rcases mem_or_eq_of_mem_set hg with hg | rfl
    · exact h.sound g hg
    · exact hsound

variable {buffer : Bytes}

theorem writeFile_next (h : f.Sound) (hstep : f.writeFile buffer offset = some f') :
    f'.Sound ∧ f'.live = f.live := by
  unfold S3FileInfo.writeFile at hstep
  cases hw : f.writer with
  | idle =>
    simp only [hw] at hstep
    split at hstep
    · rename_i hwrite
      cases hstep
      exact ⟨h.setOpen hwrite (h.written_of_not_filling hw nofun) nofun nofun trivial, rfl⟩
    · cases hstep
      exact ⟨h, rfl⟩
  | _ =>
    simp only [hw] at hstep
    cases hstep

theorem closeFile_next {keys : List Nat} (h : f.Sound) (hstep : f.close keys = some f') :
    f'.Sound ∧ f'.live = f.live := by
  unfold S3FileInfo.close at hstep
  cases hw : f.writer with
  | idle =>
    simp only [hw] at hstep
    split at hstep
    · rename_i hwrite
      obtain ⟨hperm, hstep⟩ := ite_none_right_eq_some.mp hstep
      cases hstep
      refine ⟨?_, rfl⟩
      apply h.setWriter hwrite
      · trivial
      · exact fun entry he => .inl (h.written_of_not_filling hw nofun entry he)
      · intro entry he
        left
        exact (isPerm_iff.mp hperm).mem_iff.mpr (mem_map_of_mem he)
      · exact nofun
    · rename_i hread
      rw [Bool.not_eq_true] at hread
      cases hstep
      have hempty := (h.reading hread).1
      refine ⟨?_, rfl⟩
      exact { h with
        writing := fun _ => .inr rfl
        round := trivial
        written := fun entry he => by
          rw [show (f.setWriter (.closed [])).writeBuffers = [] from hempty] at he
          cases he
        flushing := fun entry he => .inl trivial
        closed := fun _ => hempty }
  | _ =>
    simp only [hw] at hstep
    cases hstep

theorem S3FileSystem.Counts.step {fs fs' : S3FileSystem ETag} {failures : Nat} {e : Event}
    (h : fs.Counts failures) (hstep : fs.step server e = some fs') :
    fs'.Counts (failures + if e.isFailure then 1 else 0) := by
  rcases S3FileSystem.step_cases hstep with
    ⟨⟨fate, rfl⟩, hnone⟩ | ⟨write, params, rfl, rfl⟩ | ⟨i, f, used', f', hf, hnext, rfl⟩
  · rw [hnone]
    exact ⟨h.used, h.small, h.sound⟩
  · refine ⟨?_, h.small, ?_⟩
    · have hused := h.used
      unfold S3FileSystem.live at hused ⊢
      rw [map_append, sum_append]
      exact hused
    · intro f hf
      rcases mem_append.mp hf with hf | hf
      · exact h.sound f hf
      · rw [mem_singleton.mp hf]
        exact initialized_sound write params
  · have hs := h.sound f (List.mem_of_getElem? hf)
    cases hnext with
    | writeFile hwrite =>
      obtain ⟨hsound, hlive⟩ := writeFile_next hs hwrite
      exact h.setFile hf hsound h.small (by rw [hlive]; rfl)
    | close hclose =>
      obtain ⟨hsound, hlive⟩ := closeFile_next hs hclose
      exact h.setFile hf hsound h.small (by rw [hlive]; rfl)
    | run hrun =>
      obtain ⟨hsound, hcount, hsmall⟩ := run_next hs hrun
      exact h.setFile hf hsound (hsmall h.small) (by rw [hcount]; rfl)
    | upload _ hupload =>
      have hle : f.live ≤ fs.numUsedBuffers := by
        have hlive := live_le hf
        have hused := h.used
        omega
      obtain ⟨hsound, hcount, hsmall⟩ := uploadBuffer_next hs h.small hle hupload
      exact h.setFile hf hsound hsmall (by rw [hcount]; rfl)
    | uploadFails _ hfails =>
      obtain ⟨hsound, hlive⟩ := uploadFails_next hs hfails
      refine h.setFile hf hsound h.small ?_
      show _ + failures = _ + (failures + 1)
      omega

theorem S3FileSystem.Counts.steps {es : List Event} (h : fs.Counts failures)
    (hrun : fs.steps server es = some fs') : fs'.Counts (failures + es.countP Event.isFailure) := by
  induction es generalizing fs failures with
  | nil =>
    cases hrun
    exact h
  | cons e es ih =>
    obtain ⟨fs₁, hstep, hrest⟩ := bind_eq_some_iff.mp hrun
    have hnext := ih (h.step hstep) hrest
    rw [countP_cons]
    rwa [Nat.add_assoc, Nat.add_comm (if e.isFailure = true then 1 else 0)] at hnext

/-! ## 2. Closed files -/

/-- The upload threads are counted, up to the width of the counter; a closed file has none. -/
structure S3FileInfo.Drained (f : S3FileInfo ETag) : Prop where
  progress : f.uploadsInProgress = uint16 f.uploads.length
  closed : f.isClosed = true → f.uploads = []

theorem S3FileInfo.Drained.setWriter (h : f.Drained) {w : Writer ETag}
    (hclosed : (f.setWriter w).isClosed = true → f.uploads = []) : (f.setWriter w).Drained :=
  ⟨h.progress, hclosed⟩

theorem flushBuffer_progress (h : f.uploadsInProgress = uint16 f.uploads.length) (key : Nat)
    (b : S3WriteBuffer) :
    (f.flushBuffer key b).1.uploadsInProgress = uint16 (f.flushBuffer key b).1.uploads.length := by
  unfold S3FileInfo.flushBuffer
  split_ifs
  · exact h
  · exact h
  · exact h
  · show uint16 (f.uploadsInProgress + 1) = uint16 (f.uploads ++ [_]).length
    rw [h, length_append, length_singleton]
    unfold uint16
    omega

theorem flushBuffer_writer (f : S3FileInfo ETag) (key : Nat) (b : S3WriteBuffer) :
    (f.flushBuffer key b).1.writer = f.writer := by
  unfold S3FileInfo.flushBuffer
  split_ifs <;> rfl

theorem endRound_drained {n m key : Nat} {b : S3WriteBuffer}
    (h : f.uploadsInProgress = uint16 f.uploads.length)
    (hend : f.endRound used buffer offset n m key b = .next used' f') : f'.Drained := by
  unfold S3FileInfo.endRound at hend
  simp only at hend
  have hprogress : (if b.numBytesWritten ≥ (f.setBuffer key b).partSize then
      (f.setBuffer key b).flushBuffer key b else (f.setBuffer key b, false)).1.uploadsInProgress =
        uint16 (if b.numBytesWritten ≥ (f.setBuffer key b).partSize then
          (f.setBuffer key b).flushBuffer key b
          else (f.setBuffer key b, false)).1.uploads.length := by
    split
    · exact flushBuffer_progress (f := f.setBuffer key b) h key b
    · exact h
  generalize (if b.numBytesWritten ≥ (f.setBuffer key b).partSize then
      (f.setBuffer key b).flushBuffer key b else (f.setBuffer key b, false)) = r at *
  split at hend
  all_goals
    cases hend
    exact ⟨hprogress, nofun⟩

theorem run_drained (h : f.Drained) (hsmall : f.uploads.length < 65536)
    (hrun : f.run used = some (.next used' f')) : f'.Drained := by
  unfold S3FileInfo.run at hrun
  cases hw : f.writer with
  | idle | closed => rw [hw] at hrun; cases hrun
  | writing buffer offset n =>
    simp only [hw] at hrun
    split at hrun
    · split at hrun
      · cases hrun
        exact h.setWriter nofun
      · cases hget : f.getBuffer used (uint16 ((offset + n) / f.partSize)) with
        | none => rw [hget] at hrun; cases hrun
        | some r =>
          rw [hget] at hrun
          cases hrun
          rcases getBuffer_cases hget with ⟨_, hr, _⟩ | ⟨_, _, _, hr⟩
          · rw [hr]
            exact h.setWriter nofun
          · rw [hr]
            exact ⟨h.progress, nofun⟩
    · cases hrun
      exact h.setWriter nofun
  | filling buffer offset n =>
    simp only [hw] at hrun
    cases hlookup : f.writeBuffers.lookup (uint16 ((offset + n) / f.partSize)) with
    | none => rw [hlookup] at hrun; cases hrun
    | some b =>
      rw [hlookup] at hrun
      have hfill := Option.some.inj hrun
      unfold S3FileInfo.fillBuffer at hfill
      simp only at hfill
      split at hfill
      · cases hfill
      · exact endRound_drained h.progress hfill
  | closing keys =>
    cases keys with
    | cons key rest =>
      have hbuffers : (f.setWriter (.closing rest)).writeBuffers = f.writeBuffers := rfl
      simp only [hw, hbuffers] at hrun
      cases hlookup : f.writeBuffers.lookup key with
      | none =>
        rw [hlookup] at hrun
        cases hrun
        exact h.setWriter nofun
      | some b =>
        rw [hlookup] at hrun
        simp only at hrun
        split at hrun
        · cases hrun
          exact h.setWriter nofun
        · split at hrun
          · cases hrun
          · cases hrun
            refine ⟨flushBuffer_progress (f := f.setWriter (.closing rest)) h.progress key b,
              fun hclosed => ?_⟩
            unfold S3FileInfo.isClosed at hclosed
            rw [flushBuffer_writer] at hclosed
            cases hclosed
    | nil =>
      simp only [hw] at hrun
      split at hrun
      · cases hrun
      rename_i hprogress
      rw [not_not, h.progress] at hprogress
      -- a counter of zero stands for no thread
      have hempty : f.uploads = [] := by
        rw [← length_eq_zero_iff]
        unfold uint16 at hprogress
        omega
      split at hrun
      · cases hrun
      split at hrun
      · cases hrun
        exact ⟨h.progress, fun _ => hempty⟩
      · cases hparts : f.finalizeParts with
        | none => rw [hparts] at hrun; cases hrun
        | some parts =>
          rw [hparts] at hrun
          cases hrun
          exact ⟨h.progress, fun _ => hempty⟩

theorem uploadBuffer_drained {k : Nat} (h : f.Drained) (hopen : f.isClosed = false)
    (hstep : f.uploadBuffer server used k = some (used', f')) : f'.Drained := by
  have hset : ∀ (g : S3FileInfo ETag) (u : Upload) (phase : UploadPhase),
      g.uploadsInProgress = f.uploadsInProgress → g.uploads = f.uploads → g.writer = f.writer →
      (g.setPhase k u phase).Drained := by
    intro g u phase hprogress huploads hwriter
    refine ⟨?_, fun hclosed => ?_⟩
    · show g.uploadsInProgress = uint16 (g.uploads.set k _).length
      rw [length_set, hprogress, huploads, h.progress]
    · have hsame : (g.setPhase k u phase).isClosed = f.isClosed := by
        unfold S3FileInfo.isClosed S3FileInfo.setPhase
        rw [hwriter]
      rw [hsame, hopen] at hclosed
      cases hclosed
  have hend : k < f.uploads.length → (f.endUpload k).Drained := by
    intro hk
    refine ⟨?_, fun hclosed => ?_⟩
    · show uint16 (f.uploadsInProgress + 65535) = uint16 (f.uploads.eraseIdx k).length
      rw [length_eraseIdx_of_lt hk, h.progress]
      unfold uint16
      omega
    · have hsame : (f.endUpload k).isClosed = f.isClosed := rfl
      rw [hsame, hopen] at hclosed
      cases hclosed
  unfold S3FileInfo.uploadBuffer at hstep
  cases hu : f.uploads[k]? with
  | none => rw [hu] at hstep; cases hstep
  | some u =>
    simp only [hu] at hstep
    have hk := (List.getElem?_eq_some_iff.mp hu).1
    cases hphase : u.phase with
    | sending =>
      simp only [hphase] at hstep
      cases hstep
      exact hset _ u .etagStored rfl rfl rfl
    | etagStored =>
      simp only [hphase] at hstep
      cases hstep
      exact hset _ u .counted rfl rfl rfl
    | counted =>
      simp only [hphase] at hstep
      rw [Option.some.injEq, Prod.mk.injEq] at hstep
      obtain ⟨_, rfl⟩ := hstep
      exact hset f u .released rfl rfl rfl
    | released | failed =>
      simp only [hphase] at hstep
      cases hstep
      exact hend hk

theorem closeFile_drained {keys : List Nat} (hs : f.Sound) (h : f.Drained)
    (hstep : f.close keys = some f') : f'.Drained := by
  unfold S3FileInfo.close at hstep
  cases hw : f.writer with
  | idle =>
    simp only [hw] at hstep
    split at hstep
    · split at hstep
      · cases hstep
        exact h.setWriter nofun
      · cases hstep
    · rename_i hread
      rw [Bool.not_eq_true] at hread
      cases hstep
      exact h.setWriter fun _ => (hs.reading hread).2
  | _ =>
    simp only [hw] at hstep
    cases hstep

theorem writeFile_drained (h : f.Drained) (hstep : f.writeFile buffer offset = some f') :
    f'.Drained := by
  unfold S3FileInfo.writeFile at hstep
  cases hw : f.writer with
  | idle =>
    simp only [hw] at hstep
    split at hstep
    · cases hstep
      exact h.setWriter nofun
    · cases hstep
      exact h
  | _ =>
    simp only [hw] at hstep
    cases hstep

theorem uploadFails_drained {k : Nat} (h : f.Drained) (hopen : f.isClosed = false)
    (hstep : f.uploadFails k = some f') : f'.Drained := by
  unfold S3FileInfo.uploadFails at hstep
  cases hu : f.uploads[k]? with
  | none => rw [hu] at hstep; cases hstep
  | some u =>
    simp only [hu] at hstep
    split at hstep
    · cases hstep
      refine ⟨?_, fun hclosed => ?_⟩
      · show f.uploadsInProgress = uint16 (f.uploads.set k _).length
        rw [length_set, h.progress]
      · have hsame : f.isClosed = true := hclosed
        rw [hopen] at hsame
        cases hsame
    · cases hstep

theorem step_drained {e : Event} (hsound : ∀ f ∈ fs.files, f.Sound) (h : ∀ f ∈ fs.files, f.Drained)
    (hsmall : ∀ f ∈ fs.files, f.uploads.length < 65536) (hstep : fs.step server e = some fs') :
    ∀ f ∈ fs'.files, f.Drained := by
  rcases S3FileSystem.step_cases hstep with
    ⟨⟨fate, rfl⟩, -⟩ | ⟨write, params, rfl, rfl⟩ | ⟨i, f, used', f', hf, hnext, rfl⟩
  · exact h
  · intro f hf
    rcases mem_append.mp hf with hf | hf
    · exact h f hf
    · rw [mem_singleton.mp hf]
      exact ⟨rfl, nofun⟩
  · have hmem := List.mem_of_getElem? hf
    intro g hg
    rcases mem_or_eq_of_mem_set hg with hg | rfl
    · exact h g hg
    · cases hnext with
      | writeFile hwrite => exact writeFile_drained (h f hmem) hwrite
      | close hclose => exact closeFile_drained (hsound f hmem) (h f hmem) hclose
      | run hrun => exact run_drained (h f hmem) (hsmall f hmem) hrun
      | upload hopen hupload => exact uploadBuffer_drained (h f hmem) hopen hupload
      | uploadFails hopen hfails => exact uploadFails_drained (h f hmem) hopen hfails

def ThreadsCounted (server : Nat → Bytes → ETag) (fs : S3FileSystem ETag) (es : List Event) : Prop :=
  ∀ n fs', fs.steps server (es.take n) = some fs' → ∀ f ∈ fs'.files, f.uploads.length < 65536

theorem steps_drained {es : List Event} (hcounts : fs.Counts failures)
    (h : ∀ f ∈ fs.files, f.Drained) (hsmall : ThreadsCounted server fs es)
    (hrun : fs.steps server es = some fs') : ∀ f ∈ fs'.files, f.Drained := by
  induction es generalizing fs failures with
  | nil =>
    cases hrun
    exact h
  | cons e es ih =>
    obtain ⟨fs₁, hstep, hrest⟩ := bind_eq_some_iff.mp hrun
    have hnow := hsmall 0 fs rfl
    apply ih (hcounts.step hstep) (step_drained hcounts.sound h hnow hstep) _ hrest
    intro n s hs
    apply hsmall (n + 1) s
    exact bind_eq_some_iff.mpr ⟨fs₁, hstep, hs⟩

theorem live_eq_zero (hsound : ∀ f ∈ fs.files, f.Sound) (hdrained : ∀ f ∈ fs.files, f.Drained)
    (hclosed : ∀ f ∈ fs.files, f.isClosed = true) : fs.live = 0 := by
  apply sum_eq_zero
  intro n hn
  obtain ⟨f, hf, rfl⟩ := mem_map.mp hn
  unfold S3FileInfo.live
  rw [(hsound f hf).closed (hclosed f hf), (hdrained f hf).closed (hclosed f hf)]
  rfl

/-- In every run the counter is the number of buffers in use if and only if no upload has failed;
then it is zero once all files are closed. -/
theorem numUsedBuffers_exact (server : Nat → Bytes → ETag) (es : List Event) (fs : S3FileSystem ETag)
    (hrun : S3FileSystem.created.steps server es = some fs) :
    (fs.numUsedBuffers = fs.live ↔ ∀ e ∈ es, e.isFailure = false) ∧
      ((∀ e ∈ es, e.isFailure = false) → ThreadsCounted server S3FileSystem.created es →
        (∀ f ∈ fs.files, f.isClosed = true) → fs.numUsedBuffers = 0) := by
  have hcounts := created_counts.steps hrun
  have hused := hcounts.used
  have hnone : es.countP Event.isFailure = 0 ↔ ∀ e ∈ es, e.isFailure = false := by
    rw [countP_eq_zero]
    simp only [Bool.not_eq_true]
  constructor
  · rw [← hnone]
    omega
  · intro hes hsmall hclosed
    have hdrained := steps_drained created_counts nofun hsmall hrun
    rw [hused, hnone.mpr hes, live_eq_zero hcounts.sound hdrained hclosed]

end

/-! ## 3. One file of one byte -/

/-- The destructor starts the upload of the only part. -/
def oneByte : List Event :=
  [.openFile true ⟨1, 1, 1⟩, .writeFile 0 [7] 0, .run 0, .run 0, .run 0, .close 0 [0], .run 0]

def acknowledge (partNumber : Nat) (_ : Bytes) : Nat := partNumber

/-- The upload fails: the buffer is gone, the counter is not lowered. -/
theorem failed_upload_keeps_budget :
    ¬∀ (ETag : Type) (server : Nat → Bytes → ETag) (es : List Event) (fs : S3FileSystem ETag),
      S3FileSystem.created.steps server es = some fs → fs.numUsedBuffers = fs.live := by
  intro h
  have hrun : (S3FileSystem.created.steps acknowledge (oneByte ++ [.uploadFails 0 0])).map
      (fun fs => (fs.numUsedBuffers, fs.live)) = some (1, 0) := by decide
  obtain ⟨fs, hfs, hcount⟩ := map_eq_some_iff.mp hrun
  have heq := h Nat acknowledge _ fs hfs
  rw [Prod.mk.injEq] at hcount
  omega

theorem numUsedBuffers_exact_oneByte :
    ∃ fs, S3FileSystem.created.steps acknowledge (oneByte ++ [.upload 0 0]) = some fs ∧
      (fs.numUsedBuffers = fs.live ↔ ∀ e ∈ oneByte ++ [.upload 0 0], e.isFailure = false) ∧
      ((∀ e ∈ oneByte ++ [.upload 0 0], e.isFailure = false) →
        ThreadsCounted acknowledge S3FileSystem.created (oneByte ++ [.upload 0 0]) →
        (∀ f ∈ fs.files, f.isClosed = true) → fs.numUsedBuffers = 0) := by
  have hrun : (S3FileSystem.created.steps acknowledge
      (oneByte ++ [.upload 0 0])).isSome = true := by decide
  obtain ⟨fs, hfs⟩ := isSome_iff_exists.mp hrun
  exact ⟨fs, hfs, numUsedBuffers_exact acknowledge _ fs hfs⟩

end Ladybug.S3
