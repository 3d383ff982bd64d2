import Mathlib.Tactic.IntervalCases
import Ladybug.Sqlite.WalTailer

/-!
# WAL files as SQLite writes them, and their parse

The writer's side of the format: a header and frames whose checksums chain from it, with
little-endian checksum words (magic `0x377f0682`).  `parseWal` recovers the frames, the commits it
forms partition them, and the result only grows when bytes are appended to the file.
-/

namespace Ladybug.Sqlite

open Bytes List

/-! ## 1. The documented checksum -/

def leWords : Bytes → List UInt32
  | a :: b :: c :: d :: rest =>
    UInt32.ofNat (a.toNat + 2 ^ 8 * b.toNat + 2 ^ 16 * c.toNat + 2 ^ 24 * d.toNat) :: leWords rest
  | _ => []

/-- SQLite's recurrence over consecutive pairs of words, from the running pair `s`. -/
def checksumWords : List UInt32 → UInt32 × UInt32 → UInt32 × UInt32
  | x0 :: x1 :: xs, (s0, s1) =>
    let s0 := s0 + x0 + s1
    let s1 := s1 + x1 + s0
    checksumWords xs (s0, s1)
  | _, s => s

def walCksum (s : UInt32 × UInt32) (data : Bytes) : UInt32 × UInt32 :=
  checksumWords (leWords data) s

theorem u32LE_toNat (a b c d : UInt8) : (u32LE a b c d).toNat =
    a.toNat + 2 ^ 8 * b.toNat + 2 ^ 16 * c.toNat + 2 ^ 24 * d.toNat := by
  have h : u32LE a b c d = u32BE d c b a := by
    unfold u32LE u32BE
    generalize a.toUInt32 = w, b.toUInt32 <<< 8 = x, c.toUInt32 <<< 16 = y, d.toUInt32 <<< 24 = z
    rw [UInt32.or_comm _ z, UInt32.or_comm _ y, UInt32.or_comm w x, UInt32.or_assoc z y x,
      UInt32.or_assoc z (y ||| x) w, UInt32.or_assoc y x w]
  rw [h, u32BE_toNat]
  simp only [beNat, foldl_cons, foldl_nil]
  omega

theorem u32LE_eq (a b c d : UInt8) : u32LE a b c d =
    UInt32.ofNat (a.toNat + 2 ^ 8 * b.toNat + 2 ^ 16 * c.toNat + 2 ^ 24 * d.toNat) := by
  rw [← u32LE_toNat, UInt32.ofNat_toNat]

theorem updateNative_eq_walCksum (data : Bytes) (c : WalChecksum) : c.updateNative data =
      { c with s0 := (walCksum (c.s0, c.s1) data).1, s1 := (walCksum (c.s0, c.s1) data).2 } := by
  fun_induction WalChecksum.updateNative c data with
  | case1 c a0 a1 a2 a3 b0 b1 b2 b3 rest s0 s1 ih =>
    rw [ih]
    simp only [walCksum, leWords, checksumWords, s0, s1, u32LE_eq, UInt32.add_assoc]
  | case2 data c h =>
    have hs : walCksum (c.s0, c.s1) data = (c.s0, c.s1) := by
      match data, h with
      | [], _ | [_], _ | [_, _], _ | [_, _, _], _ => rfl
      | [_, _, _, _], _ | [_, _, _, _, _], _ | [_, _, _, _, _, _], _ => rfl
      | [_, _, _, _, _, _, _], _ => rfl
      | a0 :: a1 :: a2 :: a3 :: b0 :: b1 :: b2 :: b3 :: rest, h =>
        exact absurd rfl (h a0 a1 a2 a3 b0 b1 b2 b3 rest)
    rw [hs]

theorem update_native (data : Bytes) (s : UInt32 × UInt32) :
    WalChecksum.update { s0 := s.1, s1 := s.2 } data =
      { s0 := (walCksum s data).1, s1 := (walCksum s data).2 } := by
  exact updateNative_eq_walCksum data _

/-! ## 2. Writing a log -/

/-- The header fields a little-endian host chooses. -/
structure WalParams where
  pageSize : UInt32
  checkpointSeq : UInt32
  salt1 : UInt32
  salt2 : UInt32
  pageSize_pow : ∃ k, 9 ≤ k ∧ k ≤ 16 ∧ pageSize.toNat = 2 ^ k

def be32 (v : UInt32) : Bytes := beBytes 4 v.toNat

@[simp] theorem be32_length (v : UInt32) : (be32 v).length = 4 := beBytes_length 4 _

namespace WalParams

variable (p : WalParams)

def headerFields : Bytes :=
  be32 WAL_MAGIC_NATIVE ++ (be32 WAL_FORMAT_VERSION ++ (be32 p.pageSize ++
    (be32 p.checkpointSeq ++ (be32 p.salt1 ++ be32 p.salt2))))

/-- The checksum the frame chain starts from. -/
def headerCksum : UInt32 × UInt32 := walCksum (0, 0) p.headerFields

def headerBytes : Bytes :=
  p.headerFields ++ (be32 p.headerCksum.1 ++ be32 p.headerCksum.2)

def header : WalHeader where
  magic := WAL_MAGIC_NATIVE
  format := WAL_FORMAT_VERSION
  pageSize := p.pageSize
  checkpointSeq := p.checkpointSeq
  salt1 := p.salt1
  salt2 := p.salt2
  checksum1 := p.headerCksum.1
  checksum2 := p.headerCksum.2

def frameFields (f : WalFrame) : Bytes := be32 f.pageNo ++ be32 f.commitSize

/-- The chained checksum after frame `f`. -/
def frameCksum (s : UInt32 × UInt32) (f : WalFrame) : UInt32 × UInt32 :=
  walCksum (walCksum s (frameFields f)) f.image

def frameBytes (s : UInt32 × UInt32) (f : WalFrame) : Bytes :=
  frameFields f ++ (be32 p.salt1 ++ (be32 p.salt2 ++
    (be32 (frameCksum s f).1 ++ (be32 (frameCksum s f).2 ++ f.image))))

def framesBytes : UInt32 × UInt32 → List WalFrame → Bytes
  | _, [] => []
  | s, f :: fs => p.frameBytes s f ++ framesBytes (frameCksum s f) fs

def walBytes (frames : List WalFrame) : Bytes :=
  p.headerBytes ++ p.framesBytes p.headerCksum frames

/-- What may follow the last valid frame: less than a frame, or a frame header with page number 0
or with other salts. -/
def EndsLog (rest : Bytes) : Prop :=
  rest.length < WAL_FRAME_HDR_SIZE + p.pageSize.toNat ∨ beNat (rest.take 4) = 0 ∨
    beNat ((rest.drop 8).take 4) ≠ p.salt1.toNat ∨ beNat ((rest.drop 12).take 4) ≠ p.salt2.toNat

instance (rest : Bytes) : Decidable (p.EndsLog rest) :=
  inferInstanceAs (Decidable (_ ∨ _ ∨ _ ∨ _))

/-- A frame SQLite can write under these parameters. -/
structure Writes (f : WalFrame) : Prop where
  pageNo_ne : f.pageNo ≠ 0
  image_length : f.image.length = p.pageSize.toNat

/-! ## 3. Parsing a written log -/

-- the parse looks at the recorded checksums and not at how they were made
def headerFieldsFor (magic : UInt32) : Bytes :=
  be32 magic ++ (be32 WAL_FORMAT_VERSION ++ (be32 p.pageSize ++
    (be32 p.checkpointSeq ++ (be32 p.salt1 ++ be32 p.salt2))))

def writtenHeader (magic : UInt32) (ck : UInt32 × UInt32) : Bytes :=
  p.headerFieldsFor magic ++ (be32 ck.1 ++ be32 ck.2)

def headerFor (magic : UInt32) (ck : UInt32 × UInt32) : WalHeader where
  magic := magic
  format := WAL_FORMAT_VERSION
  pageSize := p.pageSize
  checkpointSeq := p.checkpointSeq
  salt1 := p.salt1
  salt2 := p.salt2
  checksum1 := ck.1
  checksum2 := ck.2

def writtenFrame (ck : UInt32 × UInt32) (f : WalFrame) : Bytes :=
  frameFields f ++ (be32 p.salt1 ++ (be32 p.salt2 ++ (be32 ck.1 ++ (be32 ck.2 ++ f.image))))

def frameHeaderFor (ck : UInt32 × UInt32) (f : WalFrame) : WalFrameHeader where
  pageNo := f.pageNo
  commitSize := f.commitSize
  salt1 := p.salt1
  salt2 := p.salt2
  checksum1 := ck.1
  checksum2 := ck.2

variable (magic : UInt32)

theorem headerFieldsFor_length : (p.headerFieldsFor magic).length = 24 := by
  simp only [headerFieldsFor, length_append, be32_length]

theorem writtenHeader_length (ck : UInt32 × UInt32) :
    (p.writtenHeader magic ck).length = WAL_HDR_SIZE := by
  rfl

theorem frameFields_length (f : WalFrame) : (frameFields f).length = 8 := by
  simp only [frameFields, length_append, be32_length]

theorem writtenFrame_length (ck : UInt32 × UInt32) (f : WalFrame) (hf : p.Writes f) :
    (p.writtenFrame ck f).length = WAL_FRAME_HDR_SIZE + p.pageSize.toNat := by
  simp only [writtenFrame, frameFields, length_append, be32_length, hf.image_length]
  rw [WAL_FRAME_HDR_SIZE]
  omega

theorem pageSize_accepted : ¬ (p.pageSize < 512 ∨ 65536 < p.pageSize ∨
    p.pageSize &&& (p.pageSize - 1) ≠ 0) := by
  obtain ⟨k, hlo, hhi, hk⟩ := p.pageSize_pow
  have hp : p.pageSize = UInt32.ofNat (2 ^ k) := by rw [← hk, UInt32.ofNat_toNat]
  rw [hp]
  interval_cases k <;> decide

variable {data : Bytes} {ck : UInt32 × UInt32} {off : Nat} {f : WalFrame}

theorem readWalHeader_written {magic : UInt32} (h : HasAt data 0 (p.writtenHeader magic ck)) :
    readWalHeader data = .ok (p.headerFor magic ck) := by
  have h0 := h.left
  have h1 := h0.right
  have h2 := h1.right
  have h3 := h2.right
  have h4 := h3.right
  have h5 := h4.right
  have h6 := h.right
  have h7 := h6.right
  simp only [be32_length, headerFieldsFor_length, Nat.zero_add, Nat.reduceAdd]
    at h1 h2 h3 h4 h5 h6 h7
  rw [readWalHeader, readU32BE_of_hasAt h0.left, readU32BE_of_hasAt h1.left,
    readU32BE_of_hasAt h2.left, readU32BE_of_hasAt h3.left, readU32BE_of_hasAt h4.left,
    readU32BE_of_hasAt h5, readU32BE_of_hasAt h6.left, readU32BE_of_hasAt h7]
  rfl

theorem readFrameHeader_written (h : HasAt data off (p.writtenFrame ck f)) :
    readFrameHeader data off = .ok (p.frameHeaderFor ck f) := by
  have h0 := h.left
  have h1 := h0.right
  have h2 := h.right
  have h3 := h2.right
  have h4 := h3.right
  have h5 := h4.right
  simp only [frameFields, length_append, be32_length, Nat.add_assoc, Nat.reduceAdd]
    at h1 h2 h3 h4 h5
  rw [readFrameHeader, readU32BE_of_hasAt h0.left, readU32BE_of_hasAt h1,
    readU32BE_of_hasAt h2.left, readU32BE_of_hasAt h3.left, readU32BE_of_hasAt h4.left,
    readU32BE_of_hasAt h5.left]
  rfl

theorem readSlice_written (h : HasAt data off (p.writtenFrame ck f)) (hf : p.Writes f) :
    readSlice data off 8 = .ok (frameFields f) ∧
      readSlice data (off + WAL_FRAME_HDR_SIZE) p.pageSize.toNat = .ok f.image := by
  have hi := h.right.right.right.right.right
  have h0 := readSlice_of_hasAt h.left
  exact ⟨h0, hf.image_length ▸ readSlice_of_hasAt hi⟩

theorem parseFrames_end (ck : UInt32 × UInt32) (pre rest : Bytes) (running : WalChecksum)
    (acc : List WalFrame) (fuel : Nat) (hrest : p.EndsLog rest) :
    parseFrames (p.headerFor magic ck) (pre ++ rest) (fuel + 1) pre.length running acc =
      .ok acc := by
  have hlen : (pre ++ rest).length - pre.length = rest.length := by
    rw [length_append]; omega
  rw [parseFrames, hlen]
  by_cases hshort : rest.length < WAL_FRAME_HDR_SIZE
  · rw [if_pos hshort]
  have hword (off : Nat) (hoff : off + 4 ≤ 24) :
      ∃ v, readU32BE (pre ++ rest) (pre.length + off) = .ok v ∧
        v.toNat = beNat ((rest.drop off).take 4) := by
    rw [WAL_FRAME_HDR_SIZE] at hshort
    obtain ⟨v, hv, hn⟩ := readU32BE_of_le (pre ++ rest) (pre.length + off)
      (by rw [length_append]; omega)
    exact ⟨v, hv, by rw [hn, drop_length_add_append]⟩
  obtain ⟨v0, h0, n0⟩ := hword 0 (by decide)
  obtain ⟨v1, h1, -⟩ := hword 4 (by decide)
  obtain ⟨v2, h2, n2⟩ := hword 8 (by decide)
  obtain ⟨v3, h3, n3⟩ := hword 12 (by decide)
  obtain ⟨v4, h4, -⟩ := hword 16 (by decide)
  obtain ⟨v5, h5, -⟩ := hword 20 (by decide)
  rw [if_neg hshort, readFrameHeader, ← Nat.add_zero pre.length, h0]
  simp only [Nat.add_zero, h1, h2, h3, h4, h5]
  change (if rest.length < WAL_FRAME_HDR_SIZE + p.pageSize.toNat then Except.ok acc else
    if v0 = 0 ∨ v2 ≠ p.salt1 ∨ v3 ≠ p.salt2 then Except.ok acc else _) = _
  by_cases htorn : rest.length < WAL_FRAME_HDR_SIZE + p.pageSize.toNat
  · rw [if_pos htorn]
  rw [if_neg htorn, if_pos]
  rcases hrest with hrest | hrest | hrest | hrest
  · exact absurd hrest htorn
  · left
    exact UInt32.toNat_inj.mp (n0.trans hrest)
  · right; left
    rintro rfl
    exact hrest n2.symm
  · right; right
    rintro rfl
    exact hrest n3.symm

theorem parseFrames_written (ck' : UInt32 × UInt32) (running : WalChecksum) (acc : List WalFrame)
    (fuel : Nat) (hat : HasAt data off (p.writtenFrame ck f)) (hf : p.Writes f) :
    parseFrames (p.headerFor magic ck') data (fuel + 1) off running acc =
      let frameCksum := (running.update (frameFields f)).update f.image
      if frameCksum.s0 ≠ ck.1 ∨ frameCksum.s1 ≠ ck.2 then
        .error (.error ("WAL frame " ++ toString acc.length ++ " checksum mismatch"))
      else
        parseFrames (p.headerFor magic ck') data fuel
          (off + (WAL_FRAME_HDR_SIZE + p.pageSize.toNat)) frameCksum (acc ++ [f]) := by
  have hl := hat.1
  rw [p.writtenFrame_length ck f hf] at hl
  obtain ⟨hfields, himage⟩ := p.readSlice_written hat hf
  rw [parseFrames, if_neg (by omega), p.readFrameHeader_written hat]
  simp only [bind, Except.bind]
  rw [if_neg (by change ¬ _ < WAL_FRAME_HDR_SIZE + p.pageSize.toNat; omega),
    if_neg (by simp [frameHeaderFor, headerFor, hf.pageNo_ne]), hfields]
  rw [show (p.headerFor magic ck').pageSize = p.pageSize from rfl, himage]
  rfl

theorem parseFrames_framesBytes (frames : List WalFrame) (pre rest : Bytes) (s : UInt32 × UInt32)
    (acc : List WalFrame) (fuel : Nat) (hf : ∀ f ∈ frames, p.Writes f) (hrest : p.EndsLog rest)
    (hfuel : (p.framesBytes s frames ++ rest).length < fuel) :
    parseFrames p.header (pre ++ (p.framesBytes s frames ++ rest)) fuel pre.length
      { s0 := s.1, s1 := s.2 } acc = .ok (acc ++ frames) := by
  induction frames generalizing pre s acc fuel with
  | nil =>
    obtain ⟨fuel, rfl⟩ := Nat.exists_eq_succ_of_ne_zero (Nat.ne_zero_of_lt hfuel)
    rw [framesBytes, nil_append, append_nil]
    exact p.parseFrames_end WAL_MAGIC_NATIVE p.headerCksum pre rest _ acc fuel hrest
  | cons f fs ih =>
    obtain ⟨fuel, rfl⟩ := Nat.exists_eq_succ_of_ne_zero (Nat.ne_zero_of_lt hfuel)
    have hw := hf f mem_cons_self
    have hl : (p.frameBytes s f).length = WAL_FRAME_HDR_SIZE + p.pageSize.toNat :=
      p.writtenFrame_length (frameCksum s f) f hw
    have hat : HasAt (pre ++ (p.framesBytes s (f :: fs) ++ rest)) pre.length
        (p.writtenFrame (frameCksum s f) f) := by
      rw [framesBytes, append_assoc]
      exact hasAt_append_middle _ _ _
    have hnext := ih (pre ++ p.frameBytes s f) (frameCksum s f) (acc ++ [f]) fuel
      (fun g hg => hf g (mem_cons_of_mem _ hg)) (by
        rw [framesBytes, append_assoc, length_append, hl, WAL_FRAME_HDR_SIZE] at hfuel
        omega)
    rw [length_append, hl, append_assoc, ← append_assoc (p.frameBytes s f),
      append_assoc acc] at hnext
    have hround := p.parseFrames_written WAL_MAGIC_NATIVE p.headerCksum
      { s0 := s.1, s1 := s.2 } acc fuel hat hw
    rw [update_native, update_native] at hround
    have hpass : ¬ ((frameCksum s f).1 ≠ (frameCksum s f).1 ∨
        (frameCksum s f).2 ≠ (frameCksum s f).2) := not_or.mpr ⟨not_not.mpr rfl, not_not.mpr rfl⟩
    exact (hround.trans (if_neg hpass)).trans hnext

def logOf (frames : List WalFrame) : WalLog where
  header := p.header
  frames := frames
  commits := (groupCommits frames 0 0).1
  uncommittedFrames := frames.length - (groupCommits frames 0 0).2

theorem parseWal_written {data : Bytes} {magic : UInt32} {ck : UInt32 × UInt32}
    (hmagic : magic = WAL_MAGIC_NATIVE ∨ magic = WAL_MAGIC_NON_NATIVE)
    (hat : HasAt data 0 (p.writtenHeader magic ck)) :
    parseWal data =
      let cksum := WalChecksum.update { native := magic == WAL_MAGIC_NATIVE }
        (p.headerFieldsFor magic)
      if cksum.s0 ≠ ck.1 ∨ cksum.s1 ≠ ck.2 then
        .error (.error "WAL header checksum mismatch")
      else do
        let frames ← parseFrames (p.headerFor magic ck) data (data.length + 1) WAL_HDR_SIZE cksum []
        let (commits, batchStart) := groupCommits frames 0 0
        return { header := p.headerFor magic ck, frames, commits,
                 uncommittedFrames := frames.length - batchStart } := by
  have hlen : ¬ data.length < WAL_HDR_SIZE := by
    have hl := hat.1
    rw [writtenHeader_length] at hl
    omega
  have hfields : readSlice data 0 (WAL_HDR_SIZE - 8) = .ok (p.headerFieldsFor magic) := by
    have h := readSlice_of_hasAt hat.left
    rwa [headerFieldsFor_length] at h
  have hknown : ¬ ((p.headerFor magic ck).magic ≠ WAL_MAGIC_NATIVE ∧
      (p.headerFor magic ck).magic ≠ WAL_MAGIC_NON_NATIVE) := by
    rw [not_and_or, not_not, not_not]
    exact hmagic
  have hformat : ¬ (p.headerFor magic ck).format ≠ WAL_FORMAT_VERSION := not_not.mpr rfl
  have hsize : ¬ ((p.headerFor magic ck).pageSize < 512 ∨ 65536 < (p.headerFor magic ck).pageSize ∨
      (p.headerFor magic ck).pageSize &&& ((p.headerFor magic ck).pageSize - 1) ≠ 0) :=
    p.pageSize_accepted
  rw [parseWal, if_neg hlen, p.readWalHeader_written hat]
  simp only [bind, Except.bind]
  rw [if_neg hknown, if_neg hformat, if_neg hsize]
  simp only [parseLog, hfields, bind, Except.bind]
  rfl

theorem parseWal_walBytes (frames : List WalFrame) (rest : Bytes) (hf : ∀ f ∈ frames, p.Writes f)
    (hrest : p.EndsLog rest) :
    parseWal (p.walBytes frames ++ rest) = .ok (p.logOf frames) := by
  have hsplit : p.walBytes frames ++ rest =
      p.headerBytes ++ (p.framesBytes p.headerCksum frames ++ rest) := by
    rw [walBytes, append_assoc]
  have hat := hasAt_append_middle [] p.headerBytes (p.framesBytes p.headerCksum frames ++ rest)
  rw [nil_append, ← hsplit, length_nil] at hat
  have hlen : p.headerBytes.length = WAL_HDR_SIZE :=
    p.writtenHeader_length WAL_MAGIC_NATIVE p.headerCksum
  have hframes := p.parseFrames_framesBytes frames p.headerBytes rest p.headerCksum []
    ((p.walBytes frames ++ rest).length + 1) hf hrest (by
      have hl := congrArg List.length hsplit
      simp only [length_append] at hl ⊢
      omega)
  rw [hlen, ← hsplit, nil_append] at hframes
  have hcksum : WalChecksum.update { native := WAL_MAGIC_NATIVE == WAL_MAGIC_NATIVE }
      (p.headerFieldsFor WAL_MAGIC_NATIVE) = { s0 := p.headerCksum.1, s1 := p.headerCksum.2 } := by
    exact update_native p.headerFields (0, 0)
  have hpass : ¬ (p.headerCksum.1 ≠ p.headerCksum.1 ∨ p.headerCksum.2 ≠ p.headerCksum.2) :=
    not_or.mpr ⟨not_not.mpr rfl, not_not.mpr rfl⟩
  have hparse := @parseWal_written p _ WAL_MAGIC_NATIVE p.headerCksum (.inl rfl) hat
  rw [hcksum, if_neg hpass] at hparse
  refine hparse.trans ?_
  show (parseFrames p.header _ _ _ _ _ >>= _) = _
  rw [hframes]
  rfl

end WalParams

/-! ## 4. Commits -/

def commitSizeAt (frames : List WalFrame) (i : Nat) : UInt32 :=
  ((frames[i]?).map WalFrame.commitSize).getD 0

/-- From frame `start` on, the commits are consecutive runs that end at a nonzero commit size and
hold none before it; `stop` is the first frame after the last run. -/
def CommitRuns (frames : List WalFrame) : Nat → List CommitBatch → Nat → Prop
  | start, [], stop => start = stop
  | start, c :: cs, stop =>
    c.firstFrame = start ∧ c.firstFrame ≤ c.lastFrame ∧ c.lastFrame < frames.length ∧
      c.commitSize ≠ 0 ∧ commitSizeAt frames c.lastFrame = c.commitSize ∧
      (∀ i, c.firstFrame ≤ i → i < c.lastFrame → commitSizeAt frames i = 0) ∧
      CommitRuns frames (c.lastFrame + 1) cs stop

/-- The commits and the uncommitted tail of a log partition its frames: the runs start at frame 0
and follow each other without a gap, and the tail that is left holds no commit frame. -/
def WalLog.Partitioned (log : WalLog) : Prop :=
  ∃ stop, CommitRuns log.frames 0 log.commits stop ∧
    stop + log.uncommittedFrames = log.frames.length ∧
    ∀ i, stop ≤ i → i < log.frames.length → commitSizeAt log.frames i = 0

theorem groupCommits_runs (frames pre fs : List WalFrame) (batchStart : Nat)
    (hsplit : frames = pre ++ fs) (hstart : batchStart ≤ pre.length)
    (hopen : ∀ i, batchStart ≤ i → i < pre.length → commitSizeAt frames i = 0) :
    CommitRuns frames batchStart (groupCommits fs pre.length batchStart).1
        (groupCommits fs pre.length batchStart).2 ∧
      (groupCommits fs pre.length batchStart).2 ≤ frames.length ∧
      ∀ i, (groupCommits fs pre.length batchStart).2 ≤ i → i < frames.length →
        commitSizeAt frames i = 0 := by
  induction fs generalizing pre batchStart with
  | nil =>
    rw [append_nil] at hsplit
    subst hsplit
    exact ⟨rfl, hstart, hopen⟩
  | cons f fs ih =>
    have hat : commitSizeAt frames pre.length = f.commitSize := by
      rw [commitSizeAt, hsplit, getElem?_append_right le_rfl, Nat.sub_self]
      rfl
    have hsplit' : frames = (pre ++ [f]) ++ fs := by rw [hsplit, append_assoc]; rfl
    have hlen : (pre ++ [f]).length = pre.length + 1 := by
      rw [length_append, length_singleton]
    by_cases hc : f.commitSize = 0
    · have hopen' : ∀ i, batchStart ≤ i → i < (pre ++ [f]).length → commitSizeAt frames i = 0 := by
        intro i hlo hhi
        by_cases hi : i < pre.length
        · exact hopen i hlo hi
        · rw [show i = pre.length by omega, hat, hc]
      have h := ih (pre ++ [f]) batchStart hsplit' (by omega) hopen'
      rw [hlen] at h
      rw [groupCommits, if_neg (by simpa using hc)]
      exact h
    · have h := ih (pre ++ [f]) (pre.length + 1) hsplit' (by omega) (by intro i hlo hhi; omega)
      rw [hlen] at h
      rw [groupCommits, if_pos hc]
      have hlt : pre.length < frames.length := by
        rw [hsplit, length_append, length_cons]
        omega
      exact ⟨⟨rfl, hstart, hlt, hc, hat, hopen, h.1⟩, h.2⟩

theorem groupCommits_partitioned (header : WalHeader) (frames : List WalFrame) : WalLog.Partitioned
      { header := header, frames := frames, commits := (groupCommits frames 0 0).1,
        uncommittedFrames := frames.length - (groupCommits frames 0 0).2 } := by
  obtain ⟨hruns, hle, htail⟩ := groupCommits_runs frames [] frames 0 rfl le_rfl
    (by intro i _ hi; exact absurd hi (Nat.not_lt_zero i))
  exact ⟨_, hruns, Nat.add_sub_cancel' hle, htail⟩

theorem groupCommits_append (fs gs : List WalFrame) (i batchStart : Nat) :
    (groupCommits fs i batchStart).1 <+: (groupCommits (fs ++ gs) i batchStart).1 := by
  induction fs generalizing i batchStart with
  | nil => exact nil_prefix
  | cons f fs ih =>
    rw [cons_append, groupCommits, groupCommits]
    split
    · exact prefix_cons_inj _ |>.mpr (ih (i + 1) (i + 1))
    · exact ih (i + 1) batchStart

/-! ## 5. Appending to the file -/

variable {data b : Bytes} {log : WalLog} {hdr : WalHeader}

theorem parseWal_ok (h : parseWal data = .ok log) :
    ∃ fields cksum, WAL_HDR_SIZE ≤ data.length ∧ readWalHeader data = .ok log.header ∧
      (log.header.magic = WAL_MAGIC_NATIVE ∨ log.header.magic = WAL_MAGIC_NON_NATIVE) ∧
      readSlice data 0 (WAL_HDR_SIZE - 8) = .ok fields ∧
      cksum = WalChecksum.update { native := log.header.magic == WAL_MAGIC_NATIVE } fields ∧
      parseFrames log.header data (data.length + 1) WAL_HDR_SIZE cksum [] = .ok log.frames ∧
      log.commits = (groupCommits log.frames 0 0).1 ∧
      log.uncommittedFrames = log.frames.length - (groupCommits log.frames 0 0).2 := by
  unfold parseWal at h
  split at h
  · cases h
  next hlen =>
  obtain ⟨hdr, hhdr, h⟩ := bind_eq_ok.mp h
  split at h
  · cases h
  next hmagic =>
  split at h
  · cases h
  split at h
  · cases h
  obtain ⟨fields, hfields, h⟩ := bind_eq_ok.mp h
  dsimp only at h
  split at h
  · cases h
  obtain ⟨frames, hframes, h⟩ := bind_eq_ok.mp h
  cases h
  exact ⟨fields, _, Nat.not_lt.mp hlen, hhdr, by tauto, hfields, rfl, hframes, rfl, rfl⟩

theorem parseWal_partitioned (h : parseWal data = .ok log) : log.Partitioned := by
  obtain ⟨_, _, -, -, -, -, -, -, hc, hu⟩ := parseWal_ok h
  have hp := groupCommits_partitioned log.header log.frames
  rw [← hc, ← hu] at hp
  exact hp

theorem readWalHeader_grow (h : readWalHeader b = .ok hdr) (c : Bytes) :
    readWalHeader (b ++ c) = .ok hdr := by
  simp only [readWalHeader, bind_eq_ok] at h
  obtain ⟨v0, h0, v1, h1, v2, h2, v3, h3, v4, h4, v5, h5, v6, h6, v7, h7, h⟩ := h
  rw [readWalHeader, readU32BE_grow h0, readU32BE_grow h1, readU32BE_grow h2, readU32BE_grow h3,
    readU32BE_grow h4, readU32BE_grow h5, readU32BE_grow h6, readU32BE_grow h7]
  exact h

theorem readFrameHeader_grow {off : Nat} {fh : WalFrameHeader} (h : readFrameHeader b off = .ok fh)
    (c : Bytes) : readFrameHeader (b ++ c) off = .ok fh := by
  simp only [readFrameHeader, bind_eq_ok] at h
  obtain ⟨v0, h0, v1, h1, v2, h2, v3, h3, v4, h4, v5, h5, h⟩ := h
  rw [readFrameHeader, readU32BE_grow h0, readU32BE_grow h1, readU32BE_grow h2, readU32BE_grow h3,
    readU32BE_grow h4, readU32BE_grow h5]
  exact h

theorem parseFrames_step {fuel offset : Nat} {running : WalChecksum} {acc frames : List WalFrame}
    (h : parseFrames hdr data (fuel + 1) offset running acc = .ok frames) :
    frames = acc ∨ ∃ fh fields image,
      WAL_FRAME_HDR_SIZE + hdr.pageSize.toNat ≤ data.length - offset ∧
      readFrameHeader data offset = .ok fh ∧
      ¬ (fh.pageNo = 0 ∨ fh.salt1 ≠ hdr.salt1 ∨ fh.salt2 ≠ hdr.salt2) ∧
      readSlice data offset 8 = .ok fields ∧
      readSlice data (offset + WAL_FRAME_HDR_SIZE) hdr.pageSize.toNat = .ok image ∧
      parseFrames hdr data fuel (offset + (WAL_FRAME_HDR_SIZE + hdr.pageSize.toNat))
        ((running.update fields).update image)
        (acc ++ [{ pageNo := fh.pageNo, commitSize := fh.commitSize, image }]) = .ok frames := by
  rw [parseFrames] at h
  dsimp only at h
  split at h
  · left; cases h; rfl
  obtain ⟨fh, hfh, h⟩ := bind_eq_ok.mp h
  split at h
  · left; cases h; rfl
  next hsize =>
  split at h
  · left; cases h; rfl
  next hstop =>
  obtain ⟨fields, hfields, h⟩ := bind_eq_ok.mp h
  obtain ⟨image, himage, h⟩ := bind_eq_ok.mp h
  split at h
  · cases h
  · exact .inr ⟨fh, fields, image, Nat.not_lt.mp hsize, hfh, hstop, hfields, himage, h⟩

theorem parseFrames_extends {fuel offset : Nat} {running : WalChecksum} {acc frames : List WalFrame}
    (h : parseFrames hdr data fuel offset running acc = .ok frames) : acc <+: frames := by
  induction fuel generalizing offset running acc with
  | zero => cases h
  | succ fuel ih =>
    obtain rfl | ⟨fh, fields, image, -, -, -, -, -, h⟩ := parseFrames_step h
    · exact prefix_rfl
    · exact (prefix_append _ _).trans (ih h)

/-- The frames read from `b` are the first frames read from `b ++ c`: every round that verifies a
frame of `b` verifies the same frame of the longer file. -/
theorem parseFrames_grow {hdr : WalHeader} {b c : Bytes} {fuel fuel' offset : Nat}
    {running : WalChecksum} {acc frames frames' : List WalFrame}
    (h : parseFrames hdr b fuel offset running acc = .ok frames)
    (h' : parseFrames hdr (b ++ c) fuel' offset running acc = .ok frames') :
    frames <+: frames' := by
  induction fuel generalizing fuel' offset running acc with
  | zero => cases h
  | succ fuel ih =>
    obtain rfl | ⟨fh, fields, image, hsize, hfh, hstop, hfields, himage, hb⟩ := parseFrames_step h
    · exact parseFrames_extends h'
    cases fuel' with
    | zero => cases h'
    | succ fuel' =>
    refine @ih fuel' _ _ _ hb ?_
    rw [parseFrames] at h'
    have hlen : (b ++ c).length = b.length + c.length := length_append
    rw [if_neg (by omega), readFrameHeader_grow hfh c] at h'
    simp only [bind, Except.bind] at h'
    rw [if_neg (by omega), if_neg hstop, readSlice_grow hfields c] at h'
    rw [readSlice_grow himage c] at h'
    simp only [] at h'
    split at h'
    · cases h'
    · exact h'

theorem parseWal_grow {c : Bytes} {log' : WalLog} (h : parseWal b = .ok log)
    (h' : parseWal (b ++ c) = .ok log') :
    log.frames <+: log'.frames ∧ log.commits <+: log'.commits := by
  obtain ⟨fields, cksum, -, hhdr, -, hfields, rfl, hframes, hcommits, -⟩ := parseWal_ok h
  obtain ⟨fields', cksum', -, hhdr', -, hfields', rfl, hframes', hcommits', -⟩ := parseWal_ok h'
  rw [readWalHeader_grow hhdr c] at hhdr'
  rw [readSlice_grow hfields c] at hfields'
  cases hfields'
  rw [← Except.ok.inj hhdr'] at hframes'
  have hp := parseFrames_grow hframes hframes'
  refine ⟨hp, ?_⟩
  obtain ⟨more, hmore⟩ := hp
  rw [hcommits, hcommits', ← hmore]
  exact groupCommits_append log.frames more 0 0

/-- A WAL written with little-endian checksums parses to its frames, whatever ends the log, its
commits and the uncommitted tail partition them, and a later parse of the grown file extends the
earlier one. -/
theorem parseWal_recovers :
    (∀ (p : WalParams) (frames : List WalFrame) (rest : Bytes), (∀ f ∈ frames, p.Writes f) →
      p.EndsLog rest → ∃ log, parseWal (p.walBytes frames ++ rest) = .ok log ∧
        log.frames = frames ∧ log.Partitioned) ∧
    (∀ (b c : Bytes) (log log' : WalLog), parseWal b = .ok log → parseWal (b ++ c) = .ok log' →
      log.frames <+: log'.frames ∧ log.commits <+: log'.commits) := by
  refine ⟨fun p frames rest hf hrest => ?_, fun b c log log' h h' => parseWal_grow h h'⟩
  have h := p.parseWal_walBytes frames rest hf hrest
  exact ⟨p.logOf frames, h, rfl, parseWal_partitioned h⟩

/-- The smallest page size, as a little-endian host writes it. -/
def smallWal : WalParams where
  pageSize := 512
  checkpointSeq := 0
  salt1 := 7
  salt2 := 9
  pageSize_pow := ⟨9, by decide⟩

def blankFrame (frame : UInt32 × UInt32) : WalFrame where
  pageNo := frame.1
  commitSize := frame.2
  image := replicate 512 0

/-- A commit of page 2, one of pages 3 and 2, and a frame of no commit. -/
def twoCommits : List WalFrame := [(2, 2), (3, 0), (2, 3), (4, 0)].map blankFrame

/-- The log ends with a torn frame. -/
theorem parseWal_recovers_twoCommits : ∃ log,
    parseWal (smallWal.walBytes twoCommits ++ [0, 0, 0, 3]) = .ok log ∧ log.frames = twoCommits ∧
      log.Partitioned := by
  apply parseWal_recovers.1 smallWal
  · intro f hf
    obtain ⟨frame, hframe, rfl⟩ := mem_map.mp hf
    have hpages : ∀ frame ∈ ([(2, 2), (3, 0), (2, 3), (4, 0)] : List (UInt32 × UInt32)),
        frame.1 ≠ 0 := by simp
    exact ⟨hpages frame hframe, length_replicate⟩
  · exact .inl (by decide)

end Ladybug.Sqlite
