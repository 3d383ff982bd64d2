import Ladybug.Base.Bytes
import Ladybug.Httpfs.ReadCorrect

/-!
# When a read ends

The loop is left where the block of the position begins behind the file.  The position itself is not
looked at: behind the end of the file, but in its last block, the loop fetches the same block for ever.
-/

namespace Ladybug.Httpfs

section

variable {file : RemoteFile} {B position : Nat} {l : ReadLoop}

theorem cold_of_le {cache : List CachedBlock} (h : BlocksRight file B cache) {pos : Nat}
    (hpos : file.length ≤ pos) : cache.any (·.covers pos) = false := by
  rw [List.any_eq_false]
  intro b hb hcovers
  have hin := (h b hb).1.1
  have hlt := (covers_iff.mp hcovers).2
  omega

/-- The loop at the beginning of a round, after what the other threads have done. -/
def ReadLoop.resumed (file : RemoteFile) (events : Nat → List Event) (l : ReadLoop) : ReadLoop :=
  { l with fs := (events l.round).foldl (HTTPFileSystem.apply file) l.fs, round := l.round + 1 }

theorem next_cold (events : Nat → List Event)
    (hcold : l.info.readCache.any (·.covers (l.currentPos position)) = false) :
    l.next file events position = (l.resumed file events).below file (l.currentPos position) := by
  have hnone : lookupCachedBlock l.info.readCache (l.currentPos position) = none := by
    unfold lookupCachedBlock
    rw [List.find?_eq_none.mpr (List.any_eq_false.mp hcold)]
  have hcurrent : (l.resumed file events).currentPos position = l.currentPos position := rfl
  unfold ReadLoop.resumed at hcurrent ⊢
  unfold ReadLoop.next
  simp only [hcurrent, hnone]

theorem next_stops (file : RemoteFile) (events : Nat → List Event)
    (hcold : l.info.readCache.any (·.covers (l.currentPos position)) = false)
    (hend : StopsAt l.info.httpConfig l.info.length (l.currentPos position) l.numBytesToRead) :
    (l.next file events position).stopped = true := by
  rw [next_cold events hcold]
  exact congrArg ReadLoop.stopped (below_stops (l := l.resumed file events) hend)

theorem next_fetches (events : Nat → List Event) (h : LoopRight file B l)
    (hcold : l.info.readCache.any (·.covers (l.currentPos position)) = false)
    (hend : ¬ StopsAt l.info.httpConfig l.info.length (l.currentPos position) l.numBytesToRead) :
    (l.next file events position).stopped = l.stopped := by
  have hshared : LoopRight file B (l.resumed file events) :=
    ⟨h.shared.events _, h.blocks, h.readBuffer_le, h.metadataReadBuffer_le, h.length⟩
  rw [next_cold events hcold]
  exact (below_fetches hshared hend).stopped

end

section

variable {file : RemoteFile} {position : Nat}

/-- A round that serves bytes, or puts a block in the cache. -/
inductive Moves (file : RemoteFile) (position : Nat) (l l' : ReadLoop) : Prop where
  | served {served : Nat} :
      Served file file.length (l.currentPos position) l l' served → Moves file position l l'
  | fetched : Fetched file file.length (l.currentPos position) l l' → Moves file position l l'

theorem running_iff {l : ReadLoop} : l.running = true ↔ l.stopped = false ∧ 0 < l.numBytesToRead := by
  unfold ReadLoop.running
  rw [Bool.and_eq_true, decide_eq_true_iff, Bool.not_eq_true']

theorem readLoop_halts (position : Nat) (events : Nat → List Event) (Good : ReadLoop → Prop)
    (hmoves : ∀ l l', Good l → 0 < l.numBytesToRead → Moves file position l l' → Good l')
    (hend : ∀ l, LoopRight file file.length l → Good l → 0 < l.numBytesToRead →
      l.currentPos position < file.length ∨
        StopsAt l.info.httpConfig l.info.length (l.currentPos position) l.numBytesToRead)
    {start : ReadLoop} (hright : LoopRight file file.length start) (hstart : Good start) :
    ∃ l, Halts (fun fuel => whileLoop ReadLoop.running
      (fun l => some (l.next file events position)) fuel start) l := by
  let measure := fun l : ReadLoop => if l.stopped then 0 else 1 + (2 * l.numBytesToRead +
    if l.info.readCache.any (·.covers (l.currentPos position)) then 0 else 1)
  obtain ⟨l, hhalts, -⟩ := while_halts ReadLoop.running
    (fun _ l => some (l.next file events position)) (InvImage.wf measure Nat.lt_wfRel.wf)
    (fun l => LoopRight file file.length l ∧ (l.stopped = false → Good l))
    (by
      intro l hl hrun
      obtain ⟨hrunning, hpos⟩ := running_iff.mp hrun
      have hgood := hl.2 hrunning
      refine ⟨_, halts_const _, ?_⟩
      show (LoopRight file file.length (l.next file events position) ∧ _) ∧
        measure (l.next file events position) < measure l
      have hold : measure l = 1 + (2 * l.numBytesToRead +
          if l.info.readCache.any (·.covers (l.currentPos position)) then 0 else 1) :=
        if_neg (by rw [hrunning]; decide)
      rcases next_cases position events hl.1 hpos with ⟨served, hs⟩ | ⟨hf, hcold⟩ | hstop
      · have hserved := hs.served_pos
        refine ⟨⟨hs.right, fun _ => hmoves l _ hgood hpos (.served hs)⟩, ?_⟩
        have hnew : measure (l.next file events position) = 1 + (2 * _ + _) :=
          if_neg (by rw [hs.stopped, hrunning]; decide)
        rw [hold, hnew, hs.numBytesToRead]
        split_ifs <;> omega
      · refine ⟨⟨hf.right, fun _ => hmoves l _ hgood hpos (.fetched hf)⟩, ?_⟩
        obtain ⟨-, hbufferOffset, hnum, -⟩ := progress_eq hf.progress
        have hcurrent : (l.next file events position).currentPos position = l.currentPos position := by
          unfold ReadLoop.currentPos
          rw [hbufferOffset]
        -- a block that is put in the cache is not behind the file
        have hin : l.currentPos position < file.length := by
          rcases hend l hl.1 hgood hpos with hin | hstops
          · exact hin
          · have hstopped := next_stops file events hcold hstops
            rw [hf.stopped, hrunning] at hstopped
            cases hstopped
        have hnew : measure (l.next file events position) = 1 + (2 * _ + _) :=
          if_neg (by rw [hf.stopped, hrunning]; decide)
        rw [hold, hnew, hnum, hcurrent, hcold, hf.covers hin]
        exact Nat.lt_succ_self _
      · refine ⟨⟨hstop.2.2.1, fun hrunning' => ?_⟩, ?_⟩
        · rw [hstop.2.1] at hrunning'
          cases hrunning'
        · have hnew : measure (l.next file events position) = 0 := if_pos hstop.2.1
          omega) ⟨hright, fun _ => hstart⟩
  exact ⟨l, hhalts⟩

end

section

variable {file : RemoteFile} {position numBytes : Nat} {start l l' : ReadLoop}

/-- At most the bytes of the file behind the position have been read, fewer than `2^31`. -/
structure ReadUpTo (file : RemoteFile) (position numBytes : Nat) (start l : ReadLoop) : Prop where
  fixed : l.fixed = start.fixed
  le : l.numBytesToRead ≤ numBytes
  read_le : numBytes - l.numBytesToRead ≤ file.length - position
  bufferOffset : l.bufferOffset = toInt32 ((numBytes - l.numBytesToRead : Nat) : Int)

section

variable (h : ReadUpTo file position numBytes start l) (hpos : position < 2 ^ 64)
  (hbehind : file.length - position < 2 ^ 31)

include h hpos hbehind

theorem ReadUpTo.currentPos : l.currentPos position = position + (numBytes - l.numBytesToRead) := by
  have hle := h.read_le
  have hlt := file.length_lt
  unfold ReadLoop.currentPos
  rw [h.bufferOffset, toInt32_of_lt (by omega), addInt64_natCast]
  omega

theorem ReadUpTo.moves (hmoves : Moves file position l l') :
    ReadUpTo file position numBytes start l' := by
  have hcurrent := h.currentPos hpos hbehind
  have hle := h.le
  have hread := h.read_le
  cases hmoves with
  | served hs =>
    rename_i served
    have hserved := hs.served_le.1
    have hin := hs.inside
    have hnum := hs.numBytesToRead
    have hdone : numBytes - (l.numBytesToRead - served) = numBytes - l.numBytesToRead + served := by
      omega
    refine ⟨hs.fixed.trans h.fixed, by omega, by omega, ?_⟩
    rw [hs.bufferOffset, h.bufferOffset, toInt32_of_lt (by omega), hnum, hdone]
    rfl
  | fetched hf =>
    obtain ⟨-, hbufferOffset, hnum, -⟩ := progress_eq hf.progress
    refine ⟨hf.fixed.trans h.fixed, ?_, ?_, ?_⟩
    · rw [hnum]
      exact hle
    · rw [hnum]
      exact hread
    · rw [hbufferOffset, hnum]
      exact h.bufferOffset

end

theorem readUpTo_start (h : Handle) (m : Memory) :
    ReadUpTo file position numBytes (.start h m numBytes position) (.start h m numBytes position) where
  fixed := rfl
  le := Nat.le_refl _
  read_le := by
    show numBytes - numBytes ≤ _
    omega
  bufferOffset := by
    show 0 = toInt32 ((numBytes - numBytes : Nat) : Int)
    rw [Nat.sub_self]
    rfl

theorem ReadUpTo.at_end (h : ReadUpTo file position numBytes start l) (hpos : position < 2 ^ 64)
    (hbehind : file.length - position < 2 ^ 31) (hend : file.length ≤ l.currentPos position) :
    l.currentPos position = max position file.length ∧
      l.numBytesToRead = numBytes - (file.length - position) := by
  have hcurrent := h.currentPos hpos hbehind
  have hread := h.read_le
  have hle := h.le
  omega

theorem ReadUpTo.config (h : ReadUpTo file position numBytes start l) :
    l.info.httpConfig = start.info.httpConfig ∧ l.info.length = start.info.length :=
  ⟨congrArg (fun p => p.2.1) h.fixed, congrArg Prod.fst h.fixed⟩

section

variable {h : Handle}

section

variable (events : Nat → List Event) (m : Memory)
  (hright : LayersRight file file.length h.fs h.info) (hlength : h.info.length = file.length)
  (hpos : position < 2 ^ 64) (hbehind : file.length - position < 2 ^ 31)

include events m hright hlength hpos hbehind

theorem readUpTo_halts
    (hends : numBytes ≤ file.length - position ∨
      StopsAt h.info.httpConfig file.length (max position file.length)
      (numBytes - (file.length - position))) :
    ∃ r, Halts (readFromFile file events h m numBytes position) r := by
  have hstart : LoopRight file file.length (.start h m numBytes position) := hright.of_eq rfl rfl rfl
  obtain ⟨l, hl⟩ := readLoop_halts position events
    (ReadUpTo file position numBytes (.start h m numBytes position))
    (fun l l' hgood _ hmoves => hgood.moves hpos hbehind hmoves)
    (by
      intro l _ hgood hrunning
      by_cases hin : l.currentPos position < file.length
      · exact .inl hin
      · obtain ⟨hcurrent, hnum⟩ := hgood.at_end hpos hbehind (Nat.le_of_not_lt hin)
        obtain ⟨hconfig, hlen⟩ := hgood.config
        right
        rw [hconfig, hlen, hcurrent, hnum]
        show StopsAt h.info.httpConfig h.info.length _ _
        rw [hlength]
        exact hends.resolve_left (by omega))
    hstart (readUpTo_start h m)
  exact ⟨_, hl.map _⟩

theorem readUpTo_diverges (hmissing : file.length - position < numBytes)
    (hnever : ¬ StopsAt h.info.httpConfig file.length (max position file.length)
      (numBytes - (file.length - position))) :
    Diverges (readFromFile file events h m numBytes position) := by
  intro fuel
  have hstart : LoopRight file file.length (.start h m numBytes position) := hright.of_eq rfl rfl rfl
  have hnone : whileLoop ReadLoop.running (fun l => some (l.next file events position)) fuel
      (.start h m numBytes position) = none := while_never
    (fun l => LoopRight file file.length l ∧ l.stopped = false ∧
      ReadUpTo file position numBytes (.start h m numBytes position) l)
    (by
      rintro l ⟨-, hrunning, hread⟩
      have hle := hread.read_le
      exact running_iff.mpr ⟨hrunning, by omega⟩)
    (by
      rintro l l' ⟨hl, hrunning, hread⟩ hnext
      cases hnext
      have hle := hread.read_le
      rcases next_cases position events hl (by omega) with ⟨served, hs⟩ | ⟨hf, -⟩ | hstop
      · exact ⟨hs.right, hs.stopped.trans hrunning, hread.moves hpos hbehind (.served hs)⟩
      · exact ⟨hf.right, hf.stopped.trans hrunning, hread.moves hpos hbehind (.fetched hf)⟩
      · -- at the end of the file its last block is fetched once more
        obtain ⟨hconfig, hlen⟩ := hread.config
        have hlen' : l.info.length = file.length := hlen.trans hlength
        have hend : file.length ≤ l.currentPos position := by
          rw [← hlen']
          exact hstop.2.2.2.2
        obtain ⟨hcurrent, hnum⟩ := hread.at_end hpos hbehind hend
        have hfetches := next_fetches events hl (cold_of_le hl.blocks hend) (by
          rw [hconfig, hlen', hcurrent, hnum]
          exact hnever)
        rw [hstop.2.1, hrunning] at hfetches
        cases hfetches)
    ⟨hstart, rfl, readUpTo_start h m⟩ fuel
  unfold readFromFile
  rw [hnone]
  rfl

end

end

end

section

variable {file : RemoteFile} {position numBytes : Nat} {h : Handle}

theorem toInt32_range (n : Int) : -2 ^ 31 ≤ toInt32 n ∧ toInt32 n < 2 ^ 31 := by
  unfold toInt32
  rw [Int.bmod_def]
  omega

/-- A position that is below zero, as an unsigned number. -/
def WrapStops (config : HTTPConfig) (length : Nat) : Prop :=
  ∀ pos n, 2 ^ 64 - 2 ^ 31 ≤ pos → pos < 2 ^ 64 → StopsAt config length pos n

theorem readWrapped_halts (events : Nat → List Event) (m : Memory)
    (hright : LayersRight file file.length h.fs h.info) (hlength : h.info.length = file.length)
    (hbehind : 2 ^ 31 ≤ file.length - position)
    (hends : 2 ^ 31 ≤ position ∨ WrapStops h.info.httpConfig file.length) :
    ∃ r, Halts (readFromFile file events h m numBytes position) r := by
  have hstart : LoopRight file file.length (.start h m numBytes position) := hright.of_eq rfl rfl rfl
  obtain ⟨l, hl⟩ := readLoop_halts position events
    (fun l => l.fixed = (ReadLoop.start h m numBytes position).fixed ∧
      -2 ^ 31 ≤ l.bufferOffset ∧ l.bufferOffset < 2 ^ 31)
    (by
      rintro l l' ⟨hfixed, hoffset⟩ _ hmoves
      cases hmoves with
      | served hs =>
        refine ⟨hs.fixed.trans hfixed, ?_⟩
        rw [hs.bufferOffset]
        exact toInt32_range _
      | fetched hf =>
        refine ⟨hf.fixed.trans hfixed, ?_⟩
        rw [(progress_eq hf.progress).2.1]
        exact hoffset)
    (by
      rintro l - ⟨hfixed, hoffset⟩ -
      have hconfig : l.info.httpConfig = h.info.httpConfig := congrArg (fun p => p.2.1) hfixed
      have hlen : l.info.length = file.length := (congrArg Prod.fst hfixed).trans hlength
      rw [hconfig, hlen]
      unfold ReadLoop.currentPos addInt64
      by_cases hin : 0 ≤ (position : Int) + l.bufferOffset
      · left
        omega
      · right
        exact hends.resolve_left (by omega) _ _ (by omega) (by omega))
    hstart ⟨rfl, by
      show -2 ^ 31 ≤ (0 : Int) ∧ (0 : Int) < 2 ^ 31
      decide⟩
  exact ⟨_, hl.map _⟩

end

def InInt64 (n : Int) : Prop := -2 ^ 63 ≤ n ∧ n < 2 ^ 63

instance (n : Int) : Decidable (InInt64 n) := inferInstanceAs (Decidable (_ ∧ _))

/-- The settings are read as `int64_t`. -/
structure HTTPOptions.Typed (options : HTTPOptions) : Prop where
  prefetchDepth : InInt64 options.prefetchDepth
  readBufferSize : InInt64 options.readBufferSize
  metadataReadBufferSize : InInt64 options.metadataReadBufferSize
  readCacheBlocks : InInt64 options.readCacheBlocks

def HTTPConfig.Admitted (config : HTTPConfig) : Prop :=
  ∃ options : HTTPOptions, options.Typed ∧ HTTPConfig.ofOptions options = .ok config

theorem checkOption_lt {name : String} {value : Int} {n : Nat} (h : checkOption name value = .ok n)
    (hvalue : InInt64 value) : n < 2 ^ 63 := by
  unfold checkOption at h
  split_ifs at h
  cases h
  have hlt := hvalue.2
  omega

theorem orDefault_lt {value default : Nat} (hvalue : value < 2 ^ 63) (hdefault : default < 2 ^ 63) :
    orDefault value default < 2 ^ 63 := by
  unfold orDefault
  split_ifs
  · exact hdefault
  · exact hvalue

theorem HTTPConfig.Admitted.lt {config : HTTPConfig} (h : config.Admitted) (n : Nat) :
    blockSizeFor config n < 2 ^ 63 := by
  obtain ⟨options, htyped, hof⟩ := h
  obtain ⟨_, -, hof⟩ := bind_eq_ok.mp hof
  obtain ⟨_, hread, hof⟩ := bind_eq_ok.mp hof
  obtain ⟨_, hmetadata, hof⟩ := bind_eq_ok.mp hof
  obtain ⟨_, -, hof⟩ := bind_eq_ok.mp hof
  cases hof
  unfold blockSizeFor
  split_ifs
  · exact orDefault_lt (checkOption_lt hmetadata htyped.metadataReadBufferSize) (by decide)
  · exact orDefault_lt (checkOption_lt hread htyped.readBufferSize) (by decide)

theorem HTTPConfig.Admitted.wrapStops {config : HTTPConfig} (h : config.Admitted) {length : Nat}
    (hlength : length ≤ 2 ^ 63 - 2 ^ 31) : WrapStops config length := by
  intro pos n hlow _
  have hlt := h.lt n
  have hmod := Nat.mod_lt pos (blockSizeFor_pos config n)
  have hdiv := Nat.div_add_mod' pos (blockSizeFor config n)
  unfold StopsAt
  omega

/-- Fewer than `2^31` bytes of the file are behind the position: they are enough, or the block at the end
of the file, of the size for the missing bytes, begins there.  Otherwise the end of the file is not reached,
unless the offset in the buffer becomes negative. -/
def ReadEnds (config : HTTPConfig) (length position numBytes : Nat) : Prop :=
  if length - position < 2 ^ 31 then
    numBytes ≤ length - position ∨
      StopsAt config length (max position length) (numBytes - (length - position))
  else numBytes ≤ 2 ^ 31 ∨ 2 ^ 31 ≤ position ∨ WrapStops config length

section

variable {file : RemoteFile} {h : Handle} {position : Nat}

theorem readUnknown_halts (numBytes : Nat) (events : Nat → List Event) (m : Memory)
    (hright : LayersRight file file.length h.fs h.info) (hlength : h.info.length = 0) :
    ∃ r, Halts (readFromFile file events h m numBytes position) r := by
  have hstart : LoopRight file file.length (.start h m numBytes position) := hright.of_eq rfl rfl rfl
  obtain ⟨l, hl⟩ := readLoop_halts position events
    (fun l => l.fixed = (ReadLoop.start h m numBytes position).fixed)
    (by
      intro l l' hfixed _ hmoves
      cases hmoves with
      | served hs => exact hs.fixed.trans hfixed
      | fetched hf => exact hf.fixed.trans hfixed)
    (by
      intro l _ hfixed _
      have hlen : l.info.length = 0 := (congrArg Prod.fst hfixed).trans hlength
      rw [hlen]
      exact .inr (Nat.zero_le _))
    hstart rfl
  exact ⟨_, hl.map _⟩

theorem readFromFile_ends (hreached : Reached file h) (hpos : position < 2 ^ 64) (numBytes : Nat)
    (events : Nat → List Event) (m : Memory)
    (hends : ReadEnds h.info.httpConfig h.info.length position numBytes) :
    ∃ r, Halts (readFromFile file events h m numBytes position) r := by
  have hright := hreached.right.layers
  rcases hright.length with hlength | hlength
  · unfold ReadEnds at hends
    rw [hlength] at hends
    split_ifs at hends with hbehind
    · exact readUpTo_halts events m hright hlength hpos hbehind hends
    · rcases hends with hnum | hends
      · obtain ⟨h', m', hhalts, -⟩ := readFromFile_halts numBytes position events m hright hlength hnum
          (by omega)
        exact ⟨_, hhalts⟩
      · exact readWrapped_halts events m hright hlength (by omega) hends
  · exact readUnknown_halts numBytes events m hright hlength

/-- A read ends under the condition; and only under it, if it comes to the end of the file or the file
has at most `2^63 - 2^31` bytes. -/
theorem readFromFile_ends_iff (hreached : Reached file h) (hconfig : h.info.httpConfig.Admitted)
    (hpos : position < 2 ^ 64) (numBytes : Nat) (events : Nat → List Event) (m : Memory) :
    (ReadEnds h.info.httpConfig h.info.length position numBytes →
      ∃ r, Halts (readFromFile file events h m numBytes position) r) ∧
    (h.info.length - position < 2 ^ 31 ∨ h.info.length ≤ 2 ^ 63 - 2 ^ 31 →
      (∃ r, Halts (readFromFile file events h m numBytes position) r) →
        ReadEnds h.info.httpConfig h.info.length position numBytes) := by
  refine ⟨readFromFile_ends hreached hpos numBytes events m, ?_⟩
  rintro hsmall ⟨r, hhalts⟩
  unfold ReadEnds
  by_cases hbehind : h.info.length - position < 2 ^ 31
  · rw [if_pos hbehind]
    rcases hreached.right.layers.length with hlength | hlength
    · by_contra hends
      rw [not_or, hlength] at hends
      rw [hlength] at hbehind
      exact hhalts.not_diverges (readUpTo_diverges events m hreached.right.layers hlength hpos hbehind
        (by omega) hends.2)
    · rw [hlength]
      exact .inr (Nat.zero_le _)
  · rw [if_neg hbehind]
    exact .inr (.inr (hconfig.wrapStops (hsmall.resolve_left hbehind)))

end

theorem oneByte_length_lt : 1 < 2 ^ 63 := by decide

def oneByte : RemoteFile := ⟨fun _ => 7, 1, oneByte_length_lt⟩

/-- The configuration of settings that are all zero. -/
def defaultConfig : HTTPConfig where
  cacheFile := false
  cacheBlocks := false
  prefetchDepth := 0
  readBufferSize := 1000000
  metadataReadBufferSize := 65536
  readCacheBlocks := 8
  readBufferSize_pos := by decide
  metadataReadBufferSize_pos := by decide
  readCacheBlocks_pos := by decide

theorem defaultConfig_admitted : defaultConfig.Admitted :=
  ⟨⟨false, false, 0, 0, 0, 0⟩, ⟨by decide, by decide, by decide, by decide⟩, rfl⟩

def oneByteHandle : Handle := openFile oneByte (.created false false) defaultConfig false false

theorem oneByteHandle_reached : Reached oneByte oneByteHandle :=
  .opened false false defaultConfig false false

/-- The byte behind the end is asked for: the only block is fetched for ever. -/
theorem read_at_end_diverges : Reached oneByte oneByteHandle ∧ oneByteHandle.info.httpConfig.Admitted ∧
    Diverges (readFromFile oneByte (fun _ => []) oneByteHandle (fun _ => 0) 1 1) := by
  refine ⟨oneByteHandle_reached, defaultConfig_admitted, ?_⟩
  exact readUpTo_diverges _ _ oneByteHandle_reached.right.layers rfl (by decide) (by decide) (by decide)
    (by decide)

theorem readFromFile_ends_iff_oneByte :
    (∃ r, Halts (readFromFile oneByte (fun _ => []) oneByteHandle (fun _ => 0) 1 0) r) ∧
    ((∃ r, Halts (readFromFile oneByte (fun _ => []) oneByteHandle (fun _ => 0) 2 65536) r) →
      ReadEnds oneByteHandle.info.httpConfig oneByteHandle.info.length 65536 2) := by
  have hinside : ReadEnds oneByteHandle.info.httpConfig oneByteHandle.info.length 0 1 := by
    exact .inl (by decide)
  exact ⟨(readFromFile_ends_iff oneByteHandle_reached defaultConfig_admitted (by decide) 1 _ _).1 hinside,
    (readFromFile_ends_iff oneByteHandle_reached defaultConfig_admitted (by decide) 2 _ _).2
      (.inl (by decide))⟩

end Ladybug.Httpfs
