import Ladybug.Httpfs.ReadCorrect

/-!
# A remote file and a copy in memory

Calls on a file handle return what the same calls on a copy of the file in memory return, if the handle
has no local copy of its own and no call reads more than `2^31` bytes.
-/

namespace Ladybug.Httpfs

open List

inductive Call where
  | readFile (numBytes : Nat)
  | seek (offset : Nat)
  | readFromFile (numBytes position : Nat)

/-- A call with the memory that it finds, and with what the other threads do during the call. -/
structure Request where
  call : Call
  memory : Memory
  events : Nat → List Event

/-- The first bytes of a buffer. -/
def observe (m : Memory) (n : Nat) : List UInt8 := (List.range n).map fun i : Nat => m (i : Int)

def bytesOf (file : RemoteFile) (position n : Nat) : List UInt8 :=
  (List.range n).map fun i => file.content (position + i)

def runCall (file : RemoteFile) (h : Handle) (r : Request) (fuel : Nat) :
    Option (List UInt8 × Handle) :=
  match r.call with
  | .readFile numBytes =>
    (readFile file r.events h r.memory numBytes fuel).map fun x => (observe x.2.1 x.2.2, x.1)
  | .seek offset => some ([], seek h offset)
  | .readFromFile numBytes position =>
    (readFromFile file r.events h r.memory numBytes position fuel).map fun x =>
      (observe x.2 numBytes, x.1)

def runCalls (file : RemoteFile) : Handle → List Request → Nat → Option (List (List UInt8))
  | _, [], _ => some []
  | h, r :: rs, fuel =>
    (runCall file h r fuel).bind fun x => (runCalls file x.2 rs fuel).map fun bytes => x.1 :: bytes

def memoryCall (file : RemoteFile) (offset : Nat) : Call → List UInt8 × Nat
  | .readFile numBytes =>
    let n := min numBytes (file.length - offset)
    (bytesOf file offset n, offset + n)
  | .seek offset => ([], offset)
  | .readFromFile numBytes position => (bytesOf file position numBytes, position + numBytes)

def memoryCalls (file : RemoteFile) : Nat → List Request → List (List UInt8)
  | _, [] => []
  | offset, r :: rs =>
    (memoryCall file offset r.call).1 :: memoryCalls file (memoryCall file offset r.call).2 rs

def Call.Within (file : RemoteFile) (N : Nat) : Call → Prop
  | .readFile numBytes => numBytes ≤ N
  | .seek offset => offset < 2 ^ 64
  | .readFromFile numBytes position => numBytes ≤ N ∧ position + numBytes ≤ file.length

theorem observe_filled {file : RemoteFile} {position n : Nat} {m m' : Memory}
    (h : Filled file position n m m') : observe m' n = bytesOf file position n := by
  apply map_congr_left
  intro i hi
  rw [mem_range] at hi
  rw [h]
  unfold memcpy
  rw [if_pos (by omega), Int.sub_zero, Int.toNat_natCast]

section

variable {file : RemoteFile} {h : Handle} {N : Nat}

section

variable (hright : HandleRight file h) (hcached : h.info.cachedFileInfo = none)

include hright hcached

/-- A sequential read of at most `2^31` bytes ends with the next bytes of the file in the buffer. -/
theorem readFile_halts (numBytes : Nat) (events : Nat → List Event) (m : Memory)
    (hnum : numBytes ≤ 2 ^ 31) :
    ∃ h' m', Halts (readFile file events h m numBytes)
        (h', m', min numBytes (file.length - h.info.fileOffset)) ∧
      Filled file h.info.fileOffset (min numBytes (file.length - h.info.fileOffset)) m m' ∧
      HandleRight file h' ∧ h'.info.cachedFileInfo = none ∧
      h'.info.fileOffset = h.info.fileOffset + min numBytes (file.length - h.info.fileOffset) := by
  have hlt := file.length_lt
  have hlength := hright.length hcached
  by_cases hbeyond : h.info.fileOffset > file.length
  · -- nothing is read beyond the end
    have hrun : ∀ fuel, readFile file events h m numBytes fuel = some (h, m, 0) := by
      intro fuel
      unfold readFile getFileSize
      simp only [hcached, hlength, if_pos hbeyond]
    have hzero : min numBytes (file.length - h.info.fileOffset) = 0 := by omega
    rw [hzero]
    refine ⟨h, m, ?_, ?_, hright, hcached, rfl⟩
    · exact ⟨0, fun fuel _ => hrun fuel⟩
    · unfold Filled memcpy
      funext a
      rw [if_neg (by omega)]
  · have hmax : (file.length + 2 ^ 64 - h.info.fileOffset) % 2 ^ 64 =
        file.length - h.info.fileOffset := by omega
    have hrun : ∀ fuel, readFile file events h m numBytes fuel =
        (readFromFile file events h m (min numBytes (file.length - h.info.fileOffset))
          h.info.fileOffset fuel).map
          fun x => (x.1, x.2, min numBytes (file.length - h.info.fileOffset)) := by
      intro fuel
      unfold readFile getFileSize
      simp only [hcached, hlength, if_neg hbeyond, hmax, Nat.min_comm]
    obtain ⟨h', m', hhalts, hfilled, hoffset', hlayers, hlength', hcached'⟩ :=
      readFromFile_halts (min numBytes (file.length - h.info.fileOffset)) h.info.fileOffset
        events m hright.layers hlength (by omega) (by omega)
    refine ⟨h', m', ?_, hfilled, ⟨hlayers, fun _ => hlength', by omega⟩, hcached'.trans hcached,
      hoffset'⟩
    rw [funext hrun]
    exact hhalts.map _

theorem runCall_halts (hN : N ≤ 2 ^ 31) (r : Request) (hr : r.call.Within file N) :
    ∃ h', Halts (runCall file h r) ((memoryCall file h.info.fileOffset r.call).1, h') ∧
      HandleRight file h' ∧ h'.info.cachedFileInfo = none ∧
      h'.info.fileOffset = (memoryCall file h.info.fileOffset r.call).2 := by
  have hlt := file.length_lt
  unfold runCall
  cases hcall : r.call with
  | readFile numBytes =>
    rw [hcall] at hr
    obtain ⟨h', m', hhalts, hfilled, hright', hcached', hoffset'⟩ := readFile_halts hright hcached
      numBytes r.events r.memory (Nat.le_trans hr hN)
    refine ⟨h', ?_, hright', hcached', hoffset'⟩
    show Halts _ (bytesOf file h.info.fileOffset _, h')
    rw [← observe_filled hfilled]
    exact hhalts.map _
  | seek offset =>
    rw [hcall] at hr
    refine ⟨seek h offset, halts_const _, hright.seek hr, ?_, ?_⟩
    · unfold seek
      rw [hcached]
      exact hcached
    · unfold seek
      rw [hcached]
      rfl
  | readFromFile numBytes position =>
    rw [hcall] at hr
    obtain ⟨hnum, hin⟩ := hr
    obtain ⟨h', m', hhalts, hfilled, hoffset', hlayers, hlength', hcached'⟩ :=
      readFromFile_halts numBytes position r.events r.memory hright.layers (hright.length hcached)
        (Nat.le_trans hnum hN) hin
    refine ⟨h', ?_, ⟨hlayers, fun _ => hlength', by omega⟩, hcached'.trans hcached, hoffset'⟩
    show Halts _ (bytesOf file position numBytes, h')
    rw [← observe_filled hfilled]
    exact hhalts.map _

theorem runCalls_halts (hN : N ≤ 2 ^ 31) (rs : List Request)
    (hrs : ∀ r ∈ rs, r.call.Within file N) :
    Halts (runCalls file h rs) (memoryCalls file h.info.fileOffset rs) := by
  induction rs generalizing h with
  | nil => exact halts_const _
  | cons r rs ih =>
    obtain ⟨h', hhalts, hright', hcached', hoffset⟩ :=
      runCall_halts hright hcached hN r (hrs r mem_cons_self)
    have hrest := ih hright' hcached' fun r' hr' => hrs r' (mem_cons_of_mem r hr')
    rw [hoffset] at hrest
    exact hhalts.bind (hrest.map _)

end

end

def Handle.position (h : Handle) : Nat :=
  match h.info.cachedFileInfo with
  | some f => f.offset
  | none => h.info.fileOffset

/-- Every handle, with a local copy or without, reads at most `N` bytes at a time as a copy in memory
does: each `readFromFile` ends with the bytes in the buffer, and so does every sequence of calls. -/
def ReadsAsMemory (cached : Bool) (N : Nat) : Prop :=
  ∀ file h, Reached file h → h.info.cachedFileInfo.isSome = cached →
    (∀ numBytes position m events, numBytes ≤ N → position + numBytes ≤ file.length →
      ∃ h' m', Halts (readFromFile file events h m numBytes position) (h', m') ∧
        Filled file position numBytes m m' ∧ h'.info.fileOffset = position + numBytes) ∧
    ∀ rs : List Request, (∀ r ∈ rs, r.call.Within file N) →
      Halts (runCalls file h rs) (memoryCalls file h.position rs)

theorem readsAsMemory_of_le {N : Nat} (hN : N ≤ 2 ^ 31) : ReadsAsMemory false N := by
  intro file h hreached hcached
  have hright := hreached.right
  have hnone : h.info.cachedFileInfo = none := Option.not_isSome_iff_eq_none.mp (by rw [hcached]; decide)
  constructor
  · intro numBytes position m events hnum hin
    obtain ⟨h', m', hhalts, hfilled, hoffset, -⟩ := readFromFile_halts numBytes position events m
      hright.layers (hright.length hnone) (Nat.le_trans hnum hN) hin
    exact ⟨h', m', hhalts, hfilled, hoffset⟩
  · intro rs hrs
    have hposition : h.position = h.info.fileOffset := by
      unfold Handle.position
      rw [hnone]
    rw [hposition]
    exact runCalls_halts hright hnone hN rs hrs

section

variable {file : RemoteFile} {h : Handle}

theorem readFromFile_zero (file : RemoteFile) (events : Nat → List Event) (h : Handle) (m : Memory)
    (position : Nat) :
    Halts (readFromFile file events h m 0 position)
      (⟨h.fs, { h.info with fileOffset := position }⟩, m) := by
  refine ⟨1, fun fuel hfuel => ?_⟩
  obtain ⟨k, rfl⟩ := Nat.exists_eq_add_of_le' hfuel
  rfl

theorem runCall_zero (r : Request) (hr : r.call.Within file 0) :
    ∃ h', Halts (runCall file h r) ([], h') := by
  unfold runCall
  cases hcall : r.call with
  | readFile numBytes =>
    rw [hcall] at hr
    have hzero : numBytes = 0 := Nat.le_zero.mp hr
    unfold readFile
    cases hcached : h.info.cachedFileInfo with
    | some f =>
      simp only [hzero, LocalFile.readFile, Nat.zero_min]
      exact ⟨_, halts_const _⟩
    | none =>
      simp only [hzero, Nat.min_zero]
      split_ifs
      · exact ⟨h, halts_const _⟩
      · exact ⟨_, ((readFromFile_zero file r.events h r.memory h.info.fileOffset).map _).map _⟩
  | seek offset => exact ⟨_, halts_const _⟩
  | readFromFile numBytes position =>
    rw [hcall] at hr
    have hzero : numBytes = 0 := Nat.le_zero.mp hr.1
    simp only [hzero]
    exact ⟨_, (readFromFile_zero file r.events h r.memory position).map _⟩

theorem memoryCall_zero {offset : Nat} {c : Call} (hc : c.Within file 0) :
    (memoryCall file offset c).1 = [] := by
  cases c with
  | readFile numBytes =>
    have hzero : numBytes = 0 := Nat.le_zero.mp hc
    simp only [hzero]
    rfl
  | seek offset => rfl
  | readFromFile numBytes position =>
    have hzero : numBytes = 0 := Nat.le_zero.mp hc.1
    simp only [hzero]
    rfl

theorem runCalls_zero (rs : List Request) (offset : Nat) (hrs : ∀ r ∈ rs, r.call.Within file 0) :
    Halts (runCalls file h rs) (memoryCalls file offset rs) := by
  induction rs generalizing h offset with
  | nil => exact halts_const _
  | cons r rs ih =>
    obtain ⟨h', hhalts⟩ := runCall_zero (h := h) r (hrs r mem_cons_self)
    unfold memoryCalls
    rw [memoryCall_zero (hrs r mem_cons_self)]
    exact hhalts.bind ((ih _ fun r' hr' => hrs r' (mem_cons_of_mem r hr')).map _)

theorem readsAsMemory_zero (cached : Bool) : ReadsAsMemory cached 0 := by
  intro file h _ _
  constructor
  · intro numBytes position m events hnum _
    rw [Nat.le_zero.mp hnum]
    refine ⟨_, _, readFromFile_zero file events h m position, ?_, rfl⟩
    funext a
    unfold memcpy
    rw [if_neg (by omega)]
  · exact fun rs hrs => runCalls_zero rs _ hrs

end

/-- Blocks of one byte. -/
def tinyConfig (cacheFile : Bool) : HTTPConfig where
  cacheFile := cacheFile
  cacheBlocks := false
  prefetchDepth := 0
  readBufferSize := 1
  metadataReadBufferSize := 1
  readCacheBlocks := 1
  readBufferSize_pos := by decide
  metadataReadBufferSize_pos := by decide
  readCacheBlocks_pos := by decide

def largeFile : RemoteFile := ⟨fun _ => 1, 2 ^ 31 + 1, by decide⟩

def largeHandle : Handle := openFile largeFile (.created false false) (tinyConfig false) false false

theorem largeFile_offset {events : Nat → List Event} {m m' : Memory} {h' : Handle} {fuel : Nat}
    (hrun : readFromFile largeFile events largeHandle m (2 ^ 31 + 1) 0 fuel = some (h', m')) :
    h'.info.fileOffset ≤ 2 ^ 31 := by
  obtain ⟨l, hl, heq⟩ := Option.map_eq_some_iff.mp hrun
  cases heq
  have hstart : LoopRight largeFile 1 (.start largeHandle m (2 ^ 31 + 1) 0) :=
    ⟨created_right largeFile false false, fun b hb => absurd hb not_mem_nil, Nat.min_le_left _ _,
      Nat.min_le_left _ _, .inl rfl⟩
  have hinv := while_inv (fun l => LoopRight largeFile 1 l ∧ l.info.fileOffset ≤ 2 ^ 31 ∧
      l.numBytesToRead + l.info.fileOffset = 2 ^ 31 + 1 ∧ l.bufferOffset = toInt32 l.info.fileOffset)
    (by
      intro l l' ⟨hright, hle, hnum, hoffset⟩ hrunning hnext
      cases hnext
      unfold ReadLoop.running at hrunning
      rw [Bool.and_eq_true, decide_eq_true_iff] at hrunning
      rcases next_cases 0 events hright hrunning.2 with ⟨served, hs⟩ | ⟨hf, -⟩ | hstop
      · -- at `2^31` the position is not in the file
        have hserved := hs.served_le
        have hinside : l.currentPos 0 + served ≤ 2 ^ 31 + 1 := hs.inside
        have hne : l.info.fileOffset ≠ 2 ^ 31 := by
          intro heq
          unfold ReadLoop.currentPos addInt64 at hinside
          rw [hoffset, heq, toInt32_two_pow] at hinside
          omega
        have hlt : l.info.fileOffset < 2 ^ 31 := by omega
        have hfile : (l.next largeFile events 0).info.fileOffset = l.info.fileOffset + served := by
          rw [hs.fileOffset]
          omega
        refine ⟨hs.right, by omega, ?_, ?_⟩
        · rw [hs.numBytesToRead, hfile]
          omega
        · rw [hs.bufferOffset, hoffset, toInt32_of_lt hlt, hfile]
          rfl
      · obtain ⟨-, hbufferOffset, hnumBytes, hfileOffset⟩ := progress_eq hf.progress
        rw [hbufferOffset, hnumBytes, hfileOffset]
        exact ⟨hf.right, hle, hnum, hoffset⟩
      · obtain ⟨-, hbufferOffset, hnumBytes, hfileOffset⟩ := progress_eq hstop.1
        rw [hbufferOffset, hnumBytes, hfileOffset]
        exact ⟨hstop.2.2.1, hle, hnum, hoffset⟩)
    ⟨hstart, Nat.zero_le _, by simp only [ReadLoop.start, Nat.add_zero],
      by simp only [ReadLoop.start]; decide⟩ hl
  exact hinv.2.1

/-- A file of one byte, of which there already is a local copy. -/
def copiedFile : RemoteFile := ⟨fun _ => 1, 1, by decide⟩

def copiedHandle : Handle := openFile copiedFile (.created false false) (tinyConfig true) false true

theorem copiedFile_read (m : Memory) :
    Halts (readFromFile copiedFile (fun _ => []) copiedHandle m 1 0) (copiedHandle, m) := by
  refine ⟨2, fun fuel hfuel => ?_⟩
  obtain ⟨k, rfl⟩ := Nat.exists_eq_add_of_le' hfuel
  rfl

theorem not_readsAsMemory_of_lt {N : Nat} (hN : 2 ^ 31 < N) : ¬ ReadsAsMemory false N := by
  intro h
  have hreached : Reached largeFile largeHandle := .opened false false (tinyConfig false) false false
  obtain ⟨h', m', ⟨k, hk⟩, -, hoffset⟩ := (h largeFile largeHandle hreached rfl).1 (2 ^ 31 + 1) 0
    (fun _ => 0) (fun _ => []) hN (Nat.zero_add (2 ^ 31 + 1)).le
  have hle := largeFile_offset (hk k (Nat.le_refl k))
  omega

theorem not_readsAsMemory_cached {N : Nat} (hN : 0 < N) : ¬ ReadsAsMemory true N := by
  intro h
  have hreached : Reached copiedFile copiedHandle := .opened false false (tinyConfig true) false true
  obtain ⟨h', m', hhalts, -, hoffset⟩ := (h copiedFile copiedHandle hreached rfl).1 1 0
    (fun _ => 0) (fun _ => []) hN (Nat.le_refl _)
  have heq := (copiedFile_read fun _ => 0).unique hhalts
  cases heq
  exact absurd hoffset (by decide)

/-- Reads of at most `N` bytes are those of a copy in memory if and only if the handle has no local copy
and `N` is at most `2^31` (or nothing is read). -/
theorem readsAsMemory_iff (cached : Bool) (N : Nat) :
    ReadsAsMemory cached N ↔ N = 0 ∨ (cached = false ∧ N ≤ 2 ^ 31) := by
  constructor
  · intro h
    by_cases hzero : N = 0
    · exact .inl hzero
    · cases cached with
      | true => exact absurd h (not_readsAsMemory_cached (by omega))
      | false =>
        by_cases hle : N ≤ 2 ^ 31
        · exact .inr ⟨rfl, hle⟩
        · exact absurd h (not_readsAsMemory_of_lt (by omega))
  · rintro (rfl | ⟨rfl, hle⟩)
    · exact readsAsMemory_zero cached
    · exact readsAsMemory_of_le hle

/-- The read of all bytes of the large file, from a handle that has just been opened. -/
theorem readFromFile_stops_early : Reached largeFile largeHandle ∧
    ¬ ∃ h' m', Halts (readFromFile largeFile (fun _ => []) largeHandle (fun _ => 0) (2 ^ 31 + 1) 0)
        (h', m') ∧ h'.info.fileOffset = 0 + (2 ^ 31 + 1) := by
  refine ⟨.opened false false (tinyConfig false) false false, ?_⟩
  rintro ⟨h', m', ⟨k, hk⟩, hoffset⟩
  have hle := largeFile_offset (hk k (Nat.le_refl k))
  omega

end Ladybug.Httpfs
