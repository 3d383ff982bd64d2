import Ladybug.Base.Runs
import Ladybug.Httpfs.HttpFile

/-!
# What a read returns

Every span that a layer keeps holds the bytes of the file.  A round of the loop serves bytes from the
cache of the handle or puts a block in front of it that covers the position, so a read ends with the
bytes of the file; unless the offset in the buffer, an `int`, becomes negative.
-/

namespace Ladybug.Httpfs

open List

/-! ## 1. The layers hold the bytes of the file -/

section

variable {file : RemoteFile} {fs : HTTPFileSystem}

def Right (file : RemoteFile) (start len : Nat) (data : Bytes) : Prop :=
  start + len ≤ file.length ∧ ∀ i, i < len → data i = file.content (start + i)

variable {len : Nat}

theorem right_getRangeRequest {start : Nat} (h : start + len ≤ file.length) :
    Right file start len (file.getRangeRequest start) := ⟨h, fun _ _ => rfl⟩

structure SharedRight (file : RemoteFile) (fs : HTTPFileSystem) : Prop where
  ready : ∀ e ∈ fs.zone.ready, Right file e.1.1 e.1.2 e.2.payload
  disk : ∀ c, fs.blockCache = some c → ∀ key v, c key = some v → Right file key.1 key.2 v.2

theorem submit_ready (z : PrefetchZone) (prefetchDepth length nextOffset blockSize : Nat) :
    (z.submit prefetchDepth length nextOffset blockSize).ready = z.ready := by
  unfold PrefetchZone.submit
  split_ifs
  · rfl
  · apply foldl_keeps PrefetchZone.ready
    intro z start
    show (if _ then z else { z with inflight := _ }).ready = z.ready
    split_ifs
    · rfl
    · rfl

theorem complete_ready {z : PrefetchZone} {key : Nat × Nat} {payload : Bytes}
    {e : (Nat × Nat) × ReadyEntry} (he : e ∈ (z.complete key payload).ready) :
    e ∈ z.ready ∨ e = (key, ⟨payload, key.2, 0⟩) := by
  unfold PrefetchZone.complete at he
  simp only [] at he
  split_ifs at he
  · rcases mem_cons.mp he with rfl | he
    · exact .inr rfl
    · exact .inl (mem_of_mem_eraseP (mem_of_mem_filter he))
  · exact .inl he
  · rcases mem_cons.mp he with rfl | he
    · exact .inr rfl
    · exact .inl (mem_of_mem_filter he)

theorem put_right {c : BlockCache} (h : ∀ key v, c key = some v → Right file key.1 key.2 v.2)
    {start : Nat} {data : Bytes} (hdata : Right file start len data) :
    ∀ key v, c.put start len data key = some v → Right file key.1 key.2 v.2 := by
  intro key v hv
  unfold BlockCache.put at hv
  split_ifs at hv
  · exact h key v hv
  · rw [Function.update_apply] at hv
    split_ifs at hv with hkey
    · cases hv
      rw [hkey]
      exact hdata
    · exact h key v hv

theorem SharedRight.apply (h : SharedRight file fs) (e : Event) : SharedRight file (fs.apply file e) := by
  cases e with
  | submitted prefetchDepth nextOffset blockSize =>
    refine ⟨?_, h.disk⟩
    show ∀ e ∈ (fs.zone.submit prefetchDepth file.length nextOffset blockSize).ready, _
    rw [submit_ready]
    exact h.ready
  | completed start len =>
    unfold HTTPFileSystem.apply
    simp only []
    split_ifs with hin
    · refine ⟨?_, h.disk⟩
      intro e he
      rcases complete_ready he with hold | rfl
      · exact h.ready e hold
      · exact right_getRangeRequest hin.2
    · exact h
  | failed start len => exact ⟨h.ready, h.disk⟩
  | stored start len =>
    unfold HTTPFileSystem.apply
    simp only []
    split_ifs with hin
    · refine ⟨h.ready, ?_⟩
      intro c hc
      obtain ⟨c₀, hc₀, rfl⟩ := Option.map_eq_some_iff.mp hc
      exact put_right (h.disk c₀ hc₀) (right_getRangeRequest hin)
    · exact h
  | pruned start len =>
    refine ⟨h.ready, ?_⟩
    intro c hc key v hv
    obtain ⟨c₀, hc₀, rfl⟩ := Option.map_eq_some_iff.mp hc
    rw [Function.update_apply] at hv
    split_ifs at hv
    exact h.disk c₀ hc₀ key v hv

theorem SharedRight.events (h : SharedRight file fs) (es : List Event) :
    SharedRight file (es.foldl (HTTPFileSystem.apply file) fs) := by
  induction es generalizing fs with
  | nil => exact h
  | cons e es ih => exact ih (h.apply e)

end

/-! ## 2. The cache of a handle -/

section

variable {file : RemoteFile} {cache : List CachedBlock} {pos : Nat}

/-- The blocks hold the bytes of the file, and none is longer than `B`. -/
def BlocksRight (file : RemoteFile) (B : Nat) (cache : List CachedBlock) : Prop :=
  ∀ b ∈ cache, Right file b.offset b.length b.data ∧ b.length ≤ B

variable {B : Nat} {b : CachedBlock}

theorem covers_iff : b.covers pos = true ↔ b.offset ≤ pos ∧ pos < b.offset + b.length := by
  unfold CachedBlock.covers
  rw [Bool.and_eq_true, decide_eq_true_iff, decide_eq_true_iff]

theorem lookupCachedBlock_spec (h : BlocksRight file B cache) {cache' : List CachedBlock}
    (hb : lookupCachedBlock cache pos = some (b, cache')) :
    Right file b.offset b.length b.data ∧ b.length ≤ B ∧ b.offset ≤ pos ∧ pos < b.offset + b.length ∧
      BlocksRight file B cache' := by
  unfold lookupCachedBlock at hb
  cases hfind : cache.find? (·.covers pos) with
  | none =>
    rw [hfind] at hb
    exact absurd hb nofun
  | some b' =>
    rw [hfind] at hb
    cases hb
    have hmem := mem_of_find?_eq_some hfind
    have hcovers : b.covers pos = true := by simpa using find?_some hfind
    obtain ⟨hle, hlt⟩ := covers_iff.mp hcovers
    refine ⟨(h b hmem).1, (h b hmem).2, hle, hlt, ?_⟩
    intro b'' hb''
    rcases mem_cons.mp hb'' with rfl | hb''
    · exact h _ hmem
    · exact h b'' (mem_of_mem_eraseP hb'')

theorem lookupCachedBlock_none (h : lookupCachedBlock cache pos = none) :
    cache.any (·.covers pos) = false := by
  unfold lookupCachedBlock at h
  cases hfind : cache.find? (·.covers pos) with
  | none =>
    rw [any_eq_false]
    exact fun b hb => List.find?_eq_none.mp hfind b hb
  | some b =>
    rw [hfind] at h
    exact absurd h nofun

theorem cacheBlock_right (h : BlocksRight file B cache)
    (hb : Right file b.offset b.length b.data ∧ b.length ≤ B) (n : Nat) :
    BlocksRight file B (cacheBlock n cache b) := by
  intro b' hb'
  rcases mem_cons.mp (mem_of_mem_take hb') with rfl | hb'
  · exact hb
  · exact h b' hb'

theorem cacheBlock_covers (hb : b.covers pos = true) {n : Nat} (hn : 0 < n) :
    (cacheBlock n cache b).any (·.covers pos) = true := by
  obtain ⟨k, rfl⟩ := Nat.exists_eq_add_of_le' hn
  unfold cacheBlock
  rw [take_succ_cons, any_cons, hb, Bool.true_or]

end

/-! ## 3. One round -/

theorem memcpy_congr (m : Memory) (dest : Int) {src src' : Bytes} {len : Nat}
    (h : ∀ i, i < len → src i = src' i) : memcpy m dest src len = memcpy m dest src' len := by
  funext a
  unfold memcpy
  by_cases ha : dest ≤ a ∧ a < dest + len
  · rw [if_pos ha, if_pos ha]
    exact h _ (by omega)
  · rw [if_neg ha, if_neg ha]

section

variable {file : RemoteFile} {B position : Nat} {l : ReadLoop}

/-- The layers are right; `B` bounds the blocks that the configuration can ask for. -/
structure LayersRight (file : RemoteFile) (B : Nat) (fs : HTTPFileSystem) (info : HTTPFileInfo) : Prop where
  shared : SharedRight file fs
  blocks : BlocksRight file B info.readCache
  readBuffer_le : min info.httpConfig.readBufferSize file.length ≤ B
  metadataReadBuffer_le : min info.httpConfig.metadataReadBufferSize file.length ≤ B
  length : info.length = file.length ∨ info.length = 0

variable {fs : HTTPFileSystem} {l' : ReadLoop} {b : CachedBlock} {pos : Nat}

theorem LayersRight.of_eq {info info' : HTTPFileInfo} (h : LayersRight file B fs info)
    (hcache : info'.readCache = info.readCache) (hconfig : info'.httpConfig = info.httpConfig)
    (hlength : info'.length = info.length) :
    LayersRight file B fs info' where
  shared := h.shared
  blocks := hcache ▸ h.blocks
  readBuffer_le := hconfig ▸ h.readBuffer_le
  metadataReadBuffer_le := hconfig ▸ h.metadataReadBuffer_le
  length := hlength ▸ h.length

abbrev LoopRight (file : RemoteFile) (B : Nat) (l : ReadLoop) : Prop := LayersRight file B l.fs l.info

/-- The part of a handle that no round changes. -/
def ReadLoop.fixed (l : ReadLoop) : Nat × HTTPConfig × Option LocalFile × Bool :=
  (l.info.length, l.info.httpConfig, l.info.cachedFileInfo, l.info.immutableContent)

/-- The part of the loop that only a served block changes. -/
def ReadLoop.progress (l : ReadLoop) : Memory × Int × Nat × Nat :=
  (l.buffer, l.bufferOffset, l.numBytesToRead, l.info.fileOffset)

theorem progress_eq {l : ReadLoop} (h : l'.progress = l.progress) :
    l'.buffer = l.buffer ∧ l'.bufferOffset = l.bufferOffset ∧ l'.numBytesToRead = l.numBytesToRead ∧
      l'.info.fileOffset = l.info.fileOffset := by
  unfold ReadLoop.progress at h
  simpa only [Prod.mk.injEq] using h

/-- A block was put in the cache; it covers the position, if that is in the file. -/
structure Fetched (file : RemoteFile) (B pos : Nat) (l l' : ReadLoop) : Prop where
  right : LoopRight file B l'
  fixed : l'.fixed = l.fixed
  progress : l'.progress = l.progress
  stopped : l'.stopped = l.stopped
  covers : pos < file.length → l'.info.readCache.any (·.covers pos) = true

theorem fetched_cache (h : LoopRight file B l)
    (hb : Right file b.offset b.length b.data ∧ b.length ≤ B)
    (hpos : pos < file.length → b.covers pos = true) : Fetched file B pos l (l.cache b) where
  right := ⟨h.shared, cacheBlock_right h.blocks hb _, h.readBuffer_le, h.metadataReadBuffer_le, h.length⟩
  fixed := rfl
  progress := rfl
  stopped := rfl
  covers := fun hin => cacheBlock_covers (hpos hin) l.info.httpConfig.readCacheBlocks_pos

theorem Fetched.shared (h : Fetched file B pos { l with fs } l') : Fetched file B pos l l' :=
  ⟨h.right, h.fixed, h.progress, h.stopped, h.covers⟩

theorem diskCache_right (h : LoopRight file B l) {c : BlockCache} (hc : l.diskCache = some c) :
    ∀ key v, c key = some v → Right file key.1 key.2 v.2 := by
  unfold ReadLoop.diskCache at hc
  split_ifs at hc
  exact h.shared.disk c hc

section

variable {blockSize start len pos : Nat}

section

variable (h : LoopRight file B l) (hin : start + len ≤ file.length) (hlen : len ≤ B)
  (hpos : pos < file.length → start ≤ pos ∧ pos < start + len)

include h hin hlen hpos

theorem fetched_fetch : Fetched file B pos l (l.fetch file blockSize start len) := by
  apply Fetched.shared
  apply fetched_cache
  · refine ⟨⟨?_, ?_⟩, h.blocks, h.readBuffer_le, h.metadataReadBuffer_le, h.length⟩
    · intro e he
      have hready : e ∈ l.fs.zone.ready := by
        split_ifs at he
        · rw [submit_ready] at he
          exact he
        · exact he
      exact h.shared.ready e hready
    · intro c hc
      cases hdisk : l.diskCache with
      | none =>
        rw [hdisk] at hc
        exact h.shared.disk c hc
      | some c₀ =>
        rw [hdisk] at hc
        cases hc
        exact put_right (diskCache_right h hdisk) (right_getRangeRequest hin)
  · exact ⟨right_getRangeRequest hin, hlen⟩
  · exact fun hlt => covers_iff.mpr (hpos hlt)

theorem fetched_fromDisk : Fetched file B pos l (l.fromDisk file blockSize start len) := by
  unfold ReadLoop.fromDisk
  cases hget : l.diskCache.bind (·.get start len) with
  | none => exact fetched_fetch h hin hlen hpos
  | some data =>
    obtain ⟨c, hc, hdata⟩ := Option.bind_eq_some_iff.mp hget
    -- a file of another size is a miss
    have hright : Right file start len data := by
      unfold BlockCache.get at hdata
      cases hkey : c (start, len) with
      | none =>
        rw [hkey] at hdata
        exact absurd hdata nofun
      | some v =>
        rw [hkey] at hdata
        have hv := diskCache_right h hc (start, len) v hkey
        simp only [] at hdata
        split_ifs at hdata
        cases hdata
        exact hv
    exact fetched_cache h ⟨hright, hlen⟩ (fun hlt => covers_iff.mpr (hpos hlt))

theorem fetched_fromZone : Fetched file B pos l (l.fromZone file blockSize start len) := by
  unfold ReadLoop.fromZone
  split_ifs
  · cases htake : l.fs.zone.take (start, len) with
    | none => exact fetched_fromDisk h hin hlen hpos
    | some r =>
      unfold PrefetchZone.take at htake
      cases hfind : l.fs.zone.ready.find? fun e => e.1 = (start, len) with
      | none =>
        rw [hfind] at htake
        exact absurd htake nofun
      | some e =>
        rw [hfind] at htake
        cases htake
        have hmem := mem_of_find?_eq_some hfind
        have hkey : e.1 = (start, len) := by simpa using find?_some hfind
        have hright : Right file start len e.2.payload := by
          have hready := h.shared.ready e hmem
          rw [hkey] at hready
          exact hready
        -- counting changes no payload
        have hcounted : LoopRight file B { l with fs := { l.fs with zone := { l.fs.zone with
            ready := l.fs.zone.ready.map fun e => if e.1 = (start, len)
              then (e.1, { e.2 with consumeCount := e.2.consumeCount + 1 }) else e } } } := by
          refine ⟨⟨?_, h.shared.disk⟩, h.blocks, h.readBuffer_le, h.metadataReadBuffer_le, h.length⟩
          intro e' he'
          obtain ⟨e₀, he₀, rfl⟩ := mem_map.mp he'
          have hready := h.shared.ready e₀ he₀
          split_ifs
          all_goals exact hready
        simp only []
        split_ifs
        · exact (fetched_cache hcounted ⟨hright, hlen⟩ (fun hlt ↦ covers_iff.mpr (hpos hlt))).shared
        · exact (fetched_fromDisk hcounted hin hlen hpos).shared
  · exact fetched_fromDisk h hin hlen hpos

end

end

def blockSizeFor (config : HTTPConfig) (numBytesToRead : Nat) : Nat :=
  if numBytesToRead ≤ config.metadataReadBufferSize then config.metadataReadBufferSize
  else config.readBufferSize

theorem blockSizeFor_pos (config : HTTPConfig) (n : Nat) : 0 < blockSizeFor config n := by
  unfold blockSizeFor
  split_ifs
  · exact config.metadataReadBufferSize_pos
  · exact config.readBufferSize_pos

/-- The block of a position begins at the end of the file or behind it. -/
def StopsAt (config : HTTPConfig) (length pos numBytesToRead : Nat) : Prop :=
  length ≤ pos / blockSizeFor config numBytesToRead * blockSizeFor config numBytesToRead

instance (config : HTTPConfig) (length pos n : Nat) : Decidable (StopsAt config length pos n) :=
  inferInstanceAs (Decidable (_ ≤ _))

theorem below_stops (h : StopsAt l.info.httpConfig l.info.length pos l.numBytesToRead) :
    l.below file pos = { l with stopped := true } := if_pos h

theorem below_fetches (h : LoopRight file B l)
    (hend : ¬ StopsAt l.info.httpConfig l.info.length pos l.numBytesToRead) :
    Fetched file B pos l (l.below file pos) := by
  have hB : min (blockSizeFor l.info.httpConfig l.numBytesToRead) file.length ≤ B := by
    unfold blockSizeFor
    split_ifs
    · exact h.metadataReadBuffer_le
    · exact h.readBuffer_le
  have hfetch : ∀ blockSize, 0 < blockSize → min blockSize file.length ≤ B →
      ¬ l.info.length ≤ pos / blockSize * blockSize → Fetched file B pos l
        (if pos / blockSize * blockSize ≥ l.info.length then { l with stopped := true }
        else if min blockSize (l.info.length - pos / blockSize * blockSize) = 0 then
          { l with stopped := true }
        else l.fromZone file blockSize (pos / blockSize * blockSize)
          (min blockSize (l.info.length - pos / blockSize * blockSize))) := by
    intro blockSize hpos hB hend
    have hle : pos / blockSize * blockSize ≤ pos := Nat.div_mul_le_self pos blockSize
    have hlt : pos < pos / blockSize * blockSize + blockSize := by
      have hmod := Nat.mod_lt pos hpos
      have hdiv := Nat.div_add_mod' pos blockSize
      omega
    have hlength : l.info.length = file.length := h.length.resolve_right (by omega)
    rw [if_neg hend, if_neg (by omega)]
    exact fetched_fromZone h (by omega) (by omega) (by omega)
  exact hfetch _ (blockSizeFor_pos _ _) hB hend

/-- The layers below the cache put a block in it, or the loop stops at a position that is not in the
file. -/
theorem below_cases (h : LoopRight file B l) (pos : Nat) : Fetched file B pos l (l.below file pos) ∨
      (l.below file pos = { l with stopped := true } ∧ l.info.length ≤ pos) := by
  by_cases hend : StopsAt l.info.httpConfig l.info.length pos l.numBytesToRead
  · exact .inr ⟨below_stops hend, Nat.le_trans hend (Nat.div_mul_le_self pos _)⟩
  · exact .inl (below_fetches h hend)

/-- Bytes were served from the cache. -/
structure Served (file : RemoteFile) (B pos : Nat) (l l' : ReadLoop) (served : Nat) : Prop where
  right : LoopRight file B l'
  fixed : l'.fixed = l.fixed
  stopped : l'.stopped = l.stopped
  served_pos : 0 < served
  served_le : served ≤ l.numBytesToRead ∧ served ≤ B
  inside : pos + served ≤ file.length
  buffer : l'.buffer = memcpy l.buffer l.bufferOffset (fun i => file.content (pos + i)) served
  bufferOffset : l'.bufferOffset = toInt32 (l.bufferOffset + served)
  numBytesToRead : l'.numBytesToRead = l.numBytesToRead - served
  fileOffset : l'.info.fileOffset = (l.info.fileOffset + served) % 2 ^ 64

theorem copySpanPortion_spec {m : Memory} {dest : Int} {remaining : Nat}
    (hb : Right file b.offset b.length b.data) (hpos : b.offset ≤ pos ∧ pos < b.offset + b.length) :
    copySpanPortion m dest b.data b.offset b.length pos remaining =
      (memcpy m dest (fun i => file.content (pos + i)) (min (b.offset + b.length - pos) remaining),
        min (b.offset + b.length - pos) remaining) := by
  obtain ⟨hin, hdata⟩ := hb
  have hlt := file.length_lt
  have hoffset : (pos + 2 ^ 64 - b.offset) % 2 ^ 64 = pos - b.offset := by omega
  have hlen : b.length - (pos - b.offset) = b.offset + b.length - pos := by omega
  unfold copySpanPortion
  rw [hoffset]
  simp only [ge_iff_le, if_neg (show ¬ b.length ≤ pos - b.offset by omega), hlen]
  rw [memcpy_congr]
  intro i hi
  have hi' := hdata (pos - b.offset + i) (by omega)
  rw [hi']
  congr 1
  omega

/-- What a round can do: it serves bytes, puts a block in the cache, or stops at a position that is not
in the file. -/
theorem next_cases (position : Nat) (events : Nat → List Event) (h : LoopRight file B l) (hpos : 0 < l.numBytesToRead) :
    (∃ served, Served file B (l.currentPos position) l (l.next file events position) served) ∨
      (Fetched file B (l.currentPos position) l (l.next file events position) ∧
        l.info.readCache.any (·.covers (l.currentPos position)) = false) ∨
      ((l.next file events position).progress = l.progress ∧
        (l.next file events position).stopped = true ∧
        LoopRight file B (l.next file events position) ∧
        (l.next file events position).fixed = l.fixed ∧ l.info.length ≤ l.currentPos position) := by
  -- the other threads only change the shared layers
  have hshared : LoopRight file B { l with
      fs := (events l.round).foldl (HTTPFileSystem.apply file) l.fs, round := l.round + 1 } :=
    ⟨h.shared.events _, h.blocks, h.readBuffer_le, h.metadataReadBuffer_le, h.length⟩
  have hcurrent : ({ l with
      fs := (events l.round).foldl (HTTPFileSystem.apply file) l.fs,
      round := l.round + 1 } : ReadLoop).currentPos position = l.currentPos position := rfl
  unfold ReadLoop.next
  simp only [hcurrent]
  cases hlook : lookupCachedBlock l.info.readCache (l.currentPos position) with
  | none =>
    right
    have hnone := lookupCachedBlock_none hlook
    rcases below_cases hshared (l.currentPos position) with hfetch | ⟨hstop, hend⟩
    · left
      exact ⟨⟨hfetch.right, hfetch.fixed, hfetch.progress, hfetch.stopped, hfetch.covers⟩, hnone⟩
    · right
      rw [hstop]
      exact ⟨rfl, rfl, ⟨hshared.shared, h.blocks, h.readBuffer_le, h.metadataReadBuffer_le, h.length⟩,
        rfl, hend⟩
  | some r =>
    left
    obtain ⟨block, readCache⟩ := r
    obtain ⟨hright, hB, hle, hlt, hcache⟩ := lookupCachedBlock_spec h.blocks hlook
    have hserved : 0 < min (block.offset + block.length - l.currentPos position) l.numBytesToRead := by
      omega
    simp only [copySpanPortion_spec hright ⟨hle, hlt⟩, if_pos hserved]
    have hin := hright.1
    exact ⟨min (block.offset + block.length - l.currentPos position) l.numBytesToRead,
      { right := ⟨hshared.shared, hcache, h.readBuffer_le, h.metadataReadBuffer_le, h.length⟩
        fixed := rfl
        stopped := rfl
        served_pos := hserved
        served_le := by omega
        inside := by omega
        buffer := rfl
        bufferOffset := rfl
        numBytesToRead := rfl
        fileOffset := rfl }⟩

end

/-! ## 4. The whole read -/

section

variable {file : RemoteFile} {position numBytes : Nat} {m : Memory}

/-- The memory after a read of some bytes into the buffer. -/
def Filled (file : RemoteFile) (position n : Nat) (m m' : Memory) : Prop :=
  m' = memcpy m 0 (fun i => file.content (position + i)) n

structure ReadInv (file : RemoteFile) (position numBytes : Nat) (m : Memory) (start l : ReadLoop) :
    Prop where
  right : LoopRight file file.length l
  fixed : l.fixed = start.fixed
  running : l.stopped = false
  le : l.numBytesToRead ≤ numBytes
  bufferOffset : l.bufferOffset = toInt32 ((numBytes - l.numBytesToRead : Nat) : Int)
  fileOffset : l.info.fileOffset = position + (numBytes - l.numBytesToRead)
  buffer : Filled file position (numBytes - l.numBytesToRead) m l.buffer

theorem memcpy_append (m : Memory) (content : Bytes) (position k served : Nat) :
    memcpy (memcpy m 0 (fun i => content (position + i)) k) k
        (fun i => content (position + k + i)) served =
      memcpy m 0 (fun i => content (position + i)) (k + served) := by
  funext a
  unfold memcpy
  by_cases hlow : (0 : Int) ≤ a ∧ a < 0 + k
  · rw [if_neg (by omega), if_pos hlow, if_pos (by omega)]
  · by_cases hhigh : (k : Int) ≤ a ∧ a < k + served
    · rw [if_pos hhigh, if_pos (by omega)]
      show content (position + k + (a - k).toNat) = content (position + (a - 0).toNat)
      have hindex : position + k + (a - k).toNat = position + (a - 0).toNat := by omega
      rw [hindex]
    · rw [if_neg hhigh, if_neg hlow, if_neg (by omega)]

theorem readInv_next (events : Nat → List Event) {start l : ReadLoop} (hn : numBytes ≤ 2 ^ 31)
    (hin : position + numBytes ≤ file.length) (hlength : start.info.length = file.length)
    (h : ReadInv file position numBytes m start l) (hpos : 0 < l.numBytesToRead) :
    ReadInv file position numBytes m start (l.next file events position) ∧
      (2 * (l.next file events position).numBytesToRead +
          (if (l.next file events position).info.readCache.any
            (·.covers ((l.next file events position).currentPos position)) then 0 else 1) <
        2 * l.numBytesToRead +
          (if l.info.readCache.any (·.covers (l.currentPos position)) then 0 else 1)) := by
  have hle := h.le
  have hlt := file.length_lt
  have hoffset : l.bufferOffset = ((numBytes - l.numBytesToRead : Nat) : Int) := by
    rw [h.bufferOffset, toInt32_of_lt (by omega)]
  have hcurrent : l.currentPos position = position + (numBytes - l.numBytesToRead) := by
    unfold ReadLoop.currentPos
    rw [hoffset, addInt64_natCast]
    omega
  have hl : l.info.length = file.length := by
    have hfixed := congrArg Prod.fst h.fixed
    exact hfixed.trans hlength
  rcases next_cases position events h.right hpos with ⟨served, hs⟩ | ⟨hf, hcold⟩ | hstop
  · have hserved := hs.served_le.1
    have hserved_pos := hs.served_pos
    have hnum := hs.numBytesToRead
    have hdone : numBytes - (l.numBytesToRead - served) = numBytes - l.numBytesToRead + served := by
      omega
    refine ⟨⟨hs.right, hs.fixed.trans h.fixed, hs.stopped.trans h.running, by omega, ?_, ?_, ?_⟩, ?_⟩
    · rw [hs.bufferOffset, hoffset, hnum, hdone]
      rfl
    · rw [hs.fileOffset, h.fileOffset, hnum]
      omega
    · rw [hs.buffer, hnum, hdone, hoffset, hcurrent]
      rw [h.buffer]
      exact memcpy_append m file.content position _ served
    · rw [hnum]
      split_ifs <;> omega
  · obtain ⟨hbuffer, hbufferOffset, hnum, hfileOffset⟩ := progress_eq hf.progress
    have hcurrent' : (l.next file events position).currentPos position = l.currentPos position := by
      unfold ReadLoop.currentPos
      rw [hbufferOffset]
    refine ⟨⟨hf.right, hf.fixed.trans h.fixed, hf.stopped.trans h.running, ?_, ?_, ?_, ?_⟩, ?_⟩
    · rw [hnum]
      exact hle
    · rw [hbufferOffset, hnum]
      exact h.bufferOffset
    · rw [hfileOffset, hnum]
      exact h.fileOffset
    · rw [hbuffer, hnum]
      exact h.buffer
    · -- the position was not in the cache, and is now
      rw [hnum, hcurrent', hcold, hf.covers (by omega)]
      exact Nat.lt_succ_self _
  · -- the position is in the file
    omega

variable {h : Handle}

/-- A read of at most `2^31` bytes inside the file ends, with the bytes in the buffer and nothing else
changed in memory. -/
theorem readFromFile_halts (numBytes position : Nat) (events : Nat → List Event) (m : Memory)
    (hright : LayersRight file file.length h.fs h.info) (hlength : h.info.length = file.length)
    (hn : numBytes ≤ 2 ^ 31) (hin : position + numBytes ≤ file.length) :
    ∃ h' m', Halts (readFromFile file events h m numBytes position) (h', m') ∧
      Filled file position numBytes m m' ∧ h'.info.fileOffset = position + numBytes ∧
      LayersRight file file.length h'.fs h'.info ∧ h'.info.length = file.length ∧
      h'.info.cachedFileInfo = h.info.cachedFileInfo := by
  let start := ReadLoop.start h m numBytes position
  have hstart : ReadInv file position numBytes m start start := by
    refine ⟨hright.of_eq rfl rfl rfl, rfl, rfl, Nat.le_refl _, ?_, ?_, ?_⟩
    · show 0 = toInt32 ((numBytes - numBytes : Nat) : Int)
      rw [Nat.sub_self]
      rfl
    · show position = position + (numBytes - numBytes)
      omega
    · show m = memcpy m 0 _ (numBytes - numBytes)
      funext a
      unfold memcpy
      rw [if_neg (by omega)]
  let measure := fun l : ReadLoop => 2 * l.numBytesToRead +
    if l.info.readCache.any (·.covers (l.currentPos position)) then 0 else 1
  obtain ⟨l, hhalts, hinv, hend⟩ := while_halts ReadLoop.running
    (fun _ l => some (l.next file events position)) (InvImage.wf measure Nat.lt_wfRel.wf)
    (ReadInv file position numBytes m start)
    (by
      intro l hl hrun
      unfold ReadLoop.running at hrun
      rw [Bool.and_eq_true, decide_eq_true_iff] at hrun
      obtain ⟨hnext, hless⟩ := readInv_next events hn hin hlength hl hrun.2
      exact ⟨_, halts_const _, hnext, hless⟩) hstart
  -- the loop has not been left by a break
  have hzero : l.numBytesToRead = 0 := by
    unfold ReadLoop.running at hend
    rw [hinv.running, Bool.not_false, Bool.true_and, decide_eq_false_iff_not] at hend
    omega
  have hfileOffset := hinv.fileOffset
  have hbuffer := hinv.buffer
  rw [hzero, Nat.sub_zero] at hfileOffset hbuffer
  refine ⟨⟨l.fs, l.info⟩, l.buffer, hhalts.map _, hbuffer, hfileOffset, hinv.right, ?_, ?_⟩
  · exact (congrArg Prod.fst hinv.fixed).trans hlength
  · exact congrArg (fun p => p.2.2.1) hinv.fixed

theorem readFromFile_right {B fuel : Nat} {events : Nat → List Event} {h' : Handle} {m' : Memory}
    (hright : LayersRight file B h.fs h.info) (hpos : position < 2 ^ 64)
    (hrun : readFromFile file events h m numBytes position fuel = some (h', m')) :
    LayersRight file B h'.fs h'.info ∧ h'.info.length = h.info.length ∧
      h'.info.cachedFileInfo = h.info.cachedFileInfo ∧ h'.info.fileOffset < 2 ^ 64 := by
  obtain ⟨l, hl, heq⟩ := Option.map_eq_some_iff.mp hrun
  cases heq
  have hstart : LoopRight file B (.start h m numBytes position) := hright.of_eq rfl rfl rfl
  have hinv := while_inv
    (fun l => LoopRight file B l ∧ l.fixed = (ReadLoop.start h m numBytes position).fixed ∧
      l.info.fileOffset < 2 ^ 64)
    (by
      intro l l' hinv hrunning hnext
      cases hnext
      unfold ReadLoop.running at hrunning
      rw [Bool.and_eq_true, decide_eq_true_iff] at hrunning
      rcases next_cases position events hinv.1 hrunning.2 with ⟨served, hs⟩ | ⟨hf, -⟩ | hstop
      · refine ⟨hs.right, hs.fixed.trans hinv.2.1, ?_⟩
        rw [hs.fileOffset]
        exact Nat.mod_lt _ (by decide)
      · refine ⟨hf.right, hf.fixed.trans hinv.2.1, ?_⟩
        rw [(progress_eq hf.progress).2.2.2]
        exact hinv.2.2
      · refine ⟨hstop.2.2.1, hstop.2.2.2.1.trans hinv.2.1, ?_⟩
        rw [(progress_eq hstop.1).2.2.2]
        exact hinv.2.2)
    ⟨hstart, rfl, hpos⟩ hl
  exact ⟨hinv.1, congrArg Prod.fst hinv.2.1, congrArg (fun p => p.2.2.1) hinv.2.1, hinv.2.2⟩

end

/-! ## 5. Reachable handles -/

section

variable {file : RemoteFile} {h : Handle}

structure HandleRight (file : RemoteFile) (h : Handle) : Prop where
  layers : LayersRight file file.length h.fs h.info
  length : h.info.cachedFileInfo = none → h.info.length = file.length
  fileOffset : h.info.fileOffset < 2 ^ 64

theorem created_right (file : RemoteFile) (prefetchPool blockCache : Bool) :
    SharedRight file (.created prefetchPool blockCache) := by
  refine ⟨fun e he => absurd he not_mem_nil, ?_⟩
  intro c hc key v hv
  unfold HTTPFileSystem.created at hc
  split_ifs at hc
  cases hc
  exact absurd hv nofun

theorem HandleRight.opened (file : RemoteFile) {fs : HTTPFileSystem} (hfs : SharedRight file fs)
    (config : HTTPConfig) (immutableContent copied : Bool) :
    HandleRight file (openFile file fs config immutableContent copied) := by
  unfold openFile
  refine ⟨⟨hfs, fun b hb => absurd hb not_mem_nil, Nat.min_le_right _ _, Nat.min_le_right _ _, ?_⟩,
    ?_, Nat.two_pow_pos 64⟩
  · split_ifs
    · exact .inr rfl
    · exact .inl rfl
  · intro hcached
    split_ifs at hcached ⊢
    rfl

variable {numBytes fuel : Nat} {m m' : Memory} {h' : Handle}

theorem HandleRight.readFromFile (hright : HandleRight file h) {events : Nat → List Event}
    {position : Nat} (hpos : position < 2 ^ 64)
    (hrun : readFromFile file events h m numBytes position fuel = some (h', m')) :
    HandleRight file h' := by
  obtain ⟨hlayers, hlength, hcached, hoffset⟩ := readFromFile_right hright.layers hpos hrun
  refine ⟨hlayers, ?_, hoffset⟩
  intro hnone
  rw [hlength]
  exact hright.length (hcached ▸ hnone)

theorem HandleRight.readFile (hright : HandleRight file h) {events : Nat → List Event} {n : Nat}
    (hrun : readFile file events h m numBytes fuel = some (h', m', n)) : HandleRight file h' := by
  unfold Httpfs.readFile at hrun
  cases hcached : h.info.cachedFileInfo with
  | some f =>
    rw [hcached] at hrun
    cases hrun
    exact ⟨hright.layers.of_eq rfl rfl rfl, fun hnone => absurd hnone nofun, hright.fileOffset⟩
  | none =>
    rw [hcached] at hrun
    split_ifs at hrun
    · cases hrun
      exact hright
    · obtain ⟨r, hr, heq⟩ := Option.map_eq_some_iff.mp hrun
      cases heq
      exact hright.readFromFile hright.fileOffset hr

theorem HandleRight.seek (hright : HandleRight file h) {offset : Nat} (hoffset : offset < 2 ^ 64) :
    HandleRight file (seek h offset) := by
  unfold Httpfs.seek
  cases hcached : h.info.cachedFileInfo with
  | some f =>
    exact ⟨hright.layers.of_eq rfl rfl rfl, fun hnone => absurd hnone nofun, hright.fileOffset⟩
  | none =>
    exact ⟨hright.layers.of_eq rfl rfl rfl, fun _ => hright.length hcached, hoffset⟩

theorem Reached.right (hr : Reached file h) : HandleRight file h := by
  induction hr with
  | opened prefetchPool blockCache config immutableContent copied =>
    exact HandleRight.opened file (created_right file prefetchPool blockCache) _ _ _
  | downloaded _ _ ih =>
    exact ⟨ih.layers.of_eq rfl rfl rfl, fun hnone => absurd hnone nofun, Nat.two_pow_pos 64⟩
  | event e _ ih =>
    have hlayers := ih.layers
    exact ⟨⟨hlayers.shared.apply e, hlayers.blocks, hlayers.readBuffer_le,
      hlayers.metadataReadBuffer_le, hlayers.length⟩, ih.length, ih.fileOffset⟩
  | readFromFile events numBytes position fuel hpos _ hrun ih => exact ih.readFromFile hpos hrun
  | readFile events numBytes fuel _ hrun ih => exact ih.readFile hrun
  | seek offset hoffset _ ih => exact ih.seek hoffset

end

end Ladybug.Httpfs
