import Ladybug.Httpfs.CachedFiles

/-!
# Reads through local copies

A download ends with a copy of the whole file.  As long as no open finds a copy that an open of another
path or a failed download has left, sequential reads through every open file return its own bytes, and
so do positional reads of files that were downloaded by their own open.
-/

namespace Ladybug.CachedFiles

open Ladybug.Httpfs List Option Function

/-! ## 1. A download -/

section

variable {file : RemoteFile} (fault : Option Fault)

def LocalCopy.Prefix (file : RemoteFile) (n : Nat) (c : LocalCopy) : Prop :=
  c.length = n ∧ ∀ i, i < n → c.content i = file.content i

def LocalCopy.Complete (file : RemoteFile) (c : LocalCopy) : Prop := c.Prefix file file.length

theorem created_prefix (file : RemoteFile) : LocalCopy.created.Prefix file 0 :=
  ⟨rfl, fun _ hi => absurd hi (Nat.not_lt_zero _)⟩

theorem LocalCopy.Prefix.writeFile {c : LocalCopy} {offset n : Nat} {m m' : Memory}
    (h : c.Prefix file offset) (hfilled : Filled file offset n m m') :
    (c.writeFile m' n offset).Prefix file (offset + n) := by
  obtain ⟨hlength, hcontent⟩ := h
  constructor
  · show (if n = 0 then c.length else max c.length (offset + n)) = offset + n
    split <;> omega
  · intro i hi
    show (if offset ≤ i ∧ i < offset + n then m' ((i - offset : Nat) : Int) else c.content i) = _
    by_cases hin : offset ≤ i
    · rw [if_pos ⟨hin, hi⟩, hfilled]
      unfold memcpy
      have hback : offset + (i - offset) = i := by omega
      rw [if_pos (by omega), Int.sub_zero, Int.toNat_natCast]
      show file.content (offset + (i - offset)) = file.content i
      rw [hback]
    · rw [if_neg (by omega)]
      exact hcontent i (by omega)

/-- After some rounds. -/
structure Download.Right (file : RemoteFile) (d : Download) : Prop where
  handle : HandleRight file d.handle
  noCopy : d.handle.info.cachedFileInfo = none
  offset : d.failed = false → d.handle.info.fileOffset = d.offsetToWrite
  copy : d.failed = false → d.copy.Prefix file d.offsetToWrite
  inside : d.failed = false → d.offsetToWrite ≤ file.length

theorem Download.Right.next {d : Download} (h : d.Right file) (events : Nat → Nat → List Event)
    (hgood : d.failed = false) :
    ∃ d', Halts (fun fuel => d.next file events fault fuel) d' ∧ d'.Right file ∧
      (d'.failed = false → d'.numBytesRead = 0 → d'.offsetToWrite = file.length) ∧
      d'.offsetToWrite = d.offsetToWrite + (if d'.failed then 0 else d'.numBytesRead) ∧
      (fault = none → d'.failed = false) := by
  obtain ⟨h', m', hhalts, hfilled, hright, hnone, hoffset⟩ := readFile_halts h.handle h.noCopy
    maxSegmentSize (events d.round) d.downloadBuffer (by decide)
  rw [h.offset hgood] at hhalts hfilled hoffset
  have hinside := h.inside hgood
  cases hfault : failsIn fault d.round with
  | some written =>
    refine ⟨_, hhalts.map _, ?_⟩
    unfold Download.store
    rw [hfault]
    refine ⟨⟨hright, hnone, nofun, nofun, nofun⟩, nofun, rfl, fun hno => ?_⟩
    rw [hno] at hfault
    cases hfault
  | none =>
    refine ⟨_, hhalts.map _, ?_⟩
    unfold Download.store
    rw [hfault]
    refine ⟨⟨hright, hnone, fun _ ↦ hoffset, fun _ ↦ (h.copy hgood).writeFile hfilled, fun _ ↦ ?_⟩,
      fun _ hzero => ?_, ?_, fun _ => hgood⟩
    · show d.offsetToWrite + min maxSegmentSize (file.length - d.offsetToWrite) ≤ file.length
      omega
    · have hsegment : 0 < maxSegmentSize := by decide
      have hmin : min maxSegmentSize (file.length - d.offsetToWrite) = 0 := hzero
      show d.offsetToWrite + min maxSegmentSize (file.length - d.offsetToWrite) = file.length
      omega
    · rw [hgood, if_neg (by decide)]

theorem downloadFile_halts {h : Handle} (hright : HandleRight file h)
    (hnone : h.info.cachedFileInfo = none) (hstart : h.info.fileOffset = 0)
    (events : Nat → Nat → List Event) (downloadBuffer : Memory) :
    ∃ d, Halts (downloadFile file events fault h downloadBuffer) d ∧ HandleRight file d.handle ∧
      (d.failed = false → d.copy.Complete file) ∧ (fault = none → d.failed = false) := by
  have hright₀ : (Download.start h downloadBuffer).Right file :=
    ⟨hright, hnone, fun _ => hstart, fun _ => created_prefix file, fun _ => Nat.zero_le _⟩
  obtain ⟨d₁, hfirst, hright₁, hend₁, -, hgood₁⟩ := hright₀.next fault events rfl
  let measure := fun d : Download => 2 * (file.length - d.offsetToWrite) +
    if d.failed = false ∧ d.numBytesRead ≠ 0 then 1 else 0
  obtain ⟨d, hloop, ⟨hinv, hend, hgood⟩, hstop⟩ := while_halts Download.running
    (Download.next file events fault) (InvImage.wf measure Nat.lt_wfRel.wf)
    (fun d => d.Right file ∧
      (d.failed = false → d.numBytesRead = 0 → d.offsetToWrite = file.length) ∧
      (fault = none → d.failed = false))
    (by
      intro d hd hrun
      unfold Download.running at hrun
      rw [Bool.and_eq_true, Bool.not_eq_true', decide_eq_true_iff] at hrun
      obtain ⟨d', hnext, hright', hend', hoffset', hgood'⟩ := hd.1.next fault events hrun.1
      refine ⟨d', hnext, ⟨hright', hend', hgood'⟩, ?_⟩
      show 2 * (file.length - d'.offsetToWrite) +
          (if d'.failed = false ∧ d'.numBytesRead ≠ 0 then 1 else 0) <
        2 * (file.length - d.offsetToWrite) + if d.failed = false ∧ d.numBytesRead ≠ 0 then 1 else 0
      rw [if_pos hrun]
      cases hfailed : d'.failed with
      | true =>
        rw [if_neg (fun hbad => by cases hbad.1)]
        omega
      | false =>
        have hinside := hright'.inside hfailed
        rw [hfailed, if_neg (by decide)] at hoffset'
        split <;> omega)
    (s := d₁) ⟨hright₁, hend₁, hgood₁⟩
  refine ⟨d, hfirst.bind hloop, hinv.handle, fun hdone => ?_, hgood⟩
  unfold Download.running at hstop
  rw [hdone, Bool.not_false, Bool.true_and, decide_eq_false_iff_not, not_not] at hstop
  have hcopy := hinv.copy hdone
  rw [hend hdone hstop] at hcopy
  exact hcopy

end

/-! ## 2. Open files -/

section

variable {site : Site}

structure OpenFile.Right (site : Site) (fs : HTTPFileSystem) (f : OpenFile) : Prop where
  handle : HandleRight (site.files f.path) ⟨fs, f.info⟩
  length : ∀ copy, f.info.cachedFileInfo = some copy → copy.length = (site.files f.path).length
  content : ∀ copy, f.info.cachedFileInfo = some copy →
    ∀ i, i < copy.length → copy.content i = (site.files f.path).content i

theorem OpenFile.Right.of_shared {fs fs' : HTTPFileSystem} {f : OpenFile} (h : f.Right site fs)
    (hfs : SharedRight (site.files f.path) fs') : f.Right site fs' where
  handle := ⟨⟨hfs, h.handle.layers.blocks, h.handle.layers.readBuffer_le,
    h.handle.layers.metadataReadBuffer_le, h.handle.layers.length⟩, h.handle.length,
    h.handle.fileOffset⟩
  length := h.length
  content := h.content

/-- A call moves the position in a local copy, and changes nothing else of it. -/
def SameCopy (info info' : HTTPFileInfo) : Prop :=
  ∀ copy', info'.cachedFileInfo = some copy' →
    ∃ copy, info.cachedFileInfo = some copy ∧ copy'.length = copy.length ∧
      copy'.content = copy.content

theorem readFile_sameCopy {file : RemoteFile} {events : Nat → List Event} {h h' : Handle}
    {m m' : Memory} {numBytes fuel n : Nat} (hright : HandleRight file h)
    (hrun : readFile file events h m numBytes fuel = some (h', m', n)) :
    SameCopy h.info h'.info := by
  unfold readFile at hrun
  cases hcopy : h.info.cachedFileInfo with
  | some copy =>
    rw [hcopy] at hrun
    cases hrun
    intro copy' hcopy'
    cases hcopy'
    exact ⟨copy, hcopy, rfl, rfl⟩
  | none =>
    rw [hcopy] at hrun
    simp only [] at hrun
    split at hrun
    · cases hrun
      intro copy' hcopy'
      rw [hcopy] at hcopy'
      cases hcopy'
    · obtain ⟨r, hr, heq⟩ := map_eq_some_iff.mp hrun
      cases heq
      have hsame := (readFromFile_right hright.layers hright.fileOffset hr).2.2.1
      intro copy' hcopy'
      rw [hsame, hcopy] at hcopy'
      cases hcopy'

theorem seek_sameCopy (h : Handle) (offset : Nat) : SameCopy h.info (seek h offset).info := by
  unfold seek
  cases hcopy : h.info.cachedFileInfo with
  | some copy =>
    intro copy' hcopy'
    cases hcopy'
    exact ⟨copy, hcopy, rfl, rfl⟩
  | none =>
    intro copy' hcopy'
    have hnone : h.info.cachedFileInfo = some copy' := hcopy'
    rw [hcopy] at hnone
    cases hnone

theorem OpenFile.Right.next {fs : HTTPFileSystem} {f : OpenFile} (h : f.Right site fs) {h' : Handle}
    (hright : HandleRight (site.files f.path) h') (hsame : SameCopy f.info h'.info) :
    OpenFile.Right site h'.fs ⟨f.path, h'.info⟩ where
  handle := hright
  length := by
    intro copy' hcopy'
    obtain ⟨copy, hcopy, hlength, -⟩ := hsame copy' hcopy'
    rw [hlength]
    exact h.length copy hcopy
  content := by
    intro copy' hcopy' i hi
    obtain ⟨copy, hcopy, hlength, hcontent⟩ := hsame copy' hcopy'
    rw [hcontent]
    exact h.content copy hcopy i (hlength ▸ hi)

theorem readFile_copied (file : RemoteFile) (events : Nat → List Event) {h : Handle}
    {copy : LocalFile} (hcopy : h.info.cachedFileInfo = some copy) (buffer : Memory)
    (numBytes : Nat) :
    ∃ h', Halts (readFile file events h buffer numBytes) (h',
      memcpy buffer 0 (fun i => copy.content (copy.offset + i))
        (min numBytes (copy.length - copy.offset)), min numBytes (copy.length - copy.offset)) := by
  refine ⟨{ h with info := { h.info with cachedFileInfo := some { copy with
    offset := copy.offset + min numBytes (copy.length - copy.offset) } } }, 0, fun fuel _ => ?_⟩
  unfold readFile
  rw [hcopy]
  rfl

theorem OpenFile.Right.readsOwn {fs : HTTPFileSystem} {f : OpenFile} (h : f.Right site fs) :
    f.ReadsOwn (site.files f.path) fs := by
  constructor
  · intro numBytes buffer events hsmall
    cases hcopy : f.info.cachedFileInfo with
    | some copy =>
      have hlength := h.length copy hcopy
      have hcontent := h.content copy hcopy
      have hposition : (⟨fs, f.info⟩ : Handle).position = copy.offset := by
        unfold Handle.position
        rw [hcopy]
      rw [hposition, ← hlength]
      obtain ⟨h', hhalts⟩ := readFile_copied (site.files f.path) events (h := ⟨fs, f.info⟩) hcopy
        buffer numBytes
      refine ⟨h', _, _, hhalts, rfl, ?_⟩
      apply map_congr_left
      intro i hi
      rw [mem_range] at hi
      unfold memcpy
      rw [if_pos (by omega), Int.sub_zero, Int.toNat_natCast]
      exact hcontent _ (by omega)
    | none =>
      obtain ⟨h', buffer', hhalts, hfilled, -⟩ := readFile_halts h.handle hcopy numBytes events
        buffer (hsmall hcopy)
      have hposition : (⟨fs, f.info⟩ : Handle).position = f.info.fileOffset := by
        unfold Handle.position
        rw [hcopy]
      rw [hposition]
      exact ⟨h', buffer', _, hhalts, rfl, observe_filled hfilled⟩
  · intro numBytes position buffer events hsmall hin
    rcases h.handle.layers.length with hlength | hzero
    · have hinfo : f.info.length = (site.files f.path).length := hlength
      obtain ⟨h', buffer', hhalts, hfilled, -⟩ := readFromFile_halts numBytes position events buffer
        h.handle.layers hlength hsmall (hinfo ▸ hin)
      exact ⟨h', buffer', hhalts, observe_filled hfilled⟩
    · -- nothing is asked for
      have hinfo : f.info.length = 0 := hzero
      have hnone : numBytes = 0 := by omega
      rw [hnone]
      exact ⟨_, buffer, readFromFile_zero _ events _ buffer position, rfl⟩

end

/-! ## 3. Runs -/

section

variable {site : Site}

structure CopiesFrom (site : Site) (calls : List Call) (s : CachingFileSystem) : Prop where
  absent : ∀ key, origin site calls key = none → s.copies key = none
  complete : ∀ key path, origin site calls key = some (path, true) →
    ∃ c, s.copies key = some c ∧ c.Complete (site.files path)

structure CachingFileSystem.Right (site : Site) (calls : List Call) (s : CachingFileSystem) : Prop where
  layers : ∀ path, SharedRight (site.files path) (s.layers path)
  copies : CopiesFrom site calls s
  files : ∀ f ∈ s.openFiles, f.Right site (s.layers f.path)

theorem origin_append (site : Site) (calls : List Call) (c : Call) (key : Nat × String) :
    origin site (calls ++ [c]) key = c.origin site key (origin site calls key) := by
  unfold origin
  rw [foldl_append]
  rfl

theorem setCopy_self (s : CachingFileSystem) (key : Nat × String) (c : LocalCopy) :
    (s.setCopy key c).copies key = some c := by
  show update s.copies key (some c) key = some c
  rw [update_self]

variable {calls : List Call} {s s' : CachingFileSystem} {path : String} {transactionID : Nat}
  {immutableContent : Bool} {fault : Option Fault} {m : Memory} {c : LocalCopy}

theorem CopiesFrom.same (h : CopiesFrom site calls s) {c : Call} (hcopies : s'.copies = s.copies)
    (horigin : ∀ key, c.origin site key (origin site calls key) = origin site calls key) :
    CopiesFrom site (calls ++ [c]) s' where
  absent := by
    intro key hnone
    rw [origin_append, horigin] at hnone
    rw [hcopies]
    exact h.absent key hnone
  complete := by
    intro key path hsome
    rw [origin_append, horigin] at hsome
    rw [hcopies]
    exact h.complete key path hsome

section

variable (h : s.Right site calls)

include h

theorem CachingFileSystem.Right.setLayers {fs : HTTPFileSystem}
    (hfs : SharedRight (site.files path) fs) : (s.setLayers path fs).Right site calls where
  layers := by
    intro path'
    by_cases heq : path' = path
    · rw [heq]
      show SharedRight _ (update s.layers path fs path)
      rw [update_self]
      exact hfs
    · show SharedRight _ (update s.layers path fs path')
      rw [update_of_ne heq]
      exact h.layers path'
  copies := ⟨h.copies.absent, h.copies.complete⟩
  files := by
    intro f hf
    show f.Right site (update s.layers path fs f.path)
    by_cases heq : f.path = path
    · rw [heq, update_self]
      exact (h.files f hf).of_shared (heq ▸ hfs)
    · rw [update_of_ne heq]
      exact h.files f hf

theorem CachingFileSystem.Right.setHandle {k : Nat} {f : OpenFile} (hf : s.openFiles[k]? = some f)
    {h' : Handle} (hright : HandleRight (site.files f.path) h') (hsame : SameCopy f.info h'.info) :
    (s.setHandle k f.path h').Right site calls := by
  have hlayers := h.setLayers hright.layers.shared
  refine ⟨hlayers.layers, ⟨h.copies.absent, h.copies.complete⟩, ?_⟩
  intro f' hf'
  rcases mem_or_eq_of_mem_set hf' with hin | rfl
  · exact hlayers.files f' hin
  · show OpenFile.Right site (update s.layers f.path h'.fs f.path) _
    rw [update_self]
    exact (h.files f (mem_of_getElem? hf)).next hright hsame

theorem CachingFileSystem.Right.addFile {info : HTTPFileInfo}
    (hfile : OpenFile.Right site (s.layers path) ⟨path, info⟩) :
    (s.addFile path info).Right site calls where
  layers := h.layers
  copies := ⟨h.copies.absent, h.copies.complete⟩
  files := by
    intro f hf
    rcases mem_append.mp hf with hin | hlast
    · exact h.files f hin
    · rw [mem_singleton.mp hlast]
      exact hfile

theorem CachingFileSystem.Right.record {calls' : List Call} (hcopies : CopiesFrom site calls' s) :
    s.Right site calls' :=
  ⟨h.layers, hcopies, h.files⟩

end

variable {key : Nat × String} {config : HTTPConfig}

theorem openFile_origin {events : Nat → Nat → List Event}
    (hkey : site.copyKey transactionID path config = some key) (key' : Nat × String)
    (o : Option (String × Bool)) :
    Call.origin site key' o (.openFile transactionID path config immutableContent fault m events) =
      if key' = key then some (o.getD (path, fault.isNone)) else o := by
  unfold Call.origin
  dsimp only
  rw [hkey]
  by_cases heq : key' = key
  · rw [if_pos (congrArg some heq.symm), if_pos heq]
    cases o <;> rfl
  · rw [if_neg (fun h => heq (some.inj h).symm), if_neg heq]

theorem CopiesFrom.setCopy (h : CopiesFrom site calls s)
    (hkey : site.copyKey transactionID path config = some key) (hnew : origin site calls key = none)
    (immutableContent : Bool) (fault : Option Fault) (m : Memory) (events : Nat → Nat → List Event)
    (hc : fault = none → c.Complete (site.files path)) :
    CopiesFrom site (calls ++ [.openFile transactionID path config immutableContent fault m events])
      (s.setCopy key c) where
  absent := by
    intro key' hnone
    rw [origin_append, openFile_origin hkey] at hnone
    by_cases heq : key' = key
    · rw [if_pos heq] at hnone
      cases hnone
    · rw [if_neg heq] at hnone
      show update s.copies key (some c) key' = none
      rw [update_of_ne heq]
      exact h.absent key' hnone
  complete := by
    intro key' path' hsome
    rw [origin_append, openFile_origin hkey] at hsome
    show ∃ c', update s.copies key (some c) key' = some c' ∧ _
    by_cases heq : key' = key
    · rw [if_pos heq, heq, hnew, getD_none, some.injEq, Prod.mk.injEq] at hsome
      rw [heq, update_self, ← hsome.1]
      exact ⟨c, rfl, hc (isNone_iff_eq_none.mp hsome.2)⟩
    · rw [if_neg heq] at hsome
      rw [update_of_ne heq]
      exact h.complete key' path' hsome

theorem opened_noCopy (file : RemoteFile) (fs : HTTPFileSystem) (config : HTTPConfig)
    (immutableContent : Bool) :
    (Httpfs.openFile file fs config immutableContent false).info.cachedFileInfo = none := by
  unfold Httpfs.openFile
  simp

theorem opened_right (h : SharedRight (site.files path) (s.layers path)) (config : HTTPConfig)
    (immutableContent : Bool) :
    OpenFile.Right site (s.layers path)
      ⟨path, (Httpfs.openFile (site.files path) (s.layers path) config immutableContent false).info⟩ := by
  have hnone := opened_noCopy (site.files path) (s.layers path) config immutableContent
  refine ⟨HandleRight.opened (site.files path) h config immutableContent false, ?_, ?_⟩
  all_goals
    intro copy hcopy
    rw [hnone] at hcopy
    cases hcopy

theorem copied_right {fs : HTTPFileSystem} {info info' : HTTPFileInfo}
    (h : HandleRight (site.files path) ⟨fs, info⟩) (hc : c.Complete (site.files path))
    (hinfo : info' = { info with length := info'.length, cachedFileInfo := some c.opened })
    (hlength : info'.length = info.length ∨ info'.length = 0) :
    OpenFile.Right site fs ⟨path, info'⟩ := by
  have hcopy : info'.cachedFileInfo = some c.opened := by rw [hinfo]
  have hlayers := h.layers
  refine ⟨⟨⟨hlayers.shared, ?_, ?_, ?_, ?_⟩, ?_, ?_⟩, ?_, ?_⟩
  · rw [hinfo]
    exact hlayers.blocks
  · rw [hinfo]
    exact hlayers.readBuffer_le
  · rw [hinfo]
    exact hlayers.metadataReadBuffer_le
  · rcases hlength with hsame | hzero
    · rw [hsame]
      exact hlayers.length
    · exact .inr hzero
  · intro hnone
    have hnone' : info'.cachedFileInfo = none := hnone
    rw [hcopy] at hnone'
    cases hnone'
  · rw [hinfo]
    exact h.fileOffset
  · intro copy hcopy'
    have hsome : info'.cachedFileInfo = some copy := hcopy'
    rw [hcopy] at hsome
    cases hsome
    exact hc.1
  · intro copy hcopy' i hi
    have hsome : info'.cachedFileInfo = some copy := hcopy'
    rw [hcopy] at hsome
    cases hsome
    exact hc.2 i (hc.1 ▸ hi)

section

variable (h : s.Right site calls)

include h

variable {events : Nat → Nat → List Event}

theorem afterDownload_right {config : HTTPConfig} {key : Nat × String}
    (hkey : site.copyKey transactionID path config = some key) (hnew : origin site calls key = none)
    {d : Download} (hright : HandleRight (site.files path) d.handle)
    (hcomplete : d.failed = false → d.copy.Complete (site.files path))
    (hafter : s.afterDownload key path fault d = some s') :
    s'.Right site
      (calls ++ [.openFile transactionID path config immutableContent fault m events]) := by
  have hlayers := h.setLayers hright.layers.shared
  unfold CachingFileSystem.afterDownload at hafter
  cases hfailed : d.failed with
  | true =>
    rw [hfailed, if_pos rfl] at hafter
    split at hafter
    · rename_i hfault
      cases hafter
      have hcopies := hlayers.copies.setCopy hkey hnew immutableContent fault m events
        (c := d.copy) (fun hnone => by rw [hnone] at hfault; cases hfault)
      exact ⟨hlayers.layers, hcopies, hlayers.files⟩
    · cases hafter
  | false =>
    rw [hfailed, if_neg (by decide)] at hafter
    split at hafter
    · cases hafter
    · cases hafter
      have hcopies := hlayers.copies.setCopy hkey hnew immutableContent fault m events
        (c := d.copy) (fun _ => hcomplete hfailed)
      have hright' : ((s.setLayers path d.handle.fs).setCopy key d.copy).Right site
          (calls ++ [.openFile transactionID path config immutableContent fault m events]) :=
        ⟨hlayers.layers, hcopies, hlayers.files⟩
      apply hright'.addFile
      have hseek := hright.seek (Nat.two_pow_pos 64)
      have hsame : (seek d.handle 0).fs = d.handle.fs := by
        unfold seek
        split <;> rfl
      show OpenFile.Right site (update s.layers path d.handle.fs path) _
      rw [update_self, ← hsame]
      exact copied_right hseek (hcomplete hfailed) rfl (.inl rfl)

theorem openFile_right {config : HTTPConfig}
    (hfree : ∀ key, site.copyKey transactionID path config = some key → origin site calls key =
      none ∨ origin site calls key = some (path, true))
    (hopen : Halts (s.openFile site transactionID path config immutableContent fault m events) s') :
    s'.Right site
      (calls ++ [.openFile transactionID path config immutableContent fault m events]) := by
  have hopened := opened_right (h.layers path) config immutableContent
  obtain ⟨k, hk⟩ := hopen
  cases hkey : site.copyKey transactionID path config with
  | none =>
    have hcopies : CopiesFrom site
        (calls ++ [.openFile transactionID path config immutableContent fault m events]) s := by
      apply h.copies.same rfl
      intro key
      unfold Call.origin
      dsimp only
      rw [hkey, if_neg (nofun)]
    have hrun := hk k (Nat.le_refl k)
    unfold CachingFileSystem.openFile at hrun
    simp only [hkey] at hrun
    cases fault with
    | none =>
      cases hrun
      exact (h.addFile hopened).record ⟨hcopies.absent, hcopies.complete⟩
    | some f =>
      cases hrun
      exact h.record hcopies
  | some key =>
    cases hcopy : s.copies key with
    | some c =>
      have hrun := hk k (Nat.le_refl k)
      unfold CachingFileSystem.openFile at hrun
      simp only [hkey, hcopy] at hrun
      cases fault with
      | some f => cases hrun
      | none =>
        cases hrun
        -- the copy is the one of this path
        have horigin : origin site calls key = some (path, true) := by
          rcases hfree key hkey with hnone | hown
          · rw [h.copies.absent key hnone] at hcopy
            cases hcopy
          · exact hown
        obtain ⟨c', hc', hcomplete⟩ := h.copies.complete key path horigin
        rw [hcopy] at hc'
        cases hc'
        have hcopies : CopiesFrom site
            (calls ++ [.openFile transactionID path config immutableContent none m events]) s := by
          apply h.copies.same rfl
          intro key'
          rw [openFile_origin hkey]
          by_cases heq : key' = key
          · rw [if_pos heq, heq, horigin, getD_some]
          · rw [if_neg heq]
        exact (h.addFile (copied_right hopened.handle hcomplete rfl (.inr rfl))).record
          ⟨hcopies.absent, hcopies.complete⟩
    | none =>
      have hnew : origin site calls key = none := by
        rcases hfree key hkey with hnone | hown
        · exact hnone
        · obtain ⟨c', hc', -⟩ := h.copies.complete key path hown
          rw [hcopy] at hc'
          cases hc'
      by_cases hmeta : fault = some .metadata
      · have hrun := hk k (Nat.le_refl k)
        unfold CachingFileSystem.openFile at hrun
        simp only [hkey, hcopy, hmeta] at hrun
        cases hrun
        have hcopies := h.copies.setCopy hkey hnew immutableContent fault m events
          (c := .created) (by rw [hmeta]; nofun)
        exact ⟨h.layers, hcopies, h.files⟩
      · obtain ⟨d, ⟨k', hk'⟩, hright, hcomplete, -⟩ := downloadFile_halts fault
          (HandleRight.opened (site.files path) (h.layers path) config immutableContent false)
          (opened_noCopy _ _ _ _) rfl events m
        have hafter : s.afterDownload key path fault d = some s' := by
          have hrun := hk (max k k') (le_max_left k k')
          unfold CachingFileSystem.openFile at hrun
          simp only [hkey, hcopy] at hrun
          rw [hk' (max k k') (le_max_right k k')] at hrun
          cases fault with
          | none => exact hrun
          | some f =>
            cases f with
            | metadata => exact absurd rfl hmeta
            | segment r w => exact hrun
        exact afterDownload_right h hkey hnew hright hcomplete hafter

theorem cleanUP_right (transactionID : Nat) :
    CachingFileSystem.Right site (calls ++ [.cleanUP transactionID])
      { s with copies := fun key => if key.1 = transactionID then none else s.copies key } where
  layers := h.layers
  files := h.files
  copies := by
    constructor
    · intro key hnone
      rw [origin_append] at hnone
      unfold Call.origin at hnone
      dsimp only at hnone ⊢
      by_cases hkey : key.1 = transactionID
      · rw [if_pos hkey]
      · rw [if_neg hkey] at hnone ⊢
        exact h.copies.absent key hnone
    · intro key path hsome
      rw [origin_append] at hsome
      unfold Call.origin at hsome
      dsimp only at hsome ⊢
      by_cases hkey : key.1 = transactionID
      · rw [if_pos hkey] at hsome
        cases hsome
      · rw [if_neg hkey] at hsome ⊢
        exact h.copies.complete key path hsome

theorem step_right {c : Call} (hstep : Halts (s.step site c) s')
    (hundisturbed : Undisturbed site (calls ++ [c])) : s'.Right site (calls ++ [c]) := by
  obtain ⟨k, hk⟩ := hstep
  have hrun := hk k (Nat.le_refl k)
  have hrecord : ∀ s' : CachingFileSystem, s'.Right site calls → s'.copies = s.copies →
      (∀ key o, c.origin site key o = o) → s'.Right site (calls ++ [c]) :=
    fun s' hs' hcopies horigin => hs'.record (h.copies.same hcopies fun key => horigin key _)
  cases c with
  | openFile transactionID path config immutableContent fault downloadBuffer events =>
    exact openFile_right h
      (hundisturbed calls transactionID path config immutableContent fault downloadBuffer events []
        rfl) ⟨k, hk⟩
  | readFile i numBytes buffer events =>
    obtain ⟨f, hf, hread⟩ := bind_eq_some_iff.mp hrun
    obtain ⟨r, hr, rfl⟩ := map_eq_some_iff.mp hread
    have hright := (h.files f (mem_of_getElem? hf)).handle
    refine hrecord (s.setHandle i f.path r.1) ?_ rfl fun key o => rfl
    exact h.setHandle hf (hright.readFile hr) (readFile_sameCopy hright hr)
  | readFromFile i numBytes position buffer events =>
    obtain ⟨hposition, hrun⟩ := ite_none_right_eq_some.mp hrun
    obtain ⟨f, hf, hread⟩ := bind_eq_some_iff.mp hrun
    obtain ⟨r, hr, rfl⟩ := map_eq_some_iff.mp hread
    have hright := (h.files f (mem_of_getElem? hf)).handle
    have hsame := (readFromFile_right hright.layers hposition hr).2.2.1
    refine hrecord (s.setHandle i f.path r.1) ?_ rfl fun key o => rfl
    apply h.setHandle hf (hright.readFromFile hposition hr)
    intro copy' hcopy'
    exact ⟨copy', hsame ▸ hcopy', rfl, rfl⟩
  | seek i offset =>
    unfold CachingFileSystem.step at hrun
    dsimp only at hrun
    split at hrun
    · rename_i hoffset
      obtain ⟨f, hf, rfl⟩ := map_eq_some_iff.mp hrun
      have hright := (h.files f (mem_of_getElem? hf)).handle
      refine hrecord (s.setHandle i f.path _) ?_ rfl fun key o => rfl
      exact h.setHandle hf (hright.seek hoffset) (seek_sameCopy ⟨s.layers f.path, f.info⟩ offset)
    · cases hrun
  | cleanUP transactionID =>
    cases hrun
    exact cleanUP_right h transactionID
  | event path e =>
    cases hrun
    refine hrecord (s.setLayers path _) ?_ rfl fun key o => rfl
    exact h.setLayers ((h.layers path).apply e)

end

theorem Undisturbed.init {c : Call} (h : Undisturbed site (calls ++ [c])) :
    Undisturbed site calls := by
  intro before transactionID path config immutableContent fault downloadBuffer events after hcalls
  apply h before transactionID path config immutableContent fault downloadBuffer events (after ++ [c])
  rw [hcalls, append_assoc]
  rfl

theorem run_right (hrun : Run site calls s) (hundisturbed : Undisturbed site calls) :
    s.Right site calls := by
  induction hrun with
  | created prefetchPool blockCache =>
    exact ⟨fun path => created_right (site.files path) prefetchPool blockCache,
      ⟨fun _ _ => rfl, fun _ _ hsome => by cases hsome⟩, fun f hf => by cases hf⟩
  | step c _ hstep ih => exact step_right (ih hundisturbed.init) hstep hundisturbed

/-- In every run whose opens find no copy of another path and none of a failed download, every open
file serves its own bytes. -/
theorem cachedFiles_serve_own {calls : List Call} {s : CachingFileSystem} (hrun : Run site calls s)
    (hundisturbed : Undisturbed site calls) :
    ∀ f ∈ s.openFiles, f.ReadsOwn (site.files f.path) (s.layers f.path) :=
  fun f hf => ((run_right hrun hundisturbed).files f hf).readsOwn

theorem openFile_halts (h : s.Right site calls) (transactionID : Nat) (path : String)
    (config : HTTPConfig) (immutableContent : Bool) (m : Memory) (events : Nat → Nat → List Event)
    (hkey : site.copyKey transactionID path config = some key) (hcopy : s.copies key = none) :
    ∃ s' info, Halts (s.openFile site transactionID path config immutableContent none m events) s' ∧
      s'.openFiles = s.openFiles ++ [⟨path, info⟩] := by
  obtain ⟨d, hhalts, -, -, hgood⟩ := downloadFile_halts none
    (HandleRight.opened (site.files path) (h.layers path) config immutableContent false)
    (opened_noCopy _ _ _ _) rfl events m
  have hafter : s.afterDownload key path none d = some
      (((s.setLayers path d.handle.fs).setCopy key d.copy).addFile path
        { (seek d.handle 0).info with cachedFileInfo := some d.copy.opened }) := by
    unfold CachingFileSystem.afterDownload
    rw [hgood rfl]
    rfl
  refine ⟨((s.setLayers path d.handle.fs).setCopy key d.copy).addFile path
    { (seek d.handle 0).info with cachedFileInfo := some d.copy.opened },
    { (seek d.handle 0).info with cachedFileInfo := some d.copy.opened }, ?_, rfl⟩
  obtain ⟨k, hk⟩ := hhalts
  refine ⟨k, fun fuel hfuel => ?_⟩
  unfold CachingFileSystem.openFile
  simp only [hkey, hcopy]
  rw [hk fuel hfuel]
  exact hafter

theorem openFile_hit (immutableContent : Bool) (m : Memory) (events : Nat → Nat → List Event)
    (hkey : site.copyKey transactionID path config = some key) (hcopy : s.copies key = some c) :
    Halts (s.openFile site transactionID path config immutableContent none m events) (s.addFile path
        { (Httpfs.openFile (site.files path) (s.layers path) config immutableContent false).info with
          length := 0, cachedFileInfo := some c.opened }) := by
  refine ⟨0, fun fuel _ => ?_⟩
  unfold CachingFileSystem.openFile
  simp only [hkey, hcopy]

end

/-! ## 4. What other runs read -/

theorem readFromFile_lengthless (file : RemoteFile) (events : Nat → List Event) {h : Handle}
    (hlength : h.info.length = 0) (hcache : h.info.readCache = []) (m : Memory)
    (numBytes position : Nat) :
    ∃ h', Halts (readFromFile file events h m numBytes position) (h', m) := by
  by_cases hzero : numBytes = 0
  · rw [hzero]
    exact ⟨_, readFromFile_zero file events h m position⟩
  · -- the first round stops the loop
    have hnext : ((ReadLoop.start h m numBytes position).next file events position).stopped = true ∧
        ((ReadLoop.start h m numBytes position).next file events position).buffer = m := by
      have hcache' : (ReadLoop.start h m numBytes position).info.readCache = [] := hcache
      have hlength' : (ReadLoop.start h m numBytes position).info.length = 0 := hlength
      unfold ReadLoop.next
      dsimp only
      rw [hcache']
      unfold ReadLoop.below
      rw [hlength', if_pos (Nat.zero_le _)]
      exact ⟨rfl, rfl⟩
    generalize hl : (ReadLoop.start h m numBytes position).next file events position = l at hnext
    refine ⟨⟨l.fs, l.info⟩, 2, fun fuel hfuel => ?_⟩
    obtain ⟨k, rfl⟩ := Nat.exists_eq_add_of_le' hfuel
    have hrunning : (ReadLoop.start h m numBytes position).running = true := by
      unfold ReadLoop.running ReadLoop.start
      simp only [Bool.not_false, Bool.true_and, decide_eq_true_eq]
      omega
    have hstopped : l.running = false := by
      unfold ReadLoop.running
      rw [hnext.1]
      rfl
    unfold readFromFile whileLoop
    rw [hrunning, if_pos rfl, bind_some, hl]
    unfold whileLoop
    rw [hstopped, if_neg (by decide), map_some, hnext.2]

def twoServers : Site where
  files := fun path =>
    if path = "http://a/f" then ⟨fun _ ↦ 1, 1, copiedFile.length_lt⟩
    else ⟨fun _ => 2, 1, copiedFile.length_lt⟩
  getFileName := fun _ ↦ "f"
  isCompressedFile := fun _ => false

def openCall (path : String) (fault : Option Fault) : Call :=
  .openFile 7 path (tinyConfig true) false fault (fun _ => 0) (fun _ _ => [])

theorem openCall_key (path : String) :
    twoServers.copyKey 7 path (tinyConfig true) = some (7, "f") := rfl

theorem firstOpen_exists : ∃ s info, Run twoServers [openCall "http://a/f" none] s ∧
    s.openFiles = [⟨"http://a/f", info⟩] := by
  have hcreated : Run twoServers [] (.created false false) := .created false false
  have hundisturbed : Undisturbed twoServers [] := by
    intro before transactionID path config immutableContent fault m events after hcalls
    cases before <;> cases hcalls
  obtain ⟨s, info, hopen, hfiles⟩ := openFile_halts (run_right hcreated hundisturbed) 7 "http://a/f"
    (tinyConfig true) false (fun _ ↦ 0) (fun _ _ ↦ []) (openCall_key "http://a/f") rfl
  exact ⟨s, info, hcreated.step (openCall "http://a/f" none) hopen, hfiles⟩

theorem firstOpen_undisturbed : Undisturbed twoServers [openCall "http://a/f" none] := by
  intro before transactionID path config immutableContent fault m events after hcalls key _
  cases before with
  | nil => exact .inl rfl
  | cons c before =>
    rw [cons_append, cons.injEq] at hcalls
    cases before <;> cases hcalls.2

def cleanedCalls : List Call :=
  [openCall "http://a/f" none, .cleanUP 7, openCall "http://b/f" none]

/-- Both opens find no copy: the first is the first of all, and the second follows the `cleanUP`. -/
theorem cleanedCalls_undisturbed {before after : List Call} (h : cleanedCalls = before ++ after) :
    Undisturbed twoServers before := by
  intro before' transactionID path config immutableContent fault m events after' hcalls key hkey
  rw [hcalls] at h
  match before' with
  | [] | [_, _] =>
    injections
    subst_vars
    cases hkey
    exact .inl rfl
  | [_] => injections
  | _ :: _ :: _ :: rest => cases rest <;> injections

theorem cachedFiles_serve_own_cleaned : ∃ s, Run twoServers cleanedCalls s ∧
    s.openFiles.map OpenFile.path = ["http://a/f", "http://b/f"] ∧
    ∀ f ∈ s.openFiles, f.ReadsOwn (twoServers.files f.path) (s.layers f.path) := by
  obtain ⟨s, info, hopen, hfiles⟩ := firstOpen_exists
  have hrun := hopen.step (.cleanUP 7) ⟨0, fun _ _ => rfl⟩
  obtain ⟨s', info', hopen', hfiles'⟩ := openFile_halts
    (run_right hrun (@cleanedCalls_undisturbed _ [_] rfl)) 7 "http://b/f" (tinyConfig true)
    false (fun _ => 0) (fun _ _ => []) (openCall_key "http://b/f") rfl
  have hcleaned : Run twoServers cleanedCalls s' := hrun.step (openCall "http://b/f" none) hopen'
  refine ⟨s', hcleaned, ?_,
    cachedFiles_serve_own hcleaned (cleanedCalls_undisturbed (append_nil _).symm)⟩
  rw [hfiles', map_append]
  show s.openFiles.map OpenFile.path ++ _ = _
  rw [hfiles]
  rfl

/-- The second server's file is served from the copy of the first; a positional read of a file whose
copy was there leaves the buffer as it is; and a failed download leaves a copy that is not complete. -/
theorem cachedFiles_serve_others :
    (∃ s f, Run twoServers [openCall "http://a/f" none, openCall "http://b/f" none] s ∧
      f ∈ s.openFiles ∧ ∃ h' buffer', Halts (readFile (twoServers.files f.path) (fun _ => [])
        ⟨s.layers f.path, f.info⟩ (fun _ => 0) 1) (h', buffer', 1) ∧
        observe buffer' 1 = [1] ∧ bytesOf (twoServers.files f.path) 0 1 = [2]) ∧
    (∃ s f, Run twoServers [openCall "http://a/f" none, openCall "http://a/f" none] s ∧
      f ∈ s.openFiles ∧ ∃ h', Halts (readFromFile (twoServers.files f.path) (fun _ => [])
        ⟨s.layers f.path, f.info⟩ (fun _ => 0) 1 0) (h', fun _ => 0) ∧
        bytesOf (twoServers.files f.path) 0 1 = [1]) ∧
    (∃ s f, Run twoServers [openCall "http://a/f" (some .metadata), openCall "http://a/f" none] s ∧
      f ∈ s.openFiles ∧ ∃ h' buffer', Halts (readFile (twoServers.files f.path) (fun _ => [])
        ⟨s.layers f.path, f.info⟩ (fun _ => 0) 1) (h', buffer', 0) ∧
        (twoServers.files f.path).length = 1) := by
  obtain ⟨s, info, hrun, hfiles⟩ := firstOpen_exists
  obtain ⟨c, hcopy, hlength, hcontent⟩ :=
    (run_right hrun firstOpen_undisturbed).copies.complete (7, "f") "http://a/f" rfl
  have hbyte : c.content 0 = 1 := hcontent 0 (by decide)
  have hone : c.length = 1 := hlength
  have hmem : ∀ (s : CachingFileSystem) path info, (⟨path, info⟩ : OpenFile) ∈
      (s.addFile path info).openFiles :=
    fun s path info => mem_append_right _ (mem_singleton_self _)
  refine ⟨?_, ?_, ?_⟩
  · have hhit := openFile_hit false (fun _ ↦ 0) (fun _ _ ↦ []) (openCall_key "http://b/f") hcopy
    refine ⟨_, _, hrun.step (openCall "http://b/f" none) hhit, hmem _ _ _, ?_⟩
    obtain ⟨h', hhalts⟩ := readFile_copied (twoServers.files "http://b/f") (fun _ ↦ [])
      (h := ⟨s.layers "http://b/f", { (Httpfs.openFile (twoServers.files "http://b/f")
        (s.layers "http://b/f") (tinyConfig true) false false).info with
          length := 0, cachedFileInfo := some c.opened }⟩) rfl (fun _ => 0) 1
    have hmin : min 1 (c.opened.length - c.opened.offset) = 1 := by
      show min 1 (c.length - 0) = 1
      omega
    rw [hmin] at hhalts
    refine ⟨h', _, hhalts, ?_, rfl⟩
    show [c.content 0] = [1]
    rw [hbyte]
  · have hhit := openFile_hit false (fun _ ↦ 0) (fun _ _ ↦ []) (openCall_key "http://a/f") hcopy
    refine ⟨_, _, hrun.step (openCall "http://a/f" none) hhit, hmem _ _ _, ?_⟩
    obtain ⟨h', hhalts⟩ := readFromFile_lengthless (twoServers.files "http://a/f") (fun _ ↦ [])
      (h := ⟨s.layers "http://a/f", { (Httpfs.openFile (twoServers.files "http://a/f")
        (s.layers "http://a/f") (tinyConfig true) false false).info with
          length := 0, cachedFileInfo := some c.opened }⟩) rfl rfl (fun _ => 0) 1 0
    exact ⟨h', hhalts, rfl⟩
  · have hcreated : Run twoServers [] (.created false false) := .created false false
    have hfailed : Run twoServers [openCall "http://a/f" (some .metadata)]
        ((CachingFileSystem.created false false).setCopy (7, "f") .created) :=
      hcreated.step (openCall "http://a/f" (some .metadata)) ⟨0, fun _ _ ↦ rfl⟩
    have hhit := openFile_hit false (fun _ ↦ 0) (fun _ _ ↦ []) (openCall_key "http://a/f")
      (setCopy_self (.created false false) (7, "f") .created)
    refine ⟨_, _, hfailed.step (openCall "http://a/f" none) hhit, hmem _ _ _, ?_⟩
    obtain ⟨h', hhalts⟩ := readFile_copied (twoServers.files "http://a/f") (fun _ ↦ [])
      (h := ⟨.created false false, { (Httpfs.openFile (twoServers.files "http://a/f")
        (.created false false) (tinyConfig true) false false).info with
          length := 0, cachedFileInfo := some LocalCopy.created.opened }⟩) rfl (fun _ => 0) 1
    exact ⟨h', _, hhalts, rfl⟩

end Ladybug.CachedFiles
