import Ladybug.Json.LineThreads

/-!
# The steps of a scan of lines

Every step of a thread keeps the scan sound, and there is less to do after it.
-/

namespace Ladybug.JsonScan

open Markup List Option

variable {Doc : Type} {parser : Parser Doc} {params : Params}

/-! ## 1. Reading a buffer -/

theorem setBuffer_self (bufferMap : Nat → Option JsonScanBufferHandle) (idx : Nat)
    (handle : Option JsonScanBufferHandle) : setBuffer bufferMap idx handle idx = handle :=
  if_pos rfl

variable {idx k i : Nat} {reader : BufferedJsonReader} {handle : JsonScanBufferHandle}
  {scan : Scan Doc} {t t' : JSONScanLocalState Doc}

theorem setBuffer_ne (bufferMap : Nat → Option JsonScanBufferHandle) (h : k ≠ idx)
    (handle : Option JsonScanBufferHandle) : setBuffer bufferMap idx handle k = bufferMap k :=
  if_neg h

theorem SameReader.insertBuffer (reader : BufferedJsonReader) (idx : Nat)
    (handle : JsonScanBufferHandle) : SameReader idx reader (reader.insertBuffer idx handle) where
  readPosition := rfl
  lastReadRequested := rfl
  bufferIdx := rfl
  errors := rfl
  bufferMap := fun _ hk => setBuffer_ne _ hk _

theorem SameReader.refl (idx : Nat) (reader : BufferedJsonReader) : SameReader idx reader reader where
  readPosition := rfl
  lastReadRequested := rfl
  bufferIdx := rfl
  errors := rfl
  bufferMap := fun _ _ => rfl

theorem SameReader.release (reader : BufferedJsonReader) (idx : Nat) :
    SameReader idx reader (reader.release idx) := by
  unfold BufferedJsonReader.release
  cases hmap : reader.bufferMap idx with
  | none => exact .refl idx reader
  | some handle =>
    exact {
      readPosition := rfl
      lastReadRequested := rfl
      bufferIdx := rfl
      errors := rfl
      bufferMap := fun _ hk => setBuffer_ne _ hk _ }

variable {threads threads' : List (JSONScanLocalState Doc)}

theorem Slot.release (h : Slot params reader threads k) (hidx : k < reader.bufferIdx)
    (hfree : total (·.reserves k) threads = 0)
    (hholds : total (·.holds k) threads' ≤ total (·.holds k) threads)
    (hreserves : total (·.reserves k) threads' = total (·.reserves k) threads)
    (hreaders : readers params reader.bufferIdx threads' k + 1 =
      readers params reader.bufferIdx threads k) :
    Slot params (reader.release k) threads' k := by
  have hsame := SameReader.release reader k
  obtain ⟨handle, hmap⟩ : ∃ handle, reader.bufferMap k = some handle := by
    cases hmap : reader.bufferMap k with
    | none =>
      have hgone := h.gone hidx hfree hmap
      omega
    | some handle => exact ⟨handle, rfl⟩
  obtain ⟨hcount, hend⟩ := h.shown handle hmap
  have hmap' : (reader.release k).bufferMap k = if handle.numReaders = 1 then none
      else some { handle with numReaders := handle.numReaders - 1 } := by
    unfold BufferedJsonReader.release
    rw [hmap]
    exact setBuffer_self _ _ _
  exact {
    unique := by
      have hunique := h.unique
      rw [hsame.bufferIdx]
      omega
    hidden := by
      intro hor
      rw [hsame.bufferIdx] at hor
      omega
    shown := by
      intro handle' hhandle'
      rw [hmap'] at hhandle'
      split at hhandle'
      · cases hhandle'
      · cases hhandle'
        rw [hsame.bufferIdx]
        refine ⟨?_, hend⟩
        show handle.numReaders - 1 = _
        omega
    gone := by
      intro _ _ hnone
      rw [hmap'] at hnone
      rw [hsame.bufferIdx]
      split at hnone
      · omega
      · cases hnone }

theorem Slot.inserted {reader : BufferedJsonReader} {threads : List (JSONScanLocalState Doc)}
    {handle : JsonScanBufferHandle} (hidx : k < reader.bufferIdx)
    (hmap : reader.bufferMap k = some handle) (hholds : total (·.holds k) threads ≤ 1)
    (hreserves : total (·.reserves k) threads = 0)
    (hreaders : handle.numReaders = readers params reader.bufferIdx threads k)
    (hend : SameEnd handle.data (buffer params k)) : Slot params reader threads k where
  unique := by
    rw [if_pos hidx]
    omega
  hidden := fun hor => by omega
  shown := fun handle' hhandle => by
    cases hmap.symm.trans hhandle
    exact ⟨hreaders, hend⟩
  gone := fun _ _ hnone => by cases hmap.symm.trans hnone

theorem release_data (h : (reader.release k).bufferMap k = some handle) :
    ∃ old, reader.bufferMap k = some old ∧ handle.data = old.data := by
  unfold BufferedJsonReader.release at h
  cases hmap : reader.bufferMap k with
  | none =>
    simp only [hmap] at h
    cases h
  | some old =>
    simp only [hmap, setBuffer_self] at h
    split at h
    · cases h
    · cases h
      exact ⟨old, rfl, rfl⟩

section

variable (h : scan.Sound params parser) (ht : scan.threads[i]? = some t)

include h ht

theorem Scan.Sound.holder (hcurrent : t.current = some k) :
    k < scan.reader.bufferIdx ∧ total (·.reserves k) scan.threads = 0
      ∧ total (·.holds k) scan.threads = 1
      ∧ ∀ j u, j ≠ i → scan.threads[j]? = some u → u.current ≠ some k := by
  have hunique := (h.slots k).unique
  have hone : t.holds k = 1 := if_pos hcurrent
  have hle := le_total (fun u : JSONScanLocalState Doc => u.holds k) ht
  have hlt : k < scan.reader.bufferIdx := by
    by_contra hno
    rw [if_neg hno] at hunique
    omega
  rw [if_pos hlt] at hunique
  refine ⟨hlt, by omega, by omega, fun j u hj hu hcur => ?_⟩
  have htwo := pair_le_total (fun u : JSONScanLocalState Doc => u.holds k) ht hu (Ne.symm hj)
  have hone' : u.holds k = 1 := if_pos hcur
  omega

theorem Scan.Sound.shown (hcurrent : t.current = some k) :
    ∃ handle, scan.reader.bufferMap k = some handle
      ∧ handle.numReaders = readers params scan.reader.bufferIdx scan.threads k
      ∧ SameEnd handle.data (buffer params k) := by
  obtain ⟨hlt, hfree, hone, -⟩ := h.holder ht hcurrent
  cases hmap : scan.reader.bufferMap k with
  | none =>
    have hgone := (h.slots k).gone hlt hfree hmap
    unfold readers at hgone
    omega
  | some handle => exact ⟨handle, rfl, (h.slots k).shown handle hmap⟩

theorem Scan.Sound.next_same (hholds : ∀ k, t'.holds k = t.holds k)
    (hreserves : ∀ k, t'.reserves k = t.reserves k) (hawaits : ∀ k, t'.awaits k = t.awaits k)
    (hok : ThreadOk params parser scan.reader.lastReadRequested t')
    (hcopied : ∀ k n, t'.stage = .copied k n → total (·.reserves (k - 1)) scan.threads = 0)
    (hdata : ∀ k handle, t'.current = some k → t'.stage ≠ .idle → scan.reader.bufferMap k =
      some handle → handle.data.drop t'.bufferOffset = (buffer params k).drop t'.bufferOffset)
    (hdocs : account params parser t' = account params parser t)
    (hless : weight params t' < weight params t) :
    Scan.Sound params parser ⟨scan.reader, scan.threads.set i t'⟩
      ∧ Scan.work params ⟨scan.reader, scan.threads.set i t'⟩ < scan.work params := by
  refine h.next ht (.refl 0 scan.reader) ⟨fun k _ => hholds k, fun k _ => hreserves k,
    fun k _ => hawaits k⟩ ?_ (fun k => Nat.le_of_eq (hreserves k)) hok hcopied hdata
    (fun j u handle _ _ _ hmap => ⟨handle, hmap, rfl⟩) hdocs hless
  apply (h.slots 0).congr rfl rfl
  · have hsum := total_set (fun u : JSONScanLocalState Doc => u.holds 0) ht t'
    simp only [hholds] at hsum
    exact Nat.add_right_cancel hsum
  · have hsum := total_set (fun u : JSONScanLocalState Doc => u.reserves 0) ht t'
    simp only [hreserves] at hsum
    exact Nat.add_right_cancel hsum
  · have hsum := total_set (fun u : JSONScanLocalState Doc => u.awaits 0) ht t'
    simp only [hawaits] at hsum
    exact Nat.add_right_cancel hsum

end

/-! ## 2. The steps of a thread -/

/-- The step keeps the scan sound, and there is less to do. -/
def Advances (params : Params) (parser : Parser Doc) (scan : Scan Doc) (i : Nat)
    (next : BufferedJsonReader × JSONScanLocalState Doc) : Prop :=
  Scan.Sound params parser ⟨next.1, scan.threads.set i next.2⟩
    ∧ Scan.work params ⟨next.1, scan.threads.set i next.2⟩ < scan.work params

theorem buffer_length_le (params : Params) (k : Nat) :
    (buffer params k).length ≤ params.dataSize := by
  unfold buffer
  rw [length_take]
  exact Nat.min_le_left _ _

theorem lastPart_length_le (params : Params) (k : Nat) :
    (lastPart (buffer params k)).length ≤ params.dataSize := by
  have hle := buffer_length_le params k
  unfold lastPart
  rw [length_drop]
  omega

theorem counts_set {threads : List (JSONScanLocalState Doc)} (ht : threads[i]? = some t)
    (t' : JSONScanLocalState Doc) (k : Nat) :
    total (·.holds k) (threads.set i t') + t.holds k = total (·.holds k) threads + t'.holds k
      ∧ total (·.reserves k) (threads.set i t') + t.reserves k
        = total (·.reserves k) threads + t'.reserves k
      ∧ total (·.awaits k) (threads.set i t') + t.awaits k
        = total (·.awaits k) threads + t'.awaits k :=
  ⟨total_set (·.holds k) ht t', total_set (·.reserves k) ht t', total_set (·.awaits k) ht t'⟩

section

variable (h : scan.Sound params parser)

include h

theorem Scan.Sound.step_release (ht : scan.threads[i]? = some t) (hstage : t.stage = .idle)
    (hcurrent : t.current = some k) :
    Advances params parser scan i (scan.reader.release k, { t with current := none }) := by
  obtain ⟨hlt, hfree, hone, hothers⟩ := h.holder ht hcurrent
  have hthread := h.threads t (mem_of_getElem? ht)
  have hholds : ∀ j, t.holds j = if k = j then 1 else 0 := by
    simp [JSONScanLocalState.holds, hcurrent]
  apply h.next ht (SameReader.release _ k)
  · exact {
      holds := fun j hj => ((hholds j).trans (if_neg (Ne.symm hj))).symm
      reserves := fun _ _ => rfl
      awaits := fun _ _ => rfl }
  · obtain ⟨hsum, hsum', hsum''⟩ := counts_set ht { t with current := none } k
    rw [hholds, if_pos rfl] at hsum
    have hawaits := Nat.add_right_cancel hsum''
    apply (h.slots k).release hlt hfree (Nat.le.intro hsum) (Nat.add_right_cancel hsum')
    change _ + 1 = _ + 0 at hsum
    unfold readers
    omega
  · exact fun _ => Nat.le_refl _
  · exact { hthread with
      stage := by
        have hok := hthread.stage
        simp only [StageOk, hstage] at hok ⊢
        exact hok }
  · intro k' n hcopied
    cases hstage.symm.trans hcopied
  · intro k' handle hsome
    cases hsome
  · intro j u handle hj hu hcur
    exact absurd hcur (hothers j u hj hu)
  · simp only [account, owed, hstage]
  · simp [weight, hstage, hcurrent]

theorem Scan.Sound.step_copied {n : Nat} (ht : scan.threads[i]? = some t)
    (hstage : t.stage = .copied idx n) : Advances params parser scan i
      (scan.reader.release (idx - 1), { t with stage := .line idx n }) := by
  have hthread := h.threads t (mem_of_getElem? ht)
  have hok := hthread.stage
  simp only [StageOk, hstage] at hok
  obtain ⟨hbegun, hfirst⟩ := hok
  have hne := hbegun.notFirst
  have hlt := (h.holder ht hbegun.current).1
  have hfree := h.copied t (mem_of_getElem? ht) idx n hstage
  have hreserves : ∀ j, t.reserves j = 0 := by simp [JSONScanLocalState.reserves, hstage]
  have hawaits : ∀ j, t.awaits j = if idx = j + 1 then 1 else 0 := by
    simp [JSONScanLocalState.awaits, hstage]
  apply h.next ht (SameReader.release _ (idx - 1))
  · exact {
      holds := fun _ _ => rfl
      reserves := fun j _ => (hreserves j).symm
      awaits := fun j hj => ((hawaits j).trans (if_neg (by omega))).symm }
  · obtain ⟨hsum, hsum', hsum''⟩ := counts_set ht { t with stage := .line idx n } (idx - 1)
    rw [hreserves] at hsum'
    rw [hawaits, if_pos (by omega)] at hsum''
    have hholds := Nat.add_right_cancel hsum
    apply (h.slots (idx - 1)).release (by omega) hfree (Nat.le_of_eq hholds) hsum'
    change _ + 1 = _ + 0 at hsum''
    unfold readers
    omega
  · exact fun _ => Nat.zero_le _
  · exact { hthread with stage := ⟨{ hbegun with }, hfirst⟩ }
  · intro k' n' hcopied
    cases hcopied
  · intro k handle hcur _ hmap
    obtain ⟨old, hold, hsame⟩ : ∃ old, scan.reader.bufferMap k = some old ∧ handle.data = old.data := by
      by_cases hk : k = idx - 1
      · subst hk
        exact release_data hmap
      · refine ⟨handle, ?_, rfl⟩
        rw [← (SameReader.release scan.reader (idx - 1)).bufferMap k hk]
        exact hmap
    rw [hsame]
    exact h.data i t k old ht hcur (by rw [hstage]; nofun) hold
  · intro j u handle _ _ _ hmap
    exact release_data hmap
  · simp only [account, owed, hstage]
  · simp [weight, hstage]

theorem Scan.Sound.step_reserved (hformat : params.format = .newlineDelimited)
    (hwhole : ValidComplete parser (buffer params 0)) {position size : Nat}
    (ht : scan.threads[i]? = some t) (hstage : t.stage = .reserved idx position size) :
    Advances params parser scan i (insertRead params scan.reader t idx position size) := by
  have hthread := h.threads t (mem_of_getElem? ht)
  have hok := hthread.stage
  simp only [StageOk, hstage] at hok
  obtain ⟨hcurrent, hdocs, hle, hlast, hread⟩ := hok
  have hcount : (if params.format = .newlineDelimited ∧ t.isLast = false then 2 else 1)
      = 1 + endReaders params idx := by
    unfold endReaders
    cases hisLast : t.isLast with
    | false =>
      have hne : idx ≠ numBuffers params := fun heq => by
        rw [hlast.mpr heq] at hisLast
        cases hisLast
      rw [if_pos ⟨hformat, rfl⟩, if_pos (by omega)]
    | true =>
      have heq := hlast.mp hisLast
      rw [if_neg (by simp), if_neg (by omega)]
  have hinsert : insertRead params scan.reader t idx position size
      = (scan.reader.insertBuffer idx ⟨buffer params idx, 1 + endReaders params idx⟩, { t with
          stage := if idx = 0 then .chunk idx else .first idx
          current := some idx
          bufferOffset := 0
          prevBufferRemainder := 0 }) := by
    have harray : (params.format == .array) = false := by rw [hformat]; rfl
    have hgoes : (if idx ≠ 0 ∧ params.format = .newlineDelimited then Stage.first idx
        else .chunk idx) = if idx = 0 then .chunk idx else .first idx := by
      by_cases hzero : idx = 0
      · rw [if_neg (by simp [hzero]), if_pos hzero]
      · rw [if_pos ⟨hzero, hformat⟩, if_neg hzero]
    unfold insertRead
    simp only [harray, Bool.and_false, hthread.remainder, take_zero, nil_append, hread,
      hcount, hgoes]
    rfl
  have hempty : t.isLast = true → buffer params idx = [] := fun hisLast =>
    (buffer_eq_nil_iff params idx).mpr (hlast.mp hisLast).ge
  have hholds : ∀ j, t.holds j = 0 := by simp [JSONScanLocalState.holds, hcurrent]
  have hreserves : ∀ j, t.reserves j = if idx = j then 1 else 0 := by
    simp [JSONScanLocalState.reserves, hstage]
  have hslot := h.slots idx
  have hunique := hslot.unique
  have hone := le_total (fun u : JSONScanLocalState Doc => u.reserves idx) ht
  simp only [hreserves idx, if_pos] at hone
  have hlt : idx < scan.reader.bufferIdx := by
    by_contra hno
    rw [if_neg hno] at hunique
    omega
  rw [if_pos hlt] at hunique
  obtain ⟨-, hends⟩ := hslot.hidden (.inr (by omega))
  have hmap : (scan.reader.insertBuffer idx ⟨buffer params idx, 1 + endReaders params idx⟩).bufferMap
      idx = some ⟨buffer params idx, 1 + endReaders params idx⟩ := setBuffer_self _ _ _
  rw [hinsert]
  obtain ⟨t', ht'⟩ : ∃ t' : JSONScanLocalState Doc, t' = { t with
    stage := if idx = 0 then .chunk idx else .first idx
    current := some idx
    bufferOffset := 0
    prevBufferRemainder := 0 } := ⟨_, rfl⟩
  rw [← ht']
  have hstage' : t'.stage = if idx = 0 then .chunk idx else .first idx := by rw [ht']
  have hreserves' : ∀ j, t'.reserves j = 0 := by
    simp only [JSONScanLocalState.reserves, hstage']
    by_cases hzero : idx = 0
    · simp [hzero]
    · simp [hzero]
  have hholds' : ∀ j, t'.holds j = if idx = j then 1 else 0 := by
    simp [JSONScanLocalState.holds, ht']
  have hawaits : ∀ j, t'.awaits j = t.awaits j := by
    simp only [JSONScanLocalState.awaits, hstage, hstage']
    by_cases hzero : idx = 0
    · simp [hzero]
    · simp [hzero]
  show Scan.Sound params parser ⟨_, scan.threads.set i t'⟩ ∧ _
  apply h.next ht (SameReader.insertBuffer _ idx _)
  · exact {
      holds := fun j hj => by rw [hholds, hholds', if_neg (Ne.symm hj)]
      reserves := fun j hj => by rw [hreserves, hreserves', if_neg (Ne.symm hj)]
      awaits := fun j _ => hawaits j }
  · obtain ⟨hsum, hsum', hsum''⟩ := counts_set ht t' idx
    rw [hholds, hholds', if_pos rfl] at hsum
    rw [hreserves, hreserves', if_pos rfl] at hsum'
    rw [hawaits idx] at hsum''
    refine .inserted (by exact hlt) hmap (by omega) (by omega) ?_ (.refl _)
    show 1 + endReaders params idx = _ + (_ + later params scan.reader.bufferIdx idx)
    omega
  · intro j
    rw [hreserves']
    exact Nat.zero_le _
  · subst ht'
    refine ⟨rfl, hthread.memory, ?_⟩
    by_cases hzero : idx = 0
    · subst hzero
      exact ⟨rfl, Nat.zero_le _, hwhole, hempty⟩
    · rw [if_neg hzero]
      exact ⟨rfl, hzero, hdocs, rfl, hempty⟩
  · intro k' n hcopied
    rw [hstage'] at hcopied
    split at hcopied
    · cases hcopied
    · cases hcopied
  · subst ht'
    intro k handle hcur _ hhandle
    cases hcur
    rw [hmap] at hhandle
    cases hhandle
    rfl
  · intro j u handle hj hu hcur
    have hother := le_total (fun u : JSONScanLocalState Doc => u.holds idx) hu
    have hheld : u.holds idx = 1 := if_pos hcur
    omega
  · simp only [account, owed, hstage, hstage']
    by_cases hzero : idx = 0
    · subst hzero
      rw [ht']
      rfl
    · rw [if_neg hzero, ht']
  · have hsize := buffer_length_le params idx
    simp only [weight, hstage, hstage']
    by_cases hzero : idx = 0
    · subst hzero
      rw [if_pos rfl]
      simp only [ht', lineWeight]
      split
      all_goals omega
    · rw [if_neg hzero]
      show lineWeight params + 2 < lineWeight params + 3
      omega

theorem Scan.Sound.step_first (ht : scan.threads[i]? = some t) (hstage : t.stage = .first idx)
    (hmap : scan.reader.bufferMap (idx - 1) = some handle) :
    ∃ next, t.step params parser scan.reader = some next ∧ Advances params parser scan i next := by
  have hthread := h.threads t (mem_of_getElem? ht)
  have hok := hthread.stage
  simp only [StageOk, hstage] at hok
  have hend := ((h.slots (idx - 1)).shown handle hmap).2.lastPart
  have hfree : total (·.reserves (idx - 1)) scan.threads = 0 := by
    by_contra hne
    rw [((h.slots (idx - 1)).hidden (.inr hne)).1] at hmap
    cases hmap
  have hroom := lastPart_length_le params (idx - 1)
  have hsize : params.dataSize = params.capacity - paddingSize := rfl
  obtain ⟨memory, hmemory⟩ : ∃ memory, overwrite t.reconstructBuffer 0
      (lastPart (buffer params (idx - 1))) = some memory := by
    apply Exists.intro
    apply overwrite_eq
    rw [hthread.memory]
    omega
  refine ⟨(scan.reader, { t with
    stage := .copied idx (lastPart (buffer params (idx - 1))).length
    reconstructBuffer := memory }), ?_, ?_⟩
  · unfold JSONScanLocalState.step
    simp only [hstage, hmap, map_some]
    have hpart : handle.data.drop (previousNewLine handle.data) = lastPart (buffer params (idx - 1)) :=
      hend
    rw [hpart, hmemory]
  · apply h.next_same ht
    · exact fun _ => rfl
    · simp [JSONScanLocalState.reserves, hstage]
    · simp [JSONScanLocalState.awaits, hstage]
    · exact { hthread with
        memory := (overwrite_length hmemory).trans hthread.memory
        stage := by
          refine ⟨{ hok with }, rfl, ?_⟩
          have htake := overwrite_take hmemory
          rw [Nat.zero_add, take_zero, nil_append] at htake
          exact htake }
    · intro k n hcopied
      cases hcopied
      exact hfree
    · intro k handle' hcur _ hmap'
      exact h.data i t k handle' ht hcur (by rw [hstage]; nofun) hmap'
    · simp only [account, owed, hstage]
    · simp [weight, hstage]

theorem Scan.Sound.step_line (hlaw : parser.Lawful)
    (hemits : ∀ k ≤ numBuffers params, Emits params parser k (bufferDocs params parser k)) {n : Nat}
    (ht : scan.threads[i]? = some t) (hstage : t.stage = .line idx n) :
    ∃ next, t.step params parser scan.reader = some next ∧ Advances params parser scan i next := by
  have hthread := h.threads t (mem_of_getElem? ht)
  have hok := hthread.stage
  simp only [StageOk, hstage] at hok
  obtain ⟨hbegun, hn, hmemory⟩ := hok
  obtain ⟨handle, hmap, -, -⟩ := h.shown ht hbegun.current
  have hdata := h.data i t idx handle ht hbegun.current (by rw [hstage]; nofun) hmap
  rw [hbegun.bufferOffset, drop_zero, drop_zero] at hdata
  obtain ⟨hlt, -, -, -⟩ := h.holder ht hbegun.current
  have hrange := h.range
  obtain ⟨j, rfl⟩ : ∃ j, idx = j + 1 := Nat.exists_eq_succ_of_ne_zero hbegun.notFirst
  rw [Nat.add_sub_cancel] at hn hmemory
  rw [hn] at hmemory
  obtain ⟨t', hparse, hline⟩ : ∃ t', parseLine parser scan.reader t (j + 1)
        (lastPart (buffer params j)).length (buffer params (j + 1)) = (scan.reader, t')
      ∧ LineParsed params parser (j + 1) t t' :=
    parseLine_spec hlaw rfl (hemits (j + 1) (by omega)) hbegun.bufferOffset hthread.memory hmemory
  refine ⟨(scan.reader, t'), ?_, ?_⟩
  · unfold JSONScanLocalState.step
    simp only [hstage, hmap, map_some]
    rw [hn, hdata, hparse]
  · apply h.next_same ht
    · intro k
      simp only [JSONScanLocalState.holds, hline.current]
    · intro k
      simp [JSONScanLocalState.reserves, hstage, hline.stage]
    · intro k
      simp [JSONScanLocalState.awaits, hstage, hline.stage]
    · refine ⟨hline.remainder.trans hthread.remainder, hline.memory.trans hthread.memory, ?_⟩
      simp only [StageOk, hline.stage]
      refine ⟨hline.current.trans hbegun.current, hline.inside, hline.valid, ?_⟩
      rw [hline.isLast]
      exact hbegun.isLast
    · intro k n' hcopied
      cases hline.stage.symm.trans hcopied
    · intro k handle' hcur _ hmap'
      cases (hline.current.trans hbegun.current).symm.trans hcur
      cases hmap.symm.trans hmap'
      rw [hdata]
    · simp only [account, owed, hstage, hline.stage, hline.output]
      rw [hline.docs]
    · have hsize := buffer_length_le params (j + 1)
      simp only [weight, hstage, hline.stage, lineWeight]
      split
      all_goals omega

end

theorem getElem?_newline_le {data : Bytes} {pos : Nat} (h : data[pos]? = some newline) :
    pos ≤ previousNewLine data := by
  rcases last_newline data with hno | ⟨front, back, rfl, hback⟩
  · exact absurd h (getElem?_ne_newline hno pos)
  · rw [previousNewLine_newline front hback]
    by_contra hgt
    rw [getElem?_append_right (by omega),
      show pos - front.length = (pos - front.length - 1) + 1 by omega,
      getElem?_cons_succ] at h
    exact getElem?_ne_newline hback _ h

theorem returned_ok (h : reader.errors = []) (t : JSONScanLocalState Doc) (stage : Stage) :
    returned reader t stage
      = { t with stage := stage, output := t.output ++ t.docs, docs := [] } := by
  unfold returned
  rw [h]
  rfl

theorem chunk_counts (hstage : t.stage = .chunk idx)
    (hstage' : t'.stage = .idle ∨ t'.stage = .chunk idx) (hcurrent : t'.current = t.current)
    (k : Nat) :
    t'.holds k = t.holds k ∧ t'.reserves k = t.reserves k ∧ t'.awaits k = t.awaits k
      ∧ ∀ n, t'.stage ≠ .copied k n := by
  rcases hstage' with hs | hs
  all_goals
    simp [JSONScanLocalState.holds, JSONScanLocalState.reserves, JSONScanLocalState.awaits, hstage,
      hs, hcurrent]

structure Parsing (params : Params) (parser : Parser Doc) (scan : Scan Doc) (i idx : Nat)
    (t : JSONScanLocalState Doc) (handle : JsonScanBufferHandle) : Prop where
  get : scan.threads[i]? = some t
  stage : t.stage = .chunk idx
  current : t.current = some idx
  inside : t.bufferOffset ≤ (buffer params idx).length
  valid : ValidComplete parser ((buffer params idx).drop t.bufferOffset)
  isLast : t.isLast = true → buffer params idx = []
  map : scan.reader.bufferMap idx = some handle
  count : handle.numReaders = readers params scan.reader.bufferIdx scan.threads idx
  sameEnd : SameEnd handle.data (buffer params idx)
  data : handle.data.drop t.bufferOffset = (buffer params idx).drop t.bufferOffset
  remainder : t.prevBufferRemainder = 0
  memory : t.reconstructBuffer.length = params.capacity

section

variable (h : scan.Sound params parser)

include h

theorem Scan.Sound.parsing (ht : scan.threads[i]? = some t) (hstage : t.stage = .chunk idx) :
    ∃ handle, Parsing params parser scan i idx t handle := by
  have hthread := h.threads t (mem_of_getElem? ht)
  have hok := hthread.stage
  simp only [StageOk, hstage] at hok
  obtain ⟨hcurrent, hinside, hvalid, hlast⟩ := hok
  obtain ⟨handle, hmap, hcount, hend⟩ := h.shown ht hcurrent
  exact ⟨handle, { hthread with
    get := ht
    stage := hstage
    current := hcurrent
    inside := hinside
    valid := hvalid
    isLast := hlast
    map := hmap
    count := hcount
    sameEnd := hend
    data := h.data i t idx handle ht hcurrent (by rw [hstage]; nofun) hmap }⟩

theorem Scan.Sound.next_chunk (hp : Parsing params parser scan i idx t handle)
    (hstage' : t'.stage = .idle ∨ t'.stage = .chunk idx) (hcurrent : t'.current = t.current)
    (hok : ThreadOk params parser scan.reader.lastReadRequested t')
    (hdata : t'.stage ≠ .idle → t'.bufferOffset = t.bufferOffset)
    (hdocs : account params parser t' = account params parser t)
    (hless : weight params t' < weight params t) :
    Advances params parser scan i (scan.reader, t') := by
  have hcounts := chunk_counts hp.stage hstage' hcurrent
  apply h.next_same hp.get (fun k => (hcounts k).1) (fun k => (hcounts k).2.1)
    (fun k => (hcounts k).2.2.1) hok (fun k n hcopied => absurd hcopied ((hcounts k).2.2.2 n)) _ hdocs
    hless
  intro k handle' hcur hne hmap'
  rw [hdata hne]
  exact h.data i t k handle' hp.get (hcurrent.symm.trans hcur) (by rw [hp.stage]; nofun) hmap'

theorem Scan.Sound.chunk_returned (hp : Parsing params parser scan i idx t handle)
    (hfull : params.vectorCapacity ≤ t.docs.length) :
    Advances params parser scan i (scan.reader, { t with
      stage := if t.bufferOffset = handle.data.length then .idle else .chunk idx
      output := t.output ++ t.docs
      docs := [] }) := by
  have hpos := params.outputs
  by_cases hend : t.bufferOffset = handle.data.length
  · have hnone : (buffer params idx).drop t.bufferOffset = [] := by
      rw [hend, hp.sameEnd.length]
      exact drop_length
    rw [if_pos hend]
    refine h.next_chunk hp (.inl rfl) rfl ⟨hp.remainder, hp.memory, rfl⟩ (fun _ => rfl) ?_ ?_
    · simp only [account, owed, hp.stage, hnone]
      simp only [completeDocs_of_notMem not_mem_nil, append_nil]
    · simp only [weight, hp.stage]
      split
      all_goals omega
  · rw [if_neg hend]
    refine h.next_chunk hp (.inr rfl) rfl
      ⟨hp.remainder, hp.memory, hp.current, hp.inside, hp.valid, hp.isLast⟩ (fun _ => rfl) ?_ ?_
    · simp only [account, owed, hp.stage]
      rw [nil_append, append_assoc]
    · simp only [weight, hp.stage, if_pos hfull, length_nil]
      rw [if_neg (by omega)]
      omega

theorem Scan.Sound.chunk_left (offset : Nat) (hp : Parsing params parser scan i idx t handle)
    (hnone : completeDocs parser ((buffer params idx).drop t.bufferOffset) = []) :
    Advances params parser scan i (scan.reader, { t with
      stage := .idle
      bufferOffset := offset
      prevBufferRemainder := 0
      output := t.output ++ t.docs
      docs := [] }) := by
  refine h.next_chunk hp (.inl rfl) rfl ⟨rfl, hp.memory, rfl⟩ (fun hne => absurd rfl hne) ?_ ?_
  · simp only [account, owed, hp.stage, hnone, append_nil]
  · simp only [weight, hp.stage]
    split
    all_goals omega

theorem Scan.Sound.chunk_parsed {offset : Nat} {doc : Doc} {data' : Bytes}
    (hp : Parsing params parser scan i idx t handle)
    (hnotFull : ¬ params.vectorCapacity ≤ t.docs.length)
    (hparses : RoundParses parser handle.data t.bufferOffset doc data' offset) :
    Advances params parser scan i (scan.reader.insertBuffer idx { handle with data := data' },
      { t with bufferOffset := offset, docs := t.docs ++ [doc] }) := by
  obtain ⟨hlt, hfree, hone, hothers⟩ := h.holder hp.get hp.current
  have hprogress := hparses.progress
  -- what is not parsed is as it was read
  have hahead : ∀ n, t.bufferOffset ≤ n → handle.data.drop n = (buffer params idx).drop n := by
    intro n hn
    rw [show n = t.bufferOffset + (n - t.bufferOffset) by omega, ← drop_drop, hp.data, drop_drop]
  have hrest : data'.drop offset = (buffer params idx).drop offset := by
    obtain ⟨pos, hle, -, hfrom, hbehind⟩ := hparses.behind
    have hcut := hahead offset (by omega)
    rw [show offset = pos + (offset - pos) by omega, ← drop_drop] at hcut ⊢
    rw [hbehind, hcut]
  have hsame : SameEnd data' (buffer params idx) := by
    obtain ⟨pos, -, hpos, hfrom, hbehind⟩ := hparses.behind
    have hle : pos ≤ previousNewLine (buffer params idx) := by
      apply getElem?_newline_le
      rw [← Nat.add_zero pos, ← getElem?_drop, ← hahead pos hfrom, getElem?_drop]
      exact hpos
    exact {
      length := hparses.length.trans hp.sameEnd.length
      behind := by
        unfold lastPart
        rw [show previousNewLine (buffer params idx)
            = pos + (previousNewLine (buffer params idx) - pos) by omega, ← drop_drop,
          hbehind, hahead pos hfrom, drop_drop] }
  have hmap' : (scan.reader.insertBuffer idx { handle with data := data' }).bufferMap idx
      = some { handle with data := data' } := setBuffer_self _ _ _
  have hinside := hparses.inside
  rw [hp.sameEnd.length] at hinside
  apply h.next hp.get (SameReader.insertBuffer _ idx _)
  · exact ⟨fun _ _ => rfl, fun _ _ => rfl, fun _ _ => rfl⟩
  · obtain ⟨hsum, hsum', hsum''⟩ :=
      counts_set hp.get { t with bufferOffset := offset, docs := t.docs ++ [doc] } idx
    have hholds := Nat.add_right_cancel hsum
    have hreserves := (Nat.add_right_cancel hsum').trans hfree
    have hawaits := Nat.add_right_cancel hsum''
    have hcount := hp.count
    refine .inserted (by exact hlt) hmap' (hholds.trans hone).le hreserves ?_ hsame
    dsimp only
    show handle.numReaders = _ + (_ + later params scan.reader.bufferIdx idx)
    unfold readers at hcount
    omega
  · exact fun _ => Nat.le_refl _
  · refine ⟨hp.remainder, hp.memory, ?_⟩
    simp only [StageOk, hp.stage]
    exact ⟨hp.current, hinside, hahead offset (by omega) ▸ hparses.valid, hp.isLast⟩
  · intro k n hcopied
    cases hp.stage.symm.trans hcopied
  · intro k handle' hcur _ hhandle
    cases hp.current.symm.trans hcur
    cases hmap'.symm.trans hhandle
    exact hrest
  · intro j u handle' hj hu hcur
    exact absurd hcur (hothers j u hj hu)
  · have hdocs := hparses.docs
    rw [hp.data, hahead offset (by omega)] at hdocs
    simp only [account, owed, hp.stage, hdocs]
    rw [append_assoc t.docs]
    rfl
  · simp only [weight, hp.stage, if_neg hnotFull]
    split
    all_goals omega

theorem Scan.Sound.step_chunk (hlaw : parser.Lawful) (hformat : params.format = .newlineDelimited)
    (ht : scan.threads[i]? = some t) (hstage : t.stage = .chunk idx) :
    ∃ next, t.step params parser scan.reader = some next ∧ Advances params parser scan i next := by
  obtain ⟨handle, hp⟩ := h.parsing ht hstage
  refine ⟨parseNextChunk params parser scan.reader t idx handle, ?_, ?_⟩
  · unfold JSONScanLocalState.step
    simp only [hstage, hp.map, map_some]
  unfold parseNextChunk
  by_cases hfull : params.vectorCapacity ≤ t.docs.length
  · rw [if_pos hfull, returned_ok h.errors]
    exact h.chunk_returned hp hfull
  · rw [if_neg hfull, hformat]
    have hvalid := hp.valid
    rw [← hp.data] at hvalid
    have hlast : t.isLast = true → handle.data = [] := by
      intro hisLast
      have hlen := hp.sameEnd.length
      rw [hp.isLast hisLast, length_nil] at hlen
      exact length_eq_zero_iff.mp hlen
    rcases parseRound_lines hlaw hvalid hlast with
      ⟨offset, hround, hnone⟩ | ⟨doc, data', offset, hround, hparses⟩
    · rw [hround]
      rw [hp.data] at hnone
      have hcopy : (overwrite t.reconstructBuffer 0 ((none : Option Bytes).getD [])).getD
          t.reconstructBuffer = t.reconstructBuffer := by
        rfl
      have hleft := h.chunk_left offset hp hnone
      simp only [hcopy]
      cases hdocs : t.docs with
      | nil => simpa [hdocs] using hleft
      | cons doc docs => simpa [hdocs, returned_ok h.errors] using hleft
    · rw [hround]
      exact h.chunk_parsed hp hfull hparses

end

theorem pending_succ (params : Params) (parser : Parser Doc) {b : Nat} (hb : b ≤ numBuffers params) :
    pending params parser b = bufferDocs params parser b ++ pending params parser (b + 1) := by
  unfold pending
  rw [show numBuffers params + 1 - b = (numBuffers params + 1 - (b + 1)) + 1 by omega,
    range'_succ, flatMap_cons]

theorem next_read (h : scan.Sound params parser) (hidx : scan.reader.bufferIdx ≤ numBuffers params) :
    (params.file.drop scan.reader.readPosition).take
        (min params.dataSize (params.file.length - scan.reader.readPosition))
        = buffer params scan.reader.bufferIdx
      ∧ scan.reader.readPosition
          + min params.dataSize (params.file.length - scan.reader.readPosition)
        = min ((scan.reader.bufferIdx + 1) * params.dataSize) params.file.length
      ∧ ((min params.dataSize (params.file.length - scan.reader.readPosition) == 0) = true
        ↔ scan.reader.bufferIdx = numBuffers params) := by
  obtain ⟨hread, hnext, hempty⟩ := next_part h.position
  refine ⟨hread, hnext, ?_⟩
  rw [hempty, buffer_eq_nil_iff]
  omega

/-- The thread that reserves buffer `b` is also the one that copies the end of the buffer before. -/
theorem Slot.reserve {reader' : BufferedJsonReader} (h : Slot params reader threads k)
    (hidx : reader'.bufferIdx = reader.bufferIdx + 1) (hmap : reader'.bufferMap = reader.bufferMap)
    (hmore : reader.bufferIdx ≤ numBuffers params)
    (hholds : total (·.holds k) threads' = total (·.holds k) threads)
    (hreserves : total (·.reserves k) threads' = total (·.reserves k) threads +
      if reader.bufferIdx = k then 1 else 0)
    (hawaits : total (·.awaits k) threads' = total (·.awaits k) threads + if reader.bufferIdx = k +
      1 then 1 else 0) :
    Slot params reader' threads' k := by
  have hlater : total (·.awaits k) threads' + later params (reader.bufferIdx + 1) k
      = total (·.awaits k) threads + later params reader.bufferIdx k := by
    rw [hawaits]
    unfold later endReaders
    split_ifs <;> omega
  have hreaders : readers params (reader.bufferIdx + 1) threads' k
      = readers params reader.bufferIdx threads k := by
    unfold readers
    omega
  exact {
    unique := by
      have hunique := h.unique
      rw [hholds, hreserves, hidx]
      split_ifs at hunique ⊢ <;> omega
    hidden := by
      intro hor
      rw [hidx, hmap, hlater]
      apply h.hidden
      rw [hidx, hreserves] at hor
      split_ifs at hor <;> omega
    shown := by
      rw [hidx, hmap, hreaders]
      exact h.shown
    gone := by
      intro hlt hzero hnone
      rw [hidx, hreaders]
      rw [hmap] at hnone
      rw [hidx] at hlt
      rw [hreserves] at hzero
      split_ifs at hzero
      exact h.gone (by omega) hzero hnone }

section

variable (h : scan.Sound params parser) (ht : scan.threads[i]? = some t) (hstage : t.stage = .idle)
  (hcurrent : t.current = none)

include h ht hstage hcurrent

theorem Scan.Sound.step_reserve (hmore : scan.reader.bufferIdx ≤ numBuffers params) {size : Nat}
    (hsize : size = min params.dataSize (params.file.length - scan.reader.readPosition)) :
    Advances params parser scan i ({ scan.reader with
      readPosition := scan.reader.readPosition + size
      lastReadRequested := size == 0
      bufferIdx := scan.reader.bufferIdx + 1 }, { t with
      stage := .reserved scan.reader.bufferIdx scan.reader.readPosition size
      isLast := size == 0 }) := by
  have hthread := h.threads t (mem_of_getElem? ht)
  have hok := hthread.stage
  simp only [StageOk, hstage] at hok
  obtain ⟨hread, hnext, hempty⟩ := next_read h hmore
  rw [← hsize] at hread hnext hempty
  obtain ⟨t', ht'⟩ : ∃ t' : JSONScanLocalState Doc, t' = { t with
    stage := .reserved scan.reader.bufferIdx scan.reader.readPosition size
    isLast := size == 0 } := ⟨_, rfl⟩
  rw [← ht']
  have hstage' : t'.stage = .reserved scan.reader.bufferIdx scan.reader.readPosition size := by rw [ht']
  have hcurrent' : t'.current = none := by rw [ht', hcurrent]
  have hholds : ∀ j, t'.holds j = t.holds j := by
    simp [JSONScanLocalState.holds, hcurrent, hcurrent']
  have hreserves : ∀ j, t.reserves j = 0 ∧
      t'.reserves j = (if scan.reader.bufferIdx = j then 1 else 0) := by
    simp [JSONScanLocalState.reserves, hstage, hstage']
  have hawaits : ∀ j, t.awaits j = 0 ∧
      t'.awaits j = (if scan.reader.bufferIdx = j + 1 then 1 else 0) := by
    simp [JSONScanLocalState.awaits, hstage, hstage']
  have hmem : ∀ u ∈ scan.threads.set i t', u = t' ∨ u ∈ scan.threads :=
    fun u hu => (mem_or_eq_of_mem_set hu).symm
  constructor
  · exact {
      position := hnext
      range := Nat.succ_le_succ hmore
      lastRead := by
        show (size == 0) = true ↔ scan.reader.bufferIdx + 1 = _
        rw [hempty]
        omega
      errors := h.errors
      slots := by
        intro k
        obtain ⟨hsum, hsum', hsum''⟩ := counts_set ht t' k
        rw [hholds k] at hsum
        rw [(hreserves k).1, (hreserves k).2] at hsum'
        rw [(hawaits k).1, (hawaits k).2] at hsum''
        exact (h.slots k).reserve rfl rfl hmore (Nat.add_right_cancel hsum) hsum' hsum''
      threads := by
        intro u hu
        rcases hmem u hu with rfl | hold
        · subst ht'
          exact ⟨hthread.remainder, hthread.memory, hcurrent', hok, hmore, hempty, hread⟩
        · have hother := h.threads u hold
          have hnotLast : scan.reader.lastReadRequested = false := by
            rw [Bool.eq_false_iff]
            intro hlast
            have heq := h.lastRead.mp hlast
            omega
          exact { hother with
            stage := by
              have hstageOk := hother.stage
              unfold StageOk at hstageOk ⊢
              split at hstageOk
              all_goals simp_all }
      data := by
        intro j u k handle hu hcur hne hhandle
        by_cases hj : i = j
        · rw [getElem?_set, if_pos hj] at hu
          split at hu
          · cases hu
            rw [hcurrent'] at hcur
            cases hcur
          · cases hu
        · rw [getElem?_set, if_neg hj] at hu
          exact h.data j u k handle hu hcur hne hhandle
      copied := by
        intro u hu k n hcopied
        rcases hmem u hu with rfl | hold
        · cases hstage'.symm.trans hcopied
        · have hzero := h.copied u hold k n hcopied
          have hother := (h.threads u hold).stage
          simp only [StageOk, hcopied] at hother
          obtain ⟨j, hj⟩ := getElem?_of_mem hold
          have hlt := (h.holder hj hother.1.current).1
          obtain ⟨-, hsum', -⟩ := counts_set ht t' (k - 1)
          rw [(hreserves _).1, (hreserves _).2, if_neg (by omega)] at hsum'
          exact hsum'.trans hzero
      docs := by
        have hsum := total_set (account params parser) ht t'
        have haccount : account params parser t' = account params parser t
            + (bufferDocs params parser scan.reader.bufferIdx : Multiset Doc) := by
          simp only [account, owed, hstage, hstage']
          rw [ht', hok]
          simp
        rw [haccount, ← add_assoc, add_right_comm] at hsum
        rw [add_right_cancel hsum, ← h.docs, pending_succ params parser hmore, ← Multiset.coe_add,
          add_assoc] }
  · show total (weight params) (scan.threads.set i t')
      + (numBuffers params + 1 - (scan.reader.bufferIdx + 1)) * (lineWeight params + 3) < _
    have hsum := total_set (weight params) ht t'
    have hweight : weight params t = 1 := by simp [weight, hstage, hcurrent]
    have hweight' : weight params t' = lineWeight params + 3 := by simp [weight, hstage']
    unfold Scan.work
    rw [show numBuffers params + 1 - scan.reader.bufferIdx
        = (numBuffers params + 1 - (scan.reader.bufferIdx + 1)) + 1 by omega,
      Nat.add_mul, Nat.one_mul]
    omega

theorem Scan.Sound.step_finish (hlast : scan.reader.lastReadRequested = true) :
    Advances params parser scan i
      (scan.reader, { t with stage := .finished, isLast := false }) := by
  have hthread := h.threads t (mem_of_getElem? ht)
  have hok := hthread.stage
  simp only [StageOk, hstage] at hok
  apply h.next_same ht
  · exact fun _ => rfl
  · simp [JSONScanLocalState.reserves, hstage]
  · simp [JSONScanLocalState.awaits, hstage]
  · exact { hthread with stage := ⟨hcurrent, hok, hlast⟩ }
  · intro k n hcopied
    cases hcopied
  · intro k handle hcur
    cases hcurrent.symm.trans hcur
  · simp only [account, owed, hstage]
  · simp [weight, hstage, hcurrent]

end

end Ladybug.JsonScan
