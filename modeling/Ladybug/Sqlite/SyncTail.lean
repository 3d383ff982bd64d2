import Ladybug.Sqlite.SyncEngine
import Ladybug.Sqlite.WalLayout

/-!
# The uncommitted tail

A tick is meant to see the frames up to the last commit frame only.  The commit loop does; the two
reconciling branches take every frame of the log, and move the cursor past all of them.
-/

namespace Ladybug.Sqlite

open Bytes List

def servedFrame (frames : List WalFrame) (limit : Nat) (p : UInt32) : Option Nat :=
  (List.range limit).reverse.find? fun i => (frames[i]?).map WalFrame.pageNo = some p

variable {frames : List WalFrame} {cs : List CommitBatch} {log : WalLog}

theorem servedFrame_lt {limit : Nat} {p : UInt32} {i : Nat}
    (h : servedFrame frames limit p = some i) : i < limit := by
  have hmem := mem_of_find?_eq_some h
  rwa [mem_reverse, mem_range] at hmem

theorem find_take (frames : List WalFrame) (limit : Nat) (p : UInt32) :
    (frames.take limit).reverse.find? (fun f => f.pageNo = p) =
      (servedFrame frames limit p).bind (frames[·]?) := by
  unfold servedFrame
  induction limit with
  | zero => rfl
  | succ limit ih =>
    rw [take_add_one, reverse_append, range_succ, reverse_append, reverse_singleton,
      singleton_append, find?_cons]
    cases hframe : frames[limit]? with
    | none => simpa using ih
    | some f => by_cases hpage : f.pageNo = p <;> simp [hpage, hframe, ih]

/-- The overlay serves the image of this frame, or the page of the database file. -/
theorem overlay_servedFrame (frames : List WalFrame) (db : Bytes) (pageSize limit : Nat)
    (p : UInt32) : overlay frames db pageSize limit p = match servedFrame frames limit p with
      | some i => (frames[i]?).map WalFrame.image
      | none => overlay [] db pageSize 0 p := by
  have hfind := find_take frames limit p
  cases hserved : servedFrame frames limit p with
  | none =>
    unfold overlay
    rw [hfind, hserved]
    rfl
  | some i =>
    have hsome := find?_some hserved
    cases hframe : frames[i]? with
    | none => simp [hframe] at hsome
    | some f =>
      unfold overlay
      rw [hfind, hserved]
      simp [hframe]

def WalLog.committedFrames (log : WalLog) : Nat :=
  match log.commits.getLast? with
  | some c => c.lastFrame + 1
  | none => 0

variable {start stop : Nat}

section

variable (h : CommitRuns frames start cs stop)

include h

theorem CommitRuns.start_le_stop : start ≤ stop := by
  induction cs generalizing start with
  | nil => exact le_of_eq h
  | cons c cs ih =>
    obtain ⟨hfirst, hle, -, -, -, -, hrest⟩ := h
    have hstop := ih hrest
    omega

theorem CommitRuns.lastFrame_lt : ∀ c ∈ cs, c.lastFrame < stop := by
  induction cs generalizing start with
  | nil => exact fun c hc => absurd hc not_mem_nil
  | cons c cs ih =>
    obtain ⟨-, -, -, -, -, -, hrest⟩ := h
    intro c' hc'
    rcases mem_cons.mp hc' with rfl | hmem
    · exact hrest.start_le_stop
    · exact ih hrest c' hmem

theorem CommitRuns.getLast? : ∀ c, cs.getLast? = some c → c.lastFrame + 1 = stop := by
  induction cs generalizing start with
  | nil => exact fun c hc => nomatch hc
  | cons c cs ih =>
    obtain ⟨-, -, -, -, -, -, hrest⟩ := h
    intro c' hc'
    cases cs with
    | nil =>
      cases hc'
      exact hrest
    | cons c₁ cs₁ => exact ih hrest c' (by rwa [getLast?_cons_cons] at hc')

end

theorem WalLog.Partitioned.runs (h : log.Partitioned) :
    CommitRuns log.frames 0 log.commits log.committedFrames ∧
      log.committedFrames + log.uncommittedFrames = log.frames.length := by
  obtain ⟨stop, hruns, hlen, -⟩ := h
  have hstop : log.committedFrames = stop := by
    unfold WalLog.committedFrames
    cases hlast : log.commits.getLast? with
    | none =>
      rw [getLast?_eq_none_iff] at hlast
      rw [hlast] at hruns
      exact hruns
    | some c => exact hruns.getLast? c hlast
  rw [hstop]
  exact ⟨hruns, hlen⟩

def advance (clock : WalClock) (step : SyncStep) : WalClock :=
  { clock with appliedFrames := step.appliedFrames }

/-- The cursor a tick writes when it gets to its end. -/
def tickClock (clock : WalClock) (log : Option WalLog) : WalClock :=
  finalClock ((syncSteps clock log).foldl advance clock) log

theorem mem_incrementalSteps {applied : Nat} {step : SyncStep}
    (h : step ∈ incrementalSteps frames cs applied) : ∃ c ∈ cs, step.limit = c.lastFrame + 1 := by
  induction cs generalizing applied with
  | nil => cases h
  | cons c cs ih =>
    unfold incrementalSteps at h
    split at h
    · obtain ⟨c', hc', hlimit⟩ := ih h
      exact ⟨c', mem_cons_of_mem c hc', hlimit⟩
    · rcases mem_cons.mp h with rfl | hmem
      · exact ⟨c, mem_cons_self, rfl⟩
      · obtain ⟨c', hc', hlimit⟩ := ih hmem
        exact ⟨c', mem_cons_of_mem c hc', hlimit⟩

theorem incrementalSteps_clock (h : CommitRuns frames start cs stop) (clock : WalClock)
    (hstart : start ≤ clock.appliedFrames) :
    ((incrementalSteps frames cs clock.appliedFrames).foldl advance clock).appliedFrames =
      max clock.appliedFrames stop := by
  induction cs generalizing start clock with
  | nil =>
    have hstop : start = stop := h
    subst hstop
    exact (max_eq_left hstart).symm
  | cons c cs ih =>
    obtain ⟨-, -, -, -, -, -, hrest⟩ := h
    have hle := hrest.start_le_stop
    unfold incrementalSteps
    split
    next hpassed => exact ih hrest clock hpassed
    next hnew =>
      rw [foldl_cons]
      have hnext := ih hrest (advance clock ⟨.applyFrames (dirtyPages frames
        clock.appliedFrames c.lastFrame), c.lastFrame + 1, c.lastFrame + 1⟩) le_rfl
      unfold advance at hnext ⊢
      rw [hnext]
      show max (c.lastFrame + 1) stop = max clock.appliedFrames stop
      omega

/-- The calls of a tick read frames up to the last commit frame only, and the cursor stays within
them.  `Reads` are the pages a call asks its fetcher for. -/
structure LeavesTail (clock : WalClock) (log : WalLog) (Reads : SyncStep → UInt32 → Prop) :
    Prop where
  images : ∀ step ∈ syncSteps clock (some log), ∀ p, Reads step p →
    ∀ i, servedFrame log.frames step.limit p = some i → i < log.committedFrames
  cursor : (tickClock clock (some log)).appliedFrames ≤ log.committedFrames

theorem leavesTail_reconcile {clock : WalClock} (hparts : log.Partitioned)
    (hsteps : syncSteps clock (some log) = [⟨.reconcile, log.frames.length, log.frames.length⟩])
    (Reads : SyncStep → UInt32 → Prop) :
    LeavesTail clock log Reads ↔ log.uncommittedFrames = 0 := by
  obtain ⟨-, hlen⟩ := hparts.runs
  have hclock : (tickClock clock (some log)).appliedFrames = log.frames.length := by
    unfold tickClock
    rw [hsteps]
    rfl
  constructor
  · intro h
    have hcursor := h.cursor
    omega
  · intro hnone
    refine ⟨?_, by omega⟩
    intro step hstep p _ i hi
    rw [hsteps, mem_singleton] at hstep
    subst hstep
    have hlt := servedFrame_lt hi
    simp only at hlt
    omega

theorem leavesTail_incremental {clock : WalClock} (hparts : log.Partitioned)
    (hsteps : syncSteps clock (some log) =
      incrementalSteps log.frames log.commits clock.appliedFrames)
    (Reads : SyncStep → UInt32 → Prop) :
    LeavesTail clock log Reads ↔ clock.appliedFrames ≤ log.committedFrames := by
  obtain ⟨hruns, -⟩ := hparts.runs
  have hclock : (tickClock clock (some log)).appliedFrames =
      max clock.appliedFrames log.committedFrames := by
    unfold tickClock
    rw [hsteps]
    exact incrementalSteps_clock hruns clock (Nat.zero_le _)
  constructor
  · intro h
    have hcursor := h.cursor
    omega
  · intro hle
    refine ⟨?_, by omega⟩
    intro step hstep p _ i hi
    rw [hsteps] at hstep
    obtain ⟨c, hc, hlimit⟩ := mem_incrementalSteps hstep
    have hlast := hruns.lastFrame_lt c hc
    have hlt := servedFrame_lt hi
    omega

/-- For every parsed WAL and every persisted cursor, whatever pages the calls read: the tick leaves
the uncommitted tail alone exactly when a reconciling branch meets a log without a tail, and the
commit loop a cursor that is not past the last commit. -/
theorem leaves_tail_iff {data : Bytes} {log : WalLog} (hlog : parseWal data = .ok log)
    (clock : WalClock) (Reads : SyncStep → UInt32 → Prop) :
    LeavesTail clock log Reads ↔
      if walRestarted clock log.header ∨ clock.appliedFrames > log.frames.length ∨
        page1Dirty clock log.frames
      then log.uncommittedFrames = 0
      else clock.appliedFrames ≤ log.committedFrames := by
  have hparts := parseWal_partitioned hlog
  by_cases hrestarted : walRestarted clock log.header ∨ clock.appliedFrames > log.frames.length
  · rw [if_pos (hrestarted.elim .inl fun h => .inr (.inl h))]
    apply leavesTail_reconcile hparts
    simp only [syncSteps, syncBranch, if_pos hrestarted]
  by_cases hdirty : page1Dirty clock log.frames
  · rw [if_pos (.inr (.inr hdirty))]
    apply leavesTail_reconcile hparts
    simp only [syncSteps, syncBranch, if_neg hrestarted, if_pos hdirty]
  · rw [if_neg (by tauto)]
    apply leavesTail_incremental hparts
    simp only [syncSteps, syncBranch, if_neg hrestarted, if_neg hdirty]

def tailSchema : TableSchema := { name := "t", rootPage := 2 }

-- one committed row on page 2
def closedFrames : List WalFrame :=
  [{ pageNo := 2, commitSize := 2, image := smallLeaf [(1, [2, 1, 5])] }]

-- a transaction that is still open has added a second row and changed the schema
def openFrames : List WalFrame := closedFrames ++
  [{ pageNo := 2, image := smallLeaf [(1, [2, 1, 5]), (2, [2, 1, 6])] },
    { pageNo := 1, image := List.replicate 512 0 }]

theorem parseWal_small (frames : List WalFrame)
    (hf : ∀ f ∈ frames, f.pageNo ≠ 0 ∧ f.image.length = 512) :
    parseWal (smallWal.walBytes frames) = .ok (smallWal.logOf frames) := by
  have h := smallWal.parseWal_walBytes frames [] (fun f hmem => ⟨(hf f hmem).1, (hf f hmem).2⟩)
    (.inl (by decide))
  rwa [append_nil] at h

theorem leaves_tail_iff_closed : ∃ log, parseWal (smallWal.walBytes closedFrames) = .ok log ∧
    LeavesTail ⟨7, 9, 0⟩ log fun _ _ => True := by
  have hparse := parseWal_small closedFrames (by decide +kernel)
  refine ⟨_, hparse, (leaves_tail_iff hparse _ _).mpr ?_⟩
  decide +kernel

theorem exists_memory {run : Except Stop OpBatch × OpResolver} {batch : OpBatch}
    (h : run.1 = .ok batch) : ∃ r', run = (.ok batch, r') := ⟨run.2, Prod.ext h rfl⟩

/-- Both reconciling branches, around a schema change and after a restart, hand the row of the open
transaction on and move the cursor past its frames. -/
theorem open_tail_applied : ∃ log, parseWal (smallWal.walBytes openFrames) = .ok log ∧
    ∀ clock ∈ [(⟨7, 9, 1⟩ : WalClock), ⟨1, 1, 0⟩],
      (∃ step ∈ syncSteps clock (some log), servedFrame log.frames step.limit 2 = some 1 ∧
        ∃ batch r', step.call.run {} [tailSchema] (overlay log.frames [] 512 step.limit) 512 =
          (.ok batch, r') ∧ (⟨"t", 2, [.integer 6]⟩ : RowOp) ∈ batch.upserts) ∧
      ∀ Reads, ¬ LeavesTail clock log Reads := by
  have hparse := parseWal_small openFrames (by decide +kernel)
  have hcall : (ResolverCall.reconcile.run {} [tailSchema] (overlay openFrames [] 512 3) 512).1 =
      .ok { upserts := [⟨"t", 1, [.integer 5]⟩, ⟨"t", 2, [.integer 6]⟩] } := by decide +kernel
  obtain ⟨r', hrun⟩ := exists_memory hcall
  refine ⟨_, hparse, ?_⟩
  intro clock hclock
  have hsteps : syncSteps clock (some (smallWal.logOf openFrames)) = [⟨.reconcile, 3, 3⟩] := by
    revert clock
    decide +kernel
  constructor
  · refine ⟨⟨.reconcile, 3, 3⟩, by rw [hsteps]; exact mem_cons_self, by decide +kernel,
      _, r', hrun, by decide⟩
  · intro Reads hleaves
    have htail := (leavesTail_reconcile (parseWal_partitioned hparse) hsteps Reads).mp hleaves
    exact absurd htail (by decide +kernel)

end Ladybug.Sqlite
