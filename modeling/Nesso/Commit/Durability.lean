import Nesso.Commit.Rotation
import Nesso.Recovery.CrashPrefix

/-
  Confirmed operations survive a power loss.

  A power loss keeps the names of the files, and of each file
  at least what an fsync found in it.  The segments that were
  closed are then whole, the active one is cut somewhere, and
  the recovered queue is that of a prefix of the operations
  with every operation whose client was told Ok.

  Key definitions include:
    * `CommitAction.op`
    * `CommitAction.Clean`
    * `CommitRun`
    * `CommitSystem.PowerLoss`

  The main theorems are:
    * `CommitRun.closed_synced`
    * `CommitRun.read_of_powerLoss`
    * `powerLoss_keeps_confirmed`
-/

------------------------------------------------------------
-- Clean Runs and Power Losses
------------------------------------------------------------

namespace Nesso

namespace CommitAction

/- The operation that an action makes on the queue. -/
def op : CommitAction → Option QueueOp
| .call _ (.push payload priority) =>
    some (.push payload priority)
| .call _ (.popAndLease consumerId now leaseTtlSecs) =>
    some (.popAndLease consumerId now leaseTtlSecs)
| .call _ (.ack id consumerId) => some (.ack id consumerId)
| .call _ (.nack id consumerId) =>
    some (.nack id consumerId)
| .expire _ task => some (.expire task.id)
| _ => none

/-
  No system call fails, payloads fit into a frame, ids are
  left, and the worker fails a lease that is in force.
-/
def Clean
    (system : CommitSystem) : CommitAction → Prop
| .call fault (.push payload _) =>
    fault = none ∧ payload.length ≤ maxPayloadSize ∧
      system.engine.inner.IdsLeft
| .call fault _ => fault = none
| .expire fault task =>
    fault = none ∧
      ∃ lease,
        system.engine.inner.leased[task.id]? = some lease ∧
          task = ⟨task.id, lease.priority, lease.retries⟩
| .commit (.fsync _ result) => result = .ok ()
| _ => True

end CommitAction

/- Clients of a queue that was opened on an empty directory. -/
def CommitRun [Hasher]
    (options : GroupCommitConfig)
    (maxSegmentSize : Option Nat)
    (cacheCapacity : Nat)
    (start : UInt64) :
    List CommitAction → CommitSystem → Prop :=
  Transition.Run (CommitSystem.step options)
    (fun system action =>
      action.Clean system ∧ action.CoversBatch system)
    (CommitSystem.start
      (Engine.reopen FileSystem.empty maxSegmentSize
        cacheCapacity start).2)

/-
  What a power loss may leave: every name, of each file the
  beginning, and of a synced file all that was in it when the
  fsync was started.  `At` are the states of the run by time.
-/
structure CommitSystem.PowerLoss
    (At : Nat → CommitSystem → Prop)
    (system : CommitSystem)
    (disk : Disk) : Prop where
  lookup_eq :
    ∀ name,
      disk.lookup name = system.engine.disk.lookup name
  content_cut :
    ∀ inode,
      disk.contentOf inode <+:
        system.engine.disk.contentOf inode
  synced :
    ∀ fsync ∈ system.fsyncs, ∀ earlier,
      At fsync.started earlier →
        earlier.engine.disk.contentOf fsync.file <+:
          disk.contentOf fsync.file

end Nesso

------------------------------------------------------------
-- Growing Files
------------------------------------------------------------

namespace Nesso

/- Names stay, and files only grow. -/
structure Disk.Within (disk next : Disk) : Prop where
  lookup_of_lookup :
    ∀ {name inode},
      disk.lookup name = some inode →
        next.lookup name = some inode
  content_grows :
    ∀ inode,
      disk.contentOf inode <+: next.contentOf inode

theorem Disk.Within.refl (disk : Disk) :
    disk.Within disk where
  lookup_of_lookup := fun hLookup => hLookup
  content_grows := fun _ => List.prefix_refl _

theorem Disk.Within.trans
    {disk middle next : Disk}
    (hFirst : disk.Within middle)
    (hSecond : middle.Within next) :
    disk.Within next where
  lookup_of_lookup := fun hLookup =>
    hSecond.lookup_of_lookup
      (hFirst.lookup_of_lookup hLookup)
  content_grows := fun inode =>
    (hFirst.content_grows inode).trans
      (hSecond.content_grows inode)

/-
  An append keeps every name and handle and only writes to
  the file that is active afterwards; with a rotation this is
  a new file.
-/
structure Engine.Grows (engine next : Engine) : Prop where
  within : engine.disk.Within next.disk
  content_other :
    ∀ {inode}, inode ≠ next.inner.wal.activeFile →
      next.disk.contentOf inode =
        engine.disk.contentOf inode
  segment :
    (next.inner.wal.activeSegmentId =
          engine.inner.wal.activeSegmentId ∧
        ∀ name,
          next.disk.lookup name =
            engine.disk.lookup name) ∨
      (next.inner.wal.activeSegmentId =
          engine.inner.wal.activeSegmentId + 1 ∧
        ∀ name,
          next.disk.lookup name =
            if name =
                .wal
                  (engine.inner.wal.activeSegmentId + 1)
              then
              some next.inner.wal.activeFile
            else engine.disk.lookup name)

namespace Engine

variable [Hasher]
variable {engine middle next : Engine}

omit [Hasher] in
theorem Grows.refl (engine : Engine) :
    engine.Grows engine where
  within := .refl _
  content_other := fun _ => rfl
  segment := .inl ⟨rfl, fun _ => rfl⟩

omit [Hasher] in
theorem Grows.of_alike
    (hGrows : engine.Grows middle)
    (hAlike : middle.Alike next) :
    engine.Grows next := by
  rcases hGrows with ⟨hWithin, hOther, hSegment⟩
  constructor
  · rw [hAlike.disk_eq]
    exact hWithin
  · rw [hAlike.disk_eq, hAlike.wal_eq]
    exact hOther
  · rw [hAlike.disk_eq, hAlike.wal_eq]
    exact hSegment

/- A change appends one record. -/
theorem grows_perform
    (engine : Engine)
    (change : Change) :
    engine.Grows (engine.perform change) := by
  unfold perform Wal.append Wal.rotateIfFull Wal.rotate
  by_cases hFull :
      engine.inner.wal.maxSegmentSize ≤
        engine.inner.wal.currentSize
  · simp only [hFull, if_true, reduceCtorEq, if_false,
      Wal.writeFrame]
    constructor
    · constructor
      · intro name inode hLookup
        exact FileSystem.lookup_create_of_lookup hLookup _
      · intro inode
        refine List.IsPrefix.trans ?_
          (FileSystem.contentOf_prefix_append _ _ _ _)
        rw [FileSystem.contentOf_create]
    · intro inode hInode
      rw [FileSystem.contentOf_append_of_ne _ hInode,
        FileSystem.contentOf_create]
    · refine .inr ⟨rfl, ?_⟩
      intro name
      exact FileSystem.lookup_create _ _ name
  · simp only [hFull, if_false, Wal.writeFrame]
    constructor
    · constructor
      · intro name inode hLookup
        exact hLookup
      · intro inode
        exact FileSystem.contentOf_prefix_append _ _ _ _
    · intro inode hInode
      exact FileSystem.contentOf_append_of_ne _ hInode _
    · exact .inl ⟨rfl, fun _ => rfl⟩

theorem Grows.of_moves
    (hMoves : engine.Moves next) :
    engine.Grows next := by
  rcases hMoves with hAlike | ⟨change, _, hAlike⟩
  · exact (Grows.refl engine).of_alike hAlike
  · exact (engine.grows_perform change).of_alike hAlike

/- Every operation appends at most one record. -/
theorem grows_run
    (engine : Engine)
    (op : QueueOp) :
    engine.Grows (op.run engine) := by
  cases op with
  | push payload priority =>
      rw [QueueOp.run, push_none]
      exact engine.grows_perform _
  | popAndLease consumerId now leaseTtlSecs =>
      exact .of_moves
        (engine.popAndLease_moves consumerId now
          leaseTtlSecs)
  | ack id consumerId =>
      exact .of_moves (engine.ack_moves id consumerId)
  | nack id consumerId =>
      exact .of_moves (engine.nack_moves id consumerId)
  | expire id =>
      rw [QueueOp.run]
      split
      · exact .refl engine
      · rw [expireTask_none]
        exact engine.grows_perform _

end Engine

end Nesso

------------------------------------------------------------
-- One Step
------------------------------------------------------------

namespace Nesso

/- What a clean step does to the queue and the clients. -/
structure CommitSystem.Performs [Hasher]
    (system : CommitSystem)
    (action : CommitAction)
    (next : CommitSystem) : Prop where
  engine_eq :
    next.engine =
      action.op.elim system.engine
        (QueueOp.run system.engine)
  admissible :
    ∀ op, action.op = some op →
      op.Admissible system.engine
  clock_eq : next.clock = system.clock + 1
  fsyncs :
    system.fsyncs ++ system.rotationSync next.engine ⊆
      next.fsyncs
  written :
    ∀ record ∈ next.written,
      record ∈ system.written ∨
        record =
            ⟨next.engine.inner.wal.activeFile,
              system.clock⟩ ∧
          ∃ call, action = .call none call

namespace CommitSystem

variable [Hasher]
variable {system next : CommitSystem}
variable {options : GroupCommitConfig}

/- A client's call. -/
theorem performs_call
    {call : EngineCall}
    (hClean : (CommitAction.call none call).Clean system)
    (hStep :
      system.step options (.call none call) = some next) :
    system.Performs (.call none call) next := by
  simp only [CommitSystem.step, Option.some.injEq] at hStep
  have hEngine :
      (call.run none system.engine).2 =
        (CommitAction.call none call).op.elim system.engine
          (QueueOp.run system.engine) := by
    cases call <;> rfl
  rw [← hStep]
  constructor
  · exact hEngine
  · intro op hOp
    cases call with
    | push payload priority =>
        rw [← Option.some.inj hOp]
        exact hClean.2
    | popAndLease consumerId now leaseTtlSecs =>
        rw [← Option.some.inj hOp]
        trivial
    | ack id consumerId =>
        rw [← Option.some.inj hOp]
        trivial
    | nack id consumerId =>
        rw [← Option.some.inj hOp]
        trivial
  · rfl
  · exact List.Subset.refl _
  · intro record hRecord
    rcases List.mem_append.mp hRecord with hOld | hNew
    · exact .inl hOld
    · split at hNew
      · rw [List.mem_singleton] at hNew
        exact .inr ⟨hNew, call, rfl⟩
      · simp at hNew

/- One turn of the expiration worker. -/
theorem performs_expire
    {fault : Option AppendFault}
    {task : ExpiredTask}
    (hClean :
      (CommitAction.expire fault task).Clean system)
    (hStep :
      system.step options (.expire fault task) =
        some next) :
    system.Performs (.expire fault task) next := by
  rcases hClean with ⟨rfl, lease, hLease, hTask⟩
  simp only [CommitSystem.step, Option.some.injEq] at hStep
  rw [← hStep]
  constructor
  · simp only [CommitAction.op, Option.elim_some,
      QueueOp.run, hLease, ← hTask]
    rfl
  · intro op hOp
    rw [← Option.some.inj hOp]
    trivial
  · rfl
  · exact List.Subset.refl _
  · intro record hRecord
    simp only [CommitSystem.advance, List.append_nil]
      at hRecord
    exact .inl hRecord

/- The steps of a commit leave the queue alone. -/
theorem performs_commitStep
    {action : CommitAction}
    (hOp : action.op = none)
    (step : CommitStep SyncTicket)
    (group : GroupCommit SyncTicket) :
    system.Performs action (system.commitStep step group) := by
  constructor
  · rw [hOp]
    rfl
  · rw [hOp]
    simp
  · rfl
  · simp [rotationSync, commitStep]
  · intro record hRecord
    exact .inl hRecord

theorem performs_step
    {action : CommitAction}
    (hClean : action.Clean system)
    (hStep : system.step options action = some next) :
    system.Performs action next := by
  cases action with
  | call fault call =>
      have hFault : fault = none := by
        cases call with
        | push payload priority => exact hClean.1
        | _ => exact hClean
      subst hFault
      exact performs_call hClean hStep
  | expire fault task => exact performs_expire hClean hStep
  | sync record force =>
      simp only [CommitSystem.step] at hStep
      split at hStep
      · simp at hStep
      · rcases Option.map_eq_some_iff.mp hStep with
          ⟨group, _, rfl⟩
        exact performs_commitStep rfl _ group
  | commit step =>
      simp only [CommitSystem.step] at hStep
      split at hStep
      · simp at hStep
      · rcases Option.map_eq_some_iff.mp hStep with
          ⟨group, _, rfl⟩
        exact performs_commitStep rfl _ group

namespace Performs

variable {action : CommitAction}

theorem grows
    (hPerforms : system.Performs action next) :
    system.engine.Grows next.engine := by
  rw [hPerforms.engine_eq]
  cases action.op with
  | none => exact .refl _
  | some op => exact Engine.grows_run _ op

theorem fsyncs_subset
    (hPerforms : system.Performs action next) :
    system.fsyncs ⊆ next.fsyncs :=
  List.Subset.trans (List.subset_append_left _ _)
    hPerforms.fsyncs

end Performs

end CommitSystem

namespace CommitAction

/- Clean steps do not let an fsync fail. -/
theorem Clean.fsyncSucceeds
    {system : CommitSystem}
    {action : CommitAction}
    (hClean : action.Clean system) :
    action.FsyncSucceeds := by
  cases action with
  | call fault call =>
      have hFault : fault = none := by
        cases call with
        | push payload priority => exact hClean.1
        | _ => exact hClean
      rw [hFault]
      simp [FsyncSucceeds]
  | expire fault task =>
      rw [hClean.1]
      simp [FsyncSucceeds]
  | sync record force => trivial
  | commit step =>
      cases step with
      | fsync position result => exact hClean
      | _ => trivial

end CommitAction

end Nesso

------------------------------------------------------------
-- Runs and Their Earlier States
------------------------------------------------------------

namespace Nesso

namespace CommitRun

variable [Hasher]
variable {options : GroupCommitConfig}
variable {maxSegmentSize : Option Nat}
variable {cacheCapacity : Nat} {start : UInt64}
variable {actions : List CommitAction}
variable {system : CommitSystem}

theorem clock_eq
    (hRun :
      CommitRun options maxSegmentSize cacheCapacity start
        actions system) :
    system.clock = actions.length := by
  induction hRun with
  | start => rfl
  | step _ hAllowed hNext ih =>
      have hPerforms :=
        CommitSystem.performs_step hAllowed.1 hNext
      rw [hPerforms.clock_eq, ih]
      simp

/- The queue only sees the operations. -/
theorem queueRun
    (hRun :
      CommitRun options maxSegmentSize cacheCapacity start
        actions system) :
    QueueRun maxSegmentSize cacheCapacity start
      (actions.filterMap CommitAction.op) system.engine := by
  induction hRun with
  | start => exact .start
  | @step actions before next action _ hAllowed hNext ih =>
      have hPerforms :=
        CommitSystem.performs_step hAllowed.1 hNext
      have hEngine := hPerforms.engine_eq
      rw [List.filterMap_append]
      cases hOp : action.op with
      | none =>
          rw [hOp] at hEngine
          rw [hEngine]
          simpa [hOp] using ih
      | some op =>
          rw [hOp] at hEngine
          rw [hEngine]
          simp only [List.filterMap_cons, hOp,
            List.filterMap_nil]
          exact ih.step (hPerforms.admissible op hOp) rfl

theorem exists_live
    (hRun :
      CommitRun options maxSegmentSize cacheCapacity start
        actions system) :
    ∃ log, system.engine.Live log := by
  rcases hRun.queueRun.stages with ⟨stage, hStages⟩
  have hWhole := hStages.run _ (le_refl _)
  rw [List.take_length] at hWhole
  have hLive := hStages.live _ (le_refl _)
  rw [hWhole.unique hRun.queueRun] at hLive
  exact ⟨_, hLive⟩

theorem tracked
    (hRun :
      CommitRun options maxSegmentSize cacheCapacity start
        actions system) :
    system.Tracked := by
  apply hRun.invariant
  · exact CommitSystem.Tracked.start _
  · intro system next action hSystem hAllowed hNext
    exact hSystem.step hAllowed.1.fsyncSucceeds hAllowed.2
      hNext

/- Files grow from any state of a run to a later one. -/
theorem within
    {front : List CommitAction}
    {earlier : CommitSystem}
    (hEarlier :
      CommitRun options maxSegmentSize cacheCapacity start
        front earlier)
    (hRun :
      CommitRun options maxSegmentSize cacheCapacity start
        actions system)
    (hFront : front <+: actions) :
    earlier.engine.disk.Within system.engine.disk := by
  rcases hFront with ⟨back, rfl⟩
  rcases hRun.split with ⟨middle, hMiddle, hBack⟩
  rw [hEarlier.unique hMiddle]
  clear hRun
  induction hBack with
  | start => exact .refl _
  | step hSteps hAllowed hNext ih =>
      have hPerforms :=
        CommitSystem.performs_step hAllowed.1 hNext
      exact ih.trans hPerforms.grows.within

/-
  A record was written by the call at its time, into the file
  that was active after the call.
-/
theorem written_at
    (hRun :
      CommitRun options maxSegmentSize cacheCapacity start
        actions system) :
    ∀ record ∈ system.written,
      (∃ call,
        actions[record.time]? = some (.call none call)) ∧
        ∃ state,
          CommitRun options maxSegmentSize cacheCapacity
              start (actions.take (record.time + 1))
              state ∧
            state.engine.inner.wal.activeFile =
              record.file := by
  induction hRun with
  | start => simp [CommitSystem.start]
  | @step actions before next action hRun hAllowed hNext
      ih =>
      have hPerforms :=
        CommitSystem.performs_step hAllowed.1 hNext
      have hClock := CommitRun.clock_eq hRun
      intro record hRecord
      rcases hPerforms.written record hRecord with
        hOld | ⟨rfl, call, rfl⟩
      · rcases ih record hOld with
          ⟨⟨call, hCall⟩, state, hState, hFile⟩
        have hLt :=
          (List.getElem?_eq_some_iff.mp hCall).1
        refine ⟨⟨call, ?_⟩, state, ?_, hFile⟩
        · rw [List.getElem?_append_left hLt]
          exact hCall
        · rw [List.take_append_of_le_length (by omega)]
          exact hState
      · refine ⟨⟨call, ?_⟩, next, ?_, rfl⟩
        · simp [hClock]
        · rw [List.take_of_length_le (by simp [hClock])]
          exact hRun.step hAllowed hNext

/-
  A segment that has been closed was fsynced by the rotation,
  when all that it holds now was in it.
-/
theorem closed_synced
    (hRun :
      CommitRun options maxSegmentSize cacheCapacity start
        actions system) :
    ∀ segmentId inode,
      system.engine.disk.lookup (.wal segmentId) =
          some inode →
        segmentId <
            system.engine.inner.wal.activeSegmentId →
          ∃ fsync ∈ system.fsyncs, ∃ earlier,
            fsync.file = inode ∧
              fsync.started < actions.length ∧
              CommitRun options maxSegmentSize
                cacheCapacity start
                (actions.take fsync.started) earlier ∧
              earlier.engine.disk.contentOf inode =
                system.engine.disk.contentOf inode := by
  induction hRun with
  | start =>
      intro segmentId inode hLookup hClosed
      have hLive :=
        Engine.live_reopen_empty maxSegmentSize
          cacheCapacity start
      have hRead :
          ∃ content,
            (Engine.reopen FileSystem.empty maxSegmentSize
                cacheCapacity start).2.disk.read
                  (.wal segmentId) = some content :=
        ⟨_, FileSystem.read_eq_some_iff.mpr
          ⟨inode, hLookup, rfl⟩⟩
      rcases hRead with ⟨content, hRead⟩
      rcases (hLive.tracks.segmentsOn.read_iff _ _).mp hRead
        with ⟨records, hMem, _⟩
      have hFirst := hLive.tracks.activeSegmentId_eq
      simp only [CommitSystem.start, hFirst] at hClosed
      simp only [SegmentedLog.segments, List.nil_append,
        List.mem_singleton, Prod.mk.injEq] at hMem
      omega
  | @step actions before next action hRun hAllowed hNext
      ih =>
      have hPerforms :=
        CommitSystem.performs_step hAllowed.1 hNext
      have hGrows := hPerforms.grows
      have hLater :
          CommitRun options maxSegmentSize cacheCapacity
            start (actions ++ [action]) next :=
        hRun.step hAllowed hNext
      rcases CommitRun.exists_live hRun with ⟨log, hLive⟩
      rcases CommitRun.exists_live hLater with
        ⟨nextLog, hNextLive⟩
      intro segmentId inode hLookup hClosed
      -- Only the active file is written to.
      have hKept :
          next.engine.disk.contentOf inode =
            before.engine.disk.contentOf inode := by
        apply hGrows.content_other
        rintro rfl
        have hActive := hNextLive.tracks.activeFile_eq
        have hSame :=
          next.engine.disk.names_inj hLookup hActive
        rw [← hNextLive.tracks.activeSegmentId_eq,
          FileName.wal.injEq] at hSame
        omega
      -- Segments that were closed before this step.
      have hOld :
          before.engine.disk.lookup (.wal segmentId) =
              some inode →
            segmentId <
                before.engine.inner.wal.activeSegmentId →
              ∃ fsync ∈ next.fsyncs, ∃ earlier,
                fsync.file = inode ∧
                  fsync.started <
                    (actions ++ [action]).length ∧
                  CommitRun options maxSegmentSize
                    cacheCapacity start
                    ((actions ++ [action]).take
                      fsync.started) earlier ∧
                  earlier.engine.disk.contentOf inode =
                    next.engine.disk.contentOf inode := by
        intro hBefore hBelow
        rcases ih segmentId inode hBefore hBelow with
          ⟨fsync, hFsync, earlier, hFile, hTime, hEarlier,
            hContent⟩
        refine ⟨fsync, hPerforms.fsyncs_subset hFsync,
          earlier, hFile, ?_, ?_, hContent.trans hKept.symm⟩
        · rw [List.length_append]
          omega
        · rw [List.take_append_of_le_length (by omega)]
          exact hEarlier
      rcases hGrows.segment with
        ⟨hId, hLookups⟩ | ⟨hId, hLookups⟩
      · rw [hLookups] at hLookup
        rw [hId] at hClosed
        exact hOld hLookup hClosed
      · rw [hId] at hClosed
        rw [hLookups, if_neg (by
          rw [FileName.wal.injEq]
          omega)] at hLookup
        by_cases hBelow :
            segmentId <
              before.engine.inner.wal.activeSegmentId
        · exact hOld hLookup hBelow
        · -- This step has closed the segment.
          have hActive :
              segmentId =
                before.engine.inner.wal.activeSegmentId := by
            omega
          have hFile :
              before.engine.inner.wal.activeFile =
                inode := by
            have hFound := hLive.tracks.activeFile_eq
            rw [← hLive.tracks.activeSegmentId_eq,
              ← hActive, hLookup, Option.some.injEq]
              at hFound
            exact hFound.symm
          refine ⟨⟨inode, before.clock⟩,
            hPerforms.fsyncs ?_, before, rfl, ?_, ?_,
            hKept.symm⟩
          · simp [CommitSystem.rotationSync, hId, hFile]
          · simp [CommitRun.clock_eq hRun]
          · rw [CommitRun.clock_eq hRun, List.take_left]
            exact hRun

end CommitRun

end Nesso

------------------------------------------------------------
-- Reading after a Power Loss
------------------------------------------------------------

namespace Nesso

namespace CommitRun

variable [Hasher]
variable {options : GroupCommitConfig}
variable {maxSegmentSize : Option Nat}
variable {cacheCapacity : Nat} {start : UInt64}
variable {actions : List CommitAction}
variable {system : CommitSystem} {disk : Disk}

/- The closed segments are whole, the active one is cut. -/
theorem read_of_powerLoss
    (hRun :
      CommitRun options maxSegmentSize cacheCapacity start
        actions system)
    (hLoss :
      system.PowerLoss
        (fun time =>
          CommitRun options maxSegmentSize cacheCapacity
            start (actions.take time)) disk)
    {log : SegmentedLog}
    (hLive : system.engine.Live log)
    (name : FileName) :
    disk.read name =
      if name = .wal log.activeId then
        some
          ((encodeRecords log.active).take
            (disk.contentOf
              system.engine.inner.wal.activeFile).length)
      else system.engine.disk.read name := by
  have hActive := hLive.tracks.activeFile_eq
  by_cases hName : name = .wal log.activeId
  · have hWhole :
        system.engine.disk.contentOf
            system.engine.inner.wal.activeFile =
          encodeRecords log.active := by
      have hMem :
          (log.activeId, log.active) ∈ log.segments := by
        simp [SegmentedLog.segments]
      have hRead :=
        hLive.tracks.segmentsOn.read_of_mem hMem
      rw [FileSystem.read, hActive, Option.map_some,
        Option.some.injEq] at hRead
      exact hRead
    have hCut :=
      hLoss.content_cut
        system.engine.inner.wal.activeFile
    rw [hWhole] at hCut
    rw [if_pos hName, hName, FileSystem.read,
      hLoss.lookup_eq, hActive, Option.map_some,
      ← List.prefix_iff_eq_take.mp hCut]
  · rw [if_neg hName, FileSystem.read, hLoss.lookup_eq,
      FileSystem.read]
    cases hLookup : system.engine.disk.lookup name with
    | none => rfl
    | some inode =>
        rw [Option.map_some, Option.map_some,
          Option.some.injEq]
        have hGone :
            FileName.segmentId? name = none → False := by
          intro hSegment
          have hClean := hLive.clean name hSegment
          rw [FileSystem.read, hLookup] at hClean
          simp at hClean
        cases name with
        | wal segmentId =>
            have hRead :
                system.engine.disk.read (.wal segmentId) =
                  some
                    (system.engine.disk.contentOf
                      inode) := by
              rw [FileSystem.read, hLookup, Option.map_some]
            rcases
              (hLive.tracks.segmentsOn.read_iff _ _).mp
                hRead with
              ⟨records, hMem, _⟩
            have hLe :=
              hLive.tracks.segmentsOn.le_activeId hMem
            have hBelow :
                segmentId <
                  system.engine.inner.wal.activeSegmentId
                := by
              rw [hLive.tracks.activeSegmentId_eq]
              refine lt_of_le_of_ne hLe ?_
              intro hSame
              exact hName (by rw [hSame])
            rcases hRun.closed_synced segmentId inode
              hLookup hBelow with
              ⟨fsync, hFsync, earlier, hFile, _, hEarlier,
                hContent⟩
            have hKept :=
              hLoss.synced fsync hFsync earlier hEarlier
            rw [hFile, hContent] at hKept
            exact (hLoss.content_cut inode).eq_of_length_le
              hKept.length_le
        | _ => exact (hGone rfl).elim

end CommitRun

end Nesso

------------------------------------------------------------
-- Recovery after a Power Loss
------------------------------------------------------------

namespace Nesso

section Recovery

variable [Hasher]
variable {maxSegmentSize : Option Nat}
variable {cacheCapacity : Nat} {start : UInt64}

/-
  A directory with the cut log is recovered as after some of
  the operations: as many as have all their records there.
-/
theorem Stages.recovers_cut
    {ops : List QueueOp}
    {stage : Nat → Engine × SegmentedLog}
    (hStages :
      Stages maxSegmentSize cacheCapacity start ops stage)
    {disk : Disk}
    {size : Nat}
    (hRead :
      ∀ name,
        disk.read name =
          if name = .wal (stage ops.length).2.activeId then
            some
              ((encodeRecords
                (stage ops.length).2.active).take size)
          else (stage ops.length).1.disk.read name)
    (maxSegmentSizeNext : Option Nat)
    (cacheCapacityNext : Nat)
    (now : UInt64) :
    ∃ count ≤ ops.length, ∃ next,
      Engine.reopen disk maxSegmentSizeNext
          cacheCapacityNext now = (.ok (), next) ∧
        (stage count).1.RecoversTo now next ∧
        ∀ other ≤ ops.length,
          (stage other).2.entries <+:
              ((stage ops.length).2.cut size).entries →
            other ≤ count := by
  classical
  have hLog := hStages.live ops.length (le_refl _)
  have hCut :=
    (SegmentedLog.cut_precedes (stage ops.length).2
      size).entries_prefix_entries
  rcases hStages.exists_entries_length (le_refl _)
    hCut.length_le with ⟨exact, hExact, hLength⟩
  have hExactEntries :
      (stage exact).2.entries =
        ((stage ops.length).2.cut size).entries :=
    (List.prefix_of_prefix_length_le
      (hStages.precedes hExact
        (le_refl _)).entries_prefix_entries hCut
      (le_of_eq hLength)).eq_of_length hLength
  let count :=
    Nat.findGreatest
      (fun count =>
        (stage count).2.entries =
          ((stage ops.length).2.cut size).entries)
      ops.length
  have hCount : count ≤ ops.length :=
    Nat.findGreatest_le _
  have hEntries :
      (stage count).2.entries =
        ((stage ops.length).2.cut size).entries :=
    Nat.findGreatest_spec
      (P := fun count =>
        (stage count).2.entries =
          ((stage ops.length).2.cut size).entries)
      hExact hExactEntries
  rcases Engine.reopen_spec hLog.tracks.segmentsOn
    hLog.clean hRead maxSegmentSizeNext cacheCapacityNext
    now with ⟨next, hNext, _, _, _, _, hRecovered⟩
  have hLive := hStages.live count hCount
  refine ⟨count, hCount, next, hNext, ?_, ?_⟩
  · apply Engine.recoversTo_of_entries hLive.reflects
    · rw [hEntries]
      exact hRecovered
    · exact hLive.tracks.segmentsOn.entries_eq
    · exact hLive.tracks.segmentsOn.entries_pairwise_lt
  · intro other hOther hPrefix
    by_contra hLater
    have hForward :=
      (hStages.precedes (le_of_not_ge hLater)
        hOther).entries_prefix_entries
    rw [hEntries] at hForward
    have hSame := hPrefix.eq_of_length_le hForward.length_le
    exact hLater (Nat.le_findGreatest hOther hSame)

end Recovery

namespace CommitRun

variable [Hasher]
variable {options : GroupCommitConfig}
variable {maxSegmentSize : Option Nat}
variable {cacheCapacity : Nat} {start : UInt64}
variable {actions : List CommitAction}
variable {system : CommitSystem} {disk : Disk}

/- The log up to a durable record is in the cut log. -/
theorem entries_prefix_of_durable
    (hRun :
      CommitRun options maxSegmentSize cacheCapacity start
        actions system)
    (hLoss :
      system.PowerLoss
        (fun time =>
          CommitRun options maxSegmentSize cacheCapacity
            start (actions.take time)) disk)
    {log : SegmentedLog}
    (hLive : system.engine.Live log)
    {record : Written}
    (hDurable : system.Durable record)
    {state : CommitSystem}
    (hState :
      CommitRun options maxSegmentSize cacheCapacity start
        (actions.take (record.time + 1)) state)
    (hFile :
      state.engine.inner.wal.activeFile = record.file)
    {earlier : SegmentedLog}
    (hEarlier : state.engine.Live earlier)
    (hPrecedes : earlier.Precedes log) :
    earlier.entries <+:
      (log.cut
        (disk.contentOf
          system.engine.inner.wal.activeFile).length).entries
      := by
  rcases hDurable with ⟨fsync, hFsync, hSynced, hTime⟩
  have hWhole :
      CommitRun options maxSegmentSize cacheCapacity start
        (actions.take fsync.started ++
          actions.drop fsync.started) system := by
    rw [List.take_append_drop]
    exact hRun
  rcases hWhole.split with ⟨atFsync, hAtFsync, _⟩
  have hActive := hEarlier.tracks.activeFile_eq
  rw [hFile] at hActive
  apply SegmentedLog.Precedes.entries_prefix_entries
  cases hPrecedes with
  | active hClosed hId hRecords =>
      -- The file is still active, and was synced.
      have hSame :
          system.engine.inner.wal.activeFile =
            record.file := by
        have hKept :=
          (CommitRun.within hState hRun
            (List.take_prefix _ _)).lookup_of_lookup hActive
        rw [hId, hLive.tracks.activeFile_eq,
          Option.some.injEq] at hKept
        exact hKept
      have hGrown :=
        (CommitRun.within hState hAtFsync
          (List.take_prefix_take_left
            (by omega))).content_grows record.file
      have hKept :=
        hLoss.synced fsync hFsync atFsync hAtFsync
      rw [hSynced] at hKept
      have hContent :
          state.engine.disk.contentOf record.file =
            encodeRecords earlier.active := by
        have hMem :
            (earlier.activeId, earlier.active) ∈
              earlier.segments := by
          simp [SegmentedLog.segments]
        have hRead :=
          hEarlier.tracks.segmentsOn.read_of_mem hMem
        rw [FileSystem.read, hActive, Option.map_some,
          Option.some.injEq] at hRead
        exact hRead
      rw [hContent] at hGrown
      refine .active hClosed hId
        (Framing.prefix_complete_of_length_le hRecords ?_)
      rw [hSame]
      exact (hGrown.trans hKept).length_le
  | closed records hRecords hClosed =>
      exact .closed records hRecords hClosed

end CommitRun

/-
  After a power loss at any point of a run the queue opens in
  the state that some of its operations, from the first one
  on, have led to.  Among them is every operation whose
  client was told that it is on disk.
-/
theorem powerLoss_keeps_confirmed [Hasher]
    {options : GroupCommitConfig}
    {maxSegmentSize : Option Nat}
    {cacheCapacity : Nat}
    {start : UInt64}
    {actions : List CommitAction}
    {system : CommitSystem}
    {disk : Disk}
    (hRun :
      CommitRun options maxSegmentSize cacheCapacity start
        actions system)
    (hLoss :
      system.PowerLoss
        (fun time =>
          CommitRun options maxSegmentSize cacheCapacity
            start (actions.take time)) disk)
    (maxSegmentSizeNext : Option Nat)
    (cacheCapacityNext : Nat)
    (now : UInt64) :
    ∃ count live next,
      QueueRun maxSegmentSize cacheCapacity start
          ((actions.filterMap CommitAction.op).take count)
          live ∧
        Engine.reopen disk maxSegmentSizeNext
          cacheCapacityNext now = (.ok (), next) ∧
        live.RecoversTo now next ∧
        ∀ call ∈ system.group.calls,
          call.phase = .returned (.ok ()) →
            ∀ record, call.file.record = some record →
              (∃ operation,
                actions[record.time]? =
                  some (.call none operation)) ∧
                ((actions.take (record.time + 1)).filterMap
                  CommitAction.op).length ≤ count := by
  rcases hRun.queueRun.stages with ⟨stage, hStages⟩
  have hWhole := hStages.run _ (le_refl _)
  rw [List.take_length] at hWhole
  have hEngine := hWhole.unique hRun.queueRun
  have hLive := hStages.live _ (le_refl _)
  rw [hEngine] at hLive
  have hRead := hRun.read_of_powerLoss hLoss hLive
  rw [← hEngine] at hRead
  rcases hStages.recovers_cut hRead maxSegmentSizeNext
    cacheCapacityNext now with
    ⟨count, hCount, next, hNext, hRecovers, hGreatest⟩
  refine ⟨count, (stage count).1, next,
    hStages.run count hCount, hNext, hRecovers, ?_⟩
  intro call hCall hReturned record hRecord
  have hTracked := hRun.tracked
  have hDurable :=
    hTracked.confirmed call hCall hReturned record hRecord
  have hWritten := hTracked.tickets call hCall record hRecord
  rcases hRun.written_at record hWritten with
    ⟨hOperation, state, hState, hFile⟩
  refine ⟨hOperation, ?_⟩
  have hPrefix :
      (actions.take (record.time + 1)).filterMap
          CommitAction.op <+:
        actions.filterMap CommitAction.op :=
    (List.take_prefix _ _).filterMap _
  have hLe := hPrefix.length_le
  apply hGreatest _ hLe
  have hEarlier := hStages.live _ hLe
  have hStage := hStages.run _ hLe
  rw [← List.prefix_iff_eq_take.mp hPrefix] at hStage
  rw [hStage.unique hState.queueRun] at hEarlier
  rw [hEngine]
  exact hRun.entries_prefix_of_durable hLoss hLive hDurable
    hState hFile hEarlier (hStages.precedes hLe (le_refl _))

end Nesso

------------------------------------------------------------
-- A Torn Push
------------------------------------------------------------

namespace Nesso

instance
    (system : CommitSystem)
    (action : CommitAction) :
    Decidable (action.Clean system) :=
  match action with
  | .call _ (.push _ _) =>
      inferInstanceAs
        (Decidable (_ = none ∧ _ ≤ _ ∧ ¬ _ = _))
  | .call _ (.popAndLease ..) | .call _ (.ack ..)
  | .call _ (.nack ..) =>
      inferInstanceAs (Decidable (_ = none))
  | .expire fault task =>
      decidable_of_iff
        (fault = none ∧
          system.engine.inner.leased[task.id]?.any
              (fun lease =>
                task =
                  ⟨task.id, lease.priority,
                    lease.retries⟩) = true)
        (by simp [CommitAction.Clean, Option.any_eq_true])
  | .sync .. => isTrue trivial
  | .commit (.fsync ..) => inferInstanceAs (Decidable (_ = _))
  | .commit (.call ..) | .commit (.forceFlush ..)
  | .commit (.join ..) | .commit (.resume ..)
  | .commit (.wake ..) | .commit (.finish ..) =>
      isTrue trivial

/- What the fsyncs found is on the disk, as a test. -/
def CommitSystem.survives [Hasher]
    (system : CommitSystem)
    (options : GroupCommitConfig)
    (start : CommitSystem)
    (actions : List CommitAction)
    (disk : Disk) : Bool :=
  system.fsyncs.all (fun fsync =>
    (Transition.execute (CommitSystem.step options)
      (actions.take fsync.started) start).all
        (fun earlier =>
          decide
            (earlier.engine.disk.contentOf fsync.file <+:
              disk.contentOf fsync.file)))

/- The active file is cut behind what was synced. -/
theorem CommitSystem.powerLoss_truncate [Hasher]
    {options : GroupCommitConfig}
    {maxSegmentSize : Option Nat}
    {cacheCapacity : Nat}
    {start : UInt64}
    {actions : List CommitAction}
    {system : CommitSystem}
    {size : Nat}
    (hTest :
      system.survives options
        (CommitSystem.start
          (Engine.reopen FileSystem.empty maxSegmentSize
            cacheCapacity start).2) actions
        (system.engine.disk.truncate
          system.engine.inner.wal.activeFile size) = true) :
    system.PowerLoss
      (fun time =>
        CommitRun options maxSegmentSize cacheCapacity start
          (actions.take time))
      (system.engine.disk.truncate
        system.engine.inner.wal.activeFile size) where
  lookup_eq := fun _ => rfl
  content_cut := fun inode =>
    FileSystem.contentOf_truncate_le _ _ _ inode
  synced := by
    intro fsync hFsync earlier hEarlier
    have hOne := List.all_eq_true.mp hTest fsync hFsync
    rw [Transition.Run.execute_eq hEarlier,
      Option.all_some] at hOne
    exact of_decide_eq_true hOne

/- The second push is not synced. -/
def syncedPush : List CommitAction :=
  [.call none (.push [7] 5), .sync (some 0) false,
    .commit (.join 0 0 0), .commit (.fsync 0 (.ok ())),
    .commit (.finish 0), .call none (.push [8] 5)]

set_option maxRecDepth 100000 in
/- Cut in the second frame, the file still has task 1. -/
theorem powerLoss_keeps_confirmed_syncedPush :
    ∃ system disk count live next,
      CommitRun .default (some 64) 4 0 syncedPush system ∧
        disk.contentOf
            system.engine.inner.wal.activeFile ≠
          system.engine.disk.contentOf
            system.engine.inner.wal.activeFile ∧
        QueueRun (some 64) 4 0
          ((syncedPush.filterMap CommitAction.op).take count)
          live ∧
        Engine.reopen disk (some 64) 4 20 =
          (.ok (), next) ∧
        live.RecoversTo 20 next ∧ 1 ≤ count := by
  have hEnd :
      (Transition.execute
        (Transition.checkedStep (CommitSystem.step .default)
          (fun system action =>
            decide (action.Clean system) &&
              action.coversBatch system))
        syncedPush
        (CommitSystem.start
          (Engine.reopen FileSystem.empty (some 64) 4
            0).2)).any
          (fun system =>
            system.survives .default
                (CommitSystem.start
                  (Engine.reopen FileSystem.empty (some 64)
                    4 0).2) syncedPush
                (system.engine.disk.truncate
                  system.engine.inner.wal.activeFile 30) &&
              decide
                ((system.engine.disk.truncate
                    system.engine.inner.wal.activeFile
                      30).contentOf
                    system.engine.inner.wal.activeFile ≠
                  system.engine.disk.contentOf
                    system.engine.inner.wal.activeFile) &&
              system.group.calls.any (fun call =>
                decide
                  (call.phase = .returned (.ok ()) ∧
                    call.file.record = some ⟨0, 0⟩))) =
        true := by
    decide +kernel
  rcases Transition.exists_run_of_checked
    (fun system action hAction => by
      rw [Bool.and_eq_true, decide_eq_true_eq] at hAction
      exact hAction.imp_right
        CommitAction.coversBatch_of_test) hEnd with
    ⟨system, hRun, hChecks⟩
  simp only [Bool.and_eq_true, decide_eq_true_eq,
    List.any_eq_true] at hChecks
  rcases hChecks with
    ⟨⟨hSurvives, hCut⟩, call, hCall, hReturned, hRecord⟩
  rcases powerLoss_keeps_confirmed hRun
    (CommitSystem.powerLoss_truncate hSurvives) (some 64) 4
    20 with
    ⟨count, live, next, hLive, hNext, hRecovers, hKept⟩
  exact ⟨system, _, count, live, next, hRun, hCut, hLive,
    hNext, hRecovers,
    (hKept call hCall hReturned _ hRecord).2⟩

end Nesso
