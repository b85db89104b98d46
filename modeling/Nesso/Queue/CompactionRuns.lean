import Nesso.Queue.Serving
import Nesso.Storage.Checksum

/-
  Payloads under compactions that run beside everything else:
  the plan, the unlocked first phase and the locked second
  phase are separate steps of the system.

  Key definitions include:
    * `CompactionStage.On`
    * `System.Sound`
    * `Action.ShortPush`
    * `PayloadsReadable`

  The main theorem is:
    * `compactionRun_payloads_readable`
-/

------------------------------------------------------------
-- Sound Systems
------------------------------------------------------------

namespace Nesso

variable [Hasher]

/-
  A compaction under way works on the first closed segments;
  after phase 1 their compacted records wait beside them.
-/
def CompactionStage.On
    (disk : Disk)
    (log : SegmentedLog) : CompactionStage → Prop
| .idle => True
| .planned ids =>
    ∃ closed rest,
      log.closed = closed ++ rest ∧ closed ≠ [] ∧
        ids = closed.map Prod.fst
| .written ids offsets =>
    ∃ closed rest,
      log.closed = closed ++ rest ∧ closed ≠ [] ∧
        ids = closed.map Prod.fst ∧
        offsets =
          Wal.newOffsets
            (compacted (closed.flatMap Prod.snd)) ∧
        disk.read .compacting =
          some (encodeRecords
            (compacted (closed.flatMap Prod.snd)))

/- Other operations do not disturb a compaction. -/
theorem CompactionStage.On.extend
    {disk next : Disk}
    {log nextLog : SegmentedLog}
    {stage : CompactionStage}
    (hStage : stage.On disk log)
    (hPrefix : log.closed <+: nextLog.closed)
    (hRead :
      ∀ name, FileName.segmentId? name = none →
        next.read name = disk.read name) :
    stage.On next nextLog := by
  rcases hPrefix with ⟨more, hMore⟩
  cases stage with
  | idle => trivial
  | planned ids =>
      rcases hStage with ⟨closed, rest, hClosed, hSome, hIds⟩
      refine ⟨closed, rest ++ more, ?_, hSome, hIds⟩
      rw [← hMore, hClosed, List.append_assoc]
  | written ids offsets =>
      rcases hStage with
        ⟨closed, rest, hClosed, hSome, hIds, hOffsets,
          hTemp⟩
      refine
        ⟨closed, rest ++ more, ?_, hSome, hIds, hOffsets,
          ?_⟩
      · rw [← hMore, hClosed, List.append_assoc]
      · rw [hRead _ rfl]
        exact hTemp

/- A plan is about the closed segments. -/
theorem CompactionStage.on_planned
    {engine : Engine}
    {log : SegmentedLog}
    (hTracks : engine.inner.wal.Tracks engine.disk log)
    {closedSegments : List Nat}
    (hPlan : engine.compactPlan = some closedSegments) :
    (CompactionStage.planned closedSegments).On engine.disk
      log := by
  rw [Engine.compactPlan_eq hTracks] at hPlan
  split at hPlan
  · simp at hPlan
  · next hSome =>
      rw [Option.some.injEq] at hPlan
      exact ⟨log.closed, [], by simp, hSome, hPlan.symm⟩

theorem CompactionStage.On.continues
    {engine next : Engine}
    {log nextLog : SegmentedLog}
    {stage : CompactionStage}
    (hStage : stage.On engine.disk log)
    (hContinues : engine.Continues log next nextLog) :
    stage.On next.disk nextLog :=
  hStage.extend hContinues.closed_prefix hContinues.read_eq

/- Pushed payloads leave room for a state's metadata. -/
def Action.ShortPush : Action → Prop
| .push payload _ => payload.length ≤ maxUserPayloadSize
| _ => True

namespace System

/- The system serves its payloads and knows its ids. -/
structure Sound (system : System) : Prop where
  serves :
    ∃ log,
      system.engine.Serves log
          (lastPayload system.history) ∧
        system.compaction.On system.engine.disk log
  snapshot_known :
    ∀ snapshot, system.snapshot = some snapshot →
      ∀ task ∈ snapshot.tasks,
        task.id < system.engine.inner.nextId
  pushed_known :
    ∀ id payload,
      lastPayload system.history id = some payload →
        id < system.engine.inner.nextId

theorem sound_start
    (maxSegmentSize : Option Nat)
    (cacheCapacity : Nat)
    (now : UInt64) :
    (start maxSegmentSize cacheCapacity now).Sound := by
  rcases Engine.reopen_empty_spec maxSegmentSize
    cacheCapacity now with
    ⟨next, hNext, hTracks, _, hReader, hCache, hInner⟩
  rcases hInner.empty with ⟨hReady, hLeased, hData, _⟩
  have hEngine :
      (start maxSegmentSize cacheCapacity now).engine =
        next := by
    simp only [start, hNext]
  constructor
  · rw [hEngine]
    refine ⟨_, ⟨hTracks, hReader, ?_⟩, trivial⟩
    constructor
    · simp [hData]
    · simp [hCache, PayloadCache.new]
    · simp [SegmentedLog.entries, SegmentedLog.segments,
        entriesOf, Segment.entries, Framing.located]
    · simp [hReady]
    · simp [hLeased]
    · simp [SegmentedLog.entries, SegmentedLog.segments,
        entriesOf, Segment.entries, Framing.located]
  · intro snapshot hSnapshot
    simp [start] at hSnapshot
  · intro id payload hPayload
    simp [start, lastPayload, pushes] at hPayload

variable {system : System}

/- A section that pushes nothing keeps the system sound. -/
theorem Sound.continue
    (hSystem : system.Sound)
    {engine : Engine}
    (hServes :
      ∀ log,
        system.engine.Serves log
            (lastPayload system.history) →
          system.engine.ServesOn log engine
            (lastPayload system.history))
    {events : List Event}
    (hEvents :
      ∀ event ∈ events, ∀ id, Event.pushOf id event = none)
    {snapshot : Option Snapshot}
    (hSnapshot :
      snapshot = none ∨ snapshot = system.snapshot) :
    ({ system with
      engine := engine
      snapshot := snapshot
      history := system.history ++ events } :
        System).Sound := by
  rcases hSystem.serves with ⟨log, hEngine, hStage⟩
  rcases hServes log hEngine with
    ⟨nextLog, hNext, hContinues⟩
  have hHistory :=
    lastPayload_append_of_not_pushed system.history hEvents
  constructor
  · refine ⟨nextLog, ?_, hStage.continues hContinues⟩
    rw [hHistory]
    exact hNext
  · intro found hFound task hTask
    rcases hSnapshot with rfl | rfl
    · simp at hFound
    · exact UInt64.lt_of_lt_of_le
        (hSystem.snapshot_known found hFound task hTask)
        hContinues.nextId_le
  · intro id payload hPayload
    rw [hHistory] at hPayload
    exact UInt64.lt_of_lt_of_le
      (hSystem.pushed_known id payload hPayload)
      hContinues.nextId_le

/- Every section keeps the system sound. -/
theorem Sound.step
    (hSystem : system.Sound)
    {action : Action}
    (hShort : action.ShortPush)
    {next : System}
    (hStep : system.step action = some next) :
    next.Sound := by
  rcases hSystem.serves with ⟨log, hEngine, hStage⟩
  cases action with
  | push payload priority =>
      rcases push_cases hStep with ⟨hLeft, rfl⟩
      have hPushed :=
        hEngine.push hLeft hShort priority
      rw [Engine.push_none] at hPushed
      rcases hPushed with ⟨nextLog, hNext, hContinues⟩
      have hHistory :=
        lastPayload_append_pushed system.history
          system.engine.inner.nextId priority payload
      constructor
      · refine ⟨nextLog, ?_, hStage.continues hContinues⟩
        rw [hHistory]
        exact hNext
      · intro snapshot hSnapshot task hTask
        exact UInt64.lt_of_lt_of_le
          (hSystem.snapshot_known snapshot hSnapshot task
            hTask) hContinues.nextId_le
      · intro id found hFound
        rw [hHistory] at hFound
        by_cases hId : id = system.engine.inner.nextId
        · subst hId
          exact UInt64.lt_add_one_of_ne hLeft
        · rw [Function.update_of_ne hId] at hFound
          exact UInt64.lt_of_lt_of_le
            (hSystem.pushed_known id found hFound)
            hContinues.nextId_le
  | popLocked consumerId now leaseTtlSecs =>
      rw [System.step, Option.some.injEq] at hStep
      rw [← hStep]
      apply hSystem.continue
      · exact fun log hLog =>
          hLog.popLocked consumerId now leaseTtlSecs
      · exact pushOf_grantEvents system.engine
      · exact .inr rfl
  | popRead ticket =>
      rw [System.step, Option.some.injEq] at hStep
      rw [← hStep]
      have hEvents :
          ∀ event ∈ ([] : List Event), ∀ id,
            Event.pushOf id event = none := by
        simp
      have hNext :=
        hSystem.continue
          (fun log hLog => hLog.popRead ticket) hEvents
          (.inr rfl)
      rwa [List.append_nil] at hNext
  | ack id consumerId =>
      rw [System.step, Option.some.injEq] at hStep
      rw [← hStep]
      apply hSystem.continue
      · exact fun log hLog => hLog.ack id consumerId
      · exact pushOf_eventIf (fun _ _ => rfl)
      · exact .inr rfl
  | nack id consumerId =>
      rw [System.step, Option.some.injEq] at hStep
      rw [← hStep]
      apply hSystem.continue
      · exact fun log hLog => hLog.nack id consumerId
      · exact pushOf_eventIf (fun _ _ => rfl)
      · exact .inr rfl
  | compactPlan =>
      rcases compactPlan_cases hStep with
        rfl | ⟨closedSegments, hPlan, rfl⟩
      · exact hSystem
      · exact
          ⟨⟨log, hEngine,
              CompactionStage.on_planned hEngine.tracks
                hPlan⟩,
            hSystem.snapshot_known, hSystem.pushed_known⟩
  | compactPhase1 =>
      rcases compactPhase1_cases hStep with
        ⟨closedSegments, hPlanned, rfl⟩
      rw [hPlanned] at hStage
      rcases hStage with ⟨closed, rest, hClosed, hSome, rfl⟩
      rcases hEngine.compactPhase1 hClosed with
        ⟨engine, hPhase, hServes, hInner, hTemp⟩
      simp only [hPhase]
      refine ⟨⟨log, hServes, ?_⟩, ?_, ?_⟩
      · exact ⟨closed, rest, hClosed, hSome, rfl, rfl, hTemp⟩
      · simp only [hInner]
        exact hSystem.snapshot_known
      · simp only [hInner]
        exact hSystem.pushed_known
  | compactPhase2 =>
      rcases compactPhase2_cases hStep with
        ⟨closedSegments, newOffsets, hWritten, rfl⟩
      rw [hWritten] at hStage
      rcases hStage with
        ⟨closed, rest, hClosed, hSome, rfl, rfl, hTemp⟩
      rcases hEngine.compactPhase2 hClosed hSome hTemp with
        ⟨engine, hPhase, hServes, hInner, _⟩
      simp only [hPhase]
      refine ⟨⟨_, hServes, trivial⟩, ?_, ?_⟩
      · simp only [hInner, EngineState.remap_eq]
        exact hSystem.snapshot_known
      · simp only [hInner, EngineState.remap_eq]
        exact hSystem.pushed_known
  | snapshotExpired now tasks =>
      rcases snapshotExpired_cases hStep with
        ⟨_, hPerm, rfl⟩
      refine ⟨⟨log, hEngine, hStage⟩, ?_,
        hSystem.pushed_known⟩
      intro snapshot hSnapshot task hTask
      rw [Option.some.injEq] at hSnapshot
      rw [← hSnapshot] at hTask
      rcases mem_expiredTasks_iff.mp
        (hPerm.mem_iff.mp hTask) with ⟨lease, hLease, _, _⟩
      exact hEngine.stored.leased_known task.id
        (Std.ExtTreeMap.isSome_getElem?_iff_mem.mp
          (by simp [hLease]))
  | processExpired =>
      rcases processExpired_cases hStep with
        ⟨snapshot, hSnapshot, rfl⟩
      apply hSystem.continue
      · intro log hLog
        exact hLog.processExpired
          (hSystem.snapshot_known snapshot hSnapshot)
      · intro event hEvent id
        rcases List.mem_map.mp hEvent with ⟨task, _, rfl⟩
        rfl
      · exact .inl rfl
  | clearPayloadCache =>
      rw [System.step, Option.some.injEq] at hStep
      rw [← hStep]
      refine ⟨⟨log, hEngine.withCache ?_, hStage⟩,
        hSystem.snapshot_known, hSystem.pushed_known⟩
      simp [PayloadCache.clear]

end System

end Nesso

------------------------------------------------------------
-- Readable Payloads
------------------------------------------------------------

namespace Nesso

/-
  Every indexed payload can be read back from disk, and a pop
  returns it whatever pushed payloads the cache holds.
-/
structure PayloadsReadable [Hasher]
    (system : System) : Prop where
  fresh_read :
    ∀ (id : UInt64) (loc : Loc),
      system.engine.inner.dataIndex[id]? = some loc →
        ∃ record,
          (WalReader.new.readAt system.engine.disk
              (ofLex loc).1 (ofLex loc).2).1 =
              .ok (some record) ∧
            record.id = id ∧
            lastPayload system.history id =
              some record.userPayload
  cache_holds :
    ∀ (id : UInt64) (payload : Bytes),
      system.engine.inner.payloadCache.entries[id]? =
          some payload →
        lastPayload system.history id = some payload
  pop_eq :
    ∀ cache : PayloadCache,
      (∀ (id : UInt64) (payload : Bytes),
        cache.entries[id]? = some payload →
          lastPayload system.history id =
            some payload) →
        ∀ consumerId now leaseTtlSecs,
          (Engine.popAndLease none consumerId now
              leaseTtlSecs
              { system.engine with
                inner :=
                  { system.engine.inner with
                    payloadCache := cache } }).1 =
            system.engine.popResult
              (lastPayload system.history)

variable [Hasher]

theorem System.Sound.payloadsReadable
    {system : System}
    (hSystem : system.Sound) :
    PayloadsReadable system := by
  rcases hSystem.serves with ⟨log, hEngine, _⟩
  constructor
  · intro id loc hLoc
    exact hEngine.reads.readAt_of_data
      (WalReader.coherent_new _) hLoc
  · intro id payload hPayload
    exact (hEngine.stored.cached id payload hPayload).2
  · intro cache hCache consumerId now leaseTtlSecs
    have hKnown :
        ∀ (id : UInt64) (payload : Bytes),
          cache.entries[id]? = some payload →
            id < system.engine.inner.nextId ∧
              lastPayload system.history id =
                some payload := by
      intro id payload hPayload
      have hPushed := hCache id payload hPayload
      exact ⟨hSystem.pushed_known id payload hPushed,
        hPushed⟩
    exact (hEngine.withCache hKnown).reads.popAndLease_eq
      consumerId now leaseTtlSecs

/-
  Runs of clients, the expiration worker and compactions on a
  new queue, in any interleaving.
-/
def CompactionRun
    (maxSegmentSize : Option Nat)
    (cacheCapacity : Nat)
    (start : UInt64) :
    List Action → System → Prop :=
  Transition.Run System.step
    (fun _ action => action.ShortPush)
    (System.start maxSegmentSize cacheCapacity start)

/-
  In every state of every run the data index points at the
  pushed payloads, so that pops do not depend on the cache.
-/
theorem compactionRun_payloads_readable
    {maxSegmentSize : Option Nat}
    {cacheCapacity : Nat}
    {start : UInt64}
    {actions : List Action}
    {system : System}
    (hRun :
      CompactionRun maxSegmentSize cacheCapacity start
        actions system) :
    PayloadsReadable system := by
  apply System.Sound.payloadsReadable
  apply hRun.invariant
  · exact System.sound_start maxSegmentSize cacheCapacity
      start
  · intro state next action hState hShort hStep
    exact hState.step hShort hStep

end Nesso

------------------------------------------------------------
-- A Run With a Compaction
------------------------------------------------------------

namespace Nesso

/- Task 1 is nacked while its segment is compacted. -/
def nackedWhileCompacting : List Action :=
  [.push [7, 8, 9] 5, .popLocked 1 10 100, .push [1] 5,
    .compactPlan, .compactPhase1, .nack 1 1,
    .compactPhase2]

set_option maxRecDepth 100000 in
theorem compactionRun_payloads_readable_nacked :
    ∃ system,
      CompactionRun (some 40) 4 0 nackedWhileCompacting
          system ∧
        system.engine.inner.dataIndex[(1 : UInt64)]? =
          some (toLex (1, 0)) ∧
        PayloadsReadable system := by
  have hAllowed :
      ∀ system : System, ∀ action ∈ nackedWhileCompacting,
        action.ShortPush := by
    simp [nackedWhileCompacting, Action.ShortPush,
      maxUserPayloadSize, maxPayloadSize]
  have hEnd :
      (Transition.execute System.step nackedWhileCompacting
        (System.start (some 40) 4 0)).any
          (fun system =>
            system.engine.inner.dataIndex[(1 : UInt64)]? =
              some (toLex (1, 0))) = true := by
    decide +kernel
  rcases Transition.exists_run_of_execute hAllowed hEnd with
    ⟨system, hRun, hData⟩
  exact ⟨system, hRun, of_decide_eq_true hData,
    compactionRun_payloads_readable hRun⟩

end Nesso
