import Nesso.Queue.CompactionRuns
import Nesso.Queue.Placement
import Nesso.Log.CompactedSegment

/-
  The location index.

  Clients and the expiration worker point the index at the
  record they append.  Compaction redirects the entries of
  the tasks that survive it and forgets about the others, so
  that the index stays valid only while no finished task is
  compacted away.

  Key definitions include:
    * `IndexValid`
    * `System.KeepsIndex`
    * `Engine.Indexed`

  The main theorem is:
    * `indexRun_valid`
-/

------------------------------------------------------------
-- Indexed Engines
------------------------------------------------------------

namespace Nesso

variable [Hasher]

/-
  Every entry of the index names a segment in which a record
  of the task can be read.
-/
def IndexValid (engine : Engine) : Prop :=
  ∀ (id : UInt64) (loc : Loc),
    engine.inner.index[id]? = some loc →
      ∃ record,
        (WalReader.new.readAt engine.disk (ofLex loc).1
            (ofLex loc).2).1 = .ok (some record) ∧
          record.id = id

namespace Engine

/- The log is on disk and holds what the index names. -/
structure Indexed
    (engine : Engine)
    (log : SegmentedLog) : Prop where
  tracks : engine.inner.wal.Tracks engine.disk log
  entry :
    ∀ (id : UInt64) (loc : Loc),
      engine.inner.index[id]? = some loc →
        ∃ record,
          (loc, record) ∈ log.entries ∧ record.id = id

theorem Indexed.valid
    {engine : Engine}
    {log : SegmentedLog}
    (hIndexed : engine.Indexed log) :
    IndexValid engine := by
  intro id loc hLoc
  rcases hIndexed.entry id loc hLoc with
    ⟨record, hEntry, hId⟩
  exact ⟨record,
    hIndexed.tracks.segmentsOn.readAt_of_mem_entries
      (WalReader.coherent_new _) hEntry, hId⟩

/-
  A longer log that the next engine is indexed in; a running
  compaction is not disturbed.
-/
def IndexedOn
    (engine : Engine)
    (log : SegmentedLog)
    (next : Engine) : Prop :=
  ∃ nextLog,
    next.Indexed nextLog ∧
      log.closed <+: nextLog.closed ∧
      ∀ name, FileName.segmentId? name = none →
        next.disk.read name = engine.disk.read name

end Engine

omit [Hasher] in
/- Every change indexes the record that it appends. -/
theorem Change.index_apply
    (inner : EngineState)
    (loc : Loc)
    (change : Change) :
    (change.apply inner loc).index =
      inner.index.insert (change.record inner).id loc := by
  cases change with
  | add priority payload => rfl
  | grant task rest consumerId expireTimestamp => rfl
  | finish id priority deadRetries =>
      cases deadRetries <;> rfl
  | retry id priority retries failureType => rfl

namespace Engine

namespace Indexed

variable {engine next : Engine} {log : SegmentedLog}

theorem alike
    (hIndexed : engine.Indexed log)
    (hAlike : engine.Alike next) :
    next.Indexed log := by
  constructor
  · rw [hAlike.wal_eq, hAlike.disk_eq]
    exact hIndexed.tracks
  · rw [hAlike.index_eq]
    exact hIndexed.entry

theorem perform
    (hIndexed : engine.Indexed log)
    {change : Change}
    (hFits : (change.record engine.inner).Fits) :
    engine.IndexedOn log (engine.perform change) := by
  rcases tracks_perform hIndexed.tracks hFits with
    ⟨hTracks, hExtends, _⟩
  refine ⟨_, ⟨hTracks, ?_⟩,
    SegmentedLog.closed_prefix_append _ _ _,
    fun name hName => hExtends.read_other hName⟩
  intro id loc hLoc
  rw [hIndexed.tracks.entries_append]
  have hIndex :
      (engine.perform change).inner.index =
        engine.inner.index.insert
          (change.record engine.inner).id
          engine.inner.wal.nextLoc :=
    Change.index_apply _ _ _
  rw [hIndex, Std.ExtTreeMap.getElem?_insert] at hLoc
  split at hLoc
  · next hId =>
      rw [Option.some.injEq] at hLoc
      exact ⟨change.record engine.inner,
        by simp [hLoc], by simpa using hId⟩
  · rcases hIndexed.entry id loc hLoc with
      ⟨record, hEntry, hId⟩
    exact ⟨record, List.mem_append_left _ hEntry, hId⟩

theorem alikeOn
    {middle : Engine}
    (hMiddle : engine.IndexedOn log middle)
    (hAlike : middle.Alike next) :
    engine.IndexedOn log next := by
  rcases hMiddle with ⟨nextLog, hNext, hPrefix, hRead⟩
  refine ⟨nextLog, hNext.alike hAlike, hPrefix, ?_⟩
  rw [hAlike.disk_eq]
  exact hRead

theorem moves
    (hIndexed : engine.Indexed log)
    (hMoves : engine.Moves next) :
    engine.IndexedOn log next := by
  rcases hMoves with hAlike | ⟨change, hDue, hAlike⟩
  · exact ⟨log, hIndexed.alike hAlike, List.prefix_refl _,
      by simp [hAlike.disk_eq]⟩
  · exact alikeOn (hIndexed.perform hDue.fits) hAlike

/- The worker appends records without payload. -/
theorem processExpired
    (hIndexed : engine.Indexed log)
    (tasks : List ExpiredTask) :
    engine.IndexedOn log
      (engine.processExpired
        (tasks.map (fun task => (none, task)))) := by
  induction tasks generalizing engine log with
  | nil =>
      exact ⟨log, hIndexed, List.prefix_refl _,
        fun _ _ => rfl⟩
  | cons task tasks ih =>
      have hFits :
          ((Change.failure task.id task.priority
              task.retries .expired).record
            engine.inner).Fits := by
        apply Change.record_fits
        intro priority payload hAdd
        unfold Change.failure at hAdd
        split at hAdd <;> simp at hAdd
      rcases hIndexed.perform hFits with
        ⟨middleLog, hMiddle, hFirst, hFirstRead⟩
      rcases ih hMiddle with
        ⟨nextLog, hNext, hSecond, hSecondRead⟩
      rw [← expireTask_none] at hNext hFirstRead hSecondRead
      refine ⟨nextLog, hNext, hFirst.trans hSecond, ?_⟩
      intro name hName
      exact (hSecondRead name hName).trans
        (hFirstRead name hName)

end Indexed

end Engine

end Nesso

------------------------------------------------------------
-- Compacting an Indexed Engine
------------------------------------------------------------

namespace Nesso

variable [Hasher]

/- A task without terminal record has an offset. -/
theorem exists_newOffset
    {records : List Record}
    (hLive :
      ∀ record ∈ records, record.opType.isTerminal = false)
    {record : Record}
    (hRecord : record ∈ records) :
    ∃ offset written,
      (Wal.newOffsets (compacted records))[record.id]? =
          some offset ∧
        (offset, written) ∈
          Framing.located Record.encode 0
            (compacted records) ∧
        written.id = record.id := by
  cases hLatest :
      KeyedLog.latest Record.id records record.id with
  | none =>
      exact (KeyedLog.latest_eq_none_iff.mp hLatest record
        hRecord rfl).elim
  | some last =>
      have hMem := (KeyedLog.latest_mem hLatest).1
      have hCompacted :
          KeyedLog.latest Record.id (compacted records)
              record.id =
            some ((CompactionMaps.ofRecords
              records).recordToWrite record.id last) := by
        rw [latest_compacted, hLatest]
        simp [Option.filter, hLive last hMem]
      rcases KeyedLog.latest_mem hCompacted with
        ⟨hWritten, hId⟩
      have hLocated :
          (CompactionMaps.ofRecords
              records).recordToWrite record.id last ∈
            (Framing.located Record.encode 0
              (compacted records)).map Prod.snd := by
        rw [Framing.map_snd_located]
        exact hWritten
      rcases List.mem_map.mp hLocated with
        ⟨⟨offset, written⟩, hEntry, hSame⟩
      simp only at hSame
      subst hSame
      refine ⟨offset, _, ?_, hEntry, hId⟩
      rw [Wal.getElem?_newOffsets_iff
        (compacted_ids_nodup records)]
      exact ⟨_, hEntry, hId⟩

/- Entries are redirected to the compacted records. -/
theorem Engine.Indexed.compactPhase2
    {engine : Engine}
    {log : SegmentedLog}
    (hIndexed : engine.Indexed log)
    {closed rest : List Segment}
    (hClosed : log.closed = closed ++ rest)
    (hSome : closed ≠ [])
    (hTemp :
      engine.disk.read .compacting =
        some (encodeRecords
          (compacted (closed.flatMap Prod.snd))))
    (hLive :
      ∀ record ∈ closed.flatMap Prod.snd,
        record.opType.isTerminal = false)
    (hFits :
      ∀ record ∈ compacted (closed.flatMap Prod.snd),
        record.Fits) :
    ∃ nextLog,
      (engine.compactPhase2 (closed.map Prod.fst)
        (Wal.newOffsets
          (compacted
            (closed.flatMap Prod.snd)))).2.Indexed
        nextLog := by
  rcases Engine.tracks_compactPhase2 hIndexed.tracks hClosed
    hSome hTemp hFits with ⟨disk, hPhase, hTracks, _⟩
  have hSegments :
      SegmentsOn engine.disk
        (closed ++
          (rest ++ [(log.activeId, log.active)])) := by
    rw [← List.append_assoc, ← hClosed]
    exact hIndexed.tracks.segmentsOn
  have hEntries :
      log.entries =
        entriesOf closed ++
          entriesOf
            (rest ++ [(log.activeId, log.active)]) := by
    rw [← entriesOf_append, ← List.append_assoc, ← hClosed]
    rfl
  rw [hPhase]
  refine ⟨_, hTracks, ?_⟩
  intro id loc hLoc
  simp only at hLoc
  rw [EngineState.getElem?_index_remap,
    Option.map_eq_some_iff] at hLoc
  rcases hLoc with ⟨old, hOld, hMoved⟩
  rcases hIndexed.entry id old hOld with
    ⟨record, hEntry, hId⟩
  rw [hEntries, List.mem_append] at hEntry
  rcases hEntry with hFirst | hLater
  · rcases segment_of_mem_entriesOf hFirst with
      ⟨records, hSegment, hMem⟩
    have hRecord : record ∈ closed.flatMap Prod.snd :=
      List.mem_flatMap.mpr ⟨_, hSegment, hMem⟩
    rcases exists_newOffset hLive hRecord with
      ⟨offset, written, hOffset, hLocated, hWritten⟩
    have hIds :
        (ofLex old).1 ∈ closed.map Prod.fst :=
      List.mem_map.mpr ⟨_, hSegment, rfl⟩
    rw [← hId, hOffset, remapLoc_of_mem hIds] at hMoved
    refine ⟨written, ?_, hWritten.trans hId⟩
    apply mem_entriesOf_iff.mpr
    exact ⟨1, offset, compacted (closed.flatMap Prod.snd),
      by simp [SegmentedLog.segments], hMoved.symm,
      hLocated⟩
  · rw [hSegments.remapLoc_of_later hLater] at hMoved
    refine ⟨record, ?_, hId⟩
    rw [← hMoved]
    have hSplit :
        SegmentedLog.entries
            { log with
              closed :=
                (1, compacted (closed.flatMap Prod.snd)) ::
                  rest } =
          Segment.entries
              (1, compacted (closed.flatMap Prod.snd)) ++
            entriesOf
              (rest ++ [(log.activeId, log.active)]) := rfl
    rw [hSplit]
    exact List.mem_append_right _ hLater

end Nesso

------------------------------------------------------------
-- Runs
------------------------------------------------------------

namespace Nesso

namespace System

variable [Hasher]

/-
  Pushed payloads can be read back, and a compaction finds no
  finished task and has room for every state.
-/
def KeepsIndex (system : System) : Action → Prop
| .push payload _ => payload.length ≤ maxPayloadSize
| .compactPhase2 =>
    ∀ closedSegments newOffsets,
      system.compaction =
          .written closedSegments newOffsets →
        (∀ record ∈
            Wal.recordsIn system.engine.disk
              closedSegments,
          record.opType.isTerminal = false) ∧
        ConsolidationFits
          (Wal.recordsIn system.engine.disk closedSegments)
| _ => True

/- The index is valid, also while a compaction runs. -/
def Indexed (system : System) : Prop :=
  ∃ log,
    system.engine.Indexed log ∧
      system.compaction.On system.engine.disk log

theorem indexed_start
    (maxSegmentSize : Option Nat)
    (cacheCapacity : Nat)
    (now : UInt64) :
    (start maxSegmentSize cacheCapacity now).Indexed := by
  rcases Engine.reopen_empty_spec maxSegmentSize
    cacheCapacity now with
    ⟨next, hNext, hTracks, _, _, _, hInner⟩
  have hEngine :
      (start maxSegmentSize cacheCapacity now).engine =
        next := by
    simp only [start, hNext]
  refine ⟨_, ⟨hEngine ▸ hTracks, ?_⟩, trivial⟩
  intro id loc hLoc
  rw [hEngine, hInner.index_eq] at hLoc
  simp [Replay.indexLoc] at hLoc

variable {system : System}

/- A section that leaves the compaction alone. -/
theorem Indexed.continue
    {log : SegmentedLog}
    (hStage : system.compaction.On system.engine.disk log)
    {engine : Engine}
    (hEngine : system.engine.IndexedOn log engine)
    (snapshot : Option Snapshot)
    (history : List Event) :
    ({ system with
      engine := engine
      snapshot := snapshot
      history := history } : System).Indexed := by
  rcases hEngine with ⟨nextLog, hNext, hPrefix, hRead⟩
  exact ⟨nextLog, hNext, hStage.extend hPrefix hRead⟩

/- Every section that meets the condition keeps the index. -/
theorem Indexed.step
    (hSystem : system.Indexed)
    {action : Action}
    (hKeeps : system.KeepsIndex action)
    {next : System}
    (hStep : system.step action = some next) :
    next.Indexed := by
  rcases hSystem with ⟨log, hEngine, hStage⟩
  cases action with
  | push payload priority =>
      rcases push_cases hStep with ⟨_, rfl⟩
      have hFits :
          ((Change.add priority payload).record
            system.engine.inner).Fits := hKeeps
      exact Indexed.continue hStage
        (hEngine.perform hFits) _ _
  | popLocked consumerId now leaseTtlSecs =>
      rw [System.step, Option.some.injEq] at hStep
      rw [← hStep]
      exact Indexed.continue hStage
        (hEngine.moves
          (Engine.popLocked_moves _ consumerId now
            leaseTtlSecs)) _ _
  | popRead ticket =>
      rw [System.step, Option.some.injEq] at hStep
      rw [← hStep]
      exact Indexed.continue hStage
        (hEngine.moves
          (.inl (Engine.alike_popRead _ ticket))) _ _
  | ack id consumerId =>
      rw [System.step, Option.some.injEq] at hStep
      rw [← hStep]
      exact Indexed.continue hStage
        (hEngine.moves (Engine.ack_moves _ id consumerId))
        _ _
  | nack id consumerId =>
      rw [System.step, Option.some.injEq] at hStep
      rw [← hStep]
      exact Indexed.continue hStage
        (hEngine.moves (Engine.nack_moves _ id consumerId))
        _ _
  | compactPlan =>
      rcases compactPlan_cases hStep with
        rfl | ⟨closedSegments, hPlan, rfl⟩
      · exact ⟨log, hEngine, hStage⟩
      · exact ⟨log, hEngine,
          CompactionStage.on_planned hEngine.tracks hPlan⟩
  | compactPhase1 =>
      rcases compactPhase1_cases hStep with
        ⟨closedSegments, hPlanned, rfl⟩
      rw [hPlanned] at hStage
      rcases hStage with ⟨closed, rest, hClosed, hSome, rfl⟩
      rcases Engine.tracks_compactPhase1 hEngine.tracks
        hClosed with ⟨disk, hPhase, hTracks, hTemp, _⟩
      simp only [hPhase]
      exact ⟨log, ⟨hTracks, hEngine.entry⟩, closed, rest,
        hClosed, hSome, rfl, rfl, hTemp⟩
  | compactPhase2 =>
      rcases compactPhase2_cases hStep with
        ⟨closedSegments, newOffsets, hWritten, rfl⟩
      rcases hKeeps closedSegments newOffsets hWritten with
        ⟨hLive, hRoom⟩
      rw [hWritten] at hStage
      rcases hStage with
        ⟨closed, rest, hClosed, hSome, rfl, rfl, hTemp⟩
      have hRecords :
          Wal.recordsIn system.engine.disk
              (closed.map Prod.fst) =
            closed.flatMap Prod.snd := by
        apply Wal.recordsIn_eq hEngine.tracks.segmentsOn
        intro segment hSegment
        simp [SegmentedLog.segments, hClosed, hSegment]
      rw [← compacted_fits_iff (fun _ hRecord =>
        Wal.fits_of_mem_recordsIn hRecord)] at hRoom
      rw [hRecords] at hLive hRoom
      rcases hEngine.compactPhase2 hClosed hSome hTemp
        hLive hRoom with ⟨nextLog, hNext⟩
      exact ⟨nextLog, hNext, trivial⟩
  | snapshotExpired now tasks =>
      rcases snapshotExpired_cases hStep with ⟨_, _, rfl⟩
      exact ⟨log, hEngine, hStage⟩
  | processExpired =>
      rcases processExpired_cases hStep with
        ⟨snapshot, _, rfl⟩
      exact Indexed.continue hStage
        (hEngine.processExpired snapshot.tasks) _ _
  | clearPayloadCache =>
      rw [System.step, Option.some.injEq] at hStep
      rw [← hStep]
      exact ⟨log, ⟨hEngine.tracks, hEngine.entry⟩, hStage⟩

end System

/-
  In every run whose compactions find no finished task, the
  index is valid in every state.
-/
theorem indexRun_valid [Hasher]
    {maxSegmentSize : Option Nat}
    {cacheCapacity : Nat}
    {start : UInt64}
    {actions : List Action}
    {system : System}
    (hRun :
      Transition.Run System.step System.KeepsIndex
        (System.start maxSegmentSize cacheCapacity start)
        actions system) :
    IndexValid system.engine := by
  have hIndexed : system.Indexed := by
    refine hRun.invariant ?_ ?_
    · exact System.indexed_start maxSegmentSize
        cacheCapacity start
    · intro state next action hState hKeeps hStep
      exact hState.step hKeeps hStep
  rcases hIndexed with ⟨log, hEngine, _⟩
  exact hEngine.valid

/- The condition as a test. -/
def System.keepsIndex
    (system : System) : Action → Bool
| .push payload _ => decide (payload.length ≤ maxPayloadSize)
| .compactPhase2 =>
    match system.compaction with
    | .written closedSegments _ =>
        (Wal.recordsIn system.engine.disk
            closedSegments).all
          (fun record => !record.opType.isTerminal) &&
        (compacted
            (Wal.recordsIn system.engine.disk
              closedSegments)).all
          (fun record => decide record.Fits)
    | _ => true
| _ => true

theorem System.keepsIndex_of_test
    (system : System)
    (action : Action)
    (hTest : system.keepsIndex action = true) :
    system.KeepsIndex action := by
  cases action with
  | push payload priority =>
      simpa [keepsIndex, KeepsIndex] using hTest
  | compactPhase2 =>
      intro closedSegments newOffsets hWritten
      simp only [keepsIndex, hWritten, Bool.and_eq_true,
        List.all_eq_true, Bool.not_eq_true',
        decide_eq_true_eq] at hTest
      rw [← compacted_fits_iff (fun _ hRecord =>
        Wal.fits_of_mem_recordsIn hRecord)]
      exact hTest
  | _ => trivial

/- Task 1 is compacted while it is leased. -/
def compactedWhileLeased : List Action :=
  [.push [7, 8, 9] 5, .popLocked 1 10 100, .push [1] 5,
    .compactPlan, .compactPhase1, .compactPhase2]

set_option maxRecDepth 100000 in
theorem indexRun_valid_leased :
    ∃ system,
      Transition.Run System.step System.KeepsIndex
          (System.start (some 40) 4 0)
          compactedWhileLeased system ∧
        system.engine.inner.index[(1 : UInt64)]? =
          some (toLex (1, 0)) ∧
        IndexValid system.engine := by
  have hEnd :
      (Transition.execute
        (Transition.checkedStep System.step
          System.keepsIndex)
        compactedWhileLeased
        (System.start (some 40) 4 0)).any
          (fun system =>
            system.engine.inner.index[(1 : UInt64)]? =
              some (toLex (1, 0))) = true := by
    decide +kernel
  rcases Transition.exists_run_of_checked
    System.keepsIndex_of_test hEnd with
    ⟨system, hRun, hIndex⟩
  exact ⟨system, hRun, of_decide_eq_true hIndex,
    indexRun_valid hRun⟩

/- Task 1 is acked before its segment is compacted. -/
def compactedWhenAcked : List Action :=
  [.push [7, 8, 9] 5, .popLocked 1 10 100, .ack 1 1,
    .push [1] 5, .compactPlan, .compactPhase1,
    .compactPhase2]

set_option maxRecDepth 100000 in
/- The purged task keeps an entry that points nowhere. -/
theorem index_keeps_purged_task :
    ∃ system,
      Transition.Run System.step (fun _ _ => True)
          (System.start (some 60) 4 0)
          compactedWhenAcked system ∧
        system.engine.inner.index[(1 : UInt64)]? =
          some (toLex (1, 54)) ∧
        system.engine.disk.read (.wal 1) = some [] ∧
        ¬ IndexValid system.engine := by
  have hEnd :
      (Transition.execute System.step compactedWhenAcked
        (System.start (some 60) 4 0)).any
          (fun system =>
            decide
                (system.engine.inner.index[(1 : UInt64)]? =
                  some (toLex (1, 54))) &&
              decide
                (system.engine.disk.read (.wal 1) =
                  some []) &&
              decide
                ((WalReader.new.readAt system.engine.disk 1
                  54).1.toOption = some none)) = true := by
    decide +kernel
  rcases Transition.exists_run_of_execute
    (fun (_ : System) (_ : Action) _ => trivial) hEnd with
    ⟨system, hRun, hChecks⟩
  simp only [Bool.and_eq_true, decide_eq_true_eq] at hChecks
  rcases hChecks with ⟨⟨hIndex, hEmpty⟩, hRead⟩
  refine ⟨system, hRun, hIndex, hEmpty, ?_⟩
  intro hValid
  rcases hValid 1 _ hIndex with ⟨record, hRecord, _⟩
  have hSome :
      (WalReader.new.readAt system.engine.disk 1 54).1 =
        .ok (some record) := hRecord
  simp [hSome, Except.toOption] at hRead

end Nesso
