import Nesso.Library.Transition
import Nesso.Recovery.Live
import Nesso.Recovery.Recover
import Nesso.Storage.Checksum

/-
  Crash recovery without compaction: whatever part of the
  active segment survives, recovery yields the state after
  the operations whose records are completely on disk.

  Key definitions include:
    * `QueueOp`
    * `QueueOp.run`
    * `QueueOp.Admissible`
    * `QueueRun`
    * `Engine.RecoversTo`

  The main theorem is:
    * `queueRun_recovers_longest_prefix`
-/

------------------------------------------------------------
-- Runs of Client Operations
------------------------------------------------------------

namespace Nesso

/- Client operations and the expiry of one lease. -/
inductive QueueOp where
| push (payload : Bytes) (priority : UInt8)
| popAndLease (consumerId : UInt32)
    (now leaseTtlSecs : UInt64)
| ack (id : UInt64) (consumerId : UInt32)
| nack (id : UInt64) (consumerId : UInt32)
| expire (id : UInt64)

namespace QueueOp

variable [Hasher]

/- The engine after an operation without faults. -/
def run (engine : Engine) : QueueOp → Engine
| push payload priority =>
    (engine.push none payload priority).2
| popAndLease consumerId now leaseTtlSecs =>
    (engine.popAndLease none consumerId now leaseTtlSecs).2
| ack id consumerId => (engine.ack none id consumerId).2
| nack id consumerId => (engine.nack none id consumerId).2
| expire id =>
    match engine.inner.leased[id]? with
    | none => engine
    | some lease =>
        engine.expireTask none
          ⟨id, lease.priority, lease.retries⟩

/-
  A pushed payload fits into a frame, and the 64-bit id
  counter, which starts at 1, does not overflow.
-/
def Admissible
    (engine : Engine) : QueueOp → Prop
| push payload _ =>
    payload.length ≤ maxPayloadSize ∧ engine.inner.IdsLeft
| _ => True

end QueueOp

/- Runs from an empty directory. -/
def QueueRun [Hasher]
    (maxSegmentSize : Option Nat)
    (cacheCapacity : Nat)
    (start : UInt64) :
    List QueueOp → Engine → Prop :=
  Transition.Run
    (fun engine op => some (QueueOp.run engine op))
    QueueOp.Admissible
    (Engine.reopen FileSystem.empty maxSegmentSize
      cacheCapacity start).2

end Nesso

------------------------------------------------------------
-- Growing Logs
------------------------------------------------------------

namespace Nesso

/-
  One log is an earlier stage of another: the same active
  segment with fewer records, or a segment that has been
  closed since.
-/
inductive SegmentedLog.Precedes
    (earlier later : SegmentedLog) : Prop where
| active :
    earlier.closed = later.closed →
      earlier.activeId = later.activeId →
        earlier.active <+: later.active →
          earlier.Precedes later
| closed (records : List Record) :
    earlier.active <+: records →
      earlier.closed ++ [(earlier.activeId, records)] <+:
        later.closed →
        earlier.Precedes later

namespace SegmentedLog.Precedes

theorem refl
    (log : SegmentedLog) :
    log.Precedes log :=
  .active rfl rfl (List.prefix_refl _)

/- Appending a record leaves the earlier stages earlier. -/
theorem append
    {earlier later : SegmentedLog}
    (hPrecedes : earlier.Precedes later)
    (rotates : Bool)
    (record : Record) :
    earlier.Precedes (later.append rotates record) := by
  cases hPrecedes with
  | active hClosed hId hActive =>
      cases rotates with
      | true =>
          refine .closed later.active hActive ?_
          rw [hClosed, hId]
          exact List.prefix_refl _
      | false =>
          exact .active hClosed hId
            (hActive.trans (List.prefix_append _ _))
  | closed records hRecords hClosed =>
      refine .closed records hRecords ?_
      cases rotates with
      | true =>
          exact hClosed.trans (List.prefix_append _ _)
      | false => exact hClosed

variable [Hasher]

/- The entries of an earlier stage come first. -/
theorem entries_prefix_entries
    {earlier later : SegmentedLog}
    (hPrecedes : earlier.Precedes later) :
    earlier.entries <+: later.entries := by
  have hActive :
      ∀ {segmentId : Nat} {left right : List Record},
        left <+: right →
          Segment.entries (segmentId, left) <+:
            Segment.entries (segmentId, right) := by
    rintro segmentId left right ⟨back, rfl⟩
    simp [Segment.entries, Framing.located_append]
  have hEntries :
      ∀ log : SegmentedLog,
        log.entries =
          entriesOf log.closed ++
            Segment.entries (log.activeId, log.active) := by
    intro log
    simp [SegmentedLog.entries, SegmentedLog.segments,
      entriesOf]
  rw [hEntries, hEntries]
  cases hPrecedes with
  | active hClosed hId hRecords =>
      rw [hClosed, hId]
      exact (List.prefix_append_right_inj _).mpr
        (hActive hRecords)
  | closed records hRecords hClosed =>
      rcases hClosed with ⟨rest, hClosed⟩
      have hFirst :
          entriesOf earlier.closed ++
              Segment.entries
                (earlier.activeId, earlier.active) <+:
            entriesOf earlier.closed ++
              Segment.entries (earlier.activeId, records) :=
        (List.prefix_append_right_inj _).mpr
          (hActive hRecords)
      refine hFirst.trans ?_
      rw [← hClosed]
      simp [entriesOf]

end SegmentedLog.Precedes

end Nesso

------------------------------------------------------------
-- Live Engines
------------------------------------------------------------

namespace Nesso

namespace Engine

variable [Hasher]

/- The engine is in the state that its log determines. -/
structure Live
    (engine : Engine)
    (log : SegmentedLog) : Prop where
  tracks : engine.inner.wal.Tracks engine.disk log
  clean : engine.disk.Clean
  coherent : engine.reader.Coherent engine.disk
  reflects : engine.inner.Reflects log.entries

/- Opening an empty directory starts with an empty log. -/
theorem live_reopen_empty
    (maxSegmentSize : Option Nat)
    (cacheCapacity : Nat)
    (now : UInt64) :
    (reopen FileSystem.empty maxSegmentSize cacheCapacity
        now).2.Live
      { closed := [], activeId := 1, active := [] } := by
  rcases reopen_empty_spec maxSegmentSize cacheCapacity now
    with ⟨next, hNext, hTracks, hClean, hReader, _, hInner⟩
  rw [hNext]
  constructor
  · exact hTracks
  · exact hClean
  · exact hReader
  · constructor
    · simp [SegmentedLog.entries, SegmentedLog.segments,
        entriesOf, Segment.entries, Framing.located]
    · exact hInner.nextId_eq
    · simp [SegmentedLog.entries, SegmentedLog.segments,
        entriesOf, Segment.entries, Framing.located]
    · exact hInner.index_eq
    · exact hInner.dataIndex_eq
    · exact hInner.leased_eq
    · exact hInner.bucket_eq

/- A change that keeps the maps in step with the log. -/
theorem Live.perform
    {engine : Engine}
    {log : SegmentedLog}
    (hLive : engine.Live log)
    {change : Change}
    (hFits : (change.record engine.inner).Fits)
    (hReflects :
      ∀ loc,
        (change.apply engine.inner loc).Reflects
          (log.entries ++
            [(loc, change.record engine.inner)])) :
    (engine.perform change).Live
      (log.append engine.inner.wal.rotates
        (change.record engine.inner)) := by
  rcases tracks_perform hLive.tracks hFits with
    ⟨hTracks, hExtends, _⟩
  have hInner := hReflects engine.inner.wal.nextLoc
  rw [← hLive.tracks.entries_append] at hInner
  exact
    { tracks := hTracks
      clean := hExtends.clean hLive.clean
      coherent := hExtends.coherent hLive.coherent
      reflects :=
        { ids_lt := hInner.ids_lt
          nextId_eq := hInner.nextId_eq
          created_ne_none := hInner.created_ne_none
          index_eq := hInner.index_eq
          dataIndex_eq := hInner.dataIndex_eq
          leased_eq := hInner.leased_eq
          bucket_eq := hInner.bucket_eq } }

/- Neither the caches nor the counters are in the log. -/
theorem Live.caches
    {engine : Engine}
    {log : SegmentedLog}
    (hLive : engine.Live log)
    {reader : WalReader}
    (hCoherent : reader.Coherent engine.disk)
    (payloadCache : PayloadCache) :
    ({ engine with
        reader := reader
        inner :=
          { engine.inner with
            payloadCache := payloadCache } } :
        Engine).Live log :=
  { tracks := hLive.tracks
    clean := hLive.clean
    coherent := hCoherent
    reflects :=
      { ids_lt := hLive.reflects.ids_lt
        nextId_eq := hLive.reflects.nextId_eq
        created_ne_none := hLive.reflects.created_ne_none
        index_eq := hLive.reflects.index_eq
        dataIndex_eq := hLive.reflects.dataIndex_eq
        leased_eq := hLive.reflects.leased_eq
        bucket_eq := hLive.reflects.bucket_eq } }

/- A failed delivery of a leased task. -/
theorem Live.failure
    {engine : Engine}
    {log : SegmentedLog}
    (hLive : engine.Live log)
    {id : UInt64}
    {lease : LeaseInfo}
    (hLease : engine.inner.leased[id]? = some lease)
    {failureType : OpType}
    (hType :
      failureType = .nacked ∨ failureType = .expired) :
    ∃ next,
      (engine.perform
          (.failure id lease.priority lease.retries
            failureType)).Live next ∧
        ∃ rotates record, next = log.append rotates record
      := by
  unfold Change.failure
  split
  · refine ⟨_, hLive.perform ?_ ?_, _, _, rfl⟩
    · exact Change.record_fits (by simp)
    · exact hLive.reflects.finish hLease _
  · refine ⟨_, hLive.perform ?_ ?_, _, _, rfl⟩
    · exact Change.record_fits (by simp)
    · exact hLive.reflects.retry hLease _ hType

end Engine

variable [Hasher]

/- Every operation writes at most one record. -/
theorem QueueOp.live_run
    {engine : Engine}
    {log : SegmentedLog}
    (hLive : engine.Live log)
    {op : QueueOp}
    (hOp : op.Admissible engine) :
    ∃ next,
      (op.run engine).Live next ∧
        (next = log ∨
          ∃ rotates record,
            next = log.append rotates record) := by
  cases op with
  | push payload priority =>
      rw [QueueOp.run, Engine.push_none]
      refine ⟨_, hLive.perform ?_ ?_, .inr ⟨_, _, rfl⟩⟩
      · apply Change.record_fits
        intro other found hChange
        rw [Change.add.injEq] at hChange
        rw [← hChange.2]
        exact hOp.1
      · exact hLive.reflects.add hOp.2 priority payload
  | popAndLease consumerId now leaseTtlSecs =>
      have hLocked :
          ∃ next,
            (engine.popLocked none consumerId now
                leaseTtlSecs).2.Live next ∧
              (next = log ∨
                ∃ rotates record,
                  next = log.append rotates record) := by
        rw [Engine.popLocked_none]
        cases hPop : engine.inner.readyQueue.pop with
        | none => exact ⟨log, hLive, .inl rfl⟩
        | some popped =>
            rcases popped with ⟨task, rest⟩
            have hGranted :=
              hLive.perform
                (Change.record_fits (by simp))
                (hLive.reflects.grant hPop consumerId
                  (now + leaseTtlSecs))
            cases hData :
                engine.inner.dataIndex[task.id]? with
            | none =>
                simp only [hData]
                exact ⟨_, hGranted, .inr ⟨_, _, rfl⟩⟩
            | some dataLoc =>
                simp only [hData]
                exact
                  ⟨_, hGranted.caches hGranted.coherent _,
                    .inr ⟨_, _, rfl⟩⟩
      rcases hLocked with ⟨next, hNext, hLog⟩
      rcases Engine.popAndLease_snd hNext.coherent with
        ⟨reader, hOut, hCoherent⟩
      refine ⟨next, ?_, hLog⟩
      rw [QueueOp.run, hOut]
      exact hNext.caches hCoherent _
  | ack id consumerId =>
      rw [QueueOp.run, Engine.ack_none]
      cases hLease : engine.inner.leased[id]? with
      | none => exact ⟨log, hLive, .inl rfl⟩
      | some lease =>
          dsimp only
          split
          · refine
              ⟨_, hLive.perform ?_ ?_, .inr ⟨_, _, rfl⟩⟩
            · exact Change.record_fits (by simp)
            · exact hLive.reflects.finish hLease none
          · exact ⟨log, hLive, .inl rfl⟩
  | nack id consumerId =>
      rw [QueueOp.run, Engine.nack_none]
      cases hLease : engine.inner.leased[id]? with
      | none => exact ⟨log, hLive, .inl rfl⟩
      | some lease =>
          dsimp only
          split
          · rcases hLive.failure hLease (.inl rfl) with
              ⟨next, hNext, hLog⟩
            exact ⟨next, hNext, .inr hLog⟩
          · exact ⟨log, hLive, .inl rfl⟩
  | expire id =>
      rw [QueueOp.run]
      cases hLease : engine.inner.leased[id]? with
      | none => exact ⟨log, hLive, .inl rfl⟩
      | some lease =>
          dsimp only
          rw [Engine.expireTask_none]
          rcases hLive.failure hLease (.inr rfl) with
            ⟨next, hNext, hLog⟩
          exact ⟨next, hNext, .inr hLog⟩

end Nesso

------------------------------------------------------------
-- Comparing Live and Recovered States
------------------------------------------------------------

namespace Nesso

namespace Engine

variable [Hasher]

/- Where the log holds the latest record of a task. -/
def latestLoc
    (engine : Engine)
    (id : UInt64) : Option Loc :=
  (KeyedLog.latest entryId (Wal.entries engine.disk)
    id).map Prod.fst

omit [Hasher] in
/- The tasks of one priority whose lease has expired. -/
def expiredRefs
    (engine : Engine)
    (now : UInt64)
    (priority : UInt8) : List TaskRef :=
  engine.inner.leased.toList.filterMap (fun entry =>
    if entry.2.expireTimestamp ≤ now ∧
        entry.2.priority = priority then
      some ⟨entry.1, entry.2.priority, entry.2.retries⟩
    else
      none)

/-
  What recovery at some time owes to the live state: leases
  that have expired by then are ready again.
-/
structure RecoversTo
    (now : UInt64)
    (live next : Engine) : Prop where
  dataIndex_eq : next.inner.dataIndex = live.inner.dataIndex
  nextId_eq : next.inner.nextId = live.inner.nextId
  leased_iff :
    ∀ (id : UInt64) (lease : LeaseInfo),
      next.inner.leased[id]? = some lease ↔
        live.inner.leased[id]? = some lease ∧
          now < lease.expireTimestamp
  bucket_perm :
    ∀ priority,
      (next.inner.readyQueue.bucket priority).Perm
        (live.inner.readyQueue.bucket priority ++
          live.expiredRefs now priority)
  bucket_sorted :
    ∀ priority,
      (next.inner.readyQueue.bucket priority).Pairwise
        (fun left right =>
          ∃ leftLoc rightLoc,
            live.latestLoc left.id = some leftLoc ∧
              live.latestLoc right.id = some rightLoc ∧
              leftLoc < rightLoc)

end Engine

end Nesso

namespace Nesso

namespace Engine

variable [Hasher]
variable {now : UInt64} {live next : Engine}
variable {entries : List (Loc × Record)}

omit [Hasher] in
/- An expired lease of the log is an expired lease. -/
theorem mem_expiredRefs_iff
    (hLive : live.inner.Reflects entries)
    {priority : UInt8}
    {task : TaskRef} :
    task ∈ live.expiredRefs now priority ↔
      task.priority = priority ∧
        ∃ entry lease,
          KeyedLog.latest entryId entries task.id =
              some entry ∧
            entry.2.place = .leased lease ∧
            lease.expireTimestamp ≤ now ∧
            task =
              ⟨entry.2.id, lease.priority,
                lease.retries⟩ := by
  rw [expiredRefs, List.mem_filterMap]
  constructor
  · rintro ⟨⟨id, lease⟩, hMem, hTask⟩
    rw [Std.ExtTreeMap.mem_toList_iff_getElem?_eq_some]
      at hMem
    split at hTask
    · next hExpired =>
        rw [Option.some.injEq] at hTask
        rcases hLive.queued.latest_of_leased hMem with
          ⟨entry, hEntry, hPlace⟩
        have hId : entry.2.id = id :=
          (KeyedLog.latest_mem hEntry).2
        subst hTask
        exact ⟨hExpired.2, entry, lease, hEntry, hPlace,
          hExpired.1, by rw [hId]⟩
    · simp at hTask
  · rintro ⟨hPriority, entry, lease, hEntry, hPlace,
      hTime, hTask⟩
    have hLease :
        live.inner.leased[task.id]? = some lease := by
      rw [hLive.leased_eq, Replay.lease_eq_some_iff]
      exact ⟨entry, hEntry, hPlace⟩
    refine ⟨(task.id, lease), ?_, ?_⟩
    · exact
        Std.ExtTreeMap.mem_toList_iff_getElem?_eq_some.mpr
          hLease
    · rw [hTask] at hPriority ⊢
      simp only at hPriority
      rw [if_pos ⟨hTime, hPriority⟩]

omit [Hasher] in
theorem expiredRefs_ids_nodup
    (engine : Engine)
    (now : UInt64)
    (priority : UInt8) :
    ((engine.expiredRefs now priority).map
      TaskRef.id).Nodup := by
  have hDistinct :=
    Std.ExtTreeMap.distinct_keys_toList
      (t := engine.inner.leased)
  rw [List.Nodup, List.pairwise_map, expiredRefs,
    List.pairwise_filterMap]
  refine hDistinct.imp ?_
  intro left right hNe task hTask other hOther hEq
  split at hTask
  · split at hOther
    · rw [Option.some.injEq] at hTask hOther
      rw [← hTask, ← hOther] at hEq
      simp only at hEq
      simp [hEq] at hNe
    · simp at hOther
  · simp at hTask

omit [Hasher] in
/- A recovered bucket holds the ready and expired tasks. -/
theorem bucket_perm_of_entries
    (hLive : live.inner.Reflects entries)
    (hNext : next.inner.Recovered now entries)
    (priority : UInt8) :
    (next.inner.readyQueue.bucket priority).Perm
      (live.inner.readyQueue.bucket priority ++
        live.expiredRefs now priority) := by
  have hNowIds :
      ∀ record task, Record.placeAt now record =
        .ready task → task.id = record.id := by
    intro record task hPlace
    exact (Record.id_of_placeAt_eq_ready hPlace).1
  have hIds :
      ∀ record task, Record.place record = .ready task →
        task.id = record.id := by
    intro record task hPlace
    exact (Record.id_of_place_eq_ready hPlace).1
  rw [hNext.bucket_eq, hLive.bucket_eq]
  apply (List.perm_ext_iff_of_nodup ?_ ?_).mpr
  · intro task
    rw [List.mem_append, mem_expiredRefs_iff hLive,
      List.mem_filter, List.mem_filter,
      Replay.mem_ready_iff hNowIds,
      Replay.mem_ready_iff hIds]
    simp only [Record.placeAt_eq_ready_iff,
      decide_eq_true_eq]
    constructor
    · rintro ⟨⟨entry, hEntry, hPlace⟩, hPriority⟩
      rcases hPlace with hReady | ⟨lease, hLease⟩
      · exact .inl ⟨⟨entry, hEntry, hReady⟩, hPriority⟩
      · exact .inr
          ⟨hPriority, entry, lease, hEntry, hLease⟩
    · rintro (⟨⟨entry, hEntry, hReady⟩, hPriority⟩ |
        ⟨hPriority, entry, lease, hEntry, hLease⟩)
      · exact ⟨⟨entry, hEntry, .inl hReady⟩, hPriority⟩
      · exact
          ⟨⟨entry, hEntry, .inr ⟨lease, hLease⟩⟩,
            hPriority⟩
  · exact (List.Nodup.of_map _
      (Replay.ready_ids_nodup hNowIds entries)).filter _
  · refine List.Nodup.append ?_ ?_ ?_
    · exact (List.Nodup.of_map _
        (Replay.ready_ids_nodup hIds entries)).filter _
    · exact List.Nodup.of_map _
        (expiredRefs_ids_nodup live now priority)
    · -- A task is not both ready and leased.
      intro task hReady hExpired
      rw [List.mem_filter, Replay.mem_ready_iff hIds]
        at hReady
      rw [mem_expiredRefs_iff hLive] at hExpired
      rcases hReady with ⟨⟨entry, hEntry, hPlace⟩, _⟩
      rcases hExpired with ⟨_, other, lease, hOther, hLease, _⟩
      rw [hEntry, Option.some.injEq] at hOther
      rw [← hOther, hPlace] at hLease
      simp at hLease

/- The state of a log recovers the live state of that log. -/
theorem recoversTo_of_entries
    (hLive : live.inner.Reflects entries)
    (hNext : next.inner.Recovered now entries)
    (hEntries : Wal.entries live.disk = entries)
    (hSorted :
      entries.Pairwise
        (fun left right => left.1 < right.1)) :
    live.RecoversTo now next := by
  have hIds :
      ∀ record task, Record.placeAt now record =
        .ready task → task.id = record.id := by
    intro record task hPlace
    exact (Record.id_of_placeAt_eq_ready hPlace).1
  constructor
  · apply Std.ExtTreeMap.ext_getElem?
    intro id
    rw [hNext.dataIndex_eq, hLive.dataIndex_eq]
  · rw [hNext.nextId_eq, hLive.nextId_eq]
  · intro id lease
    rw [hNext.leased_eq, hLive.leased_eq,
      Replay.lease_eq_some_iff, Replay.lease_eq_some_iff]
    simp only [Record.placeAt_eq_leased_iff]
    constructor
    · rintro ⟨entry, hEntry, hPlace, hTime⟩
      exact ⟨⟨entry, hEntry, hPlace⟩, hTime⟩
    · rintro ⟨⟨entry, hEntry, hPlace⟩, hTime⟩
      exact ⟨entry, hEntry, hPlace, hTime⟩
  · intro priority
    exact bucket_perm_of_entries hLive hNext priority
  · intro priority
    rw [hNext.bucket_eq]
    refine List.Pairwise.sublist List.filter_sublist ?_
    have hOrder := Replay.ready_pairwise hIds hSorted
    rw [← hEntries] at hOrder ⊢
    exact hOrder

end Engine

end Nesso

------------------------------------------------------------
-- Stages of a Run
------------------------------------------------------------

namespace Nesso

section Stages

variable [Hasher]
variable {maxSegmentSize : Option Nat}
variable {cacheCapacity : Nat} {start : UInt64}

/- The engine and its log after each number of operations. -/
structure Stages
    (maxSegmentSize : Option Nat)
    (cacheCapacity : Nat)
    (start : UInt64)
    (ops : List QueueOp)
    (stage : Nat → Engine × SegmentedLog) : Prop where
  run :
    ∀ count ≤ ops.length,
      QueueRun maxSegmentSize cacheCapacity start
        (ops.take count) (stage count).1
  live :
    ∀ count ≤ ops.length,
      (stage count).1.Live (stage count).2
  first : (stage 0).2.entries = []
  step :
    ∀ count < ops.length,
      (stage (count + 1)).2 = (stage count).2 ∨
        ∃ rotates record,
          (stage (count + 1)).2 =
            (stage count).2.append rotates record

/- Every run passes through its stages. -/
theorem QueueRun.stages
    {ops : List QueueOp}
    {engine : Engine}
    (hRun :
      QueueRun maxSegmentSize cacheCapacity start ops
        engine) :
    ∃ stage,
      Stages maxSegmentSize cacheCapacity start ops
        stage := by
  induction hRun with
  | start =>
      refine
        ⟨fun _ =>
          ((Engine.reopen FileSystem.empty maxSegmentSize
              cacheCapacity start).2,
            { closed := [], activeId := 1, active := [] }),
          ?_, ?_, ?_, ?_⟩
      · intro count _
        rw [List.take_nil]
        exact .start
      · intro count _
        exact Engine.live_reopen_empty _ _ _
      · rfl
      · simp
  | @step ops engine next op hRun hAllowed hNext ih =>
      rcases ih with ⟨stage, hStages⟩
      have hLast : (stage ops.length).1 = engine := by
        have hWhole := hStages.run ops.length (le_refl _)
        rw [List.take_length] at hWhole
        exact hWhole.unique hRun
      have hLive := hStages.live ops.length (le_refl _)
      rw [hLast] at hLive
      rcases QueueOp.live_run hLive hAllowed with
        ⟨log, hLog, hStep⟩
      rw [Option.some.injEq] at hNext
      rw [hNext] at hLog
      refine
        ⟨fun count =>
          if count ≤ ops.length then stage count
          else (next, log), ?_, ?_, ?_, ?_⟩
      · intro count hCount
        by_cases hOld : count ≤ ops.length
        · rw [if_pos hOld, List.take_append_of_le_length hOld]
          exact hStages.run count hOld
        · rw [if_neg hOld, List.take_of_length_le (by
            rw [List.length_append, List.length_singleton]
            omega)]
          exact .step hRun hAllowed (by rw [hNext])
      · intro count hCount
        by_cases hOld : count ≤ ops.length
        · rw [if_pos hOld]
          exact hStages.live count hOld
        · rw [if_neg hOld]
          exact hLog
      · exact hStages.first
      · intro count hCount
        rw [List.length_append, List.length_singleton]
          at hCount
        by_cases hOld : count < ops.length
        · rw [if_pos (by omega), if_pos (by omega)]
          exact hStages.step count hOld
        · have hEq : count = ops.length := by omega
          rw [if_neg (by omega), if_pos (by omega), hEq]
          exact hStep

namespace Stages

variable {ops : List QueueOp}
variable {stage : Nat → Engine × SegmentedLog}

/- Logs only grow along a run. -/
theorem precedes
    (hStages :
      Stages maxSegmentSize cacheCapacity start ops stage)
    {first last : Nat}
    (hLe : first ≤ last)
    (hLast : last ≤ ops.length) :
    (stage first).2.Precedes (stage last).2 := by
  induction last, hLe using Nat.le_induction with
  | base => exact .refl _
  | succ last _ ih =>
      have hPrecedes := ih (by omega)
      rcases hStages.step last (by omega) with
        hSame | ⟨rotates, record, hAppend⟩
      · rw [hSame]
        exact hPrecedes
      · rw [hAppend]
        exact hPrecedes.append rotates record

/- Every number of records is reached at some stage. -/
theorem exists_entries_length
    (hStages :
      Stages maxSegmentSize cacheCapacity start ops stage)
    {last size : Nat}
    (hLast : last ≤ ops.length)
    (hSize : size ≤ (stage last).2.entries.length) :
    ∃ count ≤ last,
      (stage count).2.entries.length = size := by
  induction last with
  | zero =>
      rw [hStages.first] at hSize
      refine ⟨0, le_refl _, ?_⟩
      rw [hStages.first]
      exact (Nat.le_zero.mp hSize).symm
  | succ last ih =>
      by_cases hOld :
          size ≤ (stage last).2.entries.length
      · rcases ih (by omega) hOld with
          ⟨count, hCount, hLength⟩
        exact ⟨count, by omega, hLength⟩
      · refine ⟨last + 1, le_refl _, ?_⟩
        rcases hStages.step last (by omega) with
          hSame | ⟨rotates, record, hAppend⟩
        · rw [hSame] at hSize
          omega
        · rw [hAppend, SegmentedLog.entries_append]
            at hSize ⊢
          simp only [List.length_append,
            List.length_singleton] at hSize ⊢
          omega

end Stages

end Stages

end Nesso

------------------------------------------------------------
-- Recovery of the Longest Prefix
------------------------------------------------------------

namespace Nesso

/- Every file of the earlier directory is still there. -/
def Disk.Holds (disk earlier : Disk) : Prop :=
  ∀ name content, earlier.read name = some content →
    ∃ found, disk.read name = some found ∧
      content <+: found

/- The directory with one segment cut at a byte. -/
def Disk.cutSegment
    (disk : Disk)
    (segmentId size : Nat) : Disk :=
  FileSystem.Step.exec disk (.truncate (.wal segmentId) size)

section Recovery

variable [Hasher]
variable {engine live : Engine}
variable {log earlier : SegmentedLog}

theorem Engine.Live.read_cutSegment
    (hLive : engine.Live log)
    (size : Nat)
    (name : FileName) :
    (engine.disk.cutSegment
        engine.inner.wal.activeSegmentId size).read name =
      if name = .wal log.activeId then
        some ((encodeRecords log.active).take size)
      else engine.disk.read name := by
  have hActive :
      engine.disk.read (.wal log.activeId) =
        some (encodeRecords log.active) :=
    hLive.tracks.segmentsOn.read_of_mem
      (by simp [SegmentedLog.segments])
  rw [Disk.cutSegment, FileSystem.read_exec_truncate,
    hLive.tracks.activeSegmentId_eq, hActive]
  rfl

/- The complete records of the cut log. -/
def SegmentedLog.cut
    (log : SegmentedLog)
    (size : Nat) : SegmentedLog :=
  { log with
    active :=
      Framing.complete Record.encode size log.active }

theorem SegmentedLog.cut_precedes
    (log : SegmentedLog)
    (size : Nat) :
    (log.cut size).Precedes log :=
  .active rfl rfl (Framing.complete_prefix _ _ _)

/- An earlier stage on disk has only complete records. -/
theorem entries_prefix_cut_of_holds
    (hLog : engine.Live log)
    (hEarlier : live.Live earlier)
    (hPrecedes : earlier.Precedes log)
    {size : Nat}
    (hHolds :
      (engine.disk.cutSegment
        engine.inner.wal.activeSegmentId size).Holds
          live.disk) :
    earlier.entries <+: (log.cut size).entries := by
  apply SegmentedLog.Precedes.entries_prefix_entries
  cases hPrecedes with
  | active hClosed hId hActive =>
      have hFile :
          live.disk.read (.wal log.activeId) =
            some (encodeRecords earlier.active) := by
        rw [← hId]
        exact hEarlier.tracks.segmentsOn.read_of_mem
          (by simp [SegmentedLog.segments])
      rcases hHolds _ _ hFile with ⟨found, hFound, hPrefix⟩
      rw [hLog.read_cutSegment, if_pos rfl,
        Option.some.injEq] at hFound
      have hLength := hPrefix.length_le
      rw [← hFound, List.length_take] at hLength
      exact .active hClosed hId
        (Framing.prefix_complete_of_length_le hActive
          (le_trans hLength (min_le_left _ _)))
  | closed records hRecords hClosed =>
      exact .closed records hRecords hClosed

/- A stage that is the cut log is on disk. -/
theorem holds_of_entries_eq_cut
    (hLog : engine.Live log)
    (hEarlier : live.Live earlier)
    (hPrecedes : earlier.Precedes log)
    {size : Nat}
    (hEntries : earlier.entries = (log.cut size).entries) :
    (engine.disk.cutSegment
      engine.inner.wal.activeSegmentId size).Holds
        live.disk := by
  intro name content hContent
  rw [hLog.read_cutSegment]
  cases name with
  | wal segmentId =>
      rcases
        (hEarlier.tracks.segmentsOn.read_iff _ _).mp
          hContent with
        ⟨records, hMem, rfl⟩
      rw [SegmentedLog.segments, List.mem_append,
        List.mem_singleton] at hMem
      -- Segments that are closed by now are intact.
      have hIntact :
          ∀ stored, (segmentId, stored) ∈ log.closed →
            records <+: stored →
              ∃ found,
                (if FileName.wal segmentId =
                    .wal log.activeId then
                  some ((encodeRecords log.active).take
                    size)
                else engine.disk.read (.wal segmentId)) =
                    some found ∧
                  encodeRecords records <+: found := by
        rintro stored hStored ⟨back, rfl⟩
        have hLt :=
          hLog.tracks.segmentsOn.closed_lt_activeId hStored
        rw [if_neg (by
            simp only [FileName.wal.injEq]
            exact ne_of_lt hLt)]
        refine ⟨_, hLog.tracks.segmentsOn.read_of_mem
          (List.mem_append_left _ hStored), ?_⟩
        simp [encodeRecords]
      cases hPrecedes with
      | active hClosed hId hActive =>
          rcases hMem with hMem | hMem
          · rw [hClosed] at hMem
            exact hIntact records hMem (List.prefix_refl _)
          · rw [Prod.mk.injEq, hId] at hMem
            have hSame :
                earlier.active = (log.cut size).active := by
              have hRecords :=
                congrArg (List.map Prod.snd) hEntries
              simp only [SegmentedLog.entries,
                map_snd_entriesOf, SegmentedLog.segments,
                List.flatMap_append, hClosed] at hRecords
              simpa [SegmentedLog.cut] using hRecords
            rw [if_pos (by rw [hMem.1]), hMem.2, hSame]
            refine ⟨_, rfl, ?_⟩
            rw [List.prefix_take_iff]
            refine ⟨?_, Framing.length_encodeAll_complete_le
              _ _ _⟩
            rcases Framing.complete_prefix Record.encode
              size log.active with ⟨back, hBack⟩
            refine ⟨encodeRecords back, ?_⟩
            rw [encodeRecords, encodeRecords,
              ← Framing.encodeAll_append]
            exact congrArg _ hBack
      | closed stored hRecords hClosed =>
          rcases hMem with hMem | hMem
          · exact hIntact records
              (hClosed.subset
                (List.mem_append_left _ hMem))
              (List.prefix_refl _)
          · rw [Prod.mk.injEq] at hMem
            apply hIntact stored
            · apply hClosed.subset
              rw [hMem.1]
              simp
            · rw [hMem.2]
              exact hRecords
  | compacting =>
      rw [hEarlier.clean _ rfl] at hContent
      simp at hContent
  | compactionPlan =>
      rw [hEarlier.clean _ rfl] at hContent
      simp at hContent
  | compactionSwap =>
      rw [hEarlier.clean _ rfl] at hContent
      simp at hContent

/-
  Cut the active segment of a finished run at any byte and
  open the directory again at any time: the recovered engine
  is the one reached by the longest prefix of the operations
  whose records are completely on disk.
-/
theorem queueRun_recovers_longest_prefix
    {maxSegmentSize : Option Nat}
    {cacheCapacity : Nat}
    {start : UInt64}
    {ops : List QueueOp}
    (hRun :
      QueueRun maxSegmentSize cacheCapacity start ops
        engine)
    (size : Nat)
    (maxSegmentSizeNext : Option Nat)
    (cacheCapacityNext : Nat)
    (now : UInt64) :
    ∃ count live next,
      IsGreatest
          { count |
            count ≤ ops.length ∧
              ∃ live,
                QueueRun maxSegmentSize cacheCapacity start
                    (ops.take count) live ∧
                  (engine.disk.cutSegment
                    engine.inner.wal.activeSegmentId
                    size).Holds live.disk }
          count ∧
        QueueRun maxSegmentSize cacheCapacity start
          (ops.take count) live ∧
        Engine.reopen
            (engine.disk.cutSegment
              engine.inner.wal.activeSegmentId size)
            maxSegmentSizeNext cacheCapacityNext now =
          (.ok (), next) ∧
        live.RecoversTo now next := by
  classical
  rcases hRun.stages with ⟨stage, hStages⟩
  have hWhole := hStages.run ops.length (le_refl _)
  rw [List.take_length] at hWhole
  have hEngine : (stage ops.length).1 = engine :=
    hWhole.unique hRun
  have hLog := hStages.live ops.length (le_refl _)
  rw [hEngine] at hLog
  generalize hFinal : (stage ops.length).2 = log at hLog
  let disk :=
    engine.disk.cutSegment
      engine.inner.wal.activeSegmentId size
  have hPrecedes :
      ∀ count ≤ ops.length,
        (stage count).2.Precedes log := by
    intro count hCount
    rw [← hFinal]
    exact hStages.precedes hCount (le_refl _)
  -- Some stage has exactly the complete records.
  have hCut :=
    (SegmentedLog.cut_precedes log size).entries_prefix_entries
  have hSize :
      (log.cut size).entries.length ≤
        (stage ops.length).2.entries.length := by
    rw [hFinal]
    exact hCut.length_le
  rcases hStages.exists_entries_length (le_refl _) hSize
    with ⟨exact, hExact, hLength⟩
  have hExactEntries :
      (stage exact).2.entries = (log.cut size).entries :=
    List.prefix_of_prefix_length_le
      (hPrecedes exact hExact).entries_prefix_entries hCut
      (le_of_eq hLength) |>.eq_of_length hLength
  have hExactHolds : disk.Holds (stage exact).1.disk :=
    holds_of_entries_eq_cut hLog
      (hStages.live exact hExact)
      (hPrecedes exact hExact) hExactEntries
  let count :=
    Nat.findGreatest
      (fun count => disk.Holds (stage count).1.disk)
      ops.length
  have hCount : count ≤ ops.length :=
    Nat.findGreatest_le _
  have hHolds : disk.Holds (stage count).1.disk :=
    Nat.findGreatest_spec
      (P := fun count => disk.Holds (stage count).1.disk)
      hExact hExactHolds
  have hLe : exact ≤ count :=
    Nat.le_findGreatest hExact hExactHolds
  have hEntries :
      (stage count).2.entries = (log.cut size).entries := by
    have hForward :=
      (hStages.precedes hLe hCount).entries_prefix_entries
    have hBackward :=
      entries_prefix_cut_of_holds hLog
        (hStages.live count hCount)
        (hPrecedes count hCount) hHolds
    rw [hExactEntries] at hForward
    exact hBackward.eq_of_length_le hForward.length_le
  rcases Engine.reopen_spec hLog.tracks.segmentsOn
    hLog.clean (hLog.read_cutSegment size)
    maxSegmentSizeNext cacheCapacityNext now with
    ⟨next, hNext, _, _, _, _, hRecovered⟩
  have hLive := hStages.live count hCount
  refine ⟨count, (stage count).1, next, ⟨?_, ?_⟩,
    hStages.run count hCount, hNext, ?_⟩
  · exact ⟨hCount, _, hStages.run count hCount, hHolds⟩
  · rintro other ⟨hOther, found, hFound, hFoundHolds⟩
    have hSame : found = (stage other).1 :=
      hFound.unique (hStages.run other hOther)
    rw [hSame] at hFoundHolds
    exact Nat.le_findGreatest hOther hFoundHolds
  · apply Engine.recoversTo_of_entries hLive.reflects
    · rw [hEntries]
      exact hRecovered
    · exact hLive.tracks.segmentsOn.entries_eq
    · exact hLive.tracks.segmentsOn.entries_pairwise_lt

end Recovery

end Nesso

------------------------------------------------------------
-- A Torn Lease
------------------------------------------------------------

namespace Nesso

/- One task that is pushed and leased. -/
def leasedOnce : List QueueOp :=
  [.push [7] 5, .popAndLease 1 10 100]

/- Cut in the frame of its lease, the task is ready again. -/
theorem queueRun_recovers_torn_lease :
    ∃ engine count live next,
      QueueRun (some 64) 4 0 leasedOnce engine ∧
        QueueRun (some 64) 4 0 (leasedOnce.take count)
          live ∧
        Engine.reopen
            (engine.disk.cutSegment
              engine.inner.wal.activeSegmentId 40)
            (some 64) 4 20 = (.ok (), next) ∧
        live.RecoversTo 20 next := by
  rcases Engine.reopen_empty_spec (some 64) 4 0 with
    ⟨first, hFirst, _, _, _, _, hInner⟩
  have hLeft : first.inner.IdsLeft := by
    rw [EngineState.IdsLeft, hInner.empty.2.2.2]
    decide
  have hStart :
      (Engine.reopen FileSystem.empty (some 64) 4 0).2 =
        first := by
    rw [hFirst]
  have hNone : QueueRun (some 64) 4 0 [] first := by
    rw [← hStart]
    exact .start
  have hPushed :
      QueueRun (some 64) 4 0 [.push [7] 5]
        (QueueOp.run first (.push [7] 5)) :=
    hNone.step ⟨by simp [maxPayloadSize], hLeft⟩ rfl
  have hLeased :
      QueueRun (some 64) 4 0 leasedOnce
        (QueueOp.run
          (QueueOp.run first (.push [7] 5))
          (.popAndLease 1 10 100)) :=
    hPushed.step trivial rfl
  rcases queueRun_recovers_longest_prefix hLeased 40
    (some 64) 4 20 with
    ⟨count, live, next, _, hLive, hNext, hRecovers⟩
  exact ⟨_, count, live, next, hLeased, hLive, hNext,
    hRecovers⟩

end Nesso
