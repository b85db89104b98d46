import Nesso.Recovery.Compaction
import Nesso.Recovery.PayloadSurvival

/-
  FIFO order across compactions and a restart.  The live queue
  keeps the order of the latest records in the log; recovery
  reads that order back, but compaction rewrites the records
  of closed segments in the order of their ids.

  Key definitions include:
    * `Replay.readyBefore`
    * `EngineState.inClosed`
    * `LifeOp.KeepsOrder`
    * `FifoSurvival`

  The main theorems are:
    * `lifeRun_fifo_survives`
    * `lifeRun_reorders_tasks`
-/

------------------------------------------------------------
-- The Order of Compacted Tasks
------------------------------------------------------------

namespace Nesso

namespace Replay

/- The ready tasks without records in the later part. -/
def readyBefore
    (place : Record → Place)
    (entries later : List (Loc × Record)) :
    List TaskRef :=
  ((KeyedLog.latests entryId entries).filter (fun entry =>
    (KeyedLog.latest entryId later
      (entryId entry)).isNone)).filterMap
        (fun entry => (place entry.2).task?)

theorem ready_append
    (place : Record → Place)
    (entries later : List (Loc × Record)) :
    ready place (entries ++ later) =
      readyBefore place entries later ++
        ready place later := by
  rw [ready, KeyedLog.latests_append,
    List.filterMap_append, readyBefore, ready]

variable {place : Record → Place}

theorem mem_readyBefore_iff
    (hPlace :
      ∀ record task, place record = .ready task →
        task.id = record.id)
    {entries later : List (Loc × Record)}
    {task : TaskRef} :
    task ∈ readyBefore place entries later ↔
      placeOf place (entries.map Prod.snd) task.id =
          some (.ready task) ∧
        KeyedLog.latest entryId later task.id = none := by
  rw [← mem_ready_iff_placeOf hPlace]
  have hTask :
      ∀ found : Place,
        found.task? = some task ↔ found = .ready task := by
    intro found
    cases found <;> simp [Place.task?]
  simp only [readyBefore, ready, List.mem_filterMap,
    List.mem_filter, hTask, Option.isNone_iff_eq_none]
  constructor
  · rintro ⟨entry, ⟨hEntry, hLater⟩, hReady⟩
    refine ⟨⟨entry, hEntry, hReady⟩, ?_⟩
    rw [hPlace _ _ hReady]
    exact hLater
  · rintro ⟨⟨entry, hEntry, hReady⟩, hLater⟩
    refine ⟨entry, ⟨hEntry, ?_⟩, hReady⟩
    rw [hPlace _ _ hReady] at hLater
    exact hLater

/- Sorted records make sorted tasks. -/
theorem readyBefore_pairwise
    (hPlace :
      ∀ record task, place record = .ready task →
        task.id = record.id)
    {entries : List (Loc × Record)}
    (hSorted :
      entries.Pairwise (fun left right =>
        entryId left < entryId right))
    (later : List (Loc × Record)) :
    (readyBefore place entries later).Pairwise
      (fun left right => left.id < right.id) := by
  have hIds :
      ∀ (entry : Loc × Record) (task : TaskRef),
        (place entry.2).task? = some task →
          task.id = entryId entry := by
    intro entry task hTask
    apply hPlace
    cases hCase : place entry.2 <;>
      simp_all [Place.task?]
  have hOrder :
      (KeyedLog.latests entryId entries).Pairwise
        (fun left right => entryId left < entryId right) :=
    hSorted.sublist (KeyedLog.latests_sublist entries)
  rw [readyBefore, List.pairwise_filterMap]
  refine (hOrder.filter _).imp ?_
  intro left right hLt task hTask other hOther
  rw [hIds left task hTask, hIds right other hOther]
  exact hLt

end Replay

/- The compacted records are written in id order. -/
theorem compacted_pairwise_lt
    (records : List Record) :
    (compacted records).Pairwise
      (fun left right => left.id < right.id) := by
  rw [← List.pairwise_map (f := Record.id)
    (R := fun left right => left < right),
    map_id_compacted]
  refine Std.ExtTreeMap.ordered_keys.imp ?_
  intro left right hLt
  exact Std.compare_eq_lt.mp hLt

/- Compaction leaves room for the lease fields. -/
theorem compacted_long
    {records : List Record}
    (hLong :
      ∀ record ∈ records, record.opType = .leased →
        13 ≤ record.payload.length) :
    ∀ record ∈ compacted records,
      record.opType = .leased →
        13 ≤ record.payload.length := by
  intro record hRecord hOp
  rcases mem_compacted_iff.mp hRecord with
    ⟨id, last, hLast, rfl⟩
  rcases CompactionMaps.id_of_getElem?_latestRecords hLast
    with ⟨hId, hMem, _⟩
  rw [(CompactionMaps.recordToWrite_fields _ hId).2.1]
    at hOp
  have hHeader := hLong last hMem hOp
  unfold CompactionMaps.recordToWrite
  split
  · exact hHeader
  · split
    · exact hHeader
    · simp only [hOp, List.length_append, List.length_take]
      omega

end Nesso

------------------------------------------------------------
-- Compacting an Ordered Queue
------------------------------------------------------------

namespace Nesso

/- The latest record of a task is in a closed segment. -/
def EngineState.inClosed
    (inner : EngineState)
    (id : UInt64) : Bool :=
  inner.index[id]?.any (fun loc =>
    (ofLex loc).1 < inner.wal.activeSegmentId)

section Compacting

variable [Hasher]
variable {disk : Disk} {log : SegmentedLog}
variable {inner : EngineState}

omit [Hasher] in
theorem ready_id_eq
    (record : Record)
    (task : TaskRef)
    (hPlace : record.place = .ready task) :
    task.id = record.id :=
  (Record.id_of_place_eq_ready hPlace).1

/- The index tells which ready tasks get compacted. -/
theorem bucket_filter_inClosed
    (hTracks : inner.wal.Tracks disk log)
    (hPlaced : Placed inner log.entries)
    (hQueued : inner.Queued log.entries)
    (priority : UInt8) :
    (inner.readyQueue.bucket priority).filter
        (fun task => inner.inClosed task.id) =
      (Replay.readyBefore Record.place
        (entriesOf log.closed)
        (entriesOf [(log.activeId, log.active)])).filter
          (fun task => task.priority = priority) := by
  have hSegments := hTracks.segmentsOn
  have hEntries :
      log.entries =
        entriesOf log.closed ++
          entriesOf [(log.activeId, log.active)] := by
    rw [SegmentedLog.entries, SegmentedLog.segments,
      entriesOf_append]
  have hIndex :
      ∀ task ∈ Replay.ready Record.place log.entries,
        inner.index[task.id]? =
          (KeyedLog.latest entryId log.entries
            task.id).map Prod.fst := by
    intro task hTask
    apply hPlaced.index_eq
    apply hPlaced.ready_data
    rw [ReadyQueue.mem_tasks_iff, hQueued.bucket_eq,
      List.mem_filter]
    exact ⟨hTask, by simp⟩
  have hBefore :
      ∀ task ∈ Replay.readyBefore Record.place
          (entriesOf log.closed)
          (entriesOf [(log.activeId, log.active)]),
        inner.inClosed task.id = true := by
    intro task hTask
    have hReady :
        task ∈ Replay.ready Record.place log.entries := by
      rw [hEntries, Replay.ready_append]
      exact List.mem_append_left _ hTask
    rcases (Replay.mem_readyBefore_iff ready_id_eq).mp hTask
      with ⟨hPlace, hLater⟩
    rw [← Replay.map_latest_entryId,
      Option.map_eq_some_iff] at hPlace
    rcases hPlace with ⟨entry, hLatest, _⟩
    rcases segment_of_mem_entriesOf
      (KeyedLog.latest_mem hLatest).1 with
      ⟨records, hSegment, _⟩
    have hLt := hSegments.closed_lt_activeId hSegment
    rw [EngineState.inClosed, hIndex task hReady, hEntries,
      KeyedLog.latest_append, hLater, hLatest,
      hTracks.activeSegmentId_eq]
    simpa using hLt
  have hAfter :
      ∀ task ∈ Replay.ready Record.place
          (entriesOf [(log.activeId, log.active)]),
        inner.inClosed task.id = false := by
    intro task hTask
    have hReady :
        task ∈ Replay.ready Record.place log.entries := by
      rw [hEntries, Replay.ready_append]
      exact List.mem_append_right _ hTask
    rcases (Replay.mem_ready_iff ready_id_eq).mp hTask with
      ⟨entry, hLatest, _⟩
    rcases segment_of_mem_entriesOf
      (KeyedLog.latest_mem hLatest).1 with
      ⟨records, hSegment, _⟩
    rw [List.mem_singleton, Prod.mk.injEq] at hSegment
    rw [EngineState.inClosed, hIndex task hReady, hEntries,
      KeyedLog.latest_append, hLatest,
      hTracks.activeSegmentId_eq]
    simp [hSegment.1]
  rw [hQueued.bucket_eq, hEntries, Replay.ready_append,
    List.filter_append, List.filter_append]
  have hNone :
      ((Replay.ready Record.place
          (entriesOf [(log.activeId, log.active)])).filter
            (fun task => task.priority = priority)).filter
              (fun task => inner.inClosed task.id) = [] := by
    rw [List.filter_eq_nil_iff]
    intro task hTask
    simp [hAfter task (List.mem_of_mem_filter hTask)]
  rw [hNone, List.append_nil, List.filter_eq_self]
  intro task hTask
  exact hBefore task (List.mem_of_mem_filter hTask)

omit [Hasher] in
/-
  Sorted records may replace older ones that leave every live
  task in the same place, if the tasks were sorted before.
-/
theorem EngineState.Queued.of_replaced
    {old small later : List (Loc × Record)}
    (hQueued : inner.Queued (old ++ later))
    (hPlaces :
      ∀ id,
        Replay.placeOf Record.place
            (small.map Prod.snd) id =
          (Replay.placeOf Record.place
            (old.map Prod.snd) id).filter
              (fun place => place ≠ .terminal))
    (hSorted :
      small.Pairwise (fun left right =>
        entryId left < entryId right))
    (hOrder :
      ∀ priority : UInt8,
        ((Replay.readyBefore Record.place old later).filter
          (fun task => task.priority = priority)).Pairwise
            (fun left right => left.id < right.id)) :
    inner.Queued (small ++ later) := by
  constructor
  · intro id
    ext lease
    rw [hQueued.leased_eq,
      Replay.lease_eq_some_iff_placeOf,
      Replay.lease_eq_some_iff_placeOf, List.map_append,
      List.map_append, Replay.placeOf_append,
      Replay.placeOf_append, hPlaces]
    cases Replay.placeOf Record.place
        (later.map Prod.snd) id with
    | some found => simp
    | none => simp [Option.filter_eq_some_iff]
  · intro priority
    have hMem :
        ∀ task,
          task ∈ Replay.readyBefore Record.place old
              later ↔
            task ∈ Replay.readyBefore Record.place small
              later := by
      intro task
      rw [Replay.mem_readyBefore_iff ready_id_eq,
        Replay.mem_readyBefore_iff ready_id_eq, hPlaces]
      simp [Option.filter_eq_some_iff]
    have hOld := hOrder priority
    have hNew :=
      (Replay.readyBefore_pairwise ready_id_eq hSorted
        later).filter (fun task => task.priority = priority)
    have hNodup :
        ∀ {tasks : List TaskRef},
          tasks.Pairwise
              (fun left right => left.id < right.id) →
            tasks.Nodup := by
      intro tasks hTasks
      refine hTasks.imp ?_
      rintro left right hLt rfl
      exact UInt64.lt_irrefl _ hLt
    rw [hQueued.bucket_eq, Replay.ready_append,
      Replay.ready_append, List.filter_append,
      List.filter_append]
    congr 1
    refine List.Perm.eq_of_pairwise ?_ hOld hNew ?_
    · intro left right _ _ hLt hGt
      exact (UInt64.lt_irrefl _
        (UInt64.lt_trans hLt hGt)).elim
    · rw [List.perm_ext_iff_of_nodup (hNodup hOld)
        (hNodup hNew)]
      intro task
      rw [List.mem_filter, List.mem_filter, hMem]

/-
  The queue still matches the log when the compacted tasks
  of each priority were already queued in id order.
-/
theorem EngineState.Queued.compact
    (hTracks : inner.wal.Tracks disk log)
    (hPlaced : Placed inner log.entries)
    (hQueued : inner.Queued log.entries)
    (hLong :
      ∀ record ∈ log.closed.flatMap Prod.snd,
        record.opType = .leased →
          13 ≤ record.payload.length)
    (hOrder :
      ∀ priority,
        ((inner.readyQueue.bucket priority).filter
          (fun task => inner.inClosed task.id)).Pairwise
            (fun left right => left.id < right.id)) :
    inner.Queued
      (entriesOf
        [(1, compacted (log.closed.flatMap Prod.snd)),
          (log.activeId, log.active)]) := by
  generalize hRecords :
    log.closed.flatMap Prod.snd = records at hLong ⊢
  have hSmall :
      (entriesOf [(1, compacted records)]).map Prod.snd =
        compacted records := by
    rw [map_snd_entriesOf]
    simp
  have hSplit :
      entriesOf
          [(1, compacted records),
            (log.activeId, log.active)] =
        entriesOf [(1, compacted records)] ++
          entriesOf [(log.activeId, log.active)] :=
    entriesOf_append [(1, compacted records)] _
  have hOld := hQueued
  rw [SegmentedLog.entries, SegmentedLog.segments,
    entriesOf_append] at hOld
  rw [hSplit]
  apply hOld.of_replaced
  · intro id
    rw [hSmall, map_snd_entriesOf, hRecords]
    exact Replay.placeOf_compacted
      Record.place_eq_terminal_iff
      (fun record hRecord =>
        (CompactionMaps.ofRecords _).place_recordToWrite rfl
          (hLong record hRecord)) id
  · have hSorted := compacted_pairwise_lt records
    rw [← hSmall, List.pairwise_map] at hSorted
    exact hSorted
  · intro priority
    rw [← bucket_filter_inClosed hTracks hPlaced hQueued]
    exact hOrder priority

end Compacting

end Nesso

------------------------------------------------------------
-- Ordered Engines
------------------------------------------------------------

namespace Nesso

namespace Engine

variable [Hasher]

/- The queue matches the records on disk. -/
structure Ordered (engine : Engine) : Prop where
  queued : engine.inner.Queued (Wal.entries engine.disk)
  long :
    ∀ entry ∈ Wal.entries engine.disk,
      entry.2.opType = .leased →
        13 ≤ entry.2.payload.length

namespace Ordered

variable {engine next : Engine} {log : SegmentedLog}
variable {payloads : UInt64 → Option Bytes}

theorem of_alike
    (hOrdered : engine.Ordered)
    (hAlike : engine.Alike next) :
    next.Ordered := by
  constructor
  · rw [hAlike.disk_eq]
    constructor
    · rw [hAlike.leased_eq]
      exact hOrdered.queued.leased_eq
    · rw [hAlike.readyQueue_eq]
      exact hOrdered.queued.bucket_eq
  · rw [hAlike.disk_eq]
    exact hOrdered.long

/- A change that queues its task last. -/
theorem perform
    (hKeeps : engine.Keeps log payloads)
    (hOrdered : engine.Ordered)
    {change : Change}
    (hFits : (change.record engine.inner).Fits)
    (hQueued :
      ∀ loc,
        (change.apply engine.inner loc).Queued
          (log.entries ++
            [(loc, change.record engine.inner)]))
    (hLong :
      (change.record engine.inner).opType = .leased →
        13 ≤
          (change.record engine.inner).payload.length) :
    (engine.perform change).Ordered := by
  have hTracks := hKeeps.serves.tracks
  have hNext := (tracks_perform hTracks hFits).1
  have hEntries :
      Wal.entries (engine.perform change).disk =
        log.entries ++
          [(engine.inner.wal.nextLoc,
            change.record engine.inner)] := by
    rw [hNext.segmentsOn.entries_eq]
    exact hTracks.entries_append _
  have hOld := hOrdered.long
  rw [hTracks.segmentsOn.entries_eq] at hOld
  constructor
  · rw [hEntries]
    have hInner := hQueued engine.inner.wal.nextLoc
    exact ⟨hInner.leased_eq, hInner.bucket_eq⟩
  · rw [hEntries]
    intro entry hEntry
    rcases List.mem_append.mp hEntry with hEntry | hEntry
    · exact hOld entry hEntry
    · rw [List.mem_singleton.mp hEntry]
      exact hLong

/- A queue that matches the disk matches the log. -/
theorem queued_entries
    (hKeeps : engine.Keeps log payloads)
    (hOrdered : engine.Ordered) :
    engine.inner.Queued log.entries := by
  have hQueued := hOrdered.queued
  rw [hKeeps.serves.tracks.segmentsOn.entries_eq] at hQueued
  exact hQueued

theorem push
    (hKeeps : engine.Keeps log payloads)
    (hOrdered : engine.Ordered)
    (priority : UInt8)
    {payload : Bytes}
    (hShort : payload.length ≤ maxUserPayloadSize) :
    (engine.push none payload priority).2.Ordered := by
  have hFresh :
      KeyedLog.latest entryId log.entries
        engine.inner.nextId = none := by
    rw [KeyedLog.latest_eq_none_iff]
    intro entry hEntry hId
    have hKnown :=
      hKeeps.serves.stored.entries_known entry hEntry
    rw [hId] at hKnown
    exact UInt64.lt_irrefl _ hKnown
  rw [push_none]
  apply hOrdered.perform hKeeps
  · apply Change.record_fits
    intro other found hChange
    rw [Change.add.injEq] at hChange
    rw [← hChange.2]
    exact le_trans hShort (Nat.sub_le _ _)
  · exact (hOrdered.queued_entries hKeeps).add hFresh
      priority payload
  · simp [Change.record]

/- Every due change queues its task last or not at all. -/
theorem moves
    (hKeeps : engine.Keeps log payloads)
    (hOrdered : engine.Ordered)
    (hMoves : engine.Moves next) :
    next.Ordered := by
  have hQueued := hOrdered.queued_entries hKeeps
  rcases hMoves with hAlike | ⟨change, hDue, hAlike⟩
  · exact hOrdered.of_alike hAlike
  · refine Ordered.of_alike
      (hOrdered.perform hKeeps hDue.fits ?_ ?_) hAlike
    · intro loc
      cases change with
      | add priority payload => exact hDue.elim
      | grant task rest consumerId expireTimestamp =>
          exact hQueued.grant hDue consumerId
            expireTimestamp loc
      | finish id priority deadRetries =>
          rcases hDue with ⟨lease, hLease, rfl⟩
          exact hQueued.finish hLease deadRetries loc
      | retry id priority retries failureType =>
          rcases hDue with ⟨⟨lease, hLease, rfl⟩, hType⟩
          exact hQueued.retry hLease retries hType loc
    · cases change with
      | add priority payload => exact hDue.elim
      | grant task rest consumerId expireTimestamp =>
          simp [Change.record, length_leasePayload]
      | finish id priority deadRetries =>
          cases deadRetries <;> simp [Change.record]
      | retry id priority retries failureType =>
          rcases hDue.2 with rfl | rfl <;>
            simp [Change.record]

theorem compact
    (hKeeps : engine.Keeps log payloads)
    (hOrdered : engine.Ordered)
    (hOrder :
      ∀ priority,
        ((engine.inner.readyQueue.bucket priority).filter
          (fun task =>
            engine.inner.inClosed task.id)).Pairwise
              (fun left right => left.id < right.id)) :
    engine.compact.2.Ordered := by
  have hSegments := hKeeps.serves.tracks.segmentsOn
  have hQueued := hOrdered.queued_entries hKeeps
  have hLong :
      ∀ record ∈ log.segments.flatMap Prod.snd,
        record.opType = .leased →
          13 ≤ record.payload.length := by
    intro record hRecord
    have hOld := hOrdered.long
    rw [hSegments.entries_eq] at hOld
    rw [← map_snd_entriesOf] at hRecord
    rcases List.mem_map.mp hRecord with ⟨entry, hEntry, rfl⟩
    exact hOld entry hEntry
  rw [SegmentedLog.segments, List.flatMap_append] at hLong
  unfold Engine.compact
  rw [Engine.compactPlan_eq hKeeps.serves.tracks]
  by_cases hClosed : log.closed = []
  · rw [if_pos hClosed]
    exact hOrdered
  · rw [if_neg hClosed]
    have hSplit : log.closed = log.closed ++ [] := by simp
    rcases hKeeps.serves.compactPhase1 hSplit with
      ⟨written, hPhase1, hWritten, hInner, hTemp⟩
    rcases hWritten.compactPhase2 hSplit hClosed hTemp with
      ⟨small, hPhase2, hSmall, hRemap, _⟩
    simp only [hPhase1, hPhase2]
    have hEntries := hSmall.tracks.segmentsOn.entries_eq
    have hMoved :=
      hQueued.compact hKeeps.serves.tracks hKeeps.placed
        (fun record hRecord =>
          hLong record (List.mem_append_left _ hRecord))
        hOrder
    rw [EngineState.remap_eq, hInner] at hRemap
    constructor
    · rw [hEntries, hRemap]
      exact ⟨hMoved.leased_eq, hMoved.bucket_eq⟩
    · rw [hEntries]
      intro entry hEntry
      have hRecord := List.mem_map_of_mem (f := Prod.snd) hEntry
      rw [map_snd_entriesOf] at hRecord
      simp only [SegmentedLog.segments] at hRecord
      rw [List.flatMap_append, List.flatMap_singleton,
        List.mem_append] at hRecord
      rcases hRecord with hRecord | hRecord
      · exact compacted_long
          (fun record hMem =>
            hLong record (List.mem_append_left _ hMem))
          entry.2 hRecord
      · exact hLong entry.2
          (List.mem_append_right _ hRecord)

end Ordered

end Engine

end Nesso

------------------------------------------------------------
-- FIFO Survival
------------------------------------------------------------

namespace Nesso

/-
  The tasks of one priority that a compaction rewrites are
  queued in the order of their ids; there is no restart.
-/
def LifeOp.KeepsOrder
    (service : Service) : LifeOp → Prop
| .compact =>
    (service.engine.inner.readyQueue.tasks.filter
      (fun task =>
        service.engine.inner.inClosed task.id)).Pairwise
          (fun left right =>
            left.priority = right.priority →
              left.id < right.id)
| .restart _ _ _ => False
| _ => True

instance
    (service : Service)
    (op : LifeOp) :
    Decidable (op.KeepsOrder service) :=
  match op with
  | .compact => inferInstanceAs (Decidable (List.Pairwise _ _))
  | .restart _ _ _ => inferInstanceAs (Decidable False)
  | .push _ _ _ => inferInstanceAs (Decidable True)
  | .popAndLease _ _ _ _ => inferInstanceAs (Decidable True)
  | .ack _ _ _ => inferInstanceAs (Decidable True)
  | .nack _ _ _ => inferInstanceAs (Decidable True)

/- A restart without leases finds the queue as it is. -/
def FifoSurvival [Hasher] (service : Service) : Prop :=
  service.engine.inner.leased = ∅ →
    ∀ maxSegmentSize cacheCapacity now,
      ∃ next,
        Engine.reopen service.engine.disk maxSegmentSize
            cacheCapacity now = (.ok (), next) ∧
          ∀ priority,
            next.inner.readyQueue.bucket priority =
              service.engine.inner.readyQueue.bucket
                priority

/- Each bucket is listed among all tasks in its order. -/
theorem ReadyQueue.bucket_sublist_tasks
    (ready : ReadyQueue)
    (priority : UInt8) :
    (ready.bucket priority).Sublist ready.tasks := by
  rcases List.append_of_mem
    (List.mem_finRange
      (PriorityBucketQueue.bucketOf priority)) with
    ⟨front, back, hSplit⟩
  rw [ReadyQueue.tasks, PriorityBucketQueue.tasks, hSplit,
    List.flatMap_append, List.flatMap_cons]
  exact (List.sublist_append_left _ _).trans
    (List.sublist_append_right _ _)

/- Without leases, time does not matter for a task's place. -/
theorem Replay.ready_placeAt_of_no_lease
    {entries : List (Loc × Record)}
    (hNone : ∀ id, lease Record.place entries id = none)
    (now : UInt64) :
    ready (Record.placeAt now) entries =
      ready Record.place entries := by
  rw [ready, ready]
  apply List.filterMap_congr
  intro entry hEntry
  have hLatest := KeyedLog.mem_latests_iff.mp hEntry
  have hLease := hNone (entryId entry)
  rw [lease, hLatest, Option.bind_some] at hLease
  unfold Record.placeAt
  cases hPlace : entry.2.place with
  | ready task => rfl
  | leased found => simp [hPlace, Place.lease?] at hLease
  | terminal => rfl

namespace Service

variable [Hasher]
variable {service next : Service}

/- The invariant of runs that keep the order. -/
def KeepsFifo (service : Service) : Prop :=
  service.KeepsPayloads ∧ service.engine.Ordered

theorem keepsFifo_start
    (maxSegmentSize : Option Nat)
    (cacheCapacity : Nat)
    (now : UInt64) :
    (start maxSegmentSize cacheCapacity now).KeepsFifo := by
  refine
    ⟨keepsPayloads_start maxSegmentSize cacheCapacity now,
      ?_⟩
  rcases Engine.reopen_empty_spec maxSegmentSize
    cacheCapacity now with
    ⟨first, hFirst, hTracks, _, _, _, hInner⟩
  have hEngine :
      (start maxSegmentSize cacheCapacity now).engine =
        first := by
    simp only [start, hFirst]
  have hEntries : Wal.entries first.disk = [] := by
    rw [hTracks.segmentsOn.entries_eq]
    rfl
  rw [hEngine]
  constructor
  · rw [hEntries]
    constructor
    · intro id
      rw [hInner.leased_eq]
      rfl
    · intro priority
      rw [hInner.bucket_eq]
      rfl
  · simp [hEntries]

theorem KeepsFifo.step
    (hService : service.KeepsFifo)
    {op : LifeOp}
    (hAdmissible : op.Admissible service)
    (hOrder : op.KeepsOrder service)
    (hStep : service.step op = some next) :
    next.KeepsFifo := by
  rcases hService with ⟨hPayloads, hOrdered⟩
  have hFinds : op.FindsPayloads service := by
    cases op <;> trivial
  refine
    ⟨hPayloads.step hAdmissible hFinds hStep, ?_⟩
  rcases hPayloads with ⟨log, hKeeps⟩
  cases op with
  | push fault payload priority =>
      rcases hAdmissible with ⟨rfl, hShort, _⟩
      rw [Service.step, Option.some.injEq] at hStep
      rw [← hStep]
      exact hOrdered.push hKeeps priority hShort
  | popAndLease fault consumerId now leaseTtlSecs =>
      have hFault : fault = none := hAdmissible
      subst hFault
      rw [Service.step, Option.some.injEq] at hStep
      rw [← hStep]
      exact hOrdered.moves hKeeps
        (Engine.popAndLease_moves _ _ _ _)
  | ack fault id consumerId =>
      have hFault : fault = none := hAdmissible
      subst hFault
      rw [Service.step, Option.some.injEq] at hStep
      rw [← hStep]
      exact hOrdered.moves hKeeps (Engine.ack_moves _ _ _)
  | nack fault id consumerId =>
      have hFault : fault = none := hAdmissible
      subst hFault
      rw [Service.step, Option.some.injEq] at hStep
      rw [← hStep]
      exact hOrdered.moves hKeeps (Engine.nack_moves _ _ _)
  | compact =>
      rw [Service.step, Option.some.injEq] at hStep
      rw [← hStep]
      apply hOrdered.compact hKeeps
      intro priority
      have hSublist :=
        (service.engine.inner.readyQueue.bucket_sublist_tasks
          priority).filter
            (fun task =>
              service.engine.inner.inClosed task.id)
      refine (hOrder.sublist hSublist).imp_of_mem ?_
      intro left right hLeft hRight hLt
      apply hLt
      rw [ReadyQueue.priority_of_mem_bucket
          (List.mem_of_mem_filter hLeft),
        ReadyQueue.priority_of_mem_bucket
          (List.mem_of_mem_filter hRight)]
  | restart maxSegmentSize cacheCapacity now =>
      exact hOrder.elim

theorem KeepsFifo.fifoSurvival
    (hService : service.KeepsFifo) :
    FifoSurvival service := by
  rcases hService with ⟨⟨log, hKeeps⟩, hOrdered⟩
  intro hLeased maxSegmentSize cacheCapacity now
  have hQueued := hOrdered.queued_entries hKeeps
  rcases Engine.reopen_intact_spec
    hKeeps.serves.tracks.segmentsOn
    (by simp [SegmentedLog.segments]) hKeeps.clean
    maxSegmentSize cacheCapacity now with
    ⟨_, next, _, hNext, _, _, _, _, hInner⟩
  refine ⟨next, hNext, ?_⟩
  intro priority
  have hNone :
      ∀ id,
        Replay.lease Record.place log.entries id =
          none := by
    intro id
    rw [← hQueued.leased_eq, hLeased]
    simp
  rw [hInner.bucket_eq, hQueued.bucket_eq]
  exact congrArg _
    (Replay.ready_placeAt_of_no_lease hNone now)

end Service

/-
  In every run whose compactions find their tasks queued in
  id order, a restart keeps the order of each priority.
-/
theorem lifeRun_fifo_survives [Hasher]
    {maxSegmentSize : Option Nat}
    {cacheCapacity : Nat}
    {start : UInt64}
    {ops : List LifeOp}
    {service : Service}
    (hRun :
      Transition.Run Service.step
        (fun service op =>
          op.Admissible service ∧ op.KeepsOrder service)
        (Service.start maxSegmentSize cacheCapacity start)
        ops service) :
    FifoSurvival service := by
  apply Service.KeepsFifo.fifoSurvival
  apply hRun.invariant
  · exact Service.keepsFifo_start maxSegmentSize
      cacheCapacity start
  · intro state next op hState hAllowed hStep
    exact hState.step hAllowed.1 hAllowed.2 hStep

end Nesso

------------------------------------------------------------
-- An Order Kept and an Order Lost
------------------------------------------------------------

namespace Nesso

/- Task 2 was nacked, which queues it behind task 1. -/
def nackedLast : List LifeOp :=
  [.push none [] 5, .push none [] 9,
    .popAndLease none 1 10 100, .nack none 2 1,
    .push none [] 9, .compact]

set_option maxRecDepth 100000 in
theorem lifeRun_fifo_survives_nackedLast :
    ∃ service,
      Transition.Run Service.step
          (fun service op =>
            op.Admissible service ∧ op.KeepsOrder service)
          (Service.start (some 80) 4 0) nackedLast
          service ∧
        service.engine.inner.leased = ∅ ∧
        service.engine.status = (3, 0) ∧
        FifoSurvival service := by
  have hEnd :
      (Transition.execute
        (Transition.checkedStep Service.step (fun service op =>
          op.Admissible service ∧ op.KeepsOrder service))
        nackedLast
        (Service.start (some 80) 4 0)).any
          (fun service =>
            service.engine.inner.leased.isEmpty ∧
              service.engine.status = (3, 0)) = true := by
    decide +kernel
  rcases Transition.exists_run_of_checked
    (fun _ _ hOp => of_decide_eq_true hOp) hEnd with
    ⟨service, hRun, hProperty⟩
  rcases of_decide_eq_true hProperty with
    ⟨hLeased, hStatus⟩
  exact ⟨service, hRun,
    Std.ExtTreeMap.isEmpty_iff.mp hLeased, hStatus,
    lifeRun_fifo_survives hRun⟩

/- The nacked task 1 is queued behind task 2. -/
def nackedFirst : List LifeOp :=
  [.push none [] 5, .push none [] 5,
    .popAndLease none 1 10 100, .nack none 1 1,
    .push none [] 5, .compact]

/- The ids that a restart would queue, by priority. -/
def restartedIds [Hasher]
    (service : Service)
    (priority : UInt8) : List UInt64 :=
  ((Engine.reopen service.engine.disk none 4
    0).2.inner.readyQueue.bucket priority).map TaskRef.id

set_option maxRecDepth 100000 in
theorem lifeRun_reorders_tasks :
    ∃ service,
      Transition.Run Service.step
          (fun service op => op.Admissible service)
          (Service.start (some 80) 4 0) nackedFirst
          service ∧
        ¬ FifoSurvival service := by
  have hEnd :
      (Transition.execute
        (Transition.checkedStep Service.step (fun service op =>
          op.Admissible service))
        nackedFirst
        (Service.start (some 80) 4 0)).any
          (fun service =>
            service.engine.inner.leased.isEmpty ∧
              (service.engine.inner.readyQueue.bucket
                5).map TaskRef.id = [2, 1, 3] ∧
              restartedIds service 5 = [1, 2, 3]) =
        true := by
    decide +kernel
  rcases Transition.exists_run_of_checked
    (fun _ _ hOp => of_decide_eq_true hOp) hEnd with
    ⟨service, hRun, hProperty⟩
  rcases of_decide_eq_true hProperty with
    ⟨hLeased, hLive, hRestarted⟩
  refine ⟨service, hRun, ?_⟩
  intro hSurvives
  rcases hSurvives (Std.ExtTreeMap.isEmpty_iff.mp hLeased)
    none 4 0 with ⟨next, hNext, hBuckets⟩
  rw [restartedIds, hNext, hBuckets 5, hLive] at hRestarted
  simp at hRestarted

end Nesso
