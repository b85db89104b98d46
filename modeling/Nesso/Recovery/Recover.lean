import Nesso.Log.Opening
import Nesso.Recovery.Replay

/-
  `recover` computes the state that the log determines.

  Key definitions include:
    * `EngineState.Restored`
    * `EngineState.Recovered`

  The recovery theorems are:
    * `Engine.recover_spec`
    * `Engine.reopen_spec`
-/

------------------------------------------------------------
-- Pass 1
------------------------------------------------------------

namespace Nesso

namespace EngineState

/- The indexes after scanning the whole log. -/
theorem foldl_indexRecord
    (entries : List (Loc × Record))
    (inner : EngineState) :
    entries.foldl indexRecord inner =
      { inner with
        nextId := entries.foldl Replay.bumpId inner.nextId
        index :=
          entries.foldl
            (fun index entry =>
              index.insert (entryId entry) entry.1)
            inner.index
        dataIndex :=
          (Replay.created entries).foldl
            (fun index entry =>
              index.insert (entryId entry) entry.1)
            inner.dataIndex } := by
  induction entries generalizing inner with
  | nil => rfl
  | cons entry entries ih =>
      rw [List.foldl_cons, ih]
      by_cases hCreated : entry.2.opType = .created
      · simp only [indexRecord, Replay.created, hCreated,
          if_true, decide_true, List.filter_cons_of_pos,
          List.foldl_cons]
        rfl
      · simp only [indexRecord, Replay.created, hCreated,
          if_false, decide_false, Bool.false_eq_true,
          not_false_eq_true, List.filter_cons_of_neg,
          List.foldl_cons]
        rfl

end EngineState

end Nesso

------------------------------------------------------------
-- Pass 2
------------------------------------------------------------

namespace Nesso

namespace EngineState

/- One restored task, by the place of its latest record. -/
theorem restoreTask_eq
    (now : UInt64)
    (inner : EngineState)
    (loc : Loc)
    (record : Record) :
    inner.restoreTask now record.id loc record =
      match record.placeAt now with
      | .ready task =>
          (inner.adoptData record.id loc record).enqueue task
      | .leased lease =>
          { inner.adoptData record.id loc record with
            leased := inner.leased.insert record.id lease }
      | .terminal =>
          { inner with
            dataIndex := inner.dataIndex.erase record.id
            index := inner.index.erase record.id } := by
  have hLeased :
      (inner.adoptData record.id loc record).leased =
        inner.leased := by
    unfold adoptData
    split <;> rfl
  unfold restoreTask Record.placeAt Record.place
  cases hOp : record.opType with
  | leased =>
      dsimp only
      by_cases hLong : 13 ≤ record.payload.length
      · simp only [if_pos hLong]
        by_cases hLive :
            now < (leaseOfRecord record).expireTimestamp
        · simp only [if_pos hLive, hLeased]
        · simp only [if_neg hLive]
      · simp only [if_neg hLong]
  | acked => simp [adoptData, hOp]
  | deadLettered => simp [adoptData, hOp]
  | _ => rfl

/- Adopting fills a missing data location only. -/
theorem adoptData_eq
    {inner : EngineState}
    {loc : Loc}
    {record : Record}
    (hOp : record.opType.isTerminal = false) :
    inner.adoptData record.id loc record =
      { inner with
        dataIndex :=
          inner.dataIndex.insertIfNew record.id loc } := by
  have hKinds :
      record.opType = .created ∨ record.opType = .leased ∨
        record.opType = .nacked ∨
        record.opType = .expired := by
    cases hKind : record.opType <;>
      simp_all [OpType.isTerminal]
  have hMap :
      inner.dataIndex.insertIfNew record.id loc =
        if record.id ∉ inner.dataIndex then
          inner.dataIndex.insert record.id loc
        else inner.dataIndex := by
    ext other found
    by_cases hMem : record.id ∈ inner.dataIndex
    · rw [if_neg (by simp [hMem]),
        Std.ExtTreeMap.getElem?_insertIfNew,
        if_neg (by simp [hMem])]
    · rw [if_pos hMem,
        Std.ExtTreeMap.getElem?_insertIfNew,
        Std.ExtTreeMap.getElem?_insert]
      simp [hMem]
  unfold adoptData
  rw [hMap]
  by_cases hMem : record.id ∈ inner.dataIndex
  · rw [if_neg (by simp [hMem]), if_neg (by simp [hMem])]
  · rw [if_pos ⟨hMem, hKinds⟩, if_pos hMem]

/-
  Pass 2 after some of the latest records; `start` is what
  pass 1 left.
-/
structure Restored
    (now : UInt64)
    (start : EngineState)
    (done : List (Loc × Record))
    (inner : EngineState) : Prop where
  wal_eq : inner.wal = start.wal
  nextId_eq : inner.nextId = start.nextId
  payloadCache_eq : inner.payloadCache = start.payloadCache
  index_eq :
    ∀ id,
      inner.index[id]? =
        match KeyedLog.latest entryId done id with
        | none => start.index[id]?
        | some entry =>
            if entry.2.opType.isTerminal then none
            else start.index[id]?
  dataIndex_eq :
    ∀ id,
      inner.dataIndex[id]? =
        match KeyedLog.latest entryId done id with
        | none => start.dataIndex[id]?
        | some entry =>
            if entry.2.opType.isTerminal then none
            else start.dataIndex[id]?.or (some entry.1)
  leased_eq :
    ∀ id,
      inner.leased[id]? =
        Replay.lease (Record.placeAt now) done id
  bucket_eq :
    ∀ priority,
      inner.readyQueue.bucket priority =
        (done.filterMap
          (fun entry =>
            (entry.2.placeAt now).task?)).filter
          (fun task => task.priority = priority)

/- Restoring one more task, not seen before. -/
theorem Restored.step
    {now : UInt64}
    {start inner : EngineState}
    {done : List (Loc × Record)}
    (hDone : Restored now start done inner)
    {entry : Loc × Record}
    (hFresh :
      KeyedLog.latest entryId done (entryId entry) = none) :
    Restored now start (done ++ [entry])
      (inner.restoreTask now (entryId entry) entry.1
        entry.2) := by
  have hStep :=
    restoreTask_eq now inner entry.1 entry.2
  have hTerminal :=
    Record.placeAt_eq_terminal_iff now entry.2
  have hIndex := hDone.index_eq (entryId entry)
  have hData := hDone.dataIndex_eq (entryId entry)
  have hLease := hDone.leased_eq (entryId entry)
  rw [hFresh] at hIndex hData
  rw [Replay.lease, hFresh, Option.bind_none] at hLease
  -- A live task keeps its index entries or adopts one.
  have hLiveIndex :
      entry.2.opType.isTerminal = false →
        ∀ id,
          inner.index[id]? =
            match
              KeyedLog.latest entryId (done ++ [entry]) id
            with
            | none => start.index[id]?
            | some entry =>
                if entry.2.opType.isTerminal then none
                else start.index[id]? := by
    intro hOp id
    rw [KeyedLog.latest_append_singleton]
    by_cases hId : entryId entry = id
    · subst hId
      simp [hIndex, hOp]
    · rw [if_neg hId]
      exact hDone.index_eq id
  have hLiveData :
      entry.2.opType.isTerminal = false →
        ∀ id,
          (inner.dataIndex.insertIfNew (entryId entry)
              entry.1)[id]? =
            match
              KeyedLog.latest entryId (done ++ [entry]) id
            with
            | none => start.dataIndex[id]?
            | some entry =>
                if entry.2.opType.isTerminal then none
                else
                  start.dataIndex[id]?.or
                    (some entry.1) := by
    intro hOp id
    rw [KeyedLog.latest_append_singleton,
      KeyedLog.getElem?_insertIfNew_eq_or]
    by_cases hId : entryId entry = id
    · subst hId
      simp [hData, hOp]
    · rw [if_neg hId, if_neg hId, Option.or_none]
      exact hDone.dataIndex_eq id
  cases hPlace : entry.2.placeAt now with
  | ready task =>
      have hOp : entry.2.opType.isTerminal = false := by
        rw [hPlace] at hTerminal
        simpa using hTerminal
      rw [hPlace] at hStep
      simp only [adoptData_eq hOp, enqueue] at hStep
      rw [entryId, hStep]
      constructor
      · exact hDone.wal_eq
      · exact hDone.nextId_eq
      · exact hDone.payloadCache_eq
      · exact hLiveIndex hOp
      · exact hLiveData hOp
      · intro id
        rw [Replay.lease, KeyedLog.latest_append_singleton]
        by_cases hId : entryId entry = id
        · subst hId
          simp [hLease, hPlace, Place.lease?]
        · rw [if_neg hId]
          exact hDone.leased_eq id
      · intro priority
        rw [ReadyQueue.bucket_push, hDone.bucket_eq,
          List.filterMap_append, List.filter_append]
        by_cases hPriority : task.priority = priority
        · simp [hPlace, Place.task?, hPriority]
        · simp [hPlace, Place.task?, hPriority]
  | leased lease =>
      have hOp : entry.2.opType.isTerminal = false := by
        rw [hPlace] at hTerminal
        simpa using hTerminal
      rw [hPlace] at hStep
      simp only [adoptData_eq hOp] at hStep
      rw [entryId, hStep]
      constructor
      · exact hDone.wal_eq
      · exact hDone.nextId_eq
      · exact hDone.payloadCache_eq
      · exact hLiveIndex hOp
      · exact hLiveData hOp
      · intro id
        rw [Replay.lease, KeyedLog.latest_append_singleton,
          Std.ExtTreeMap.getElem?_insert]
        by_cases hId : entryId entry = id
        · subst hId
          simp [entryId, hPlace, Place.lease?]
        · rw [if_neg hId, if_neg (by simpa [entryId] using hId)]
          exact hDone.leased_eq id
      · intro priority
        rw [hDone.bucket_eq, List.filterMap_append]
        simp [hPlace, Place.task?]
  | terminal =>
      have hOp : entry.2.opType.isTerminal = true :=
        hTerminal.mp hPlace
      rw [hPlace] at hStep
      simp only at hStep
      rw [entryId, hStep]
      constructor
      · exact hDone.wal_eq
      · exact hDone.nextId_eq
      · exact hDone.payloadCache_eq
      · intro id
        rw [KeyedLog.latest_append_singleton,
          Std.ExtTreeMap.getElem?_erase]
        by_cases hId : entryId entry = id
        · subst hId
          simp [entryId, hOp]
        · rw [if_neg hId, if_neg (by simpa [entryId] using hId)]
          exact hDone.index_eq id
      · intro id
        rw [KeyedLog.latest_append_singleton,
          Std.ExtTreeMap.getElem?_erase]
        by_cases hId : entryId entry = id
        · subst hId
          simp [entryId, hOp]
        · rw [if_neg hId, if_neg (by simpa [entryId] using hId)]
          exact hDone.dataIndex_eq id
      · intro id
        rw [Replay.lease, KeyedLog.latest_append_singleton]
        by_cases hId : entryId entry = id
        · subst hId
          simp [hLease, hPlace, Place.lease?]
        · rw [if_neg hId]
          exact hDone.leased_eq id
      · intro priority
        rw [hDone.bucket_eq, List.filterMap_append]
        simp [hPlace, Place.task?]

end EngineState

end Nesso

------------------------------------------------------------
-- Recovery
------------------------------------------------------------

namespace Nesso

namespace EngineState

/- The state that a log determines at a given time. -/
structure Recovered
    (now : UInt64)
    (entries : List (Loc × Record))
    (inner : EngineState) : Prop where
  nextId_eq : inner.nextId = Replay.nextId entries
  index_eq :
    ∀ id, inner.index[id]? = Replay.indexLoc entries id
  dataIndex_eq :
    ∀ id, inner.dataIndex[id]? = Replay.dataLoc entries id
  leased_eq :
    ∀ id,
      inner.leased[id]? =
        Replay.lease (Record.placeAt now) entries id
  bucket_eq :
    ∀ priority,
      inner.readyQueue.bucket priority =
        (Replay.ready (Record.placeAt now) entries).filter
          (fun task => task.priority = priority)

end EngineState

namespace Engine

variable [Hasher]

/- Pass 2 reads back every record it asks for. -/
theorem restoreTasks_spec
    {now : UInt64}
    {start : EngineState}
    {done todo : List (Loc × Record)}
    {engine : Engine}
    (hCoherent : engine.reader.Coherent engine.disk)
    (hTodo :
      ∀ entry ∈ todo, entry ∈ Wal.entries engine.disk)
    (hNodup : ((done ++ todo).map entryId).Nodup)
    (hDone :
      EngineState.Restored now start done engine.inner) :
    ∃ next,
      restoreTasks now
          (todo.map (fun entry => (entryId entry, entry.1)))
          engine = (.ok (), next) ∧
        next.disk = engine.disk ∧
        next.reader.Coherent engine.disk ∧
        EngineState.Restored now start (done ++ todo)
          next.inner := by
  induction todo generalizing done engine with
  | nil =>
      refine ⟨engine, rfl, rfl, hCoherent, ?_⟩
      rwa [List.append_nil]
  | cons entry todo ih =>
      have hRead :=
        Wal.readAt_of_mem_entries hCoherent
          (hTodo entry (by simp))
      have hFresh :
          KeyedLog.latest entryId done (entryId entry) =
            none := by
        rw [KeyedLog.latest_eq_none_iff]
        intro other hOther hEq
        rw [List.map_append, List.nodup_append] at hNodup
        exact hNodup.2.2 (entryId other)
          (List.mem_map_of_mem hOther) (entryId entry)
          (by simp) hEq
      have hSplit :
          done ++ entry :: todo =
            (done ++ [entry]) ++ todo := by
        simp
      rw [hSplit] at hNodup ⊢
      let stepped : Engine :=
        { engine with
          reader :=
            (engine.reader.readAt engine.disk
              (ofLex entry.1).1 (ofLex entry.1).2).2
          inner :=
            engine.inner.restoreTask now
              (entryId entry) entry.1 entry.2 }
      have hStepped :
          EngineState.Restored now start (done ++ [entry])
            stepped.inner :=
        hDone.step hFresh
      have hReads :
          stepped.reader.Coherent stepped.disk :=
        hCoherent.readAt _ _
      have hRest :
          ∀ other ∈ todo,
            other ∈ Wal.entries stepped.disk := by
        intro other hOther
        exact hTodo other (by simp [hOther])
      rcases ih hReads hRest hNodup
        hStepped with
        ⟨next, hNext, hDisk, hReader, hRestored⟩
      refine ⟨next, ?_, hDisk, hReader, hRestored⟩
      rw [List.map_cons, restoreTasks]
      simp only [hRead]
      exact hNext

/-
  Recovering a fresh engine yields the state that the records
  in the directory determine, whatever else is in it.
-/
theorem recover_spec
    {disk : Disk}
    (hSteps : Wal.sweepSteps disk = [])
    (now : UInt64)
    (wal : Wal)
    (cacheCapacity : Nat)
    {reader : WalReader}
    (hCoherent : reader.Coherent disk) :
    ∃ next,
      recover now
          { disk := disk
            inner :=
              .newWithCacheCapacity wal cacheCapacity
            reader := reader } = (.ok (), next) ∧
        next.disk = disk ∧
        next.reader.Coherent disk ∧
        next.inner.wal = wal ∧
        next.inner.payloadCache = .new cacheCapacity ∧
        next.inner.Recovered now (Wal.entries disk) := by
  let entries := Wal.entries disk
  let start : EngineState :=
    (Wal.entries disk).foldl EngineState.indexRecord
      (.newWithCacheCapacity wal cacheCapacity)
  have hStart :
      start =
        { EngineState.newWithCacheCapacity wal
            cacheCapacity with
          nextId := Replay.nextId entries
          index :=
            KeyedLog.lastWriter entryId Prod.fst entries
          dataIndex :=
            KeyedLog.lastWriter entryId Prod.fst
              (Replay.created entries) } := by
    simp only [start, EngineState.foldl_indexRecord]
    rfl
  have hOrder :
      start.index.toList.insertionSort
          (fun left right => left.2 ≤ right.2) =
        (KeyedLog.latests entryId entries).map
          (fun entry => (entryId entry, entry.1)) := by
    rw [hStart]
    exact KeyedLog.insertionSort_lastWriter
      (Wal.entries_pairwise_lt disk)
  let indexed : Engine :=
    { disk := disk, inner := start, reader := reader }
  have hBegin :
      EngineState.Restored now start [] indexed.inner := by
    constructor
    · rfl
    · rfl
    · rfl
    · intro id
      rfl
    · intro id
      rfl
    · intro id
      simp [indexed, hStart, Replay.lease,
        EngineState.newWithCacheCapacity]
    · intro priority
      simp [indexed, hStart,
        EngineState.newWithCacheCapacity]
  have hTodo :
      ∀ entry ∈ KeyedLog.latests entryId entries,
        entry ∈ Wal.entries indexed.disk := by
    intro entry hEntry
    exact (KeyedLog.latests_sublist entries).subset hEntry
  have hNodup :
      (([] ++ KeyedLog.latests entryId entries).map
        entryId).Nodup :=
    KeyedLog.latests_keys_nodup entries
  rcases
    restoreTasks_spec hCoherent hTodo hNodup hBegin with
    ⟨next, hNext, hDisk, hReader, hRestored⟩
  rw [List.nil_append] at hRestored
  refine ⟨next, ?_, hDisk, hReader, ?_, ?_, ?_⟩
  · rw [← hNext, ← hOrder]
    simp only [recover, Wal.iterAll, hSteps]
    rfl
  · rw [hRestored.wal_eq, hStart]
    rfl
  · rw [hRestored.payloadCache_eq, hStart]
    rfl
  · constructor
    · rw [hRestored.nextId_eq, hStart]
    · intro id
      rw [hRestored.index_eq, KeyedLog.latest_latests,
        hStart, Replay.indexLoc,
        KeyedLog.getElem?_lastWriter]
      cases KeyedLog.latest entryId entries id <;> simp
    · intro id
      change _ = Replay.dataLoc entries id
      rw [hRestored.dataIndex_eq, KeyedLog.latest_latests,
        hStart, Replay.dataLoc,
        KeyedLog.getElem?_lastWriter]
      cases hLatest :
          KeyedLog.latest entryId entries id with
      | some entry => rfl
      | none =>
          rw [Replay.latest_created_eq_none hLatest]
          rfl
    · intro id
      rw [hRestored.leased_eq, Replay.lease, Replay.lease,
        KeyedLog.latest_latests]
    · intro priority
      rw [hRestored.bucket_eq, Replay.ready]

end Engine

end Nesso

namespace Nesso

namespace Engine

variable [Hasher]

/-
  Opening a directory whose active segment was cut at any
  byte recovers the state of the complete records.
-/
theorem reopen_spec
    {log : SegmentedLog}
    {size : Nat}
    {intact disk : Disk}
    (hSegments : SegmentsOn intact log.segments)
    (hClean : intact.Clean)
    (hCut :
      ∀ name,
        disk.read name =
          if name = .wal log.activeId then
            some ((encodeRecords log.active).take size)
          else intact.read name)
    (maxSegmentSize : Option Nat)
    (cacheCapacity : Nat)
    (now : UInt64) :
    ∃ next,
      reopen disk maxSegmentSize cacheCapacity now =
          (.ok (), next) ∧
        next.inner.wal.Tracks next.disk
          { log with
            active :=
              Framing.complete Record.encode size
                log.active } ∧
        next.disk.Clean ∧
        next.reader.Coherent next.disk ∧
        next.inner.payloadCache = .new cacheCapacity ∧
        next.inner.Recovered now
          ({ log with
            active :=
              Framing.complete Record.encode size
                log.active } : SegmentedLog).entries := by
  rcases Wal.tracks_open_torn hSegments hClean hCut
    maxSegmentSize with ⟨hTracks, hOpenClean, _⟩
  rcases recover_spec
    (Wal.sweepSteps_of_clean hOpenClean) now
    (Wal.open disk maxSegmentSize).2 cacheCapacity
    (WalReader.coherent_new _) with
    ⟨next, hNext, hDisk, hReader, hWal, hCache, hInner⟩
  rw [hTracks.segmentsOn.entries_eq] at hInner
  refine ⟨next, hNext, ?_, ?_, ?_, hCache, hInner⟩
  · rw [hDisk, hWal]
    exact hTracks
  · rw [hDisk]
    exact hOpenClean
  · rw [hDisk]
    exact hReader

/- Opening an undamaged directory recovers its log. -/
theorem reopen_intact_spec
    {segments : List Segment}
    {disk : Disk}
    (hSegments : SegmentsOn disk segments)
    (hSome : segments ≠ [])
    (hClean : disk.Clean)
    (maxSegmentSize : Option Nat)
    (cacheCapacity : Nat)
    (now : UInt64) :
    ∃ log next,
      log.segments = segments ∧
        reopen disk maxSegmentSize cacheCapacity now =
          (.ok (), next) ∧
        next.inner.wal.Tracks next.disk log ∧
        next.disk.Clean ∧
        next.reader.Coherent next.disk ∧
        next.inner.payloadCache = .new cacheCapacity ∧
        next.inner.Recovered now (entriesOf segments) := by
  let log : SegmentedLog :=
    { closed := segments.dropLast
      activeId := (segments.getLast hSome).1
      active := (segments.getLast hSome).2 }
  have hLog : log.segments = segments :=
    List.dropLast_append_getLast hSome
  rw [← hLog] at hSegments
  rcases Wal.tracks_open hSegments hClean maxSegmentSize
    with ⟨hTracks, hOpenClean, _⟩
  rcases recover_spec
    (Wal.sweepSteps_of_clean hOpenClean) now
    (Wal.open disk maxSegmentSize).2 cacheCapacity
    (WalReader.coherent_new _) with
    ⟨next, hNext, hDisk, hReader, hWal, hCache, hInner⟩
  rw [hTracks.segmentsOn.entries_eq, hLog] at hInner
  refine ⟨log, next, hLog, hNext, ?_, ?_, ?_, hCache,
    hInner⟩
  · rw [hDisk, hWal]
    exact hTracks
  · rw [hDisk]
    exact hOpenClean
  · rw [hDisk]
    exact hReader

/- Opening an empty directory recovers nothing. -/
theorem reopen_empty_spec
    (maxSegmentSize : Option Nat)
    (cacheCapacity : Nat)
    (now : UInt64) :
    ∃ next,
      reopen FileSystem.empty maxSegmentSize cacheCapacity
          now = (.ok (), next) ∧
        next.inner.wal.Tracks next.disk
          { closed := [], activeId := 1, active := [] } ∧
        next.disk.Clean ∧
        next.reader.Coherent next.disk ∧
        next.inner.payloadCache = .new cacheCapacity ∧
        next.inner.Recovered now [] := by
  rcases Wal.tracks_open_empty maxSegmentSize with
    ⟨hTracks, hClean, _⟩
  rcases recover_spec (Wal.sweepSteps_of_clean hClean) now
    (Wal.open FileSystem.empty maxSegmentSize).2
    cacheCapacity (WalReader.coherent_new _) with
    ⟨next, hNext, hDisk, hReader, hWal, hCache, hInner⟩
  rw [hTracks.segmentsOn.entries_eq] at hInner
  refine ⟨next, hNext, ?_, ?_, ?_, hCache, hInner⟩
  · rw [hDisk, hWal]
    exact hTracks
  · rw [hDisk]
    exact hClean
  · rw [hDisk]
    exact hReader

end Engine

namespace EngineState

variable {now : UInt64} {inner : EngineState}

/- Recovering an empty log leaves an empty queue. -/
theorem Recovered.empty
    (hInner : inner.Recovered now []) :
    inner.readyQueue.tasks = [] ∧ inner.leased = ∅ ∧
      inner.dataIndex = ∅ ∧ inner.nextId = 1 := by
  refine ⟨?_, ?_, ?_, hInner.nextId_eq⟩
  · apply List.eq_nil_iff_forall_not_mem.mpr
    intro task hTask
    rw [ReadyQueue.mem_tasks_iff, hInner.bucket_eq] at hTask
    simp [Replay.ready, KeyedLog.latests] at hTask
  · apply Std.ExtTreeMap.ext_getElem?
    intro id
    rw [hInner.leased_eq]
    simp [Replay.lease]
  · apply Std.ExtTreeMap.ext_getElem?
    intro id
    rw [hInner.dataIndex_eq]
    simp [Replay.dataLoc]

end EngineState

end Nesso
