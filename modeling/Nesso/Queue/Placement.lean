import Nesso.Queue.Serving

/-
  Where the live tasks are: each one is ready or leased, is
  in the data index, and its index entry is the location of
  its latest record, at any time and across compactions.

  Key definitions include:
    * `Placed`

  Every change and every compaction keeps this:
    * `Placed.add`
    * `Placed.grant`
    * `Placed.finish`
    * `Placed.retry`
    * `Placed.compact`
-/

------------------------------------------------------------
-- Placed Tasks
------------------------------------------------------------

namespace Nesso

/- Live tasks are in their places and have an index entry. -/
structure Placed
    (inner : EngineState)
    (entries : List (Loc × Record)) : Prop where
  ready_nodup :
    (inner.readyQueue.tasks.map TaskRef.id).Nodup
  ready_free :
    ∀ task ∈ inner.readyQueue.tasks,
      task.id ∉ inner.leased
  ready_data :
    ∀ task ∈ inner.readyQueue.tasks,
      task.id ∈ inner.dataIndex
  leased_data :
    ∀ id ∈ inner.leased, id ∈ inner.dataIndex
  index_eq :
    ∀ id ∈ inner.dataIndex,
      inner.index[id]? =
        (KeyedLog.latest entryId entries id).map Prod.fst
  live :
    ∀ id entry,
      KeyedLog.latest entryId entries id = some entry →
        entry.2.opType.isTerminal = false →
          id ∈ inner.dataIndex

/- Only the maps matter. -/
theorem Placed.of_fields_eq
    {inner next : EngineState}
    {entries : List (Loc × Record)}
    (hPlaced : Placed inner entries)
    (hReady : next.readyQueue = inner.readyQueue)
    (hLeased : next.leased = inner.leased)
    (hData : next.dataIndex = inner.dataIndex)
    (hIndex : next.index = inner.index) :
    Placed next entries := by
  constructor
  · rw [hReady]
    exact hPlaced.ready_nodup
  · rw [hReady, hLeased]
    exact hPlaced.ready_free
  · rw [hReady, hData]
    exact hPlaced.ready_data
  · rw [hLeased, hData]
    exact hPlaced.leased_data
  · rw [hData, hIndex]
    exact hPlaced.index_eq
  · rw [hData]
    exact hPlaced.live

namespace Placed

variable {inner : EngineState}
variable {entries : List (Loc × Record)}

/- Indexing an appended record keeps the index current. -/
theorem index_eq_insert
    (hPlaced : Placed inner entries)
    (loc : Loc)
    (record : Record)
    {id : UInt64}
    (hId : record.id = id ∨ id ∈ inner.dataIndex) :
    (inner.index.insert record.id loc)[id]? =
      (KeyedLog.latest entryId
        (entries ++ [(loc, record)]) id).map Prod.fst := by
  rw [KeyedLog.latest_append_singleton,
    Std.ExtTreeMap.getElem?_insert]
  by_cases hSame : record.id = id
  · simp [entryId, hSame]
  · have hData : id ∈ inner.dataIndex := by
      rcases hId with hEq | hData
      · exact (hSame hEq).elim
      · exact hData
    simp only [entryId, hSame, if_false,
      Std.LawfulEqCmp.compare_eq_iff_eq]
    exact hPlaced.index_eq id hData

/- A record of a task in place adds no other live task. -/
theorem live_append
    (hPlaced : Placed inner entries)
    {entry : Loc × Record}
    {dataIndex : Std.ExtTreeMap UInt64 Loc}
    (hOther :
      ∀ id ∈ inner.dataIndex, id ≠ entryId entry →
        id ∈ dataIndex)
    (hSelf :
      entry.2.opType.isTerminal = false →
        entryId entry ∈ dataIndex) :
    ∀ id found,
      KeyedLog.latest entryId (entries ++ [entry]) id =
          some found →
        found.2.opType.isTerminal = false →
          id ∈ dataIndex := by
  intro id found hLatest hLive
  rw [KeyedLog.latest_append_singleton] at hLatest
  by_cases hId : entryId entry = id
  · rw [if_pos hId, Option.some.injEq] at hLatest
    subst hLatest
    rw [← hId]
    exact hSelf hLive
  · rw [if_neg hId] at hLatest
    exact hOther id (hPlaced.live id found hLatest hLive)
      (Ne.symm hId)

theorem add
    (hPlaced : Placed inner entries)
    {payloads : UInt64 → Option Bytes}
    (hStored : Stored payloads inner entries)
    (priority : UInt8)
    (payload : Bytes)
    (loc : Loc) :
    Placed
      (Change.apply inner loc (.add priority payload))
      (entries ++
        [(loc, Change.record inner
          (.add priority payload))]) := by
  have hPerm :=
    ReadyQueue.tasks_push_perm inner.readyQueue
      ⟨inner.nextId, priority, 0⟩
  have hFresh :
      ∀ task ∈ inner.readyQueue.tasks,
        task.id ≠ inner.nextId := by
    intro task hTask hId
    have hKnown := hStored.ready_known task hTask
    rw [hId] at hKnown
    exact UInt64.lt_irrefl _ hKnown
  have hData :
      ∀ id,
        id ∈ (Change.apply inner loc
            (.add priority payload)).dataIndex ↔
          inner.nextId = id ∨ id ∈ inner.dataIndex := by
    intro id
    simp [Change.apply, Std.ExtTreeMap.mem_insert]
  constructor
  · change ((inner.readyQueue.push
      ⟨inner.nextId, priority, 0⟩).tasks.map
        TaskRef.id).Nodup
    rw [(hPerm.map _).nodup_iff, List.map_cons,
      List.nodup_cons]
    refine ⟨?_, hPlaced.ready_nodup⟩
    intro hMem
    rcases List.mem_map.mp hMem with ⟨task, hTask, hId⟩
    exact hFresh task hTask hId
  · intro task hTask
    rcases List.mem_cons.mp (hPerm.mem_iff.mp hTask) with
      rfl | hOld
    · intro hLeased
      exact UInt64.lt_irrefl _
        (hStored.leased_known _ hLeased)
    · exact hPlaced.ready_free task hOld
  · intro task hTask
    rw [hData]
    rcases List.mem_cons.mp (hPerm.mem_iff.mp hTask) with
      rfl | hOld
    · exact .inl rfl
    · exact .inr (hPlaced.ready_data task hOld)
  · intro id hId
    rw [hData]
    exact .inr (hPlaced.leased_data id hId)
  · intro id hId
    rw [hData] at hId
    exact hPlaced.index_eq_insert loc
      (Change.record inner (.add priority payload)) hId
  · apply hPlaced.live_append
    · intro id hId _
      rw [hData]
      exact .inr hId
    · intro _
      rw [hData]
      exact .inl rfl

theorem grant
    (hPlaced : Placed inner entries)
    {task : TaskRef}
    {rest : ReadyQueue}
    (hPop : inner.readyQueue.pop = some (task, rest))
    (consumerId : UInt32)
    (expireTimestamp : UInt64)
    (loc : Loc) :
    Placed
      (Change.apply inner loc
        (.grant task rest consumerId expireTimestamp))
      (entries ++
        [(loc, Change.record inner
          (.grant task rest consumerId
            expireTimestamp))]) := by
  have hPerm := ReadyQueue.tasks_pop_perm hPop
  have hTask : task ∈ inner.readyQueue.tasks :=
    hPerm.mem_iff.mpr (by simp)
  have hNodup := hPlaced.ready_nodup
  rw [(hPerm.map _).nodup_iff, List.map_cons,
    List.nodup_cons] at hNodup
  have hRest :
      ∀ other ∈ rest.tasks,
        other ∈ inner.readyQueue.tasks := by
    intro other hOther
    exact hPerm.mem_iff.mpr (by simp [hOther])
  have hLeased :
      ∀ id,
        id ∈ (Change.apply inner loc
            (.grant task rest consumerId
              expireTimestamp)).leased ↔
          task.id = id ∨ id ∈ inner.leased := by
    intro id
    simp [Change.apply, Std.ExtTreeMap.mem_insert]
  constructor
  · exact hNodup.2
  · intro other hOther hMem
    rw [hLeased] at hMem
    rcases hMem with hId | hOld
    · exact hNodup.1
        (List.mem_map.mpr ⟨other, hOther, hId.symm⟩)
    · exact hPlaced.ready_free other (hRest other hOther)
        hOld
  · intro other hOther
    exact hPlaced.ready_data other (hRest other hOther)
  · intro id hId
    rw [hLeased] at hId
    rcases hId with rfl | hOld
    · exact hPlaced.ready_data task hTask
    · exact hPlaced.leased_data id hOld
  · intro id hId
    exact hPlaced.index_eq_insert loc
      (Change.record inner
        (.grant task rest consumerId expireTimestamp))
      (.inr hId)
  · apply hPlaced.live_append
    · exact fun id hId _ => hId
    · exact fun _ => hPlaced.ready_data task hTask

theorem finish
    (hPlaced : Placed inner entries)
    {id : UInt64}
    (hHeld : id ∈ inner.leased)
    (priority : UInt8)
    (deadRetries : Option UInt8)
    (loc : Loc) :
    Placed
      (Change.apply inner loc
        (.finish id priority deadRetries))
      (entries ++
        [(loc, Change.record inner
          (.finish id priority deadRetries))]) := by
  have hId :
      (Change.record inner
        (.finish id priority deadRetries)).id = id := by
    cases deadRetries <;> rfl
  have hTerminal :
      (Change.record inner
        (.finish id priority
          deadRetries)).opType.isTerminal = true := by
    cases deadRetries <;> rfl
  have hLeased :
      ∀ other,
        other ∈ (Change.apply inner loc
            (.finish id priority deadRetries)).leased ↔
          id ≠ other ∧ other ∈ inner.leased := by
    intro other
    simp [Change.apply, Std.ExtTreeMap.mem_erase]
  have hData :
      ∀ other,
        other ∈ (Change.apply inner loc
            (.finish id priority
              deadRetries)).dataIndex ↔
          id ≠ other ∧ other ∈ inner.dataIndex := by
    intro other
    simp [Change.apply, Std.ExtTreeMap.mem_erase]
  constructor
  · exact hPlaced.ready_nodup
  · intro task hTask hMem
    exact hPlaced.ready_free task hTask
      ((hLeased task.id).mp hMem).2
  · intro task hTask
    rw [hData]
    refine ⟨?_, hPlaced.ready_data task hTask⟩
    rintro rfl
    exact hPlaced.ready_free task hTask hHeld
  · intro other hOther
    rw [hLeased] at hOther
    rw [hData]
    exact ⟨hOther.1, hPlaced.leased_data other hOther.2⟩
  · intro other hOther
    rw [hData] at hOther
    have hIndex :=
      hPlaced.index_eq_insert loc
        (Change.record inner
          (.finish id priority deadRetries))
        (.inr hOther.2)
    rwa [hId] at hIndex
  · apply hPlaced.live_append
    · intro other hOther hNe
      rw [entryId, hId] at hNe
      rw [hData]
      exact ⟨Ne.symm hNe, hOther⟩
    · intro hLive
      rw [hTerminal] at hLive
      simp at hLive

theorem retry
    (hPlaced : Placed inner entries)
    {id : UInt64}
    (hHeld : id ∈ inner.leased)
    (priority retries : UInt8)
    (failureType : OpType)
    (loc : Loc) :
    Placed
      (Change.apply inner loc
        (.retry id priority retries failureType))
      (entries ++
        [(loc, Change.record inner
          (.retry id priority retries failureType))]) := by
  have hPerm :=
    ReadyQueue.tasks_push_perm inner.readyQueue
      ⟨id, priority, retries⟩
  have hLeased :
      ∀ other,
        other ∈ (Change.apply inner loc
            (.retry id priority retries
              failureType)).leased ↔
          id ≠ other ∧ other ∈ inner.leased := by
    intro other
    simp [Change.apply, Std.ExtTreeMap.mem_erase]
  constructor
  · change ((inner.readyQueue.push
      ⟨id, priority, retries⟩).tasks.map
        TaskRef.id).Nodup
    rw [(hPerm.map _).nodup_iff, List.map_cons,
      List.nodup_cons]
    refine ⟨?_, hPlaced.ready_nodup⟩
    intro hMem
    rcases List.mem_map.mp hMem with ⟨task, hTask, rfl⟩
    exact hPlaced.ready_free task hTask hHeld
  · intro task hTask hMem
    rw [hLeased] at hMem
    rcases List.mem_cons.mp (hPerm.mem_iff.mp hTask) with
      rfl | hOld
    · exact hMem.1 rfl
    · exact hPlaced.ready_free task hOld hMem.2
  · intro task hTask
    rcases List.mem_cons.mp (hPerm.mem_iff.mp hTask) with
      rfl | hOld
    · exact hPlaced.leased_data _ hHeld
    · exact hPlaced.ready_data task hOld
  · intro other hOther
    rw [hLeased] at hOther
    exact hPlaced.leased_data other hOther.2
  · intro other hOther
    exact hPlaced.index_eq_insert loc
      (Change.record inner
        (.retry id priority retries failureType))
      (.inr hOther)
  · apply hPlaced.live_append
    · exact fun other hOther _ => hOther
    · exact fun _ => hPlaced.leased_data id hHeld

/- A failed delivery of a leased task. -/
theorem failure
    (hPlaced : Placed inner entries)
    {id : UInt64}
    (hHeld : id ∈ inner.leased)
    (priority retries : UInt8)
    (failureType : OpType)
    (loc : Loc) :
    Placed
      (Change.apply inner loc
        (.failure id priority retries failureType))
      (entries ++
        [(loc, Change.record inner
          (.failure id priority retries
            failureType))]) := by
  unfold Change.failure
  split
  · exact hPlaced.finish hHeld _ _ loc
  · exact hPlaced.retry hHeld _ _ _ loc

end Placed

end Nesso

------------------------------------------------------------
-- Placed Tasks Under Compaction
------------------------------------------------------------

namespace Nesso

variable [Hasher]
variable {disk : Disk} {closed later : List Segment}

/- A location in a later segment is not remapped. -/
theorem SegmentsOn.remapLoc_of_later
    (hSegments : SegmentsOn disk (closed ++ later))
    {entry : Loc × Record}
    (hEntry : entry ∈ entriesOf later)
    (newOffset : Option Nat) :
    remapLoc (closed.map Prod.fst) newOffset entry.1 =
      entry.1 := by
  apply remapLoc_of_not_mem
  intro hId
  rcases segment_of_mem_entriesOf hEntry with
    ⟨records, hSegment, _⟩
  rcases List.mem_map.mp hId with ⟨segment, hClosed, hEq⟩
  have hLt := hSegments.closed_lt_later hClosed hSegment
  simp only at hLt
  omega

/- The latest record of a live task after compaction. -/
theorem StoredAt.latest_compact
    (hSegments : SegmentsOn disk (closed ++ later))
    {id : UInt64}
    {loc : Loc}
    {payload : Bytes}
    (hStored :
      StoredAt (entriesOf (closed ++ later)) id loc
        payload) :
    (KeyedLog.latest entryId
        (entriesOf
          ((1, compacted (closed.flatMap Prod.snd)) ::
            later)) id).map Prod.fst =
      (KeyedLog.latest entryId
        (entriesOf (closed ++ later)) id).map
          (fun entry =>
            remapLoc (closed.map Prod.fst)
              (Wal.newOffsets
                (compacted
                  (closed.flatMap Prod.snd)))[id]?
              entry.1) := by
  have hNew :
      entriesOf
          ((1, compacted (closed.flatMap Prod.snd)) ::
            later) =
        entriesOf
            [(1, compacted (closed.flatMap Prod.snd))] ++
          entriesOf later := by
    rw [← entriesOf_append]
    rfl
  rw [hNew, entriesOf_append, KeyedLog.latest_append,
    KeyedLog.latest_append]
  cases hLater :
      KeyedLog.latest entryId (entriesOf later) id with
  | some entry =>
      have hMem := (KeyedLog.latest_mem hLater).1
      simp [hSegments.remapLoc_of_later hMem]
  | none =>
      -- All records of the task are in closed segments.
      have hNone :
          KeyedLog.history entryId (entriesOf later) id =
            [] := List.getLast?_eq_none_iff.mp hLater
      have hPayload := hStored.payloadIn
      rw [entriesOf_append, KeyedLog.history_append, hNone,
        List.append_nil, map_snd_history_entriesOf]
        at hPayload
      rcases compacted_payload hPayload with
        ⟨record, hRecord, rfl, _, _⟩
      rcases history_entriesOf_compacted hRecord with
        ⟨offset, hOffset, hSingle⟩
      cases hClosed :
          KeyedLog.latest entryId (entriesOf closed)
            record.id with
      | none =>
          have hLatest :=
            map_snd_latest_entriesOf closed record.id
          rw [hClosed, Option.map_none] at hLatest
          rcases hPayload with ⟨first, rest, hHistory, _⟩
          rw [KeyedLog.latest, hHistory,
            List.getLast?_cons] at hLatest
          simp at hLatest
      | some entry =>
          have hMoved :
              (ofLex entry.1).1 ∈ closed.map Prod.fst := by
            rcases segment_of_mem_entriesOf
              (KeyedLog.latest_mem hClosed).1 with
              ⟨found, hSegment, _⟩
            exact List.mem_map.mpr ⟨_, hSegment, rfl⟩
          rw [KeyedLog.latest, hSingle, hOffset]
          simp [remapLoc_of_mem hMoved]

/- Compaction with remapping keeps tasks in their places. -/
theorem Placed.compact
    {payloads : UInt64 → Option Bytes}
    {inner : EngineState}
    (hPlaced :
      Placed inner (entriesOf (closed ++ later)))
    (hSegments : SegmentsOn disk (closed ++ later))
    (hStored :
      Stored payloads inner (entriesOf (closed ++ later))) :
    Placed
      (inner.remap (closed.map Prod.fst)
        (Wal.newOffsets
          (compacted (closed.flatMap Prod.snd))))
      (entriesOf
        ((1, compacted (closed.flatMap Prod.snd)) ::
          later)) := by
  have hData :=
    inner.mem_dataIndex_remap (closed.map Prod.fst)
      (Wal.newOffsets
        (compacted (closed.flatMap Prod.snd)))
  constructor
  · rw [EngineState.remap_eq]
    exact hPlaced.ready_nodup
  · rw [EngineState.remap_eq]
    exact hPlaced.ready_free
  · intro task hTask
    rw [hData]
    rw [EngineState.remap_eq] at hTask
    exact hPlaced.ready_data task hTask
  · intro id hId
    rw [hData]
    rw [EngineState.remap_eq] at hId
    exact hPlaced.leased_data id hId
  · intro id hId
    rw [hData] at hId
    have hSome :=
      Std.ExtTreeMap.isSome_getElem?_iff_mem.mpr hId
    rcases Option.isSome_iff_exists.mp hSome with
      ⟨loc, hLoc⟩
    rcases hStored.data id loc hLoc with ⟨payload, _, hAt⟩
    rw [EngineState.getElem?_index_remap,
      hPlaced.index_eq id hId, Option.map_map,
      hAt.latest_compact hSegments]
    rfl
  · intro id entry hLatest hLive
    rw [hData]
    have hNew :
        entriesOf
            ((1, compacted (closed.flatMap Prod.snd)) ::
              later) =
          entriesOf
              [(1, compacted (closed.flatMap Prod.snd))] ++
            entriesOf later := by
      rw [← entriesOf_append]
      rfl
    rw [hNew, KeyedLog.latest_append,
      Option.or_eq_some_iff] at hLatest
    rcases hLatest with hLater | ⟨hLater, hClosed⟩
    · apply hPlaced.live id entry ?_ hLive
      rw [entriesOf_append, KeyedLog.latest_append, hLater]
      rfl
    · -- The compacted record stands for a live one.
      have hCompacted :=
        map_snd_latest_entriesOf
          [(1, compacted (closed.flatMap Prod.snd))] id
      rw [hClosed, List.flatMap_singleton,
        latest_compacted] at hCompacted
      rcases Option.map_eq_some_iff.mp hCompacted.symm with
        ⟨last, hLast, _⟩
      rw [Option.filter_eq_some_iff] at hLast
      have hOld := map_snd_latest_entriesOf closed id
      rw [hLast.1] at hOld
      rcases Option.map_eq_some_iff.mp hOld with
        ⟨old, hOldLatest, rfl⟩
      apply hPlaced.live id old
      · rw [entriesOf_append, KeyedLog.latest_append,
          hLater]
        exact hOldLatest
      · simpa using hLast.2

end Nesso
