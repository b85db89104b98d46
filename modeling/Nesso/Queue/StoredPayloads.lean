import Nesso.Log.Payloads
import Nesso.Queue.System

/-
  The data index points at the payloads that were pushed, at
  any time and across compactions.

  Key definitions include:
    * `lastPayload`
    * `StoredAt`
    * `Stored`

  Every change and every compaction keeps this:
    * `Stored.add`
    * `Stored.append_state`
    * `Stored.finish`
    * `Stored.compact`
-/

------------------------------------------------------------
-- Stored Payloads
------------------------------------------------------------

namespace Nesso

/- The payload of the most recent push that returned an id. -/
def lastPayload
    (history : List Event)
    (id : UInt64) : Option Bytes :=
  (pushes history id).getLast?.map Prod.snd

/- A push sets the payload of the id it returned. -/
theorem lastPayload_append_pushed
    (history : List Event)
    (id : UInt64)
    (priority : UInt8)
    (payload : Bytes) :
    lastPayload (history ++ [.pushed id priority payload]) =
      Function.update (lastPayload history) id
        (some payload) := by
  funext other
  by_cases hId : other = id
  · subst hId
    simp [lastPayload, pushes, Event.pushOf,
      List.filterMap_append]
  · have hNone :
        Event.pushOf other (.pushed id priority payload) =
          none := by
      simp [Event.pushOf, Ne.symm hId]
    rw [lastPayload, pushes_append_singleton _ hNone,
      Function.update_of_ne hId]
    rfl

/- Events that push other tasks do not matter. -/
theorem lastPayload_append_other
    {history events : List Event}
    {id : UInt64}
    (hEvents :
      ∀ event ∈ events, Event.pushOf id event = none) :
    lastPayload (history ++ events) id =
      lastPayload history id := by
  have hNone : events.filterMap (Event.pushOf id) = [] := by
    rw [List.filterMap_eq_nil_iff]
    exact hEvents
  simp [lastPayload, pushes, hNone]

/- Other events do not push anything. -/
theorem lastPayload_append_of_not_pushed
    (history : List Event)
    {events : List Event}
    (hEvents :
      ∀ event ∈ events, ∀ id, Event.pushOf id event = none) :
    lastPayload (history ++ events) =
      lastPayload history := by
  funext id
  exact lastPayload_append_other
    (fun event hEvent => hEvents event hEvent id)

/- An operation that records no push. -/
theorem System.pushOf_eventIf
    {ε α : Type}
    {result : Except ε α}
    {event : α → Event}
    (hEvent :
      ∀ value id, Event.pushOf id (event value) = none) :
    ∀ found ∈ eventIf result event, ∀ id,
      Event.pushOf id found = none := by
  intro found hFound id
  unfold eventIf at hFound
  split at hFound
  · rw [List.mem_singleton.mp hFound]
    exact hEvent _ id
  · simp at hFound

theorem System.pushOf_grantEvents
    (engine : Engine) :
    ∀ event ∈ grantEvents engine, ∀ id,
      Event.pushOf id event = none := by
  intro event hEvent id
  unfold grantEvents at hEvent
  split at hEvent
  · rw [List.mem_singleton.mp hEvent]
    rfl
  · simp at hEvent

/- The first record of a task is here and has its payload. -/
structure StoredAt
    (entries : List (Loc × Record))
    (id : UInt64)
    (loc : Loc)
    (payload : Bytes) : Prop where
  head_eq :
    (KeyedLog.history entryId entries id).head?.map
      Prod.fst = some loc
  payloadIn :
    PayloadIn
      ((KeyedLog.history entryId entries id).map Prod.snd)
      payload

/- The indexed payloads are the pushed ones. -/
structure Stored
    (payloads : UInt64 → Option Bytes)
    (inner : EngineState)
    (entries : List (Loc × Record)) : Prop where
  data :
    ∀ (id : UInt64) (loc : Loc),
      inner.dataIndex[id]? = some loc →
        ∃ payload,
          payloads id = some payload ∧
            StoredAt entries id loc payload
  cached :
    ∀ (id : UInt64) (payload : Bytes),
      inner.payloadCache.entries[id]? = some payload →
        id < inner.nextId ∧ payloads id = some payload
  entries_known :
    ∀ entry ∈ entries, entryId entry < inner.nextId
  ready_known :
    ∀ task ∈ inner.readyQueue.tasks,
      task.id < inner.nextId
  leased_known :
    ∀ id ∈ inner.leased, id < inner.nextId
  short :
    ∀ entry ∈ entries,
      entry.2.userPayload.length ≤ maxUserPayloadSize

namespace StoredAt

variable {entries : List (Loc × Record)}
variable {id : UInt64} {loc : Loc} {payload : Bytes}

/- The location holds a record with the payload. -/
theorem exists_record
    (hStored : StoredAt entries id loc payload) :
    ∃ record,
      (loc, record) ∈ entries ∧ record.id = id ∧
        record.userPayload = payload := by
  rcases hStored.payloadIn with
    ⟨first, rest, hRecords, _, hUser, _⟩
  have hHead := hStored.head_eq
  cases hHistory : KeyedLog.history entryId entries id with
  | nil => simp [hHistory] at hRecords
  | cons entry others =>
      rw [hHistory, List.head?_cons, Option.map_some,
        Option.some.injEq] at hHead
      rw [hHistory, List.map_cons, List.cons.injEq]
        at hRecords
      have hMem :
          entry ∈ KeyedLog.history entryId entries id := by
        simp [hHistory]
      rcases KeyedLog.mem_history_iff.mp hMem with
        ⟨hEntry, hId⟩
      refine ⟨entry.2, ?_, hId, ?_⟩
      · rw [← hHead]
        exact hEntry
      · rw [hRecords.1]
        exact hUser

/- Records of other tasks and state changes do not matter. -/
theorem append
    (hStored : StoredAt entries id loc payload)
    {entry : Loc × Record}
    (hEntry : entryId entry = id → entry.2.IsState) :
    StoredAt (entries ++ [entry]) id loc payload := by
  have hHistory :
      KeyedLog.history entryId (entries ++ [entry]) id =
        KeyedLog.history entryId entries id ++
          (if entryId entry = id then [entry] else []) := by
    rw [KeyedLog.history_append, KeyedLog.history_singleton]
  have hNe : KeyedLog.history entryId entries id ≠ [] := by
    intro hNil
    have hHead := hStored.head_eq
    simp [hNil] at hHead
  constructor
  · rw [hHistory, List.head?_append_of_ne_nil _ hNe]
    exact hStored.head_eq
  · rw [hHistory, List.map_append]
    apply hStored.payloadIn.append
    intro record hRecord
    split at hRecord
    · next hId =>
        rw [List.map_singleton, List.mem_singleton]
          at hRecord
        rw [hRecord]
        exact hEntry hId
    · simp at hRecord

end StoredAt

end Nesso

------------------------------------------------------------
-- Changes of Stored Payloads
------------------------------------------------------------

namespace Nesso

namespace Stored

variable {payloads : UInt64 → Option Bytes}
variable {inner next : EngineState}
variable {entries : List (Loc × Record)}

/- One more record that leaves the live payloads alone. -/
theorem append_entry
    (hStored : Stored payloads inner entries)
    {entry : Loc × Record}
    (hData :
      ∀ (id : UInt64) (loc : Loc),
        next.dataIndex[id]? = some loc →
          inner.dataIndex[id]? = some loc ∧
            (entryId entry = id → entry.2.IsState))
    (hCached :
      ∀ (id : UInt64) (payload : Bytes),
        next.payloadCache.entries[id]? = some payload →
          inner.payloadCache.entries[id]? = some payload)
    (hNextId : next.nextId = inner.nextId)
    (hReady :
      ∀ task ∈ next.readyQueue.tasks,
        task.id < inner.nextId)
    (hLeased : ∀ id ∈ next.leased, id < inner.nextId)
    (hKnown : entryId entry < inner.nextId)
    (hShort :
      entry.2.userPayload.length ≤ maxUserPayloadSize) :
    Stored payloads next (entries ++ [entry]) := by
  constructor
  · intro id loc hLoc
    rcases hData id loc hLoc with ⟨hOld, hState⟩
    rcases hStored.data id loc hOld with
      ⟨payload, hPayload, hAt⟩
    exact ⟨payload, hPayload, hAt.append hState⟩
  · intro id payload hPayload
    rw [hNextId]
    exact hStored.cached id payload
      (hCached id payload hPayload)
  · intro other hOther
    rw [hNextId]
    rcases List.mem_append.mp hOther with hOld | hNew
    · exact hStored.entries_known other hOld
    · rw [List.mem_singleton.mp hNew]
      exact hKnown
  · rw [hNextId]
    exact hReady
  · rw [hNextId]
    exact hLeased
  · intro other hOther
    rcases List.mem_append.mp hOther with hOld | hNew
    · exact hStored.short other hOld
    · rw [List.mem_singleton.mp hNew]
      exact hShort

theorem grant
    (hStored : Stored payloads inner entries)
    {task : TaskRef}
    {rest : ReadyQueue}
    (hPop : inner.readyQueue.pop = some (task, rest))
    (consumerId : UInt32)
    (expireTimestamp : UInt64)
    (loc : Loc) :
    Stored payloads
      (Change.apply inner loc
        (.grant task rest consumerId expireTimestamp))
      (entries ++
        [(loc, Change.record inner
          (.grant task rest consumerId
            expireTimestamp))]) := by
  have hPerm := ReadyQueue.tasks_pop_perm hPop
  have hKnown : task.id < inner.nextId :=
    hStored.ready_known task (hPerm.mem_iff.mpr (by simp))
  apply hStored.append_entry
  · intro id found hFound
    refine ⟨hFound, fun _ => ?_⟩
    exact .inl ⟨rfl, by
      simp [Change.record, length_leasePayload]⟩
  · exact fun _ _ hCached => hCached
  · rfl
  · intro other hOther
    exact hStored.ready_known other
      (hPerm.mem_iff.mpr (by simp [show other ∈ rest.tasks
        from hOther]))
  · intro id hId
    simp only [Change.apply, Std.ExtTreeMap.mem_insert,
      Std.LawfulEqCmp.compare_eq_iff_eq] at hId
    rcases hId with rfl | hOld
    · exact hKnown
    · exact hStored.leased_known id hOld
  · exact hKnown
  · simp [Change.record, Record.userPayload,
      length_leasePayload]

theorem finish
    (hStored : Stored payloads inner entries)
    {id : UInt64}
    (hKnown : id < inner.nextId)
    (priority : UInt8)
    (deadRetries : Option UInt8)
    (loc : Loc) :
    Stored payloads
      (Change.apply inner loc
        (.finish id priority deadRetries))
      (entries ++
        [(loc, Change.record inner
          (.finish id priority deadRetries))]) := by
  have hId :
      (Change.record inner
        (.finish id priority deadRetries)).id = id := by
    cases deadRetries <;> rfl
  apply hStored.append_entry
  · intro other found hFound
    simp only [Change.apply,
      Std.ExtTreeMap.getElem?_erase] at hFound
    split at hFound
    · simp at hFound
    · next hNe =>
        refine ⟨hFound, ?_⟩
        intro hEq
        rw [entryId, hId] at hEq
        simp [hEq] at hNe
  · intro other payload hCached
    exact PayloadCache.of_getElem?_remove hCached
  · rfl
  · exact hStored.ready_known
  · intro other hOther
    simp only [Change.apply, Std.ExtTreeMap.mem_erase]
      at hOther
    exact hStored.leased_known other hOther.2
  · rw [entryId, hId]
    exact hKnown
  · cases deadRetries <;>
      simp [Change.record, Record.userPayload,
        maxUserPayloadSize, maxPayloadSize]

theorem retry
    (hStored : Stored payloads inner entries)
    {id : UInt64}
    (hKnown : id < inner.nextId)
    (priority retries : UInt8)
    {failureType : OpType}
    (hType :
      failureType = .nacked ∨ failureType = .expired)
    (loc : Loc) :
    Stored payloads
      (Change.apply inner loc
        (.retry id priority retries failureType))
      (entries ++
        [(loc, Change.record inner
          (.retry id priority retries failureType))]) := by
  have hPerm :=
    ReadyQueue.tasks_push_perm inner.readyQueue
      ⟨id, priority, retries⟩
  apply hStored.append_entry
  · intro other found hFound
    refine ⟨hFound, fun _ => .inr ⟨hType, ?_⟩⟩
    simp [Change.record]
  · exact fun _ _ hCached => hCached
  · rfl
  · intro task hTask
    rcases List.mem_cons.mp (hPerm.mem_iff.mp hTask) with
      rfl | hOld
    · exact hKnown
    · exact hStored.ready_known task hOld
  · intro other hOther
    simp only [Change.apply, Std.ExtTreeMap.mem_erase]
      at hOther
    exact hStored.leased_known other hOther.2
  · exact hKnown
  · rcases hType with rfl | rfl <;>
      simp [Change.record, Record.userPayload]

/- A new task's payload is in its Created record. -/
theorem add
    (hStored : Stored payloads inner entries)
    (hLeft : inner.IdsLeft)
    (priority : UInt8)
    {payload : Bytes}
    (hShort : payload.length ≤ maxUserPayloadSize)
    {nextPayloads : UInt64 → Option Bytes}
    (hSelf : nextPayloads inner.nextId = some payload)
    (hOthers :
      ∀ id, id ≠ inner.nextId →
        nextPayloads id = payloads id)
    (loc : Loc) :
    Stored nextPayloads
      (Change.apply inner loc (.add priority payload))
      (entries ++
        [(loc, Change.record inner
          (.add priority payload))]) := by
  have hLt := UInt64.lt_add_one_of_ne hLeft
  have hPerm :=
    ReadyQueue.tasks_push_perm inner.readyQueue
      ⟨inner.nextId, priority, 0⟩
  have hFresh :
      KeyedLog.history entryId entries inner.nextId =
        [] := by
    rw [KeyedLog.history, List.filter_eq_nil_iff]
    intro entry hEntry hEq
    have hOld := hStored.entries_known entry hEntry
    rw [of_decide_eq_true hEq] at hOld
    exact UInt64.lt_irrefl _ hOld
  have hNew :
      StoredAt
        (entries ++
          [(loc, Change.record inner
            (.add priority payload))])
        inner.nextId loc payload := by
    have hHistory :
        KeyedLog.history entryId
            (entries ++
              [(loc, Change.record inner
                (.add priority payload))]) inner.nextId =
          [(loc, Change.record inner
            (.add priority payload))] := by
      rw [KeyedLog.history_append, hFresh,
        KeyedLog.history_singleton, if_pos, List.nil_append]
      rfl
    constructor
    · rw [hHistory]
      rfl
    · rw [hHistory]
      exact ⟨_, [], rfl, .inl rfl, rfl, by simp⟩
  constructor
  · intro id found hFound
    simp only [Change.apply,
      Std.ExtTreeMap.getElem?_insert] at hFound
    split at hFound
    · next hId =>
        rw [Std.LawfulEqCmp.compare_eq_iff_eq] at hId
        rw [Option.some.injEq] at hFound
        rw [← hId, ← hFound]
        exact ⟨payload, hSelf, hNew⟩
    · next hId =>
        rw [Std.LawfulEqCmp.compare_eq_iff_eq] at hId
        rcases hStored.data id found hFound with
          ⟨old, hOld, hAt⟩
        refine ⟨old, ?_, hAt.append ?_⟩
        · rw [hOthers id (Ne.symm hId)]
          exact hOld
        · intro hEq
          exact (hId hEq).elim
  · intro id found hFound
    rcases PayloadCache.of_getElem?_insert hFound with
      ⟨rfl, rfl⟩ | hOld
    · exact ⟨hLt, hSelf⟩
    · rcases hStored.cached id found hOld with
        ⟨hKnown, hPayload⟩
      have hNe : id ≠ inner.nextId := by
        intro hEq
        rw [hEq] at hKnown
        exact UInt64.lt_irrefl _ hKnown
      refine ⟨UInt64.lt_trans hKnown hLt, ?_⟩
      rw [hOthers id hNe]
      exact hPayload
  · intro entry hEntry
    rcases List.mem_append.mp hEntry with hOld | hAdded
    · exact UInt64.lt_trans
        (hStored.entries_known entry hOld) hLt
    · rw [List.mem_singleton.mp hAdded]
      exact hLt
  · intro task hTask
    rcases List.mem_cons.mp (hPerm.mem_iff.mp hTask) with
      rfl | hOld
    · exact hLt
    · exact UInt64.lt_trans
        (hStored.ready_known task hOld) hLt
  · intro id hId
    exact UInt64.lt_trans (hStored.leased_known id hId) hLt
  · intro entry hEntry
    rcases List.mem_append.mp hEntry with hOld | hAdded
    · exact hStored.short entry hOld
    · rw [List.mem_singleton.mp hAdded]
      exact hShort

end Stored

end Nesso

------------------------------------------------------------
-- Stored Payloads Under Compaction
------------------------------------------------------------

namespace Nesso

variable [Hasher]
variable {disk : Disk} {closed later : List Segment}

/- The history of a task in some segments, unlocated. -/
theorem map_snd_history_entriesOf
    (segments : List Segment)
    (id : UInt64) :
    (KeyedLog.history entryId (entriesOf segments) id).map
        Prod.snd =
      KeyedLog.history Record.id
        (segments.flatMap Prod.snd) id := by
  rw [← map_snd_entriesOf, KeyedLog.history_map]
  rfl

/- The latest record of a task in some segments. -/
theorem map_snd_latest_entriesOf
    (segments : List Segment)
    (id : UInt64) :
    (KeyedLog.latest entryId (entriesOf segments) id).map
        Prod.snd =
      KeyedLog.latest Record.id
        (segments.flatMap Prod.snd) id := by
  rw [KeyedLog.latest, ← List.getLast?_map,
    map_snd_history_entriesOf]
  rfl

/- A task without closed records has no compacted one. -/
omit [Hasher] in
theorem history_compacted_eq_nil
    {records : List Record}
    {id : UInt64}
    (hNone : KeyedLog.history Record.id records id = []) :
    KeyedLog.history Record.id (compacted records) id =
      [] := by
  rw [KeyedLog.history, List.filter_eq_nil_iff]
  intro record hRecord hId
  rcases mem_compacted_iff.mp hRecord with
    ⟨found, last, hLast, rfl⟩
  have hFound :=
    CompactionMaps.id_of_getElem?_latestRecords hLast
  have hEq := of_decide_eq_true hId
  rw [(CompactionMaps.recordToWrite_fields _
    hFound.1).1] at hEq
  have hMem :
      last ∈ KeyedLog.history Record.id records id :=
    KeyedLog.mem_history_iff.mpr
      ⟨hFound.2.1, hFound.1.trans hEq⟩
  simp [hNone] at hMem

/- The only entry of a task in a compacted segment. -/
theorem history_entriesOf_compacted
    {records : List Record}
    {record : Record}
    (hMem : record ∈ compacted records) :
    ∃ offset,
      (Wal.newOffsets (compacted records))[record.id]? =
          some offset ∧
        KeyedLog.history entryId
            (entriesOf [(1, compacted records)])
            record.id =
          [(toLex (1, offset), record)] := by
  have hNodup := compacted_ids_nodup records
  have hLocated :
      record ∈
        (Framing.located Record.encode 0
          (compacted records)).map Prod.snd := by
    rw [Framing.map_snd_located]
    exact hMem
  rcases List.mem_map.mp hLocated with
    ⟨⟨offset, found⟩, hOffset, hFound⟩
  simp only at hFound
  subst hFound
  refine ⟨offset,
    Wal.newOffsets_of_mem_located hNodup hOffset, ?_⟩
  have hKeys :
      ((entriesOf [(1, compacted records)]).map
        entryId).Nodup := by
    have hMap :
        (entriesOf [(1, compacted records)]).map entryId =
          ((entriesOf [(1, compacted records)]).map
            Prod.snd).map Record.id := by
      rw [List.map_map]
      rfl
    rw [hMap, map_snd_entriesOf]
    simpa using hNodup
  have hEntry :
      (toLex (1, offset), found) ∈
        entriesOf [(1, compacted records)] :=
    mem_entriesOf_iff.mpr
      ⟨1, offset, compacted records, by simp, rfl, hOffset⟩
  exact KeyedLog.history_eq_singleton_of_nodup hKeys hEntry

/- A payload moves to its compacted record, or stays. -/
theorem StoredAt.compact
    (hSegments : SegmentsOn disk (closed ++ later))
    {id : UInt64}
    {loc : Loc}
    {payload : Bytes}
    (hStored :
      StoredAt (entriesOf (closed ++ later)) id loc
        payload) :
    StoredAt
      (entriesOf
        ((1, compacted (closed.flatMap Prod.snd)) :: later))
      id
      (remapLoc (closed.map Prod.fst)
        (Wal.newOffsets
          (compacted (closed.flatMap Prod.snd)))[id]? loc)
      payload := by
  let records := closed.flatMap Prod.snd
  have hOld :
      KeyedLog.history entryId
          (entriesOf (closed ++ later)) id =
        KeyedLog.history entryId (entriesOf closed) id ++
          KeyedLog.history entryId (entriesOf later)
            id := by
    rw [entriesOf_append, KeyedLog.history_append]
  have hNew :
      KeyedLog.history entryId
          (entriesOf ((1, compacted records) :: later)) id =
        KeyedLog.history entryId
            (entriesOf [(1, compacted records)]) id ++
          KeyedLog.history entryId (entriesOf later)
            id := by
    rw [← KeyedLog.history_append, ← entriesOf_append]
    rfl
  have hClosedRecords := map_snd_history_entriesOf closed id
  have hHead := hStored.head_eq
  have hPayload := hStored.payloadIn
  rw [hOld] at hHead hPayload
  rw [List.map_append] at hPayload
  cases hHistory :
      KeyedLog.history entryId (entriesOf closed) id with
  | nil =>
      -- The payload lies in a later segment and stays.
      rw [hHistory, List.map_nil] at hClosedRecords
      rw [hHistory, List.nil_append] at hHead
      rw [hHistory, List.map_nil, List.nil_append]
        at hPayload
      have hCompacted :
          KeyedLog.history entryId
            (entriesOf [(1, compacted records)]) id =
              [] := by
        rw [← List.map_eq_nil_iff (f := Prod.snd),
          map_snd_history_entriesOf]
        simpa using
          history_compacted_eq_nil hClosedRecords.symm
      have hKept :
          (ofLex loc).1 ∉ closed.map Prod.fst := by
        intro hId
        rcases Option.map_eq_some_iff.mp hHead with
          ⟨entry, hEntry, rfl⟩
        have hMem :=
          (KeyedLog.mem_history_iff.mp
            (List.mem_of_mem_head? hEntry)).1
        rcases segment_of_mem_entriesOf hMem with
          ⟨found, hSegment, _⟩
        rcases List.mem_map.mp hId with
          ⟨segment, hClosed, hEq⟩
        have hLt :=
          hSegments.closed_lt_later hClosed hSegment
        simp only at hLt
        omega
      rw [remapLoc_of_not_mem hKept]
      constructor
      · rw [hNew, hCompacted, List.nil_append]
        exact hHead
      · rw [hNew, hCompacted, List.nil_append]
        exact hPayload
  | cons entry rest =>
      -- The payload moves to the compacted segment.
      have hNe :
          (KeyedLog.history entryId (entriesOf closed)
            id).map Prod.snd ≠ [] := by
        simp [hHistory]
      rcases hPayload.split hNe with ⟨hFront, hBack⟩
      rw [hClosedRecords] at hFront
      rcases compacted_payload hFront with
        ⟨record, hRecord, rfl, hCarries, hUser⟩
      rcases history_entriesOf_compacted hRecord with
        ⟨offset, hOffset, hSingle⟩
      have hEntry : entry.1 = loc := by
        simpa [hHistory] using hHead
      have hMoved :
          (ofLex loc).1 ∈ closed.map Prod.fst := by
        have hMem :
            entry ∈ KeyedLog.history entryId
              (entriesOf closed) record.id := by
          simp [hHistory]
        rcases segment_of_mem_entriesOf
          (KeyedLog.mem_history_iff.mp hMem).1 with
          ⟨found, hSegment, _⟩
        rw [hEntry] at hSegment
        exact List.mem_map.mpr ⟨_, hSegment, rfl⟩
      rw [hOffset, remapLoc_of_mem hMoved]
      constructor
      · rw [hNew, hSingle]
        rfl
      · rw [hNew, hSingle, List.map_append]
        refine PayloadIn.append ?_ hBack
        exact ⟨record, [], rfl, hCarries, hUser, by simp⟩

/- What is known about the records of closed segments. -/
theorem Stored.closed_records
    (hSegments : SegmentsOn disk (closed ++ later))
    {payloads : UInt64 → Option Bytes}
    {inner : EngineState}
    (hStored :
      Stored payloads inner (entriesOf (closed ++ later))) :
    ∀ record ∈ closed.flatMap Prod.snd,
      record.Fits ∧ record.id < inner.nextId ∧
        record.userPayload.length ≤
          maxUserPayloadSize := by
  intro record hMem
  rw [← map_snd_entriesOf] at hMem
  rcases List.mem_map.mp hMem with ⟨entry, hEntry, rfl⟩
  rcases segment_of_mem_entriesOf hEntry with
    ⟨records, hSegment, hIn⟩
  have hAll :
      entry ∈ entriesOf (closed ++ later) := by
    rw [entriesOf_append]
    exact List.mem_append_left _ hEntry
  exact ⟨hSegments.fits _
      (List.mem_append_left _ hSegment) _ hIn,
    hStored.entries_known entry hAll,
    hStored.short entry hAll⟩

/- Compaction with remapping keeps the payloads. -/
theorem Stored.compact
    (hSegments : SegmentsOn disk (closed ++ later))
    {payloads : UInt64 → Option Bytes}
    {inner : EngineState}
    (hStored :
      Stored payloads inner (entriesOf (closed ++ later))) :
    Stored payloads
      (inner.remap (closed.map Prod.fst)
        (Wal.newOffsets
          (compacted (closed.flatMap Prod.snd))))
      (entriesOf
        ((1, compacted (closed.flatMap Prod.snd)) ::
          later)) := by
  have hRecord := hStored.closed_records hSegments
  have hEntry :
      ∀ entry ∈
        entriesOf
          ((1, compacted (closed.flatMap Prod.snd)) ::
            later),
        entryId entry < inner.nextId ∧
          entry.2.userPayload.length ≤
            maxUserPayloadSize := by
    intro entry hMem
    rcases mem_entriesOf_iff.mp hMem with
      ⟨segmentId, offset, records, hSegment, hLoc,
        hLocated⟩
    have hIn : entry.2 ∈ records := by
      have hMapped :=
        List.mem_map_of_mem (f := Prod.snd) hLocated
      rwa [Framing.map_snd_located] at hMapped
    rcases List.mem_cons.mp hSegment with hEq | hLater
    · rw [Prod.mk.injEq] at hEq
      rw [hEq.2] at hIn
      have hShort :=
        compacted_short
          (fun record hRecordMem =>
            (hRecord record hRecordMem).1)
          (fun record hRecordMem =>
            (hRecord record hRecordMem).2.2) entry.2 hIn
      rcases mem_compacted_iff.mp hIn with
        ⟨id, last, hLast, hWritten⟩
      have hFound :=
        CompactionMaps.id_of_getElem?_latestRecords hLast
      refine ⟨?_, hShort.2⟩
      rw [entryId, hWritten,
        (CompactionMaps.recordToWrite_fields _
          hFound.1).1, ← hFound.1]
      exact (hRecord last hFound.2.1).2.1
    · have hAll :
          entry ∈ entriesOf (closed ++ later) :=
        mem_entriesOf_iff.mpr
          ⟨segmentId, offset, records,
            List.mem_append_right _ hLater, hLoc,
            hLocated⟩
      exact ⟨hStored.entries_known entry hAll,
        hStored.short entry hAll⟩
  constructor
  · intro id loc hLoc
    rw [EngineState.getElem?_dataIndex_remap,
      Option.map_eq_some_iff] at hLoc
    rcases hLoc with ⟨old, hOld, rfl⟩
    rcases hStored.data id old hOld with
      ⟨payload, hPayload, hAt⟩
    exact ⟨payload, hPayload, hAt.compact hSegments⟩
  · rw [EngineState.remap_eq]
    exact hStored.cached
  · rw [EngineState.remap_eq]
    exact fun entry hMem => (hEntry entry hMem).1
  · rw [EngineState.remap_eq]
    exact hStored.ready_known
  · rw [EngineState.remap_eq]
    exact hStored.leased_known
  · exact fun entry hMem => (hEntry entry hMem).2

end Nesso
