import Nesso.Queue.Serving
import Nesso.Recovery.Restarts
import Nesso.Recovery.ScannerAgreement
import Nesso.Storage.Checksum

/-
  Pushes followed by a restart.

  A push never looks at the length of its payload, while all
  readers do: what was pushed is recovered exactly when every
  payload is within the limit of the readers.

  Key definitions include:
    * `Engine.pushAll`
    * `Engine.popAll`
    * `Engine.PushesRecovered`

  The main theorem is:
    * `pushes_recovered_iff`
-/

------------------------------------------------------------
-- Sequences of Pushes and Pops
------------------------------------------------------------

namespace Nesso

namespace Engine

variable [Hasher]

/- The tasks of the pushes that returned an id. -/
def pushAll
    (engine : Engine) :
    List (Bytes × UInt8) → List Record × Engine
| [] => ([], engine)
| (payload, priority) :: pushes =>
    match engine.push none payload priority with
    | (.ok id, next) =>
        let rest := next.pushAll pushes
        (⟨id, .created, priority, payload⟩ :: rest.1,
          rest.2)
    | (.error _, next) => next.pushAll pushes

/- The results of some pops in a row. -/
def popAll
    (engine : Engine)
    (consumerId : UInt32)
    (now leaseTtlSecs : UInt64) :
    Nat → List (Except IoError (Option (Record × UInt8)))
| 0 => []
| count + 1 =>
    let out :=
      engine.popAndLease none consumerId now leaseTtlSecs
    out.1 ::
      out.2.popAll consumerId now leaseTtlSecs count

theorem pushAll_cons
    (engine : Engine)
    (payload : Bytes)
    (priority : UInt8)
    (pushes : List (Bytes × UInt8)) :
    engine.pushAll ((payload, priority) :: pushes) =
      (⟨engine.inner.nextId, .created, priority, payload⟩ ::
          ((engine.perform
            (.add priority payload)).pushAll pushes).1,
        ((engine.perform
          (.add priority payload)).pushAll pushes).2) := by
  simp only [pushAll, push_none]

/- Every push is accepted, however long its payload is. -/
theorem map_payload_pushAll
    (engine : Engine)
    (pushes : List (Bytes × UInt8)) :
    (engine.pushAll pushes).1.map
        (fun record => (record.payload, record.priority)) =
      pushes := by
  induction pushes generalizing engine with
  | nil => rfl
  | cons push pushes ih =>
      rcases push with ⟨payload, priority⟩
      rw [pushAll_cons, List.map_cons, ih]

theorem length_pushAll
    (engine : Engine)
    (pushes : List (Bytes × UInt8)) :
    (engine.pushAll pushes).1.length = pushes.length := by
  have hLength :=
    congrArg List.length (engine.map_payload_pushAll pushes)
  simpa using hLength

theorem opType_of_mem_pushAll
    {engine : Engine}
    {pushes : List (Bytes × UInt8)}
    {record : Record}
    (hRecord : record ∈ (engine.pushAll pushes).1) :
    record.opType = .created := by
  induction pushes generalizing engine with
  | nil => simp [pushAll] at hRecord
  | cons push pushes ih =>
      rcases push with ⟨payload, priority⟩
      rw [pushAll_cons, List.mem_cons] at hRecord
      rcases hRecord with rfl | hRest
      · rfl
      · exact ih hRest

/- Ids are handed out one after the other. -/
theorem pushAll_ids
    (engine : Engine)
    (pushes : List (Bytes × UInt8)) :
    (engine.pushAll pushes).1.map Record.id =
      (List.range pushes.length).map
        (fun k => engine.inner.nextId + UInt64.ofNat k) := by
  induction pushes generalizing engine with
  | nil => rfl
  | cons push pushes ih =>
      rcases push with ⟨payload, priority⟩
      have hNext :
          (engine.perform
            (.add priority payload)).inner.nextId =
              engine.inner.nextId + 1 := rfl
      rw [pushAll_cons, List.map_cons, ih, hNext,
        List.length_cons, List.range_succ_eq_map,
        List.map_cons, List.map_map]
      simp only [List.cons.injEq]
      constructor
      · simp
      · apply List.map_congr_left
        intro k _
        simp only [Function.comp_apply, Nat.succ_eq_add_one,
          UInt64.ofNat_add]
        rw [UInt64.add_assoc]
        congr 1
        exact UInt64.add_comm _ _

/- The counter comes back to an id after `2 ^ 64` pushes. -/
theorem pushAll_ids_nodup_iff
    (engine : Engine)
    (pushes : List (Bytes × UInt8)) :
    ((engine.pushAll pushes).1.map Record.id).Nodup ↔
      pushes.length ≤ 2 ^ 64 := by
  rw [pushAll_ids]
  constructor
  · intro hNodup
    have hInjective : UInt64.toNat.Injective := by
      intro left right hEq
      exact UInt64.toNat_inj.mp hEq
    have hSubset :
        (((List.range pushes.length).map
          (fun k => engine.inner.nextId +
            UInt64.ofNat k)).map UInt64.toNat) ⊆
              List.range (2 ^ 64) := by
      intro value hValue
      rcases List.mem_map.mp hValue with ⟨id, _, rfl⟩
      exact List.mem_range.mpr id.toNat_lt
    have hLength :=
      ((hNodup.map hInjective).subperm hSubset).length_le
    simpa using hLength
  · intro hCount
    refine List.Nodup.map_on ?_ List.nodup_range
    intro left hLeft right hRight hEq
    rw [List.mem_range] at hLeft hRight
    have hToNat := congrArg UInt64.toNat hEq
    simp only [UInt64.toNat_add, UInt64.toNat_ofNat']
      at hToNat
    omega

/- Admissible pushes extend the log by their records. -/
theorem tracks_pushAll
    {engine : Engine}
    {log : SegmentedLog}
    (hTracks : engine.inner.wal.Tracks engine.disk log)
    (hClean : engine.disk.Clean)
    {pushes : List (Bytes × UInt8)}
    (hShort :
      ∀ push ∈ pushes, push.1.length ≤ maxPayloadSize) :
    ∃ nextLog,
      (engine.pushAll pushes).2.inner.wal.Tracks
          (engine.pushAll pushes).2.disk nextLog ∧
        (engine.pushAll pushes).2.disk.Clean ∧
        nextLog.entries.map Prod.snd =
          log.entries.map Prod.snd ++
            (engine.pushAll pushes).1 := by
  induction pushes generalizing engine log with
  | nil => exact ⟨log, hTracks, hClean, by simp [pushAll]⟩
  | cons push pushes ih =>
      rcases push with ⟨payload, priority⟩
      have hFits :
          ((Change.add priority payload).record
            engine.inner).Fits :=
        hShort (payload, priority) (by simp)
      rcases tracks_perform hTracks hFits with
        ⟨hMiddle, hExtends, _⟩
      rcases ih hMiddle (hExtends.clean hClean)
        (fun push hPush => hShort push (by simp [hPush]))
        with ⟨nextLog, hNext, hNextClean, hRecords⟩
      rw [pushAll_cons]
      refine ⟨nextLog, hNext, hNextClean, ?_⟩
      rw [hRecords, hTracks.entries_append]
      simp [Change.record]

end Engine

end Nesso

------------------------------------------------------------
-- Cold Pops
------------------------------------------------------------

namespace Nesso

namespace Engine

variable [Hasher]

/- What a pop of this task returns. -/
def poppedTask
    (payloads : UInt64 → Option Bytes)
    (task : TaskRef) :
    Except IoError (Option (Record × UInt8)) :=
  .ok (some
    (⟨task.id, .created, task.priority,
      (payloads task.id).getD []⟩, task.retries))

/- A pop takes one task and leaves the others readable. -/
theorem Reads.popAndLease
    {engine : Engine}
    {log : SegmentedLog}
    {payloads : UInt64 → Option Bytes}
    (hReads : engine.Reads log payloads)
    {task : TaskRef}
    {rest : ReadyQueue}
    (hPop : engine.inner.readyQueue.pop = some (task, rest))
    (hData : task.id ∈ engine.inner.dataIndex)
    (consumerId : UInt32)
    (now leaseTtlSecs : UInt64) :
    (engine.popAndLease none consumerId now
          leaseTtlSecs).1 = poppedTask payloads task ∧
      ∃ nextLog,
        (engine.popAndLease none consumerId now
            leaseTtlSecs).2.Reads nextLog payloads ∧
          (engine.popAndLease none consumerId now
            leaseTtlSecs).2.inner.readyQueue = rest ∧
          (engine.popAndLease none consumerId now
            leaseTtlSecs).2.inner.dataIndex =
              engine.inner.dataIndex := by
  rcases Option.isSome_iff_exists.mp
      (Std.ExtTreeMap.isSome_getElem?_iff_mem.mpr hData)
    with ⟨dataLoc, hLoc⟩
  rcases hReads.grant task rest consumerId
    (now + leaseTtlSecs) with ⟨nextLog, hNext⟩
  refine ⟨?_, nextLog, ?_⟩
  · rw [hReads.popAndLease_eq, popResult, hPop]
    simp only [hLoc]
    rfl
  · rw [Engine.popAndLease, popLocked_none, hPop]
    simp only [hLoc]
    generalize hTicket :
      (⟨task.id, task.priority, task.retries, dataLoc,
        engine.inner.payloadCache.entries[task.id]?⟩ :
          PopTicket) = ticket
    rcases popRead_snd hNext.coherent ticket with
      ⟨reader, hRead, hCoherent⟩
    rw [hRead]
    exact ⟨⟨hNext.tracks, hCoherent, hNext.data,
      hNext.cached⟩, rfl, rfl⟩

/- Popping as often as there are tasks returns them all. -/
theorem Reads.popAll_perm
    {engine : Engine}
    {log : SegmentedLog}
    {payloads : UInt64 → Option Bytes}
    (hReads : engine.Reads log payloads)
    (hData :
      ∀ task ∈ engine.inner.readyQueue.tasks,
        task.id ∈ engine.inner.dataIndex)
    (consumerId : UInt32)
    (now leaseTtlSecs : UInt64)
    {count : Nat}
    (hCount :
      count = engine.inner.readyQueue.tasks.length) :
    (engine.popAll consumerId now leaseTtlSecs count).Perm
      (engine.inner.readyQueue.tasks.map
        (poppedTask payloads)) := by
  induction count generalizing engine log with
  | zero =>
      rw [List.length_eq_zero_iff.mp hCount.symm]
      exact .refl _
  | succ count ih =>
      cases hPop : engine.inner.readyQueue.pop with
      | none =>
          rw [ReadyQueue.tasks_eq_nil_of_pop hPop] at hCount
          simp at hCount
      | some popped =>
          rcases popped with ⟨task, rest⟩
          have hPerm := ReadyQueue.tasks_pop_perm hPop
          have hTask :
              task ∈ engine.inner.readyQueue.tasks :=
            hPerm.mem_iff.mpr (by simp)
          rcases hReads.popAndLease hPop (hData task hTask)
            consumerId now leaseTtlSecs with
            ⟨hResult, nextLog, hNext, hReady, hIndex⟩
          have hRest :
              ∀ other ∈
                  (engine.popAndLease none consumerId now
                    leaseTtlSecs).2.inner.readyQueue.tasks,
                other.id ∈
                  (engine.popAndLease none consumerId now
                    leaseTtlSecs).2.inner.dataIndex := by
            intro other hOther
            rw [hReady] at hOther
            rw [hIndex]
            exact hData other
              (hPerm.mem_iff.mpr (by simp [hOther]))
          have hLength := hPerm.length_eq
          rw [List.length_cons] at hLength
          have hTail :=
            ih hNext hRest (by rw [hReady]; omega)
          rw [hReady] at hTail
          rw [popAll, hResult]
          exact (hTail.cons _).trans
            (hPerm.map (poppedTask payloads)).symm

/- A record that can be read is within the limit. -/
theorem length_of_readAt
    {reader : WalReader}
    {disk : Disk}
    {segmentId offset : Nat}
    {record : Record}
    (hRead :
      (reader.readAt disk segmentId offset).1 =
        .ok (some record)) :
    record.userPayload.length ≤ maxPayloadSize := by
  have hFits : record.Fits := by
    unfold WalReader.readAt at hRead
    split at hRead
    · simp at hRead
    · next inode next hHandle =>
        generalize readFrame
          ((disk.contentOf inode).drop offset) = frame
            at hRead
        cases frame with
        | frame fullRecord =>
            simp only [WalReader.frameResult,
              Except.ok.injEq] at hRead
            exact (Record.decodedFrom_of_decode hRead).fits
        | _ => simp [WalReader.frameResult] at hRead
  have hLength :
      record.userPayload.length ≤ record.payload.length := by
    unfold Record.userPayload
    cases record.opType with
    | leased => dsimp only; split <;> simp
    | nacked => dsimp only; split <;> simp
    | expired => dsimp only; split <;> simp
    | _ => exact Nat.le_refl _
  exact Nat.le_trans hLength hFits

/- What is read from disk is within the limit. -/
theorem length_of_readPayload
    {engine : Engine}
    {id : UInt64}
    {tries : Nat}
    {loc : Loc}
    {reader : WalReader}
    {record : Record}
    (hRead :
      (engine.readPayload id tries loc reader).1 =
        .ok record) :
    record.userPayload.length ≤ maxPayloadSize := by
  induction tries generalizing loc reader with
  | zero => simp [readPayload] at hRead
  | succ tries ih =>
      rw [readPayload] at hRead
      split at hRead
      · next found hOutcome =>
          rw [Except.ok.injEq] at hRead
          rw [← hRead]
          apply length_of_readAt
          unfold readOutcome at hOutcome
          split at hOutcome
          · rw [ReadOutcome.found.injEq] at hOutcome
            rw [← hOutcome]
            assumption
          · simp at hOutcome
          · split at hOutcome
            · split at hOutcome <;> simp at hOutcome
            · simp at hOutcome
      · exact ih hRead
      · simp at hRead

/- With an empty cache a pop reads its payload from disk. -/
theorem popAndLease_cold
    {engine : Engine}
    (hCache : engine.inner.payloadCache.entries = ∅)
    (consumerId : UInt32)
    (now leaseTtlSecs : UInt64) :
    (∀ record retries,
      (engine.popAndLease none consumerId now
          leaseTtlSecs).1 = .ok (some (record, retries)) →
        record.payload.length ≤ maxPayloadSize) ∧
      (engine.popAndLease none consumerId now
        leaseTtlSecs).2.inner.payloadCache.entries = ∅ := by
  rw [popAndLease, popLocked_none]
  cases hPop : engine.inner.readyQueue.pop with
  | none => exact ⟨by simp, hCache⟩
  | some popped =>
      rcases popped with ⟨task, rest⟩
      have hTouched :
          ((engine.perform
              (.grant task rest consumerId
                (now + leaseTtlSecs))).touchCache
            task.id).inner.payloadCache.entries = ∅ := by
        simpa [touchCache, perform, Change.apply]
          using hCache
      cases hData : engine.inner.dataIndex[task.id]? with
      | none =>
          refine ⟨by simp [hData], ?_⟩
          simpa [hData, perform, Change.apply] using hCache
      | some dataLoc =>
          simp only [hData, hCache, popRead,
            Std.ExtTreeMap.getElem?_empty]
          refine ⟨?_, hTouched⟩
          intro record retries hResult
          generalize hEngine :
            (engine.perform
              (.grant task rest consumerId
                (now + leaseTtlSecs))).touchCache
                  task.id = granted at hResult
          cases hRead :
              (granted.readPayload task.id 3 dataLoc
                granted.reader).1 with
          | error error =>
              simp [hRead, Except.map] at hResult
          | ok read =>
              simp only [hRead, Except.map, Except.ok.injEq,
                Option.some.injEq, Prod.mk.injEq] at hResult
              rw [← hResult.1]
              exact length_of_readPayload hRead

/- Pops after a restart return payloads within the limit. -/
theorem length_of_mem_popAll
    {engine : Engine}
    (hCache : engine.inner.payloadCache.entries = ∅)
    {consumerId : UInt32}
    {now leaseTtlSecs : UInt64}
    {count : Nat}
    {record : Record}
    {retries : UInt8}
    (hResult :
      .ok (some (record, retries)) ∈
        engine.popAll consumerId now leaseTtlSecs count) :
    record.payload.length ≤ maxPayloadSize := by
  induction count generalizing engine with
  | zero => simp [popAll] at hResult
  | succ count ih =>
      rcases popAndLease_cold hCache consumerId now
        leaseTtlSecs with ⟨hFirst, hNext⟩
      rw [popAll, List.mem_cons] at hResult
      rcases hResult with hHead | hTail
      · exact hFirst record retries hHead.symm
      · exact ih hNext hTail

end Engine

end Nesso

------------------------------------------------------------
-- Pushes Across a Restart
------------------------------------------------------------

namespace Nesso

/- The queue entry of a task that was just pushed. -/
def Record.pushedTask (record : Record) : TaskRef :=
  ⟨record.id, record.priority, 0⟩

namespace EngineState.Recovered

variable {now : UInt64}
variable {entries : List (Loc × Record)}
variable {inner : EngineState}

/- Created records of different tasks are all ready. -/
theorem tasks_perm
    (hInner : inner.Recovered now entries)
    (hCreated :
      ∀ entry ∈ entries, entry.2.opType = .created)
    (hNodup : (entries.map entryId).Nodup) :
    inner.readyQueue.tasks.Perm
      (entries.map (fun entry => entry.2.pushedTask)) := by
  have hPlace :
      ∀ entry ∈ entries,
        entry.2.placeAt now =
          .ready entry.2.pushedTask := by
    intro entry hEntry
    simp [Record.placeAt, Record.place, hCreated entry hEntry,
      Record.pushedTask]
  have hListed :
      ((entries.map
        (fun entry => entry.2.pushedTask)).map
          TaskRef.id).Nodup := by
    rw [List.map_map]
    exact hNodup
  rw [List.perm_ext_iff_of_nodup
    (List.Nodup.of_map _ hInner.placed.ready_nodup)
    (List.Nodup.of_map _ hListed)]
  intro task
  rw [ReadyQueue.mem_tasks_iff, hInner.bucket_eq,
    List.mem_filter, Replay.mem_ready_iff
      (fun _ _ hReady =>
        (Record.id_of_placeAt_eq_ready hReady).1),
    List.mem_map]
  constructor
  · rintro ⟨⟨entry, hLatest, hReady⟩, _⟩
    have hEntry := (KeyedLog.latest_mem hLatest).1
    rw [hPlace entry hEntry, Place.ready.injEq] at hReady
    exact ⟨entry, hEntry, hReady⟩
  · rintro ⟨entry, hEntry, rfl⟩
    refine ⟨⟨entry, ?_, hPlace entry hEntry⟩, by simp⟩
    exact (KeyedLog.latest_eq_some_iff_of_nodup hNodup).mpr
      ⟨hEntry, rfl⟩

/- Each payload is found in its task's Created record. -/
theorem latest_of_dataIndex
    (hInner : inner.Recovered now entries)
    (hCreated :
      ∀ entry ∈ entries, entry.2.opType = .created)
    {id : UInt64}
    {loc : Loc}
    (hLoc : inner.dataIndex[id]? = some loc) :
    ∃ record,
      KeyedLog.latest entryId entries id =
        some (loc, record) := by
  have hAll : Replay.created entries = entries := by
    rw [Replay.created, List.filter_eq_self]
    intro entry hEntry
    exact decide_eq_true (hCreated entry hEntry)
  rw [hInner.dataIndex_eq, Replay.dataLoc, hAll,
    Option.bind_eq_some_iff] at hLoc
  rcases hLoc with ⟨entry, hLatest, hLive⟩
  split at hLive
  · simp at hLive
  · rw [hLatest, Option.map_some, Option.some_or,
      Option.some.injEq] at hLive
    rw [← hLive]
    exact ⟨entry.2, hLatest⟩

end EngineState.Recovered

namespace Engine

variable [Hasher]

/-
  Every pushed task is ready after a restart, and as many
  pops as there were pushes return all of them.
-/
def PushesRecovered
    (engine : Engine)
    (pushes : List (Bytes × UInt8))
    (maxSegmentSize : Option Nat)
    (cacheCapacity : Nat)
    (consumerId : UInt32)
    (now leaseTtlSecs : UInt64) : Prop :=
  let pushed := engine.pushAll pushes
  let reopened :=
    (reopen pushed.2.disk maxSegmentSize cacheCapacity
      now).2
  reopened.inner.readyQueue.tasks.Perm
      (pushed.1.map Record.pushedTask) ∧
    (reopened.popAll consumerId now leaseTtlSecs
        pushes.length).Perm
      (pushed.1.map
        (fun record => .ok (some (record, 0))))

/- A recovered log of Created records can be read. -/
theorem reads_of_created
    {engine : Engine}
    {log : SegmentedLog}
    (hTracks : engine.inner.wal.Tracks engine.disk log)
    (hCoherent : engine.reader.Coherent engine.disk)
    {cacheCapacity : Nat}
    (hCache :
      engine.inner.payloadCache = .new cacheCapacity)
    {now : UInt64}
    (hInner : engine.inner.Recovered now log.entries)
    (hCreated :
      ∀ entry ∈ log.entries, entry.2.opType = .created) :
    engine.Reads log
      (fun id =>
        (KeyedLog.latest entryId log.entries id).map
          (fun entry => entry.2.payload)) := by
  refine ⟨hTracks, hCoherent, ?_, ?_⟩
  · intro id loc hLoc
    rcases hInner.latest_of_dataIndex hCreated hLoc with
      ⟨record, hLatest⟩
    rcases KeyedLog.latest_mem hLatest with ⟨hEntry, hId⟩
    refine ⟨record, hEntry, hId, ?_⟩
    have hOp := hCreated _ hEntry
    dsimp only at hOp
    simp only [hLatest, Option.map_some,
      Record.userPayload, hOp]
  · intro id payload hPayload
    simp [hCache, PayloadCache.new] at hPayload

/- Pops of a recovered log return its Created records. -/
theorem popAll_created
    {engine : Engine}
    {log : SegmentedLog}
    (hTracks : engine.inner.wal.Tracks engine.disk log)
    (hCoherent : engine.reader.Coherent engine.disk)
    {cacheCapacity : Nat}
    (hCache :
      engine.inner.payloadCache = .new cacheCapacity)
    {now : UInt64}
    (hInner : engine.inner.Recovered now log.entries)
    (hCreated :
      ∀ entry ∈ log.entries, entry.2.opType = .created)
    (hNodup : (log.entries.map entryId).Nodup)
    (consumerId : UInt32)
    (leaseTtlSecs : UInt64) :
    (engine.popAll consumerId now leaseTtlSecs
        log.entries.length).Perm
      (log.entries.map
        (fun entry => .ok (some (entry.2, 0)))) := by
  have hTasks := hInner.tasks_perm hCreated hNodup
  have hReads :=
    reads_of_created hTracks hCoherent hCache hInner hCreated
  have hLength := hTasks.length_eq
  rw [List.length_map] at hLength
  have hPops :=
    hReads.popAll_perm hInner.placed.ready_data consumerId
      now leaseTtlSecs hLength.symm
  have hEach :
      ∀ entry ∈ log.entries,
        poppedTask
            (fun id =>
              (KeyedLog.latest entryId log.entries id).map
                (fun entry => entry.2.payload))
            entry.2.pushedTask =
          .ok (some (entry.2, 0)) := by
    intro entry hEntry
    have hLatest :
        KeyedLog.latest entryId log.entries entry.2.id =
          some entry :=
      (KeyedLog.latest_eq_some_iff_of_nodup hNodup).mpr
        ⟨hEntry, rfl⟩
    have hOp := hCreated entry hEntry
    simp only [poppedTask, Record.pushedTask, hLatest,
      Option.map_some, Option.getD_some, ← hOp]
  refine hPops.trans ((hTasks.map _).trans ?_)
  rw [List.map_map]
  exact List.Perm.of_eq (List.map_congr_left hEach)

/- Admissible pushes with different ids are recovered. -/
theorem pushesRecovered_of_short
    {engine : Engine}
    {log : SegmentedLog}
    (hTracks : engine.inner.wal.Tracks engine.disk log)
    (hClean : engine.disk.Clean)
    (hEmpty : log.entries = [])
    {pushes : List (Bytes × UInt8)}
    (hShort :
      ∀ push ∈ pushes, push.1.length ≤ maxPayloadSize)
    (hCount : pushes.length ≤ 2 ^ 64)
    (maxSegmentSize : Option Nat)
    (cacheCapacity : Nat)
    (consumerId : UInt32)
    (now leaseTtlSecs : UInt64) :
    engine.PushesRecovered pushes maxSegmentSize
      cacheCapacity consumerId now leaseTtlSecs := by
  rcases tracks_pushAll hTracks hClean hShort with
    ⟨written, hWritten, hWrittenClean, hRecords⟩
  rw [hEmpty, List.map_nil, List.nil_append] at hRecords
  rcases reopen_intact_spec hWritten.segmentsOn
    (by simp [SegmentedLog.segments]) hWrittenClean
    maxSegmentSize cacheCapacity now with
    ⟨read, next, hSegments, hReopen, hNext, _, hCoherent,
      hCache, hInner⟩
  have hEntries :
      entriesOf written.segments = read.entries := by
    rw [← hSegments]
    rfl
  have hRead :
      read.entries.map Prod.snd =
        (engine.pushAll pushes).1 := by
    rw [← hEntries]
    exact hRecords
  rw [hEntries] at hInner
  have hCreated :
      ∀ entry ∈ read.entries, entry.2.opType = .created := by
    intro entry hEntry
    apply opType_of_mem_pushAll
    rw [← hRead]
    exact List.mem_map_of_mem hEntry
  have hNodup : (read.entries.map entryId).Nodup := by
    have hIds :=
      (engine.pushAll_ids_nodup_iff pushes).mpr hCount
    rw [← hRead, List.map_map] at hIds
    exact hIds
  refine ⟨?_, ?_⟩
  · rw [hReopen, ← hRead, List.map_map]
    exact hInner.tasks_perm hCreated hNodup
  · have hLength : pushes.length = read.entries.length := by
      rw [← engine.length_pushAll pushes, ← hRead,
        List.length_map]
    rw [hReopen, hLength, ← hRead, List.map_map]
    exact popAll_created hNext hCoherent hCache hInner
      hCreated hNodup consumerId leaseTtlSecs

/- What is recovered was within the limit of the readers. -/
theorem PushesRecovered.short
    {engine : Engine}
    {pushes : List (Bytes × UInt8)}
    {maxSegmentSize : Option Nat}
    {cacheCapacity : Nat}
    {consumerId : UInt32}
    {now leaseTtlSecs : UInt64}
    (hRecovered :
      engine.PushesRecovered pushes maxSegmentSize
        cacheCapacity consumerId now leaseTtlSecs) :
    ∀ push ∈ pushes, push.1.length ≤ maxPayloadSize := by
  intro push hPush
  rw [← engine.map_payload_pushAll pushes] at hPush
  rcases List.mem_map.mp hPush with ⟨record, hRecord, rfl⟩
  rcases reopen_any_spec (engine.pushAll pushes).2.disk
    maxSegmentSize cacheCapacity now with
    ⟨next, hReopen, _, _, _, hCache, _⟩
  have hPops := hRecovered.2
  rw [hReopen] at hPops
  have hPopped :
      .ok (some (record, 0)) ∈
        next.popAll consumerId now leaseTtlSecs
          pushes.length :=
    hPops.mem_iff.mpr
      (List.mem_map.mpr ⟨record, hRecord, rfl⟩)
  have hEmpty :
      next.inner.payloadCache.entries = ∅ := by
    rw [hCache]
    rfl
  exact length_of_mem_popAll hEmpty hPopped

/- Recovered tasks are told apart by their ids. -/
theorem PushesRecovered.length_le
    {engine : Engine}
    {pushes : List (Bytes × UInt8)}
    {maxSegmentSize : Option Nat}
    {cacheCapacity : Nat}
    {consumerId : UInt32}
    {now leaseTtlSecs : UInt64}
    (hRecovered :
      engine.PushesRecovered pushes maxSegmentSize
        cacheCapacity consumerId now leaseTtlSecs) :
    pushes.length ≤ 2 ^ 64 := by
  rcases reopen_any_spec (engine.pushAll pushes).2.disk
    maxSegmentSize cacheCapacity now with
    ⟨next, hReopen, _, _, _, _, hInner⟩
  have hTasks := hRecovered.1
  rw [hReopen] at hTasks
  have hNodup :=
    (hTasks.map TaskRef.id).nodup_iff.mp
      hInner.placed.ready_nodup
  rw [List.map_map] at hNodup
  exact (engine.pushAll_ids_nodup_iff pushes).mp hNodup

end Engine

/-
  Pushes are recovered exactly when no payload is longer
  than what the readers accept, and no id is given twice.
-/
theorem pushes_recovered_iff [Hasher]
    (maxSegmentSize reopenedSize : Option Nat)
    (cacheCapacity reopenedCapacity : Nat)
    (start now leaseTtlSecs : UInt64)
    (consumerId : UInt32)
    (pushes : List (Bytes × UInt8)) :
    (Engine.reopen FileSystem.empty maxSegmentSize
        cacheCapacity start).2.PushesRecovered pushes
        reopenedSize reopenedCapacity consumerId now
        leaseTtlSecs ↔
      (∀ push ∈ pushes, push.1.length ≤ maxPayloadSize) ∧
        pushes.length ≤ 2 ^ 64 := by
  constructor
  · intro hRecovered
    exact ⟨hRecovered.short, hRecovered.length_le⟩
  · rintro ⟨hShort, hCount⟩
    rcases Engine.reopen_empty_spec maxSegmentSize
      cacheCapacity start with
      ⟨engine, hOpen, hTracks, hClean, _⟩
    rw [hOpen]
    exact Engine.pushesRecovered_of_short hTracks hClean rfl
      hShort hCount reopenedSize reopenedCapacity
      consumerId now leaseTtlSecs

/- A payload one byte over the limit is accepted and lost. -/
theorem oversized_push_not_recovered :
    ((Engine.reopen FileSystem.empty none 4 0).2.pushAll
        [(List.replicate (maxPayloadSize + 1) 0, 0),
          ([1], 0)]).1.length = 2 ∧
      ¬ (Engine.reopen FileSystem.empty none 4
          0).2.PushesRecovered
        [(List.replicate (maxPayloadSize + 1) 0, 0),
          ([1], 0)] none 4 7 0 30 := by
  refine ⟨Engine.length_pushAll _ _, ?_⟩
  intro hRecovered
  have hShort :=
    hRecovered.short
      (List.replicate (maxPayloadSize + 1) 0, 0) (by simp)
  rw [List.length_replicate] at hShort
  omega

end Nesso
