import Nesso.Queue.StoredPayloads

/-
  Engines that serve the pushed payloads: their log is on
  disk, open handles are current, and the data index points
  at the payloads.

  Key definitions include:
    * `Change.Known`
    * `Change.payloads`
    * `Engine.Serves`
    * `Engine.Continues`
    * `Engine.popResult`

  The operations keep such an engine:
    * `Engine.Serves.perform`
    * `Engine.Serves.push`
    * `Engine.Serves.popLocked`
    * `Engine.Serves.expireAll`
    * `Engine.Serves.compactPhase2`

  What a pop returns:
    * `Engine.Reads.popAndLease_eq`
-/

------------------------------------------------------------
-- Known Changes
------------------------------------------------------------

namespace Nesso

namespace Change

/- A change that concerns ids the engine has handed out. -/
def Known (inner : EngineState) : Change → Prop
| add _ payload =>
    inner.IdsLeft ∧ payload.length ≤ maxUserPayloadSize
| grant task rest _ _ =>
    inner.readyQueue.pop = some (task, rest)
| finish id _ _ => id < inner.nextId
| retry id _ _ failureType =>
    id < inner.nextId ∧
      (failureType = .nacked ∨ failureType = .expired)

/- The pushed payloads after a change. -/
def payloads
    (inner : EngineState)
    (before : UInt64 → Option Bytes) :
    Change → UInt64 → Option Bytes
| add _ payload =>
    Function.update before inner.nextId (some payload)
| _ => before

/- A failed delivery of a known task. -/
theorem known_failure
    {inner : EngineState}
    {id : UInt64}
    (hKnown : id < inner.nextId)
    (priority retries : UInt8)
    {failureType : OpType}
    (hType :
      failureType = .nacked ∨ failureType = .expired) :
    (failure id priority retries failureType).Known
      inner := by
  unfold failure
  split
  · exact hKnown
  · exact ⟨hKnown, hType⟩

/- A failed delivery pushes nothing. -/
theorem payloads_failure
    (inner : EngineState)
    (before : UInt64 → Option Bytes)
    (id : UInt64)
    (priority retries : UInt8)
    (failureType : OpType) :
    payloads inner before
        (failure id priority retries failureType) =
      before := by
  unfold failure
  split <;> rfl

theorem Known.fits
    {inner : EngineState}
    {change : Change}
    (hKnown : change.Known inner) :
    (change.record inner).Fits := by
  apply record_fits
  rintro priority payload rfl
  have hShort := hKnown.2
  have hBound : maxUserPayloadSize ≤ maxPayloadSize :=
    Nat.sub_le _ _
  omega

/- Changes never take an id back. -/
theorem Known.nextId_le
    {inner : EngineState}
    {change : Change}
    (hKnown : change.Known inner)
    {loc : Loc} :
    inner.nextId ≤ (change.apply inner loc).nextId := by
  cases change with
  | add priority payload =>
      exact UInt64.le_of_lt
        (UInt64.lt_add_one_of_ne hKnown.1)
  | _ => exact UInt64.le_refl _

end Change

/- Every known change keeps the payloads reachable. -/
theorem Stored.change
    {payloads : UInt64 → Option Bytes}
    {inner : EngineState}
    {entries : List (Loc × Record)}
    (hStored : Stored payloads inner entries)
    {change : Change}
    (hKnown : change.Known inner)
    (loc : Loc) :
    Stored (change.payloads inner payloads)
      (change.apply inner loc)
      (entries ++ [(loc, change.record inner)]) := by
  cases change with
  | add priority payload =>
      apply hStored.add hKnown.1 priority hKnown.2
      · simp [Change.payloads]
      · intro id hId
        simp [Change.payloads, hId]
  | grant task rest consumerId expireTimestamp =>
      exact hStored.grant hKnown consumerId
        expireTimestamp loc
  | finish id priority deadRetries =>
      exact hStored.finish hKnown priority deadRetries loc
  | retry id priority retries failureType =>
      exact hStored.retry hKnown.1 priority retries
        hKnown.2 loc

/- Only the queue's maps and cached payloads matter. -/
theorem Stored.of_fields_eq
    {payloads : UInt64 → Option Bytes}
    {inner next : EngineState}
    {entries : List (Loc × Record)}
    (hStored : Stored payloads inner entries)
    (hData : next.dataIndex = inner.dataIndex)
    (hNextId : next.nextId = inner.nextId)
    (hReady : next.readyQueue = inner.readyQueue)
    (hLeased : next.leased = inner.leased)
    (hCached :
      ∀ (id : UInt64) (payload : Bytes),
        next.payloadCache.entries[id]? = some payload →
          inner.payloadCache.entries[id]? =
            some payload) :
    Stored payloads next entries := by
  constructor
  · rw [hData]
    exact hStored.data
  · rw [hNextId]
    intro id payload hPayload
    exact hStored.cached id payload
      (hCached id payload hPayload)
  · rw [hNextId]
    exact hStored.entries_known
  · rw [hNextId, hReady]
    exact hStored.ready_known
  · rw [hNextId, hLeased]
    exact hStored.leased_known
  · exact hStored.short

end Nesso

------------------------------------------------------------
-- Serving Engines
------------------------------------------------------------

namespace Nesso

/- Appending closes at most one more segment. -/
theorem SegmentedLog.closed_prefix_append
    (log : SegmentedLog)
    (rotates : Bool)
    (record : Record) :
    log.closed <+: (log.append rotates record).closed := by
  unfold SegmentedLog.append
  cases rotates with
  | true => exact List.prefix_append _ _
  | false => exact List.prefix_refl _

namespace Engine

variable [Hasher]

/- The engine's log is on disk and holds the payloads. -/
structure Serves
    (engine : Engine)
    (log : SegmentedLog)
    (payloads : UInt64 → Option Bytes) : Prop where
  tracks : engine.inner.wal.Tracks engine.disk log
  coherent : engine.reader.Coherent engine.disk
  stored : Stored payloads engine.inner log.entries

/-
  Closed segments and compaction files are left alone, and
  no id is taken back.
-/
structure Continues
    (engine : Engine)
    (log : SegmentedLog)
    (next : Engine)
    (nextLog : SegmentedLog) : Prop where
  nextId_le : engine.inner.nextId ≤ next.inner.nextId
  closed_prefix : log.closed <+: nextLog.closed
  read_eq :
    ∀ name, FileName.segmentId? name = none →
      next.disk.read name = engine.disk.read name

omit [Hasher] in
theorem Continues.refl
    (engine : Engine)
    (log : SegmentedLog) :
    engine.Continues log engine log :=
  ⟨UInt64.le_refl _, List.prefix_refl _, fun _ _ => rfl⟩

omit [Hasher] in
theorem Continues.trans
    {engine middle next : Engine}
    {log middleLog nextLog : SegmentedLog}
    (hFirst : engine.Continues log middle middleLog)
    (hSecond : middle.Continues middleLog next nextLog) :
    engine.Continues log next nextLog where
  nextId_le :=
    UInt64.le_trans hFirst.nextId_le hSecond.nextId_le
  closed_prefix :=
    hFirst.closed_prefix.trans hSecond.closed_prefix
  read_eq := by
    intro name hName
    rw [hSecond.read_eq name hName,
      hFirst.read_eq name hName]

/- Some longer log that an engine serves. -/
def ServesOn
    (engine : Engine)
    (log : SegmentedLog)
    (next : Engine)
    (payloads : UInt64 → Option Bytes) : Prop :=
  ∃ nextLog,
    next.Serves nextLog payloads ∧
      engine.Continues log next nextLog

namespace Serves

variable {engine : Engine} {log : SegmentedLog}
variable {payloads : UInt64 → Option Bytes}

theorem servesOn
    (hServes : engine.Serves log payloads) :
    engine.ServesOn log engine payloads :=
  ⟨log, hServes, .refl engine log⟩

/- A known change keeps the engine serving. -/
theorem perform
    (hServes : engine.Serves log payloads)
    {change : Change}
    (hKnown : change.Known engine.inner) :
    (engine.perform change).Serves
        (log.append engine.inner.wal.rotates
          (change.record engine.inner))
        (change.payloads engine.inner payloads) ∧
      engine.Continues log (engine.perform change)
        (log.append engine.inner.wal.rotates
          (change.record engine.inner)) := by
  rcases tracks_perform hServes.tracks hKnown.fits with
    ⟨hTracks, hExtends, _⟩
  refine ⟨⟨hTracks, hExtends.coherent hServes.coherent, ?_⟩,
    ⟨hKnown.nextId_le,
      SegmentedLog.closed_prefix_append _ _ _,
      fun name hName => hExtends.read_other hName⟩⟩
  rw [hServes.tracks.entries_append]
  exact (hServes.stored.change hKnown
    engine.inner.wal.nextLoc).of_fields_eq
      rfl rfl rfl rfl (fun _ _ hCached => hCached)

/- Counting a cache hit or miss changes nothing else. -/
theorem touchCache
    (hServes : engine.Serves log payloads)
    (id : UInt64) :
    (engine.touchCache id).Serves log payloads where
  tracks := hServes.tracks
  coherent := hServes.coherent
  stored :=
    hServes.stored.of_fields_eq rfl rfl rfl rfl
      (by simp [Engine.touchCache])

theorem push
    (hServes : engine.Serves log payloads)
    (hLeft : engine.inner.IdsLeft)
    {payload : Bytes}
    (hShort : payload.length ≤ maxUserPayloadSize)
    (priority : UInt8) :
    engine.ServesOn log
      (engine.push none payload priority).2
      (Function.update payloads engine.inner.nextId
        (some payload)) := by
  rw [push_none]
  exact ⟨_,
    hServes.perform
      (show (Change.add priority payload).Known
        engine.inner from ⟨hLeft, hShort⟩)⟩

theorem popLocked
    (hServes : engine.Serves log payloads)
    (consumerId : UInt32)
    (now leaseTtlSecs : UInt64) :
    engine.ServesOn log
      (engine.popLocked none consumerId now
        leaseTtlSecs).2 payloads := by
  rw [popLocked_none]
  cases hPop : engine.inner.readyQueue.pop with
  | none => exact hServes.servesOn
  | some popped =>
      rcases popped with ⟨task, rest⟩
      rcases hServes.perform
        (show (Change.grant task rest consumerId
          (now + leaseTtlSecs)).Known engine.inner
          from hPop) with ⟨hNext, hContinues⟩
      simp only
      split
      · exact ⟨_, hNext, hContinues⟩
      · exact ⟨_, hNext.touchCache task.id,
          hContinues.nextId_le, hContinues.closed_prefix,
          hContinues.read_eq⟩

theorem failure
    (hServes : engine.Serves log payloads)
    {id : UInt64}
    (hKnown : id < engine.inner.nextId)
    (priority retries : UInt8)
    {failureType : OpType}
    (hType :
      failureType = .nacked ∨ failureType = .expired) :
    engine.ServesOn log
      (engine.perform
        (.failure id priority retries failureType))
      payloads := by
  rcases hServes.perform
    (Change.known_failure hKnown priority retries hType)
    with ⟨hNext, hContinues⟩
  rw [Change.payloads_failure] at hNext
  exact ⟨_, hNext, hContinues⟩

theorem ack
    (hServes : engine.Serves log payloads)
    (id : UInt64)
    (consumerId : UInt32) :
    engine.ServesOn log (engine.ack none id consumerId).2
      payloads := by
  rw [ack_none]
  cases hLease : engine.inner.leased[id]? with
  | none => exact hServes.servesOn
  | some lease =>
      simp only
      split
      · have hKnown : id < engine.inner.nextId :=
          hServes.stored.leased_known id
            (Std.ExtTreeMap.isSome_getElem?_iff_mem.mp
              (by simp [hLease]))
        exact ⟨_, hServes.perform
          (show (Change.finish id lease.priority none).Known
            engine.inner from hKnown)⟩
      · exact hServes.servesOn

theorem nack
    (hServes : engine.Serves log payloads)
    (id : UInt64)
    (consumerId : UInt32) :
    engine.ServesOn log (engine.nack none id consumerId).2
      payloads := by
  rw [nack_none]
  cases hLease : engine.inner.leased[id]? with
  | none => exact hServes.servesOn
  | some lease =>
      simp only
      split
      · have hKnown : id < engine.inner.nextId :=
          hServes.stored.leased_known id
            (Std.ExtTreeMap.isSome_getElem?_iff_mem.mp
              (by simp [hLease]))
        exact hServes.failure hKnown _ _ (.inl rfl)
      · exact hServes.servesOn

/- The worker may fail any known tasks, leased or not. -/
theorem processExpired
    (hServes : engine.Serves log payloads)
    {tasks : List ExpiredTask}
    (hKnown :
      ∀ task ∈ tasks, task.id < engine.inner.nextId) :
    engine.ServesOn log
      (engine.processExpired
        (tasks.map (fun task => (none, task))))
      payloads := by
  induction tasks generalizing engine log with
  | nil => exact hServes.servesOn
  | cons task tasks ih =>
      rcases hServes.failure
        (hKnown task (by simp)) task.priority task.retries
        (.inr rfl) with ⟨middleLog, hMiddle, hFirst⟩
      have hRest :
          ∀ other ∈ tasks,
            other.id <
              (engine.perform
                (.failure task.id task.priority
                  task.retries .expired)).inner.nextId := by
        intro other hOther
        exact UInt64.lt_of_lt_of_le
          (hKnown other (by simp [hOther]))
          hFirst.nextId_le
      rcases ih hMiddle hRest with
        ⟨nextLog, hNext, hSecond⟩
      rw [← expireTask_none] at hNext hSecond hFirst
      exact ⟨nextLog, hNext, hFirst.trans hSecond⟩

/- Reading a payload only opens file handles. -/
theorem popRead
    (hServes : engine.Serves log payloads)
    (ticket : PopTicket) :
    engine.ServesOn log (engine.popRead ticket).2
      payloads := by
  rcases popRead_snd hServes.coherent ticket with
    ⟨reader, hNext, hReader⟩
  rw [hNext]
  exact ⟨log, ⟨hServes.tracks, hReader, hServes.stored⟩,
    UInt64.le_refl _, List.prefix_refl _, fun _ _ => rfl⟩

/- Any cache of pushed payloads will do. -/
theorem withCache
    (hServes : engine.Serves log payloads)
    {cache : PayloadCache}
    (hCache :
      ∀ (id : UInt64) (payload : Bytes),
        cache.entries[id]? = some payload →
          id < engine.inner.nextId ∧
            payloads id = some payload) :
    ({ engine with
      inner :=
        { engine.inner with
          payloadCache := cache } } : Engine).Serves log
      payloads where
  tracks := hServes.tracks
  coherent := hServes.coherent
  stored :=
    { data := hServes.stored.data
      cached := hCache
      entries_known := hServes.stored.entries_known
      ready_known := hServes.stored.ready_known
      leased_known := hServes.stored.leased_known
      short := hServes.stored.short }

end Serves

end Engine

end Nesso

------------------------------------------------------------
-- Compacting a Serving Engine
------------------------------------------------------------

namespace Nesso

namespace Engine

variable [Hasher]

variable {engine : Engine} {log : SegmentedLog}
variable {payloads : UInt64 → Option Bytes}
variable {closed rest : List Segment}

/- The plan names the closed segments, if there are any. -/
theorem compactPlan_eq
    (hTracks : engine.inner.wal.Tracks engine.disk log) :
    engine.compactPlan =
      if log.closed = [] then none
      else some (log.closed.map Prod.fst) := by
  have hSegments := hTracks.segmentsOn
  have hFilter :
      engine.disk.segmentIds.filter
          (· < engine.inner.wal.activeSegmentId) =
        log.closed.map Prod.fst := by
    rw [hSegments.segmentIds_eq,
      hTracks.activeSegmentId_eq,
      SegmentedLog.segments, List.map_append,
      List.filter_append]
    have hBelow :
        (log.closed.map Prod.fst).filter
            (· < log.activeId) =
          log.closed.map Prod.fst := by
      rw [List.filter_eq_self]
      intro segmentId hId
      rcases List.mem_map.mp hId with
        ⟨segment, hSegment, rfl⟩
      exact decide_eq_true
        (hSegments.closed_lt_activeId hSegment)
    rw [hBelow]
    simp
  simp only [compactPlan, Wal.planCompaction, hFilter,
    List.map_eq_nil_iff]

/- Phase 1 leaves the log and its inodes alone. -/
theorem tracks_compactPhase1
    (hTracks : engine.inner.wal.Tracks engine.disk log)
    (hClosed : log.closed = closed ++ rest) :
    ∃ disk,
      engine.compactPhase1 (closed.map Prod.fst) =
          (.ok (Wal.newOffsets
            (compacted (closed.flatMap Prod.snd))),
            { engine with disk := disk }) ∧
        engine.inner.wal.Tracks disk log ∧
        disk.read .compacting =
          some (encodeRecords
            (compacted (closed.flatMap Prod.snd))) ∧
        ∀ segmentId,
          disk.lookup (.wal segmentId) =
            engine.disk.lookup (.wal segmentId) := by
  have hSegments :
      SegmentsOn engine.disk
        (closed ++
          (rest ++ [(log.activeId, log.active)])) := by
    rw [← List.append_assoc, ← hClosed]
    exact hTracks.segmentsOn
  rcases Wal.executeCompactionPhase1_spec hSegments with
    ⟨disk, hPhase, hNext, hTemp, _, hLookup⟩
  refine ⟨disk, ?_, ?_, hTemp, hLookup⟩
  · simp [Engine.compactPhase1, hPhase, Except.map]
  · constructor
    · rw [← List.append_assoc, ← hClosed] at hNext
      exact hNext
    · exact hTracks.activeSegmentId_eq
    · rw [hLookup]
      exact hTracks.activeFile_eq
    · exact hTracks.currentSize_eq

/- Phase 2 moves the engine to the compacted log. -/
theorem tracks_compactPhase2
    (hTracks : engine.inner.wal.Tracks engine.disk log)
    (hClosed : log.closed = closed ++ rest)
    (hSome : closed ≠ [])
    (hTemp :
      engine.disk.read .compacting =
        some (encodeRecords
          (compacted (closed.flatMap Prod.snd))))
    (hFits :
      ∀ record ∈ compacted (closed.flatMap Prod.snd),
        record.Fits) :
    ∃ disk,
      engine.compactPhase2 (closed.map Prod.fst)
          (Wal.newOffsets
            (compacted (closed.flatMap Prod.snd))) =
          (.ok (),
            { disk := disk
              inner :=
                engine.inner.remap (closed.map Prod.fst)
                  (Wal.newOffsets
                    (compacted (closed.flatMap Prod.snd)))
              reader := engine.reader.clearCache }) ∧
        (engine.inner.remap (closed.map Prod.fst)
          (Wal.newOffsets
            (compacted
              (closed.flatMap Prod.snd)))).wal.Tracks disk
          { log with
            closed :=
              (1, compacted (closed.flatMap Prod.snd)) ::
                rest } ∧
        disk.Clean := by
  have hSegments :
      SegmentsOn engine.disk
        (closed ++
          (rest ++ [(log.activeId, log.active)])) := by
    rw [← List.append_assoc, ← hClosed]
    exact hTracks.segmentsOn
  rcases Wal.executeCompactionPhase2_spec hSegments hSome
    hTemp hFits with ⟨disk, hPhase, hNext, hClean, hLookup⟩
  refine ⟨disk, ?_, ?_, hClean⟩
  · simp [Engine.compactPhase2, hPhase]
  · constructor
    · exact hNext
    · rw [EngineState.remap_eq]
      exact hTracks.activeSegmentId_eq
    · rw [EngineState.remap_eq]
      have hActive :=
        hLookup (log.activeId, log.active) (by simp)
      rw [hActive]
      exact hTracks.activeFile_eq
    · rw [EngineState.remap_eq]
      exact hTracks.currentSize_eq

namespace Serves

/- Phase 1 leaves the engine serving its log. -/
theorem compactPhase1
    (hServes : engine.Serves log payloads)
    (hClosed : log.closed = closed ++ rest) :
    ∃ next,
      engine.compactPhase1 (closed.map Prod.fst) =
          (.ok (Wal.newOffsets
            (compacted (closed.flatMap Prod.snd))),
            next) ∧
        next.Serves log payloads ∧
        next.inner = engine.inner ∧
        next.disk.read .compacting =
          some (encodeRecords
            (compacted (closed.flatMap Prod.snd))) := by
  rcases tracks_compactPhase1 hServes.tracks hClosed with
    ⟨disk, hPhase, hTracks, hTemp, hLookup⟩
  refine ⟨_, hPhase, ⟨hTracks, ?_, hServes.stored⟩, rfl,
    hTemp⟩
  intro handle hHandle
  rw [hLookup]
  exact hServes.coherent handle hHandle

/- Phase 2 moves the engine to the compacted log. -/
theorem compactPhase2
    (hServes : engine.Serves log payloads)
    (hClosed : log.closed = closed ++ rest)
    (hSome : closed ≠ [])
    (hTemp :
      engine.disk.read .compacting =
        some (encodeRecords
          (compacted (closed.flatMap Prod.snd)))) :
    ∃ next,
      engine.compactPhase2 (closed.map Prod.fst)
          (Wal.newOffsets
            (compacted (closed.flatMap Prod.snd))) =
          (.ok (), next) ∧
        next.Serves
          { log with
            closed :=
              (1, compacted (closed.flatMap Prod.snd)) ::
                rest }
          payloads ∧
        next.inner =
          engine.inner.remap (closed.map Prod.fst)
            (Wal.newOffsets
              (compacted (closed.flatMap Prod.snd))) ∧
        next.disk.Clean := by
  have hSplit :
      log.segments =
        closed ++ (rest ++ [(log.activeId, log.active)]) := by
    rw [← List.append_assoc, ← hClosed]
    rfl
  have hSegments := hServes.tracks.segmentsOn
  have hStored := hServes.stored
  rw [SegmentedLog.entries, hSplit] at hStored
  rw [hSplit] at hSegments
  have hFits :
      ∀ record ∈ compacted (closed.flatMap Prod.snd),
        record.Fits := by
    intro record hRecord
    exact (compacted_short
      (fun record hMem =>
        (hStored.closed_records hSegments record hMem).1)
      (fun record hMem =>
        (hStored.closed_records hSegments record hMem).2.2)
      record hRecord).1
  rcases tracks_compactPhase2 hServes.tracks hClosed hSome
    hTemp hFits with ⟨disk, hPhase, hTracks, hClean⟩
  exact ⟨_, hPhase,
    ⟨hTracks, WalReader.coherent_new _,
      hStored.compact hSegments⟩, rfl, hClean⟩

end Serves

end Engine

end Nesso

------------------------------------------------------------
-- Results of Pops
------------------------------------------------------------

namespace Nesso

namespace Engine

variable [Hasher]

omit [Hasher] in
/- What a pop returns when payloads are served. -/
def popResult
    (engine : Engine)
    (payloads : UInt64 → Option Bytes) :
    Except IoError (Option (Record × UInt8)) :=
  match engine.inner.readyQueue.pop with
  | none => .ok none
  | some (task, _) =>
      match engine.inner.dataIndex[task.id]? with
      | none => .error ⟨.notFound, "Missing data offset"⟩
      | some _ =>
          .ok (some
            (⟨task.id, .created, task.priority,
              (payloads task.id).getD []⟩, task.retries))

/- The data index points at records with the payloads. -/
structure Reads
    (engine : Engine)
    (log : SegmentedLog)
    (payloads : UInt64 → Option Bytes) : Prop where
  tracks : engine.inner.wal.Tracks engine.disk log
  coherent : engine.reader.Coherent engine.disk
  data :
    ∀ (id : UInt64) (loc : Loc),
      engine.inner.dataIndex[id]? = some loc →
        ∃ record,
          (loc, record) ∈ log.entries ∧ record.id = id ∧
            payloads id = some record.userPayload
  cached :
    ∀ (id : UInt64) (payload : Bytes),
      engine.inner.payloadCache.entries[id]? =
          some payload →
        payloads id = some payload

theorem Serves.reads
    {engine : Engine}
    {log : SegmentedLog}
    {payloads : UInt64 → Option Bytes}
    (hServes : engine.Serves log payloads) :
    engine.Reads log payloads := by
  constructor
  · exact hServes.tracks
  · exact hServes.coherent
  · intro id loc hLoc
    rcases hServes.stored.data id loc hLoc with
      ⟨payload, hPayload, hAt⟩
    rcases hAt.exists_record with
      ⟨record, hEntry, hId, hUser⟩
    refine ⟨record, hEntry, hId, ?_⟩
    rw [hUser]
    exact hPayload
  · intro id payload hPayload
    exact (hServes.stored.cached id payload hPayload).2

namespace Reads

variable {engine : Engine} {log : SegmentedLog}
variable {payloads : UInt64 → Option Bytes}

/- Every indexed payload can be read back. -/
theorem readAt_of_data
    (hReads : engine.Reads log payloads)
    {reader : WalReader}
    (hReader : reader.Coherent engine.disk)
    {id : UInt64}
    {loc : Loc}
    (hLoc : engine.inner.dataIndex[id]? = some loc) :
    ∃ record,
      (reader.readAt engine.disk
          (ofLex loc).1 (ofLex loc).2).1 =
          .ok (some record) ∧
        record.id = id ∧
        payloads id = some record.userPayload := by
  rcases hReads.data id loc hLoc with
    ⟨record, hEntry, hId, hPayload⟩
  exact ⟨record,
    hReads.tracks.segmentsOn.readAt_of_mem_entries hReader
      hEntry, hId, hPayload⟩

/- The unlocked section of a pop, run undisturbed. -/
theorem popRead_eq
    (hReads : engine.Reads log payloads)
    {ticket : PopTicket}
    (hLoc :
      engine.inner.dataIndex[ticket.id]? =
        some ticket.dataLoc)
    (hCached :
      ∀ payload, ticket.cachedPayload = some payload →
        payloads ticket.id = some payload) :
    (engine.popRead ticket).1 =
      .ok ⟨ticket.id, .created, ticket.priority,
        (payloads ticket.id).getD []⟩ := by
  unfold Engine.popRead
  cases hCache : ticket.cachedPayload with
  | some payload =>
      rw [hCached payload hCache]
      rfl
  | none =>
      rcases hReads.readAt_of_data hReads.coherent hLoc with
        ⟨record, hRead, _, hPayload⟩
      simp only [readPayload, hRead, readOutcome,
        hPayload]
      rfl

/- A lease leaves the data index and the records alone. -/
theorem grant
    (hReads : engine.Reads log payloads)
    (task : TaskRef)
    (rest : ReadyQueue)
    (consumerId : UInt32)
    (expireTimestamp : UInt64) :
    ∃ nextLog,
      ((engine.perform
        (.grant task rest consumerId
          expireTimestamp)).touchCache task.id).Reads
        nextLog payloads := by
  have hFits :
      ((Change.grant task rest consumerId
        expireTimestamp).record engine.inner).Fits :=
    Change.record_fits (by simp)
  rcases tracks_perform hReads.tracks hFits with
    ⟨hTracks, hExtends, _⟩
  refine ⟨_, hTracks, hExtends.coherent hReads.coherent,
    ?_, ?_⟩
  · intro id loc hLoc
    rcases hReads.data id loc hLoc with
      ⟨record, hEntry, hRecord⟩
    refine ⟨record, ?_, hRecord⟩
    rw [hReads.tracks.entries_append]
    exact List.mem_append_left _ hEntry
  · intro id payload hPayload
    apply hReads.cached
    simpa [Engine.touchCache, Engine.perform, Change.apply]
      using hPayload

/- A pop returns the payload that was pushed. -/
theorem popAndLease_eq
    (hReads : engine.Reads log payloads)
    (consumerId : UInt32)
    (now leaseTtlSecs : UInt64) :
    (engine.popAndLease none consumerId now
        leaseTtlSecs).1 =
      engine.popResult payloads := by
  rw [popAndLease, popLocked_none, popResult]
  cases hPop : engine.inner.readyQueue.pop with
  | none => rfl
  | some popped =>
      rcases popped with ⟨task, rest⟩
      cases hData : engine.inner.dataIndex[task.id]? with
      | none => simp only [hData]
      | some dataLoc =>
          rcases hReads.grant task rest consumerId
            (now + leaseTtlSecs) with ⟨nextLog, hNext⟩
          simp only [hData]
          rw [hNext.popRead_eq]
          · rfl
          · exact hData
          · intro payload hPayload
            exact hReads.cached task.id payload hPayload

end Reads

end Engine

end Nesso
