import Nesso.Queue.Placement
import Nesso.Recovery.Live
import Nesso.Recovery.Recover

/-
  Queues that live through compactions and restarts.

  Key definitions include:
    * `Service`
    * `LifeOp`
    * `Service.step`
    * `Engine.Keeps`
    * `Engine.DataCurrent`

  The operations keep the payloads and places of all tasks:
    * `Engine.Keeps.perform`
    * `Engine.Keeps.compact`
    * `Engine.Keeps.reopen`
-/

------------------------------------------------------------
-- The Life of a Queue
------------------------------------------------------------

namespace Nesso

/- An engine and the events of its directory so far. -/
structure Service where
  engine : Engine
  history : List Event

/- Whole client operations, and restarts at a given time. -/
inductive LifeOp where
| push (fault : Option AppendFault)
    (payload : Bytes) (priority : UInt8)
| popAndLease (fault : Option AppendFault)
    (consumerId : UInt32) (now leaseTtlSecs : UInt64)
| ack (fault : Option AppendFault)
    (id : UInt64) (consumerId : UInt32)
| nack (fault : Option AppendFault)
    (id : UInt64) (consumerId : UInt32)
| compact
| restart (maxSegmentSize : Option Nat)
    (cacheCapacity : Nat) (now : UInt64)

namespace Service

variable [Hasher]

/- The delivery that a pop reports to its caller. -/
def deliveries
    (result :
      Except IoError (Option (Record × UInt8))) :
    List Event :=
  match result with
  | .ok (some (record, _)) => [.leased record.id]
  | _ => []

/- A restart that fails leaves no service behind. -/
def restart
    (service : Service)
    (maxSegmentSize : Option Nat)
    (cacheCapacity : Nat)
    (now : UInt64) : Option Service :=
  match Engine.reopen service.engine.disk maxSegmentSize
      cacheCapacity now with
  | (.ok (), next) =>
      some { engine := next, history := service.history }
  | (.error _, _) => none

def step
    (service : Service) : LifeOp → Option Service
| .push fault payload priority =>
    let out := service.engine.push fault payload priority
    some
      { engine := out.2
        history :=
          service.history ++
            System.eventIf out.1 (fun id =>
              .pushed id priority payload) }
| .popAndLease fault consumerId now leaseTtlSecs =>
    let out :=
      service.engine.popAndLease fault consumerId now
        leaseTtlSecs
    some
      { engine := out.2
        history := service.history ++ deliveries out.1 }
| .ack fault id consumerId =>
    let out := service.engine.ack fault id consumerId
    some
      { engine := out.2
        history :=
          service.history ++
            System.eventIf out.1 (fun _ => .acked id) }
| .nack fault id consumerId =>
    let out := service.engine.nack fault id consumerId
    some
      { engine := out.2
        history :=
          service.history ++
            System.eventIf out.1 (fun _ => .nacked id) }
| .compact =>
    some { service with engine := service.engine.compact.2 }
| .restart maxSegmentSize cacheCapacity now =>
    service.restart maxSegmentSize cacheCapacity now

/- An engine opened on an empty directory. -/
def start
    (maxSegmentSize : Option Nat)
    (cacheCapacity : Nat)
    (now : UInt64) : Service where
  engine :=
    (Engine.reopen FileSystem.empty maxSegmentSize
      cacheCapacity now).2
  history := []

end Service

end Nesso

------------------------------------------------------------
-- Keeping Payloads and Places
------------------------------------------------------------

namespace Nesso

namespace Engine

variable [Hasher]

/- Payloads are served, tasks are placed, nothing is left. -/
structure Keeps
    (engine : Engine)
    (log : SegmentedLog)
    (payloads : UInt64 → Option Bytes) : Prop where
  serves : engine.Serves log payloads
  placed : Placed engine.inner log.entries
  clean : engine.disk.Clean

namespace Keeps

variable {engine : Engine} {log : SegmentedLog}
variable {payloads : UInt64 → Option Bytes}

/- A known change that keeps the tasks placed. -/
theorem perform
    (hKeeps : engine.Keeps log payloads)
    {change : Change}
    (hKnown : change.Known engine.inner)
    (hPlaced :
      Placed
        (change.apply engine.inner engine.inner.wal.nextLoc)
        (log.entries ++
          [(engine.inner.wal.nextLoc,
            change.record engine.inner)])) :
    (engine.perform change).Keeps
      (log.append engine.inner.wal.rotates
        (change.record engine.inner))
      (change.payloads engine.inner payloads) := by
  rcases hKeeps.serves.perform hKnown with
    ⟨hServes, hContinues⟩
  refine ⟨hServes, ?_, ?_⟩
  · rw [hKeeps.serves.tracks.entries_append]
    exact hPlaced.of_fields_eq rfl rfl rfl rfl
  · intro name hName
    rw [hContinues.read_eq name hName]
    exact hKeeps.clean name hName

/- The caches and handles do not matter. -/
theorem of_caches
    (hKeeps : engine.Keeps log payloads)
    {next : Engine}
    (hServes : next.Serves log payloads)
    (hDisk : next.disk = engine.disk)
    (hReady :
      next.inner.readyQueue = engine.inner.readyQueue)
    (hLeased : next.inner.leased = engine.inner.leased)
    (hData :
      next.inner.dataIndex = engine.inner.dataIndex)
    (hIndex : next.inner.index = engine.inner.index) :
    next.Keeps log payloads := by
  refine ⟨hServes, ?_, ?_⟩
  · exact hKeeps.placed.of_fields_eq hReady hLeased hData
      hIndex
  · rw [hDisk]
    exact hKeeps.clean

theorem push
    (hKeeps : engine.Keeps log payloads)
    (hLeft : engine.inner.IdsLeft)
    {payload : Bytes}
    (hShort : payload.length ≤ maxUserPayloadSize)
    (priority : UInt8) :
    ∃ nextLog,
      (engine.push none payload priority).2.Keeps nextLog
        (Function.update payloads engine.inner.nextId
          (some payload)) := by
  rw [push_none]
  exact ⟨_,
    hKeeps.perform
      (show (Change.add priority payload).Known
        engine.inner from ⟨hLeft, hShort⟩)
      (hKeeps.placed.add hKeeps.serves.stored priority
        payload _)⟩

theorem popLocked
    (hKeeps : engine.Keeps log payloads)
    (consumerId : UInt32)
    (now leaseTtlSecs : UInt64) :
    ∃ nextLog,
      (engine.popLocked none consumerId now
        leaseTtlSecs).2.Keeps nextLog payloads := by
  rw [popLocked_none]
  cases hPop : engine.inner.readyQueue.pop with
  | none => exact ⟨log, hKeeps⟩
  | some popped =>
      rcases popped with ⟨task, rest⟩
      have hNext :=
        hKeeps.perform
          (show (Change.grant task rest consumerId
            (now + leaseTtlSecs)).Known engine.inner
            from hPop)
          (hKeeps.placed.grant hPop consumerId
            (now + leaseTtlSecs) _)
      simp only
      split
      · exact ⟨_, hNext⟩
      · exact ⟨_, hNext.of_caches
          (hNext.serves.touchCache task.id)
          rfl rfl rfl rfl rfl⟩

theorem popAndLease
    (hKeeps : engine.Keeps log payloads)
    (consumerId : UInt32)
    (now leaseTtlSecs : UInt64) :
    ∃ nextLog,
      (engine.popAndLease none consumerId now
        leaseTtlSecs).2.Keeps nextLog payloads := by
  rcases hKeeps.popLocked consumerId now leaseTtlSecs with
    ⟨nextLog, hNext⟩
  rcases popAndLease_snd hNext.serves.coherent with
    ⟨reader, hEngine, hReader⟩
  rw [hEngine]
  exact ⟨nextLog,
    hNext.of_caches
      ⟨hNext.serves.tracks, hReader, hNext.serves.stored⟩
      rfl rfl rfl rfl rfl⟩

/- A leased task is a known one. -/
theorem leased_known
    (hKeeps : engine.Keeps log payloads)
    {id : UInt64}
    {lease : LeaseInfo}
    (hLease : engine.inner.leased[id]? = some lease) :
    id ∈ engine.inner.leased ∧
      id < engine.inner.nextId := by
  have hHeld : id ∈ engine.inner.leased :=
    Std.ExtTreeMap.isSome_getElem?_iff_mem.mp
      (by simp [hLease])
  exact ⟨hHeld,
    hKeeps.serves.stored.leased_known id hHeld⟩

theorem ack
    (hKeeps : engine.Keeps log payloads)
    (id : UInt64)
    (consumerId : UInt32) :
    ∃ nextLog,
      (engine.ack none id consumerId).2.Keeps nextLog
        payloads := by
  rw [ack_none]
  cases hLease : engine.inner.leased[id]? with
  | none => exact ⟨log, hKeeps⟩
  | some lease =>
      rcases hKeeps.leased_known hLease with
        ⟨hHeld, hKnown⟩
      simp only
      split
      · exact ⟨_, hKeeps.perform
          (show (Change.finish id lease.priority
            none).Known engine.inner from hKnown)
          (hKeeps.placed.finish hHeld _ _ _)⟩
      · exact ⟨log, hKeeps⟩

theorem nack
    (hKeeps : engine.Keeps log payloads)
    (id : UInt64)
    (consumerId : UInt32) :
    ∃ nextLog,
      (engine.nack none id consumerId).2.Keeps nextLog
        payloads := by
  rw [nack_none]
  cases hLease : engine.inner.leased[id]? with
  | none => exact ⟨log, hKeeps⟩
  | some lease =>
      rcases hKeeps.leased_known hLease with
        ⟨hHeld, hKnown⟩
      simp only
      split
      · have hNext :=
          hKeeps.perform
            (Change.known_failure hKnown lease.priority
              lease.retries (.inl rfl))
            (hKeeps.placed.failure hHeld lease.priority
              lease.retries .nacked _)
        rw [Change.payloads_failure] at hNext
        exact ⟨_, hNext⟩
      · exact ⟨log, hKeeps⟩

/- A whole compaction moves the log to segment 1. -/
theorem compact
    (hKeeps : engine.Keeps log payloads) :
    ∃ nextLog,
      engine.compact.2.Keeps nextLog payloads := by
  unfold Engine.compact
  rw [Engine.compactPlan_eq hKeeps.serves.tracks]
  by_cases hClosed : log.closed = []
  · rw [if_pos hClosed]
    exact ⟨log, hKeeps⟩
  · rw [if_neg hClosed]
    have hSplit : log.closed = log.closed ++ [] := by simp
    rcases hKeeps.serves.compactPhase1 hSplit with
      ⟨written, hPhase1, hWritten, hInner, hTemp⟩
    rcases hWritten.compactPhase2 hSplit hClosed hTemp with
      ⟨next, hPhase2, hNext, hRemap, hClean⟩
    simp only [hPhase1, hPhase2]
    have hSegments := hWritten.tracks.segmentsOn
    have hStored := hWritten.stored
    have hPlaced := hKeeps.placed
    rw [← hInner] at hPlaced
    have hMoved := hPlaced.compact hSegments hStored
    rw [← hRemap] at hMoved
    exact ⟨_, hNext, hMoved, hClean⟩

end Keeps

end Engine

end Nesso

------------------------------------------------------------
-- Recovered Queues
------------------------------------------------------------

namespace Nesso

namespace Replay

/- Ids below the last one are below the recovered counter. -/
theorem lt_nextId
    {entries : List (Loc × Record)}
    (hIds :
      ∀ entry ∈ entries,
        entryId entry ≠ UInt64.ofNat (2 ^ 64 - 1)) :
    ∀ entry ∈ entries,
      entryId entry < nextId entries := by
  induction entries using List.reverseRecOn with
  | nil => simp
  | append_singleton entries last ih =>
      intro entry hEntry
      have hLast :=
        UInt64.lt_add_one_of_ne (hIds last (by simp))
      have hOld :
          ∀ entry ∈ entries,
            entryId entry < nextId entries :=
        ih (fun entry hMem => hIds entry (by simp [hMem]))
      rw [nextId_append_singleton, bumpId]
      split
      · next hLe =>
          rcases List.mem_append.mp hEntry with hMem | hMem
          · exact UInt64.lt_trans
              (UInt64.lt_of_lt_of_le (hOld entry hMem) hLe)
              hLast
          · rw [List.mem_singleton.mp hMem]
            exact hLast
      · next hLt =>
          rcases List.mem_append.mp hEntry with hMem | hMem
          · exact hOld entry hMem
          · rw [List.mem_singleton.mp hMem]
            exact UInt64.not_le.mp hLt

/- A task has a payload location when it is live. -/
theorem dataLoc_isSome_iff
    {entries : List (Loc × Record)}
    {id : UInt64} :
    (dataLoc entries id).isSome = true ↔
      ∃ entry,
        KeyedLog.latest entryId entries id = some entry ∧
          entry.2.opType.isTerminal = false := by
  unfold dataLoc
  cases hLatest : KeyedLog.latest entryId entries id with
  | none => simp
  | some entry =>
      cases hTerminal : entry.2.opType.isTerminal <;>
        simp [hTerminal]

end Replay

namespace EngineState.Recovered

variable {now : UInt64}
variable {entries : List (Loc × Record)}
variable {inner next : EngineState}

/- A recovered ready task has a live latest record. -/
theorem latest_of_ready
    (hNext : next.Recovered now entries)
    {task : TaskRef}
    (hTask : task ∈ next.readyQueue.tasks) :
    ∃ entry,
      KeyedLog.latest entryId entries task.id =
          some entry ∧
        entry.2.placeAt now = .ready task := by
  rw [ReadyQueue.mem_tasks_iff, hNext.bucket_eq] at hTask
  exact (Replay.mem_ready_iff
    (fun _ _ hPlace =>
      (Record.id_of_placeAt_eq_ready hPlace).1)).mp
    (List.mem_of_mem_filter hTask)

/- A recovered lease is its task's latest record. -/
theorem latest_of_leased
    (hNext : next.Recovered now entries)
    {id : UInt64}
    (hId : id ∈ next.leased) :
    ∃ entry lease,
      KeyedLog.latest entryId entries id = some entry ∧
        entry.2.placeAt now = .leased lease := by
  have hSome :=
    Std.ExtTreeMap.isSome_getElem?_iff_mem.mpr hId
  rcases Option.isSome_iff_exists.mp hSome with
    ⟨lease, hLease⟩
  rw [hNext.leased_eq] at hLease
  rcases Replay.lease_eq_some_iff.mp hLease with
    ⟨entry, hLatest, hPlace⟩
  exact ⟨entry, lease, hLatest, hPlace⟩

/- The data index holds exactly the live tasks. -/
theorem mem_dataIndex_iff
    (hNext : next.Recovered now entries)
    {id : UInt64} :
    id ∈ next.dataIndex ↔
      ∃ entry,
        KeyedLog.latest entryId entries id = some entry ∧
          entry.2.opType.isTerminal = false := by
  rw [← Std.ExtTreeMap.isSome_getElem?_iff_mem,
    hNext.dataIndex_eq, Replay.dataLoc_isSome_iff]

/- A record that leaves its task in the queue is live. -/
theorem not_terminal
    (now : UInt64)
    {record : Record}
    (hPlace : record.placeAt now ≠ .terminal) :
    record.opType.isTerminal = false := by
  by_contra hTerminal
  rw [Bool.not_eq_false] at hTerminal
  exact hPlace
    ((Record.placeAt_eq_terminal_iff now record).mpr
      hTerminal)

/- Recovery puts every live task in its place. -/
theorem placed
    (hNext : next.Recovered now entries) :
    Placed next entries := by
  have hIds :
      ∀ record task, Record.placeAt now record =
        .ready task → task.id = record.id := by
    intro record task hPlace
    exact (Record.id_of_placeAt_eq_ready hPlace).1
  constructor
  · apply ReadyQueue.tasks_ids_nodup
    · intro priority
      rw [hNext.bucket_eq]
      exact (Replay.ready_ids_nodup hIds entries).sublist
        (List.filter_sublist.map _)
    · intro left hLeft right hRight hId
      rcases hNext.latest_of_ready hLeft with
        ⟨entry, hLatest, hPlace⟩
      rcases hNext.latest_of_ready hRight with
        ⟨other, hOther, hOtherPlace⟩
      rw [hId, hOther, Option.some.injEq] at hLatest
      rw [hLatest, hPlace, Place.ready.injEq] at hOtherPlace
      rw [hOtherPlace]
  · intro task hTask hLeased
    rcases hNext.latest_of_ready hTask with
      ⟨entry, hLatest, hPlace⟩
    rcases hNext.latest_of_leased hLeased with
      ⟨other, lease, hOther, hOtherPlace⟩
    rw [hLatest, Option.some.injEq] at hOther
    rw [← hOther, hPlace] at hOtherPlace
    simp at hOtherPlace
  · intro task hTask
    rcases hNext.latest_of_ready hTask with
      ⟨entry, hLatest, hPlace⟩
    exact hNext.mem_dataIndex_iff.mpr
      ⟨entry, hLatest, not_terminal now (by simp [hPlace])⟩
  · intro id hId
    rcases hNext.latest_of_leased hId with
      ⟨entry, lease, hLatest, hPlace⟩
    exact hNext.mem_dataIndex_iff.mpr
      ⟨entry, hLatest, not_terminal now (by simp [hPlace])⟩
  · intro id hId
    rcases hNext.mem_dataIndex_iff.mp hId with
      ⟨entry, hLatest, hLive⟩
    rw [hNext.index_eq, Replay.indexLoc, hLatest]
    simp [hLive]
  · intro id entry hLatest hLive
    exact hNext.mem_dataIndex_iff.mpr
      ⟨entry, hLatest, hLive⟩

end EngineState.Recovered

end Nesso

------------------------------------------------------------
-- Restarts That Find the Payloads
------------------------------------------------------------

namespace Nesso

/-
  Only the first record of a task can be a Created one; then
  recovery takes its location for the payload.
-/
theorem StoredAt.dataLoc_eq
    {entries : List (Loc × Record)}
    {id : UInt64}
    {loc : Loc}
    {payload : Bytes}
    (hAt : StoredAt entries id loc payload)
    (hCurrent :
      (KeyedLog.latest entryId entries id).map Prod.fst =
          some loc ∨
        ∃ record,
          (KeyedLog.history entryId entries id).head? =
              some (loc, record) ∧
            record.opType = .created) :
    Replay.dataLoc entries id = some loc := by
  rcases hAt.payloadIn with
    ⟨first, rest, hRecords, hFirst, _, hRest⟩
  cases hHistory : KeyedLog.history entryId entries id with
  | nil => simp [hHistory] at hRecords
  | cons entry others =>
      rw [hHistory, List.map_cons, List.cons.injEq]
        at hRecords
      have hHead := hAt.head_eq
      rw [hHistory, List.head?_cons, Option.map_some,
        Option.some.injEq] at hHead
      have hStates :
          ∀ other ∈ others, other.2.IsState := by
        intro other hOther
        apply hRest
        rw [← hRecords.2]
        exact List.mem_map_of_mem hOther
      have hCreated :
          KeyedLog.history entryId (Replay.created entries)
              id =
            if entry.2.opType = .created then [entry]
            else [] := by
        have hFilter :
            KeyedLog.history entryId
                (Replay.created entries) id =
              (entry :: others).filter
                (fun entry =>
                  entry.2.opType = .created) := by
          rw [← hHistory]
          simp only [KeyedLog.history, Replay.created,
            List.filter_filter]
          congr 1
          funext found
          exact Bool.and_comm _ _
        have hNone :
            others.filter
              (fun entry => entry.2.opType = .created) =
                [] := by
          rw [List.filter_eq_nil_iff]
          intro other hOther
          simpa using (hStates other hOther).not_terminal.2
        rw [hFilter, List.filter_cons, hNone]
        simp
      rcases List.eq_nil_or_concat (entry :: others) with
        hNil | ⟨front, last, hSplit⟩
      · simp at hNil
      · rw [List.concat_eq_append] at hSplit
        have hLatest :
            KeyedLog.latest entryId entries id =
              some last := by
          rw [KeyedLog.latest, hHistory, hSplit]
          simp
        have hLive : last.2.opType.isTerminal = false := by
          have hMem : last ∈ entry :: others := by
            rw [hSplit]
            simp
          rcases List.mem_cons.mp hMem with rfl | hOther
          · rw [hRecords.1]
            exact hFirst.not_terminal
          · exact (hStates last hOther).not_terminal.1
        rw [Replay.dataLoc, hLatest, Option.bind_some,
          if_neg (by simp [hLive]), KeyedLog.latest,
          hCreated]
        by_cases hOp : entry.2.opType = .created
        · simp [hOp, hHead]
        · rw [hLatest, hHistory] at hCurrent
          rcases hCurrent with hLoc | ⟨record, hEq, hRecord⟩
          · simpa [hOp] using hLoc
          · rw [List.head?_cons, Option.some.injEq] at hEq
            rw [hEq] at hOp
            exact (hOp hRecord).elim

namespace Engine

variable [Hasher]

/-
  The payload of every live task is in a Created record or in
  the task's latest record.
-/
def DataCurrent (engine : Engine) : Prop :=
  ∀ (id : UInt64) (loc : Loc),
    engine.inner.dataIndex[id]? = some loc →
      engine.inner.index[id]? = some loc ∨
        ∃ record,
          (WalReader.new.readAt engine.disk
              (ofLex loc).1 (ofLex loc).2).1 =
              .ok (some record) ∧
            record.opType = .created

namespace Keeps

variable {engine : Engine} {log : SegmentedLog}
variable {payloads : UInt64 → Option Bytes}

/- Such a task is recovered with its payload. -/
theorem dataLoc_eq
    (hKeeps : engine.Keeps log payloads)
    (hCurrent : engine.DataCurrent)
    {id : UInt64}
    {loc : Loc}
    (hLoc : engine.inner.dataIndex[id]? = some loc) :
    Replay.dataLoc log.entries id = some loc := by
  rcases hKeeps.serves.stored.data id loc hLoc with
    ⟨payload, _, hAt⟩
  apply hAt.dataLoc_eq
  rcases hCurrent id loc hLoc with
    hIndex | ⟨record, hRead, hCreated⟩
  · left
    rw [← hKeeps.placed.index_eq id
      (Std.ExtTreeMap.isSome_getElem?_iff_mem.mp
        (by simp [hLoc]))]
    exact hIndex
  · right
    have hHead := hAt.head_eq
    rcases Option.map_eq_some_iff.mp hHead with
      ⟨entry, hEntry, rfl⟩
    have hMem :=
      (KeyedLog.mem_history_iff.mp
        (List.mem_of_mem_head? hEntry)).1
    have hFound :=
      hKeeps.serves.tracks.segmentsOn.readAt_of_mem_entries
        (WalReader.coherent_new _) hMem
    rw [hFound, Except.ok.injEq, Option.some.injEq] at hRead
    refine ⟨entry.2, hEntry, ?_⟩
    rw [hRead]
    exact hCreated

/- A restart that finds all payloads keeps everything. -/
theorem reopen
    (hKeeps : engine.Keeps log payloads)
    (hCurrent : engine.DataCurrent)
    (maxSegmentSize : Option Nat)
    (cacheCapacity : Nat)
    (now : UInt64) :
    ∃ next nextLog,
      Engine.reopen engine.disk maxSegmentSize
          cacheCapacity now = (.ok (), next) ∧
        next.Keeps nextLog payloads := by
  have hStored := hKeeps.serves.stored
  rcases reopen_intact_spec
    hKeeps.serves.tracks.segmentsOn
    (by simp [SegmentedLog.segments]) hKeeps.clean
    maxSegmentSize cacheCapacity now with
    ⟨nextLog, next, hLog, hNext, hTracks, hClean, hReader,
      hCache, hInner⟩
  have hEntries : nextLog.entries = log.entries := by
    rw [SegmentedLog.entries, SegmentedLog.entries, hLog]
  rw [← SegmentedLog.entries] at hInner
  have hLt :
      ∀ entry ∈ log.entries,
        entryId entry < next.inner.nextId := by
    rw [hInner.nextId_eq]
    apply Replay.lt_nextId
    intro entry hEntry hId
    have hKnown := hStored.entries_known entry hEntry
    rw [hId, UInt64.lt_iff_toNat_lt] at hKnown
    have hBound := engine.inner.nextId.toNat_lt
    simp at hKnown
    omega
  have hOfLatest :
      ∀ id entry,
        KeyedLog.latest entryId log.entries id =
            some entry →
          id < next.inner.nextId := by
    intro id entry hLatest
    rcases KeyedLog.latest_mem hLatest with ⟨hMem, rfl⟩
    exact hLt entry hMem
  refine ⟨next, nextLog, hNext, ⟨hTracks, hReader, ?_⟩, ?_,
    hClean⟩
  · rw [hEntries]
    constructor
    · intro id loc hLoc
      have hMem : id ∈ next.inner.dataIndex :=
        Std.ExtTreeMap.isSome_getElem?_iff_mem.mp
          (by simp [hLoc])
      rcases hInner.mem_dataIndex_iff.mp hMem with
        ⟨entry, hLatest, hLive⟩
      have hOld :=
        Std.ExtTreeMap.isSome_getElem?_iff_mem.mpr
          (hKeeps.placed.live id entry hLatest hLive)
      rcases Option.isSome_iff_exists.mp hOld with
        ⟨old, hOldLoc⟩
      rw [hInner.dataIndex_eq,
        hKeeps.dataLoc_eq hCurrent hOldLoc,
        Option.some.injEq] at hLoc
      rw [← hLoc]
      exact hStored.data id old hOldLoc
    · simp [hCache, PayloadCache.new]
    · exact hLt
    · intro task hTask
      rcases hInner.latest_of_ready hTask with
        ⟨entry, hLatest, _⟩
      exact hOfLatest _ entry hLatest
    · intro id hId
      rcases hInner.latest_of_leased hId with
        ⟨entry, _, hLatest, _⟩
      exact hOfLatest id entry hLatest
    · exact hStored.short
  · rw [hEntries]
    exact hInner.placed

end Keeps

end Engine

end Nesso
