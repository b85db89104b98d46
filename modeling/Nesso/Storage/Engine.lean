import Nesso.Storage.PayloadCache
import Nesso.Storage.PriorityQueue
import Nesso.Storage.Wal

/-
  The queue engine (`storage/engine.rs`).

  Every operation takes the shared engine (directory, locked
  state and reader) to its result and the engine afterwards;
  an error does not undo the changes made before it.
  `next_id` and the lease expiry wrap around at 2^64 as in a
  release build.

  Key definitions include:
    * `EngineState`
    * `Engine`
    * `Engine.push`
    * `Engine.popAndLease`
    * `Engine.ack`
    * `Engine.nack`
    * `Engine.processTaskFailure`
    * `Engine.expiredTasks`
    * `Engine.compact`
    * `Engine.recover`
-/

------------------------------------------------------------
-- Engine State
------------------------------------------------------------

namespace Nesso

structure LeaseInfo where
  consumerId : UInt32
  expireTimestamp : UInt64
  retries : UInt8
  priority : UInt8
deriving DecidableEq, Repr

/- `MAX_RETRIES`. -/
def maxRetries : UInt8 := 3

/- What the engine lock protects. -/
structure EngineState where
  wal : Wal
  nextId : UInt64
  index : Std.ExtTreeMap UInt64 Loc
  dataIndex : Std.ExtTreeMap UInt64 Loc
  readyQueue : ReadyQueue
  leased : Std.ExtTreeMap UInt64 LeaseInfo
  payloadCache : PayloadCache

namespace EngineState

def newWithCacheCapacity
    (wal : Wal)
    (cacheCapacity : Nat) : EngineState where
  wal := wal
  nextId := 1
  index := ∅
  dataIndex := ∅
  readyQueue := .new
  leased := ∅
  payloadCache := .new cacheCapacity

def new (wal : Wal) : EngineState :=
  newWithCacheCapacity wal defaultPayloadCacheCapacity

end EngineState

structure Engine where
  disk : Disk
  inner : EngineState
  reader : WalReader

end Nesso

------------------------------------------------------------
-- Push
------------------------------------------------------------

namespace Nesso

namespace Engine

variable [Hasher]

/- `state.wal.append` under the engine lock. -/
def appendRecord
    (fault : Option AppendFault)
    (engine : Engine)
    (record : Record) : Except IoError Loc × Engine :=
  let out :=
    Wal.append fault engine.disk engine.inner.wal record
  (out.1,
    { engine with
      disk := out.2.1
      inner := { engine.inner with wal := out.2.2 } })

def push
    (fault : Option AppendFault)
    (payload : Bytes)
    (priority : UInt8)
    (engine : Engine) : Except IoError UInt64 × Engine :=
  let id := engine.inner.nextId
  let started :=
    { engine with
      inner := { engine.inner with nextId := id + 1 } }
  match started.appendRecord fault
      ⟨id, .created, priority, payload⟩ with
  | (.error error, next) => (.error error, next)
  | (.ok loc, next) =>
      (.ok id,
        { next with
          inner :=
            { next.inner with
              index := next.inner.index.insert id loc
              dataIndex :=
                next.inner.dataIndex.insert id loc
              payloadCache :=
                next.inner.payloadCache.insert id payload
              readyQueue :=
                next.inner.readyQueue.push
                  ⟨id, priority, 0⟩ } })

end Engine

end Nesso

------------------------------------------------------------
-- Pop and Lease
------------------------------------------------------------

namespace Nesso

/- What `pop_and_lease` carries out of the locked section. -/
structure PopTicket where
  id : UInt64
  priority : UInt8
  retries : UInt8
  dataLoc : Loc
  cachedPayload : Option Bytes
deriving DecidableEq

/- The metadata of a Leased record. -/
def leasePayload
    (consumerId : UInt32)
    (expireTimestamp : UInt64)
    (retries : UInt8) : Bytes :=
  beBytes 4 consumerId.toNat ++
    (beBytes 8 expireTimestamp.toNat ++ [retries])

/-
  The user payload of a record read from disk; compaction
  puts it behind the metadata of the task's latest state.
-/
def Record.userPayload (record : Record) : Bytes :=
  match record.opType with
  | .created => record.payload
  | .leased =>
      if 13 ≤ record.payload.length then
        record.payload.drop 13
      else
        []
  | .nacked | .expired =>
      if 1 ≤ record.payload.length then
        record.payload.drop 1
      else
        []
  | .acked | .deadLettered => record.payload

namespace Engine

variable [Hasher]

/- The section of `pop_and_lease` under the engine lock. -/
def popLocked
    (fault : Option AppendFault)
    (consumerId : UInt32)
    (now leaseTtlSecs : UInt64)
    (engine : Engine) :
    Except IoError (Option PopTicket) × Engine :=
  match engine.inner.readyQueue.pop with
  | none => (.ok none, engine)
  | some (taskRef, readyQueue) =>
      let id := taskRef.id
      let popped :=
        { engine with
          inner :=
            { engine.inner with readyQueue := readyQueue } }
      let expireTimestamp := now + leaseTtlSecs
      let leaseInfo : LeaseInfo :=
        { consumerId := consumerId
          expireTimestamp := expireTimestamp
          retries := taskRef.retries
          priority := taskRef.priority }
      match popped.appendRecord fault
          ⟨id, .leased, taskRef.priority,
            leasePayload consumerId expireTimestamp
              taskRef.retries⟩ with
      | (.error error, next) => (.error error, next)
      | (.ok loc, next) =>
          let granted :=
            { next with
              inner :=
                { next.inner with
                  index := next.inner.index.insert id loc
                  leased :=
                    next.inner.leased.insert id
                      leaseInfo } }
          match granted.inner.dataIndex[id]? with
          | none =>
              (.error ⟨.notFound, "Missing data offset"⟩,
                granted)
          | some dataLoc =>
              let cached :=
                granted.inner.payloadCache.get id
              (.ok
                (some
                  { id := id
                    priority := taskRef.priority
                    retries := taskRef.retries
                    dataLoc := dataLoc
                    cachedPayload := cached.1 }),
                { granted with
                  inner :=
                    { granted.inner with
                      payloadCache := cached.2 } })

/-
  One disk read of the fallback path: the record, a new
  location to try, or an error.
-/
inductive ReadOutcome where
| found (record : Record)
| retryAt (loc : Loc)
| failed (error : IoError)

/- How a read result is handled; `retriesLeft` counts down. -/
def readOutcome
    (retriesLeft : Nat)
    (currentLoc : Option Loc) :
    Except IoError (Option Record) → ReadOutcome
| .ok (some record) => .found record
| .ok none =>
    .failed ⟨.invalidData, "Record not found at offset"⟩
| .error error =>
    if error.kind = .notFound ∧ 0 < retriesLeft then
      match currentLoc with
      | some loc => .retryAt loc
      | none =>
          .failed
            ⟨.notFound,
              "Missing data offset after compaction"⟩
    else
      .failed error

/- The retry loop of the disk fallback, run undisturbed. -/
def readPayload
    (engine : Engine)
    (id : UInt64) :
    Nat → Loc → WalReader →
      Except IoError Record × WalReader
| 0, _, reader =>
    (.error ⟨.notFound, "Record not found after retry"⟩,
      reader)
| tries + 1, loc, reader =>
    let read :=
      reader.readAt engine.disk
        (ofLex loc).1 (ofLex loc).2
    match readOutcome tries engine.inner.dataIndex[id]?
        read.1 with
    | .found record => (.ok record, read.2)
    | .retryAt next =>
        readPayload engine id tries next read.2
    | .failed error => (.error error, read.2)

/- The section of `pop_and_lease` after the lock. -/
def popRead
    (ticket : PopTicket)
    (engine : Engine) : Except IoError Record × Engine :=
  match ticket.cachedPayload with
  | some payload =>
      (.ok ⟨ticket.id, .created, ticket.priority, payload⟩,
        engine)
  | none =>
      let read :=
        engine.readPayload ticket.id 3 ticket.dataLoc
          engine.reader
      (read.1.map (fun record =>
          ⟨ticket.id, .created, ticket.priority,
            record.userPayload⟩),
        { engine with reader := read.2 })

def popAndLease
    (fault : Option AppendFault)
    (consumerId : UInt32)
    (now leaseTtlSecs : UInt64)
    (engine : Engine) :
    Except IoError (Option (Record × UInt8)) × Engine :=
  match engine.popLocked fault consumerId now
      leaseTtlSecs with
  | (.error error, next) => (.error error, next)
  | (.ok none, next) => (.ok none, next)
  | (.ok (some ticket), next) =>
      let read := next.popRead ticket
      (read.1.map (fun record =>
          some (record, ticket.retries)),
        read.2)

end Engine

end Nesso

------------------------------------------------------------
-- Ack, Nack and Failed Deliveries
------------------------------------------------------------

namespace Nesso

namespace Engine

variable [Hasher]

/- The error for a task that is not leased. -/
def notLeased : IoError where
  kind := .notFound
  message := "Task not found or not leased"

/- The error for a task leased to someone else. -/
def leasedToAnother : IoError where
  kind := .permissionDenied
  message := "Task leased to another consumer"

def ack
    (fault : Option AppendFault)
    (id : UInt64)
    (consumerId : UInt32)
    (engine : Engine) : Except IoError Unit × Engine :=
  match engine.inner.leased[id]? with
  | none => (.error notLeased, engine)
  | some lease =>
      if lease.consumerId ≠ consumerId then
        (.error leasedToAnother, engine)
      else
        match engine.appendRecord fault
            ⟨id, .acked, lease.priority, []⟩ with
        | (.error error, next) => (.error error, next)
        | (.ok loc, next) =>
            (.ok (),
              { next with
                inner :=
                  { next.inner with
                    index := next.inner.index.insert id loc
                    leased := next.inner.leased.erase id
                    dataIndex :=
                      next.inner.dataIndex.erase id
                    payloadCache :=
                      next.inner.payloadCache.remove id } })

/- The result tells whether the task was enqueued again. -/
def processTaskFailure
    (fault : Option AppendFault)
    (id : UInt64)
    (priority currentRetries : UInt8)
    (failureType : OpType)
    (engine : Engine) : Except IoError Bool × Engine :=
  let newRetries := currentRetries + 1
  let op :=
    if maxRetries ≤ newRetries then .deadLettered
    else failureType
  match engine.appendRecord fault
      ⟨id, op, priority, [newRetries]⟩ with
  | (.error error, next) => (.error error, next)
  | (.ok loc, next) =>
      let failed :=
        { next.inner with
          index := next.inner.index.insert id loc
          leased := next.inner.leased.erase id }
      if op = .deadLettered then
        (.ok false,
          { next with
            inner :=
              { failed with
                dataIndex := failed.dataIndex.erase id
                payloadCache :=
                  failed.payloadCache.remove id } })
      else
        (.ok true,
          { next with
            inner :=
              { failed with
                readyQueue :=
                  failed.readyQueue.push
                    ⟨id, priority, newRetries⟩ } })

def nack
    (fault : Option AppendFault)
    (id : UInt64)
    (consumerId : UInt32)
    (engine : Engine) : Except IoError Unit × Engine :=
  match engine.inner.leased[id]? with
  | none => (.error notLeased, engine)
  | some lease =>
      if lease.consumerId ≠ consumerId then
        (.error leasedToAnother, engine)
      else
        let failed :=
          engine.processTaskFailure fault id lease.priority
            lease.retries .nacked
        (failed.1.map (fun _ => ()), failed.2)

/- Number of ready and of leased tasks. -/
def status (engine : Engine) : Nat × Nat :=
  (engine.inner.readyQueue.len, engine.inner.leased.size)

end Engine

end Nesso

------------------------------------------------------------
-- Lease Expiration
------------------------------------------------------------

namespace Nesso

/- An entry of the worker's `expired_tasks` vector. -/
structure ExpiredTask where
  id : UInt64
  priority : UInt8
  retries : UInt8
deriving DecidableEq, Repr

namespace Engine

variable [Hasher]

/- First critical section: snapshot the expired leases. -/
def expiredTasks
    (now : UInt64)
    (engine : Engine) : List ExpiredTask :=
  engine.inner.leased.toList.filterMap (fun entry =>
    if entry.2.expireTimestamp ≤ now then
      some ⟨entry.1, entry.2.priority, entry.2.retries⟩
    else
      none)

/- One turn of the second section; its error is dropped. -/
def expireTask
    (engine : Engine)
    (fault : Option AppendFault)
    (task : ExpiredTask) : Engine :=
  (engine.processTaskFailure fault task.id task.priority
    task.retries .expired).2

/- Second critical section: fail every snapshotted task. -/
def processExpired
    (engine : Engine)
    (tasks : List (Option AppendFault × ExpiredTask)) :
    Engine :=
  tasks.foldl
    (fun engine task => engine.expireTask task.1 task.2)
    engine

end Engine

end Nesso

------------------------------------------------------------
-- Compaction
------------------------------------------------------------

namespace Nesso

/- Move one index entry that points into a closed segment. -/
def remapEntry
    (closedSegments : List Nat)
    (index : Std.ExtTreeMap UInt64 Loc)
    (id : UInt64)
    (offset : Nat) : Std.ExtTreeMap UInt64 Loc :=
  match index[id]? with
  | some loc =>
      if (ofLex loc).1 ∈ closedSegments then
        index.insert id (toLex (1, offset))
      else
        index
  | none => index

/- Both indexes after the survivors moved to segment 1. -/
def EngineState.remap
    (inner : EngineState)
    (closedSegments : List Nat)
    (newOffsets : Std.ExtTreeMap UInt64 Nat) :
    EngineState :=
  newOffsets.toList.foldl
    (fun inner entry =>
      { inner with
        dataIndex :=
          remapEntry closedSegments inner.dataIndex
            entry.1 entry.2
        index :=
          remapEntry closedSegments inner.index
            entry.1 entry.2 })
    inner

namespace Engine

variable [Hasher]

/- The plan is made from the active segment's number. -/
def compactPlan (engine : Engine) : Option (List Nat) :=
  Wal.planCompaction engine.disk
    engine.inner.wal.activeSegmentId

/- Phase 1, without the engine lock. -/
def compactPhase1
    (closedSegments : List Nat)
    (engine : Engine) :
    Except IoError (Std.ExtTreeMap UInt64 Nat) × Engine :=
  let out :=
    Wal.executeCompactionPhase1 engine.disk closedSegments
  (out.1.map Prod.snd, { engine with disk := out.2 })

/- Phase 2 and the index remapping, under the engine lock. -/
def compactPhase2
    (closedSegments : List Nat)
    (newOffsets : Std.ExtTreeMap UInt64 Nat)
    (engine : Engine) : Except IoError Unit × Engine :=
  let out :=
    Wal.executeCompactionPhase2 engine.disk closedSegments
  match out.1 with
  | .error error =>
      (.error error, { engine with disk := out.2 })
  | .ok () =>
      (.ok (),
        { disk := out.2
          inner :=
            engine.inner.remap closedSegments newOffsets
          reader := engine.reader.clearCache })

def compact
    (engine : Engine) : Except IoError Bool × Engine :=
  match engine.compactPlan with
  | none => (.ok false, engine)
  | some closedSegments =>
      match engine.compactPhase1 closedSegments with
      | (.error error, next) => (.error error, next)
      | (.ok newOffsets, next) =>
          let swapped :=
            next.compactPhase2 closedSegments newOffsets
          (swapped.1.map (fun _ => true), swapped.2)

/- `clear_payload_cache`. -/
def clearPayloadCache (engine : Engine) : Engine :=
  { engine with
    inner :=
      { engine.inner with
        payloadCache := engine.inner.payloadCache.clear } }

end Engine

end Nesso

------------------------------------------------------------
-- Recovery
------------------------------------------------------------

namespace Nesso

namespace EngineState

/- Pass 1: index one record. -/
def indexRecord
    (inner : EngineState)
    (entry : Loc × Record) : EngineState :=
  { inner with
    nextId :=
      if inner.nextId ≤ entry.2.id then entry.2.id + 1
      else inner.nextId
    index := inner.index.insert entry.2.id entry.1
    dataIndex :=
      if entry.2.opType = .created then
        inner.dataIndex.insert entry.2.id entry.1
      else
        inner.dataIndex }

/- The lease written in a Leased record's metadata. -/
def leaseOfRecord (record : Record) : LeaseInfo where
  consumerId :=
    UInt32.ofNat (ofBeBytes (slice record.payload 0 4))
  expireTimestamp :=
    UInt64.ofNat (ofBeBytes (slice record.payload 4 12))
  retries := record.payload.getD 12 0
  priority := record.priority

/-
  A task that only survives in consolidated form has no
  Created record; its latest record holds the payload.
-/
def adoptData
    (inner : EngineState)
    (id : UInt64)
    (loc : Loc)
    (record : Record) : EngineState :=
  if id ∉ inner.dataIndex ∧
      (record.opType = .created ∨
        record.opType = .leased ∨
        record.opType = .nacked ∨
        record.opType = .expired) then
    { inner with dataIndex := inner.dataIndex.insert id loc }
  else
    inner

/- Put a recovered task into the ready queue. -/
def enqueue
    (inner : EngineState)
    (task : TaskRef) : EngineState :=
  { inner with readyQueue := inner.readyQueue.push task }

/- Pass 2: restore one task from its latest record. -/
def restoreTask
    (now : UInt64)
    (inner : EngineState)
    (id : UInt64)
    (loc : Loc)
    (record : Record) : EngineState :=
  let inner := inner.adoptData id loc record
  match record.opType with
  | .created =>
      inner.enqueue ⟨id, record.priority, 0⟩
  | .nacked | .expired =>
      inner.enqueue
        ⟨id, record.priority, record.payload.headD 0⟩
  | .leased =>
      if 13 ≤ record.payload.length then
        let lease := leaseOfRecord record
        if now < lease.expireTimestamp then
          { inner with
            leased := inner.leased.insert id lease }
        else
          inner.enqueue ⟨id, record.priority, lease.retries⟩
      else
        inner.enqueue ⟨id, record.priority, 0⟩
  | .acked | .deadLettered =>
      { inner with
        dataIndex := inner.dataIndex.erase id
        index := inner.index.erase id }

end EngineState

namespace Engine

variable [Hasher]

/- Pass 2 over the index entries, in log order. -/
def restoreTasks
    (now : UInt64) :
    List (UInt64 × Loc) → Engine →
      Except IoError Unit × Engine
| [], engine => (.ok (), engine)
| (id, loc) :: entries, engine =>
    let read :=
      engine.reader.readAt engine.disk
        (ofLex loc).1 (ofLex loc).2
    match read.1 with
    | .error error =>
        (.error error, { engine with reader := read.2 })
    | .ok none =>
        restoreTasks now entries
          { engine with reader := read.2 }
    | .ok (some record) =>
        restoreTasks now entries
          { engine with
            reader := read.2
            inner :=
              engine.inner.restoreTask now id loc record }

def recover
    (now : UInt64)
    (engine : Engine) : Except IoError Unit × Engine :=
  let iterated := Wal.iterAll engine.disk
  let indexed :=
    iterated.2.foldl EngineState.indexRecord engine.inner
  restoreTasks now
    (indexed.index.toList.insertionSort
      (fun left right => left.2 ≤ right.2))
    { engine with disk := iterated.1, inner := indexed }

/- `Wal::open`, a new reader, and recovery. -/
def reopen
    (disk : Disk)
    (maxSegmentSize : Option Nat)
    (cacheCapacity : Nat)
    (now : UInt64) : Except IoError Unit × Engine :=
  let opened := Wal.open disk maxSegmentSize
  recover now
    { disk := opened.1
      inner := .newWithCacheCapacity opened.2 cacheCapacity
      reader := .new }

end Engine

end Nesso
