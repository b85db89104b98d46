import Nesso.Log.CompactionCrashes
import Nesso.Log.Faithfulness
import Nesso.Queue.System
import Nesso.Recovery.ScannerAgreement
import Nesso.Storage.Checksum

/-
  Calls whose append fails.

  The maps of the engine are changed after the append, except
  that `pop_and_lease` takes its task from the ready queue
  before it, and does not put it back.

  Key definitions include:
    * `EngineCall`
    * `FailsIntact`
    * `FaultyAction`
    * `System.Hosted`

  The main theorems are:
    * `failed_call_intact_iff`
    * `failed_pop_loses_task`
-/

------------------------------------------------------------
-- Calls
------------------------------------------------------------

namespace Nesso

/- The operations that append one record. -/
inductive EngineCall where
| push (payload : Bytes) (priority : UInt8)
| popAndLease (consumerId : UInt32)
    (now leaseTtlSecs : UInt64)
| ack (id : UInt64) (consumerId : UInt32)
| nack (id : UInt64) (consumerId : UInt32)

namespace EngineCall

variable [Hasher]

/- Whether the call returns Ok, and the engine after it. -/
def run
    (fault : Option AppendFault)
    (engine : Engine) :
    EngineCall → Except IoError Unit × Engine
| push payload priority =>
    let out := engine.push fault payload priority
    (out.1.map (fun _ => ()), out.2)
| popAndLease consumerId now leaseTtlSecs =>
    let out :=
      engine.popAndLease fault consumerId now leaseTtlSecs
    (out.1.map (fun _ => ()), out.2)
| ack id consumerId => engine.ack fault id consumerId
| nack id consumerId => engine.nack fault id consumerId

omit [Hasher] in
/- Whether the call gets to `Wal::append`. -/
def Appends
    (engine : Engine) : EngineCall → Prop
| push _ _ => True
| popAndLease _ _ _ => engine.inner.readyQueue.pop ≠ none
| ack id consumerId | nack id consumerId =>
    ∃ lease,
      engine.inner.leased[id]? = some lease ∧
        lease.consumerId = consumerId

end EngineCall

/- Two states with the same tasks in the same places. -/
structure EngineState.SameQueue
    (inner other : EngineState) : Prop where
  nextId_eq : other.nextId = inner.nextId
  index_eq : other.index = inner.index
  dataIndex_eq : other.dataIndex = inner.dataIndex
  leased_eq : other.leased = inner.leased
  bucket_eq :
    ∀ priority,
      other.readyQueue.bucket priority =
        inner.readyQueue.bucket priority

/-
  The call fails, the queue is as before, and so are the
  files, but for an empty segment; a recovery that finds an
  undamaged directory rebuilds the same queue.
-/
structure FailsIntact [Hasher]
    (engine : Engine)
    (fault : AppendFault)
    (call : EngineCall) : Prop where
  error :
    ∃ error,
      (call.run (some fault) engine).1 = .error error
  readyQueue_eq :
    (call.run (some fault) engine).2.inner.readyQueue =
      engine.inner.readyQueue
  leased_eq :
    (call.run (some fault) engine).2.inner.leased =
      engine.inner.leased
  index_eq :
    (call.run (some fault) engine).2.inner.index =
      engine.inner.index
  dataIndex_eq :
    (call.run (some fault) engine).2.inner.dataIndex =
      engine.inner.dataIndex
  payloadCache_eq :
    (call.run (some fault) engine).2.inner.payloadCache =
      engine.inner.payloadCache
  files :
    ∀ name,
      (call.run (some fault) engine).2.disk.read name =
          engine.disk.read name ∨
        (engine.disk.read name = none ∧
          (call.run (some fault) engine).2.disk.read name =
            some [])
  entries_eq :
    Wal.entries (call.run (some fault) engine).2.disk =
      Wal.entries engine.disk
  recovery :
    engine.disk.Settled →
      ∀ maxSegmentSize cacheCapacity now,
        EngineState.SameQueue
          (Engine.reopen engine.disk maxSegmentSize
            cacheCapacity now).2.inner
          (Engine.reopen
            (call.run (some fault) engine).2.disk
            maxSegmentSize cacheCapacity now).2.inner

end Nesso

------------------------------------------------------------
-- One Append of Each Call
------------------------------------------------------------

namespace Nesso

namespace Engine

variable [Hasher]

/- The directory and the writer after at most one append. -/
def AppendsTo (engine next : Engine) : Prop :=
  (next.disk = engine.disk ∧
      next.inner.wal = engine.inner.wal) ∨
    ∃ fault record,
      (next.disk, next.inner.wal) =
        (Wal.append fault engine.disk engine.inner.wal
          record).2

theorem AppendsTo.of_alike
    {engine middle next : Engine}
    (hAppends : engine.AppendsTo middle)
    (hDisk : next.disk = middle.disk)
    (hWal : next.inner.wal = middle.inner.wal) :
    engine.AppendsTo next := by
  unfold AppendsTo
  rw [hDisk, hWal]
  exact hAppends

theorem appendsTo_push
    (engine : Engine)
    (fault : Option AppendFault)
    (payload : Bytes)
    (priority : UInt8) :
    engine.AppendsTo
      (engine.push fault payload priority).2 := by
  right
  refine ⟨fault,
    ⟨engine.inner.nextId, .created, priority, payload⟩, ?_⟩
  unfold push
  simp only
  split <;> next hAppend =>
    simp only [appendRecord, Prod.mk.injEq] at hAppend
    rw [← hAppend.2]

theorem appendsTo_popLocked
    (engine : Engine)
    (fault : Option AppendFault)
    (consumerId : UInt32)
    (now leaseTtlSecs : UInt64) :
    engine.AppendsTo
      (engine.popLocked fault consumerId now
        leaseTtlSecs).2 := by
  unfold popLocked
  split
  · exact .inl ⟨rfl, rfl⟩
  · next task rest hPop =>
      right
      refine ⟨fault,
        ⟨task.id, .leased, task.priority,
          leasePayload consumerId (now + leaseTtlSecs)
            task.retries⟩, ?_⟩
      simp only
      split
      · next hAppend =>
          simp only [appendRecord, Prod.mk.injEq] at hAppend
          rw [← hAppend.2]
      · next hAppend =>
          simp only [appendRecord, Prod.mk.injEq] at hAppend
          split <;> rw [← hAppend.2]

theorem appendsTo_popAndLease
    (engine : Engine)
    (fault : Option AppendFault)
    (consumerId : UInt32)
    (now leaseTtlSecs : UInt64) :
    engine.AppendsTo
      (engine.popAndLease fault consumerId now
        leaseTtlSecs).2 := by
  have hLocked :=
    engine.appendsTo_popLocked fault consumerId now
      leaseTtlSecs
  unfold popAndLease
  generalize
    engine.popLocked fault consumerId now leaseTtlSecs = out
    at hLocked ⊢
  rcases out with ⟨error | _ | ticket, next⟩
  · exact hLocked
  · exact hLocked
  · have hRead := alike_popRead next ticket
    exact hLocked.of_alike hRead.disk_eq hRead.wal_eq

theorem appendsTo_ack
    (engine : Engine)
    (fault : Option AppendFault)
    (id : UInt64)
    (consumerId : UInt32) :
    engine.AppendsTo (engine.ack fault id consumerId).2 := by
  unfold ack
  split
  · exact .inl ⟨rfl, rfl⟩
  · next lease hLease =>
      split
      · exact .inl ⟨rfl, rfl⟩
      · right
        refine
          ⟨fault, ⟨id, .acked, lease.priority, []⟩, ?_⟩
        split <;> next hAppend =>
          simp only [appendRecord, Prod.mk.injEq] at hAppend
          rw [← hAppend.2]

theorem appendsTo_processTaskFailure
    (engine : Engine)
    (fault : Option AppendFault)
    (id : UInt64)
    (priority currentRetries : UInt8)
    (failureType : OpType) :
    engine.AppendsTo
      (engine.processTaskFailure fault id priority
        currentRetries failureType).2 := by
  right
  refine ⟨fault,
    ⟨id,
      if maxRetries ≤ currentRetries + 1 then .deadLettered
      else failureType,
      priority, [currentRetries + 1]⟩, ?_⟩
  unfold processTaskFailure
  simp only
  generalize
    (if maxRetries ≤ currentRetries + 1 then
      OpType.deadLettered else failureType) = op
  split
  · next hAppend =>
      simp only [appendRecord, Prod.mk.injEq] at hAppend
      rw [← hAppend.2]
  · next hAppend =>
      simp only [appendRecord, Prod.mk.injEq] at hAppend
      split <;> rw [← hAppend.2]

theorem appendsTo_nack
    (engine : Engine)
    (fault : Option AppendFault)
    (id : UInt64)
    (consumerId : UInt32) :
    engine.AppendsTo
      (engine.nack fault id consumerId).2 := by
  unfold nack
  split
  · exact .inl ⟨rfl, rfl⟩
  · split
    · exact .inl ⟨rfl, rfl⟩
    · exact engine.appendsTo_processTaskFailure fault id _ _
        _

end Engine

end Nesso

------------------------------------------------------------
-- Failing Calls
------------------------------------------------------------

namespace Nesso

variable [Hasher]

/- A failed append leaves the maps and the records alone. -/
structure Engine.Unappended
    (engine next : Engine) : Prop where
  inner_eq :
    next.inner =
      { engine.inner with wal := next.inner.wal }
  files :
    ∀ name,
      next.disk.read name = engine.disk.read name ∨
        (engine.disk.read name = none ∧
          next.disk.read name = some [])
  entries_eq :
    Wal.entries next.disk = Wal.entries engine.disk
  settled : engine.disk.Settled → next.disk.Settled

omit [Hasher] in
/- A segment that grows by nothing, or is empty. -/
theorem Disk.Grows.files
    {disk next : Disk}
    {target : Nat}
    (hGrows : disk.Grows next target [])
    (name : FileName) :
    next.read name = disk.read name ∨
      (disk.read name = none ∧ next.read name = some []) := by
  rw [hGrows.read_eq]
  split
  · next hName =>
      subst hName
      cases disk.read (.wal target) with
      | none => simp
      | some content => simp
  · exact .inl rfl

namespace Engine

theorem appendRecord_error
    {engine : Engine}
    (hWritable : engine.inner.wal.Writable engine.disk)
    {fault : AppendFault}
    (hHits : fault.hits engine.inner.wal = true)
    (record : Record) :
    ∃ next,
      engine.appendRecord (some fault) record =
          (.error Wal.ioFailure, next) ∧
        engine.Unappended next := by
  rcases hWritable.append_error hHits record with
    ⟨disk, wal, hAppend, _, _, hDisk, _⟩
  refine ⟨_, by rw [appendRecord, hAppend], ?_⟩
  rcases hDisk with hSame | hGrows
  · subst hSame
    exact ⟨rfl, fun _ => .inl rfl, rfl, id⟩
  · exact ⟨rfl, hGrows.files,
      hGrows.entries_of_nil hWritable.ids_le_nextLoc,
      fun hSettled =>
        hWritable.settled_grows hSettled hGrows⟩

end Engine

/- A settled directory is recovered from its records. -/
theorem Engine.recovered_of_settled
    {disk : Disk}
    (hSettled : disk.Settled)
    (maxSegmentSize : Option Nat)
    (cacheCapacity : Nat)
    (now : UInt64) :
    (Engine.reopen disk maxSegmentSize cacheCapacity
      now).2.inner.Recovered now (Wal.entries disk) := by
  rcases Engine.reopen_any_spec disk maxSegmentSize
    cacheCapacity now with ⟨next, hNext, _, _, _, _, hInner⟩
  rw [hSettled.entries_open] at hInner
  rw [hNext]
  exact hInner

omit [Hasher] in
/- One log is recovered in one way. -/
theorem EngineState.Recovered.sameQueue
    {now : UInt64}
    {entries : List (Loc × Record)}
    {inner other : EngineState}
    (hInner : inner.Recovered now entries)
    (hOther : other.Recovered now entries) :
    inner.SameQueue other where
  nextId_eq := by
    rw [hOther.nextId_eq, hInner.nextId_eq]
  index_eq := by
    apply Std.ExtTreeMap.ext_getElem?
    intro id
    rw [hOther.index_eq, hInner.index_eq]
  dataIndex_eq := by
    apply Std.ExtTreeMap.ext_getElem?
    intro id
    rw [hOther.dataIndex_eq, hInner.dataIndex_eq]
  leased_eq := by
    apply Std.ExtTreeMap.ext_getElem?
    intro id
    rw [hOther.leased_eq, hInner.leased_eq]
  bucket_eq := by
    intro priority
    rw [hOther.bucket_eq, hInner.bucket_eq]

/- A call that ends right after its failed append. -/
theorem FailsIntact.of_unappended
    {engine : Engine}
    {fault : AppendFault}
    {call : EngineCall}
    {error : IoError}
    {next started : Engine}
    (hRun :
      call.run (some fault) engine = (.error error, next))
    (hDisk : started.disk = engine.disk)
    (hReady :
      started.inner.readyQueue = engine.inner.readyQueue)
    (hLeased : started.inner.leased = engine.inner.leased)
    (hIndex : started.inner.index = engine.inner.index)
    (hData :
      started.inner.dataIndex = engine.inner.dataIndex)
    (hCache :
      started.inner.payloadCache =
        engine.inner.payloadCache)
    (hNext : started.Unappended next) :
    FailsIntact engine fault call := by
  have hFiles := hNext.files
  have hEntries := hNext.entries_eq
  have hSettled := hNext.settled
  rw [hDisk] at hFiles hEntries hSettled
  constructor
  · exact ⟨error, by rw [hRun]⟩
  · rw [hRun, hNext.inner_eq]
    exact hReady
  · rw [hRun, hNext.inner_eq]
    exact hLeased
  · rw [hRun, hNext.inner_eq]
    exact hIndex
  · rw [hRun, hNext.inner_eq]
    exact hData
  · rw [hRun, hNext.inner_eq]
    exact hCache
  · rw [hRun]
    exact hFiles
  · rw [hRun]
    exact hEntries
  · intro hOld maxSegmentSize cacheCapacity now
    have hBefore :=
      Engine.recovered_of_settled hOld maxSegmentSize
        cacheCapacity now
    have hAfter :=
      Engine.recovered_of_settled (hSettled hOld)
        maxSegmentSize cacheCapacity now
    rw [hEntries] at hAfter
    rw [hRun]
    exact hBefore.sameQueue hAfter

/- Every other call changes the maps after its append. -/
theorem failsIntact_of_not_pop
    {engine : Engine}
    (hWritable : engine.inner.wal.Writable engine.disk)
    {fault : AppendFault}
    (hHits : fault.hits engine.inner.wal = true)
    {call : EngineCall}
    (hAppends : call.Appends engine)
    (hPop :
      ∀ consumerId now leaseTtlSecs,
        call ≠ .popAndLease consumerId now leaseTtlSecs) :
    FailsIntact engine fault call := by
  cases call with
  | push payload priority =>
      let started : Engine :=
        { engine with
          inner :=
            { engine.inner with
              nextId := engine.inner.nextId + 1 } }
      have hStarted :
          started.inner.wal.Writable started.disk :=
        hWritable
      rcases Engine.appendRecord_error hStarted hHits
        ⟨engine.inner.nextId, .created, priority, payload⟩
        with ⟨next, hAppend, hNext⟩
      have hRun :
          (EngineCall.push payload priority).run
              (some fault) engine =
            (.error Wal.ioFailure, next) := by
        simp [EngineCall.run, Engine.push, started, hAppend,
          Except.map]
      refine .of_unappended hRun ?_ ?_ ?_ ?_ ?_ ?_ hNext <;>
        rfl
  | popAndLease consumerId now leaseTtlSecs =>
      exact (hPop consumerId now leaseTtlSecs rfl).elim
  | ack id consumerId =>
      rcases hAppends with ⟨lease, hLease, rfl⟩
      rcases Engine.appendRecord_error hWritable hHits
        ⟨id, .acked, lease.priority, []⟩ with
        ⟨next, hAppend, hNext⟩
      have hRun :
          (EngineCall.ack id lease.consumerId).run
              (some fault) engine =
            (.error Wal.ioFailure, next) := by
        simp [EngineCall.run, Engine.ack, hLease, hAppend]
      exact .of_unappended hRun rfl rfl rfl rfl rfl rfl
        hNext
  | nack id consumerId =>
      rcases hAppends with ⟨lease, hLease, rfl⟩
      rcases Engine.appendRecord_error hWritable hHits
        ⟨id,
          if maxRetries ≤ lease.retries + 1 then
            .deadLettered else .nacked,
          lease.priority, [lease.retries + 1]⟩ with
        ⟨next, hAppend, hNext⟩
      have hRun :
          (EngineCall.nack id lease.consumerId).run
              (some fault) engine =
            (.error Wal.ioFailure, next) := by
        simp [EngineCall.run, Engine.nack, hLease,
          Engine.processTaskFailure, hAppend, Except.map]
      exact .of_unappended hRun rfl rfl rfl rfl rfl rfl
        hNext

/- A pop never puts the task of a failed append back. -/
theorem readyQueue_failed_pop
    {engine : Engine}
    (hWritable : engine.inner.wal.Writable engine.disk)
    {fault : AppendFault}
    (hHits : fault.hits engine.inner.wal = true)
    {task : TaskRef}
    {rest : ReadyQueue}
    (hPop : engine.inner.readyQueue.pop = some (task, rest))
    (consumerId : UInt32)
    (now leaseTtlSecs : UInt64) :
    (engine.popAndLease (some fault) consumerId now
      leaseTtlSecs).2.inner.readyQueue = rest := by
  let popped : Engine :=
    { engine with
      inner := { engine.inner with readyQueue := rest } }
  have hPopped :
      popped.inner.wal.Writable popped.disk := hWritable
  rcases Engine.appendRecord_error hPopped hHits
    ⟨task.id, .leased, task.priority,
      leasePayload consumerId (now + leaseTtlSecs)
        task.retries⟩ with ⟨next, hAppend, hNext⟩
  have hLocked :
      engine.popLocked (some fault) consumerId now
          leaseTtlSecs = (.error Wal.ioFailure, next) := by
    simp [Engine.popLocked, hPop, popped, hAppend]
  rw [Engine.popAndLease, hLocked, hNext.inner_eq]

/- The popped task is missing from the ready queue. -/
theorem not_failsIntact_pop
    {engine : Engine}
    (hWritable : engine.inner.wal.Writable engine.disk)
    {fault : AppendFault}
    (hHits : fault.hits engine.inner.wal = true)
    {consumerId : UInt32}
    {now leaseTtlSecs : UInt64}
    (hAppends :
      (EngineCall.popAndLease consumerId now
        leaseTtlSecs).Appends engine) :
    ¬ FailsIntact engine fault
      (.popAndLease consumerId now leaseTtlSecs) := by
  intro hIntact
  rcases Option.ne_none_iff_exists'.mp hAppends with
    ⟨⟨task, rest⟩, hPop⟩
  have hReady :=
    readyQueue_failed_pop hWritable hHits hPop consumerId
      now leaseTtlSecs
  have hSame := hIntact.readyQueue_eq
  simp only [EngineCall.run, hReady] at hSame
  have hLength :=
    (ReadyQueue.tasks_pop_perm hPop).length_eq
  rw [← hSame, List.length_cons] at hLength
  omega

end Nesso

------------------------------------------------------------
-- Reachable Engines
------------------------------------------------------------

namespace Nesso

/-
  One step of any thread, with any failing append, or a
  restart after a crash between two steps.
-/
inductive FaultyAction where
| call (fault : Option AppendFault) (call : EngineCall)
| expire (tasks : List (Option AppendFault × ExpiredTask))
| other (action : Action)
| restart (maxSegmentSize : Option Nat)
    (cacheCapacity : Nat) (now : UInt64)

namespace System

variable [Hasher]

def faultyStep
    (system : System) : FaultyAction → Option System
| .call fault call =>
    some
      { system with
        engine := (call.run fault system.engine).2 }
| .expire tasks =>
    some
      { system with
        engine := system.engine.processExpired tasks }
| .other action => system.step action
| .restart maxSegmentSize cacheCapacity now =>
    some
      { engine :=
          (Engine.reopen system.engine.disk maxSegmentSize
            cacheCapacity now).2
        compaction := .idle
        snapshot := none
        history := system.history }

end System

/- Runs from an empty directory. -/
def FaultyRun [Hasher]
    (maxSegmentSize : Option Nat)
    (cacheCapacity : Nat)
    (now : UInt64) :
    List FaultyAction → System → Prop :=
  Transition.Run System.faultyStep (fun _ _ => True)
    (System.start maxSegmentSize cacheCapacity now)

/- The segments that a compaction in progress replaces. -/
def CompactionStage.closed : CompactionStage → List Nat
| idle => []
| planned closedSegments => closedSegments
| written closedSegments _ => closedSegments

/- The writer goes on behind the segments on disk. -/
structure Engine.Hosted
    (engine : Engine)
    (closed : List Nat) : Prop where
  writable : engine.inner.wal.Writable engine.disk
  no_swap : engine.disk.read .compactionSwap = none
  one_le :
    ∀ segmentId ∈ engine.disk.segmentIds, 1 ≤ segmentId
  one_le_active : 1 ≤ engine.inner.wal.activeSegmentId
  closed_lt :
    ∀ segmentId ∈ closed,
      1 ≤ segmentId ∧
        segmentId < engine.inner.wal.activeSegmentId

namespace Engine.Hosted

variable [Hasher]
variable {engine next : Engine} {closed : List Nat}

omit [Hasher] in
/- Only the directory and the writer matter. -/
theorem of_alike
    (hHosted : engine.Hosted closed)
    (hDisk : next.disk = engine.disk)
    (hWal : next.inner.wal = engine.inner.wal) :
    next.Hosted closed := by
  constructor
  · rw [hDisk, hWal]
    exact hHosted.writable
  · rw [hDisk]
    exact hHosted.no_swap
  · rw [hDisk]
    exact hHosted.one_le
  · rw [hWal]
    exact hHosted.one_le_active
  · rw [hWal]
    exact hHosted.closed_lt

omit [Hasher] in
/- A segment that grows, or is started behind the others. -/
theorem of_grows
    (hHosted : engine.Hosted closed)
    {bytes : Bytes}
    (hGrows :
      engine.disk.Grows next.disk
        (ofLex engine.inner.wal.nextLoc).1 bytes)
    (hWritable : next.inner.wal.Writable next.disk)
    (hActive :
      engine.inner.wal.activeSegmentId ≤
        next.inner.wal.activeSegmentId) :
    next.Hosted closed := by
  constructor
  · exact hWritable
  · rw [hGrows.read_eq, if_neg (by simp)]
    exact hHosted.no_swap
  · intro segmentId hMem
    rcases hGrows.mem_segmentIds_iff.mp hMem with
      hEq | hOld
    · rw [hEq]
      exact le_trans hHosted.one_le_active
        engine.inner.wal.activeSegmentId_le_nextLoc
    · exact hHosted.one_le segmentId hOld
  · exact le_trans hHosted.one_le_active hActive
  · intro segmentId hMem
    have hLt := hHosted.closed_lt segmentId hMem
    exact ⟨hLt.1, lt_of_lt_of_le hLt.2 hActive⟩

/- Appends keep the writer behind the segments. -/
theorem appendsTo
    (hHosted : engine.Hosted closed)
    (hAppends : engine.AppendsTo next) :
    next.Hosted closed := by
  rcases hAppends with ⟨hDisk, hWal⟩ |
    ⟨fault, record, hAppend⟩
  · exact hHosted.of_alike hDisk hWal
  · by_cases hHits :
        ∃ found ∈ fault,
          found.hits engine.inner.wal = true
    · rcases hHits with ⟨found, hFound, hHits⟩
      rw [Option.mem_def] at hFound
      subst hFound
      rcases hHosted.writable.append_error hHits record with
        ⟨disk, wal, hError, hWritable, _, hDisk, hActive⟩
      rw [hError, Prod.mk.injEq] at hAppend
      rcases hAppend with ⟨rfl, rfl⟩
      rcases hDisk with hSame | hGrows
      · constructor
        · exact hWritable
        · rw [hSame]
          exact hHosted.no_swap
        · rw [hSame]
          exact hHosted.one_le
        · exact le_trans hHosted.one_le_active hActive
        · intro segmentId hMem
          have hLt := hHosted.closed_lt segmentId hMem
          exact ⟨hLt.1, lt_of_lt_of_le hLt.2 hActive⟩
      · exact hHosted.of_grows hGrows hWritable hActive
    · have hFault :
          ∀ found ∈ fault,
            found.hits engine.inner.wal = false := by
        intro found hFound
        cases hCase : found.hits engine.inner.wal with
        | false => rfl
        | true => exact (hHits ⟨found, hFound, hCase⟩).elim
      rcases hHosted.writable.append_ok hFault record with
        ⟨disk, wal, hOk, hAttached, hGrows, hActive⟩
      rw [hOk, Prod.mk.injEq] at hAppend
      rcases hAppend with ⟨rfl, rfl⟩
      exact hHosted.of_grows hGrows hAttached.writable
        hActive

/- The worker appends one record for each expired task. -/
theorem processExpired
    (hHosted : engine.Hosted closed)
    (tasks : List (Option AppendFault × ExpiredTask)) :
    (engine.processExpired tasks).Hosted closed := by
  induction tasks generalizing engine with
  | nil => exact hHosted
  | cons task tasks ih =>
      exact ih (hHosted.appendsTo
        (engine.appendsTo_processTaskFailure task.1
          task.2.id task.2.priority task.2.retries
          .expired))

omit [Hasher] in
/- Changes to the first segments and to temporary files. -/
theorem of_kept
    (hHosted : engine.Hosted closed)
    (hWal : next.inner.wal = engine.inner.wal)
    (hSwap : next.disk.read .compactionSwap = none)
    (hIds :
      ∀ segmentId ∈ next.disk.segmentIds,
        segmentId = 1 ∨
          segmentId ∈ engine.disk.segmentIds)
    (hRead :
      next.disk.read
          (.wal engine.inner.wal.activeSegmentId) =
        engine.disk.read
          (.wal engine.inner.wal.activeSegmentId))
    (hLookup :
      next.disk.lookup
          (.wal engine.inner.wal.activeSegmentId) =
        engine.disk.lookup
          (.wal engine.inner.wal.activeSegmentId)) :
    next.Hosted closed := by
  have hLe :
      ∀ segmentId ∈ next.disk.segmentIds,
        segmentId ≤ engine.inner.wal.activeSegmentId := by
    intro segmentId hMem
    rcases hIds segmentId hMem with hOne | hOld
    · rw [hOne]
      exact hHosted.one_le_active
    · exact hHosted.writable.ids_le segmentId hOld
  constructor
  · rw [hWal]
    refine ⟨hLe, ?_⟩
    intro hRotates
    have hOpened := hHosted.writable.opened hRotates
    have hActive := hLookup.trans hOpened.lookup_eq
    refine ⟨hLe, ?_, hActive⟩
    have hContent := hRead.trans hOpened.read_active
    rw [FileSystem.read, hActive, Option.map_some,
      Option.some.injEq] at hContent
    rw [hContent]
    exact hOpened.size_eq
  · exact hSwap
  · intro segmentId hMem
    rcases hIds segmentId hMem with hOne | hOld
    · exact le_of_eq hOne.symm
    · exact hHosted.one_le segmentId hOld
  · rw [hWal]
    exact hHosted.one_le_active
  · rw [hWal]
    exact hHosted.closed_lt

/- Phase 1 writes the temporary files only. -/
theorem compactPhase1
    (hHosted : engine.Hosted closed)
    (ids : List Nat) :
    (engine.compactPhase1 ids).2.Hosted closed := by
  unfold Engine.compactPhase1 Wal.executeCompactionPhase1
  cases Wal.collectClosed engine.disk .empty ids with
  | error error => exact hHosted.of_alike rfl rfl
  | ok maps =>
      have hRead :
          ∀ segmentId,
            (engine.disk.execAll
              (Wal.phase1Steps ids maps.survivors)).read
                (.wal segmentId) =
              engine.disk.read (.wal segmentId) := by
        intro segmentId
        simp [Wal.read_phase1]
      apply hHosted.of_kept
      · rfl
      · simpa [Wal.read_phase1] using hHosted.no_swap
      · intro segmentId hMem
        right
        rw [← Disk.segmentIds_congr hRead]
        exact hMem
      · exact hRead _
      · exact Wal.lookup_phase1 _ _ _ _

omit [Hasher] in
/- Writing the plan again touches no segment. -/
theorem planSteps
    (hHosted : engine.Hosted closed)
    (ids : List Nat) :
    ({ engine with
        disk :=
          engine.disk.execAll (Wal.planSteps ids) } :
        Engine).Hosted closed := by
  have hRead :
      ∀ segmentId,
        (engine.disk.execAll (Wal.planSteps ids)).read
            (.wal segmentId) =
          engine.disk.read (.wal segmentId) := by
    intro segmentId
    simp [Wal.read_planSteps]
  apply hHosted.of_kept
  · rfl
  · simpa [Wal.read_planSteps] using hHosted.no_swap
  · intro segmentId hMem
    right
    rw [← Disk.segmentIds_congr hRead]
    exact hMem
  · exact hRead _
  · apply FileSystem.lookup_execAll_of_not_target
    intro step hStep hName
    have hPlan := Wal.mem_planSteps_targets hStep hName
    simp at hPlan

omit [Hasher] in
/- Phase 2 replaces and unlinks closed segments only. -/
theorem compactPhase2
    (hHosted : engine.Hosted closed)
    (hSome : closed ≠ [])
    (newOffsets : Std.ExtTreeMap UInt64 Nat) :
    (engine.compactPhase2 closed newOffsets).2.Hosted
      closed := by
  have hActive :
      engine.inner.wal.activeSegmentId ∉ closed ∧
        1 < engine.inner.wal.activeSegmentId := by
    rcases List.exists_mem_of_ne_nil closed hSome with
      ⟨first, hFirst⟩
    have hLt := hHosted.closed_lt first hFirst
    refine ⟨?_, by omega⟩
    intro hMem
    exact lt_irrefl _ (hHosted.closed_lt _ hMem).2
  unfold Engine.compactPhase2 Wal.executeCompactionPhase2
  by_cases hTemp : engine.disk.contains .compacting = true
  · rw [if_pos hTemp]
    rw [Disk.contains_eq] at hTemp
    rcases Option.isSome_iff_exists.mp hTemp with
      ⟨content, hContent⟩
    have hRead := Wal.read_phase2 hContent closed
    apply hHosted.of_kept
    · simp [EngineState.remap_eq]
    · simp [hRead, Wal.unlinkedNames]
    · intro segmentId hMem
      rcases Disk.mem_segmentIds_iff.mp hMem with
        ⟨found, hFound⟩
      simp only [hRead] at hFound
      split at hFound
      · simp at hFound
      · split at hFound
        · next hOne => exact .inl (by simpa using hOne)
        · exact .inr (Disk.mem_segmentIds_iff.mpr
            ⟨found, by simpa using hFound⟩)
    · simp only [hRead]
      rw [if_neg, if_neg, if_neg]
      · simp
      · simp
        omega
      · simp [Wal.unlinkedNames, hActive.1]
    · exact Wal.lookup_phase2 _ hActive.1 (by omega)
  · rw [if_neg hTemp]
    simp only
    split
    · exact hHosted.of_alike rfl rfl
    · exact hHosted.planSteps closed

end Engine.Hosted

namespace System

variable [Hasher]

/- Opening a directory starts with its last segment. -/
theorem hosted_reopen
    {disk : Disk}
    (hSwap : disk.read .compactionSwap = none)
    (hOne : ∀ segmentId ∈ disk.segmentIds, 1 ≤ segmentId)
    (maxSegmentSize : Option Nat)
    (cacheCapacity : Nat)
    (now : UInt64) :
    (Engine.reopen disk maxSegmentSize cacheCapacity
      now).2.Hosted [] := by
  rcases Engine.reopen_any_spec disk maxSegmentSize
    cacheCapacity now with
    ⟨next, hNext, hDisk, _, hWal, _⟩
  have hLast := Wal.le_lastSegmentId (Wal.sweep disk)
  rw [hNext]
  constructor
  · rw [hDisk, hWal]
    exact (Wal.opened_open disk
      maxSegmentSize).attached.writable
  · rw [hDisk, Wal.read_open_sweep, if_neg (by simp),
      Wal.read_sweep hSwap]
    split
    · rfl
    · exact hSwap
  · intro segmentId hMem
    rw [hDisk] at hMem
    rcases Disk.mem_segmentIds_iff.mp hMem with
      ⟨content, hRead⟩
    rw [Wal.read_open_sweep] at hRead
    split at hRead
    · next hName =>
        rw [FileName.wal.injEq] at hName
        rw [hName]
        exact hLast.1
    · rw [Wal.read_sweep hSwap] at hRead
      split at hRead
      · simp at hRead
      · exact hOne segmentId
          (Disk.mem_segmentIds_iff.mpr ⟨content, hRead⟩)
  · rw [hWal]
    exact hLast.1
  · simp

/- A compaction in progress has segments to compact. -/
structure Hosted (system : System) : Prop where
  engine : system.engine.Hosted system.compaction.closed
  some_closed :
    system.compaction.closed = [] →
      system.compaction = .idle

theorem hosted_start
    (maxSegmentSize : Option Nat)
    (cacheCapacity : Nat)
    (now : UInt64) :
    (System.start maxSegmentSize cacheCapacity
      now).Hosted where
  engine :=
    hosted_reopen (by simp)
      (by simp [Disk.mem_segmentIds_iff]) _ _ _
  some_closed := fun _ => rfl

variable {system next : System}

omit [Hasher] in
/- A step that leaves the compaction alone. -/
theorem Hosted.of_engine
    (hHosted : system.Hosted)
    (hEngine :
      next.engine.Hosted system.compaction.closed)
    (hStage : next.compaction = system.compaction) :
    next.Hosted where
  engine := by
    rw [hStage]
    exact hEngine
  some_closed := by
    rw [hStage]
    exact hHosted.some_closed

omit [Hasher] in
/- The plan names segments below the active one. -/
theorem Hosted.compactPlan
    (hHosted : system.Hosted)
    (hNext : system.compactPlan = some next) :
    next.Hosted := by
  obtain rfl | ⟨ids, hPlan, rfl⟩ :=
    System.compactPlan_cases hNext
  · exact hHosted
  · simp only [Engine.compactPlan, Wal.planCompaction]
      at hPlan
    split at hPlan
    · simp at hPlan
    · next hSome =>
        rw [Option.some.injEq] at hPlan
        have hEngine := hHosted.engine
        refine ⟨⟨hEngine.writable, hEngine.no_swap,
          hEngine.one_le, hEngine.one_le_active, ?_⟩, ?_⟩
        · intro segmentId hMem
          simp only [CompactionStage.closed, ← hPlan,
            List.mem_filter, decide_eq_true_eq] at hMem
          exact ⟨hEngine.one_le segmentId hMem.1, hMem.2⟩
        · intro hNil
          rw [CompactionStage.closed, ← hPlan] at hNil
          exact (hSome hNil).elim

theorem Hosted.compactPhase1
    (hHosted : system.Hosted)
    (hNext : system.compactPhase1 = some next) :
    next.Hosted := by
  obtain ⟨ids, hStage, rfl⟩ :=
    System.compactPhase1_cases hNext
  have hSome := hHosted.some_closed
  have hEngine := hHosted.engine.compactPhase1 ids
  rw [hStage, CompactionStage.closed] at hSome hEngine
  constructor
  · simp only
    split
    · exact hEngine
    · exact ⟨hEngine.writable, hEngine.no_swap,
        hEngine.one_le, hEngine.one_le_active, by
          simp [CompactionStage.closed]⟩
  · simp only
    split
    · intro hNil
      have hIdle := hSome hNil
      simp at hIdle
    · exact fun _ => rfl

omit [Hasher] in
theorem Hosted.compactPhase2
    (hHosted : system.Hosted)
    (hNext : system.compactPhase2 = some next) :
    next.Hosted := by
  obtain ⟨ids, newOffsets, hStage, rfl⟩ :=
    System.compactPhase2_cases hNext
  have hSome := hHosted.some_closed
  have hOld := hHosted.engine
  rw [hStage, CompactionStage.closed] at hSome hOld
  have hNe : ids ≠ [] := by
    intro hNil
    have hIdle := hSome hNil
    simp at hIdle
  have hEngine := hOld.compactPhase2 hNe newOffsets
  exact ⟨⟨hEngine.writable, hEngine.no_swap,
    hEngine.one_le, hEngine.one_le_active, by
      simp [CompactionStage.closed]⟩, fun _ => rfl⟩

/- Every critical section without a fault. -/
theorem Hosted.step
    (hHosted : system.Hosted)
    {action : Action}
    (hNext : system.step action = some next) :
    next.Hosted := by
  have hEngine := hHosted.engine
  cases action with
  | push payload priority =>
      simp only [System.step, System.push] at hNext
      split at hNext
      · simp at hNext
      · rw [Option.some.injEq] at hNext
        rw [← hNext]
        exact hHosted.of_engine
          (hEngine.appendsTo
            (Engine.appendsTo_push _ _ _ _)) rfl
  | popLocked consumerId now leaseTtlSecs =>
      simp only [System.step, Option.some.injEq] at hNext
      rw [← hNext]
      exact hHosted.of_engine
        (hEngine.appendsTo
          (Engine.appendsTo_popLocked _ _ _ _ _)) rfl
  | popRead ticket =>
      simp only [System.step, Option.some.injEq] at hNext
      rw [← hNext]
      have hRead :=
        Engine.alike_popRead system.engine ticket
      exact hHosted.of_engine
        (hEngine.of_alike hRead.disk_eq hRead.wal_eq) rfl
  | ack id consumerId =>
      simp only [System.step, Option.some.injEq] at hNext
      rw [← hNext]
      exact hHosted.of_engine
        (hEngine.appendsTo
          (Engine.appendsTo_ack _ _ _ _)) rfl
  | nack id consumerId =>
      simp only [System.step, Option.some.injEq] at hNext
      rw [← hNext]
      exact hHosted.of_engine
        (hEngine.appendsTo
          (Engine.appendsTo_nack _ _ _ _)) rfl
  | compactPlan => exact hHosted.compactPlan hNext
  | compactPhase1 => exact hHosted.compactPhase1 hNext
  | compactPhase2 => exact hHosted.compactPhase2 hNext
  | snapshotExpired now tasks =>
      simp only [System.step, System.snapshotExpired]
        at hNext
      split at hNext
      · split at hNext
        · rw [Option.some.injEq] at hNext
          rw [← hNext]
          exact hHosted.of_engine hEngine rfl
        · simp at hNext
      · simp at hNext
  | processExpired =>
      simp only [System.step, System.processExpired]
        at hNext
      split at hNext
      · rw [Option.some.injEq] at hNext
        rw [← hNext]
        exact hHosted.of_engine
          (hEngine.processExpired _) rfl
      · simp at hNext
  | clearPayloadCache =>
      simp only [System.step, Option.some.injEq] at hNext
      rw [← hNext]
      exact hHosted.of_engine (hEngine.of_alike rfl rfl) rfl

/- Calls with any fault, and restarts. -/
theorem Hosted.faultyStep
    (hHosted : system.Hosted)
    {action : FaultyAction}
    (hNext : system.faultyStep action = some next) :
    next.Hosted := by
  have hEngine := hHosted.engine
  cases action with
  | call fault call =>
      simp only [System.faultyStep, Option.some.injEq]
        at hNext
      rw [← hNext]
      refine hHosted.of_engine (hEngine.appendsTo ?_) rfl
      cases call with
      | push payload priority =>
          exact Engine.appendsTo_push _ _ _ _
      | popAndLease consumerId now leaseTtlSecs =>
          exact Engine.appendsTo_popAndLease _ _ _ _ _
      | ack id consumerId =>
          exact Engine.appendsTo_ack _ _ _ _
      | nack id consumerId =>
          exact Engine.appendsTo_nack _ _ _ _
  | expire tasks =>
      simp only [System.faultyStep, Option.some.injEq]
        at hNext
      rw [← hNext]
      exact hHosted.of_engine (hEngine.processExpired tasks)
        rfl
  | other action => exact hHosted.step hNext
  | restart maxSegmentSize cacheCapacity now =>
      simp only [System.faultyStep, Option.some.injEq]
        at hNext
      rw [← hNext]
      exact ⟨hosted_reopen hEngine.no_swap hEngine.one_le
        _ _ _, fun _ => rfl⟩

end System

/- Every reachable engine can go on appending. -/
theorem FaultyRun.writable [Hasher]
    {maxSegmentSize : Option Nat}
    {cacheCapacity : Nat}
    {now : UInt64}
    {actions : List FaultyAction}
    {system : System}
    (hRun :
      FaultyRun maxSegmentSize cacheCapacity now actions
        system) :
    system.engine.inner.wal.Writable system.engine.disk := by
  have hHosted : system.Hosted :=
    Transition.Run.invariant
      (System.hosted_start maxSegmentSize cacheCapacity now)
      (fun hHosted _ hNext => hHosted.faultyStep hNext) hRun
  exact hHosted.engine.writable

/-
  In every reachable state, a call whose append fails leaves
  the queue as it was, unless it is a pop.
-/
theorem failed_call_intact_iff [Hasher]
    {maxSegmentSize : Option Nat}
    {cacheCapacity : Nat}
    {now : UInt64}
    {actions : List FaultyAction}
    {system : System}
    (hRun :
      FaultyRun maxSegmentSize cacheCapacity now actions
        system)
    {fault : AppendFault}
    (hHits : fault.hits system.engine.inner.wal = true)
    {call : EngineCall}
    (hAppends : call.Appends system.engine) :
    FailsIntact system.engine fault call ↔
      ∀ consumerId now leaseTtlSecs,
        call ≠
          .popAndLease consumerId now leaseTtlSecs := by
  have hWritable := hRun.writable
  constructor
  · rintro hIntact consumerId now leaseTtlSecs rfl
    exact not_failsIntact_pop hWritable hHits hAppends
      hIntact
  · exact failsIntact_of_not_pop hWritable hHits hAppends

end Nesso

------------------------------------------------------------
-- A Torn Write
------------------------------------------------------------

namespace Nesso

/- A push whose write was torn, and one that succeeded. -/
def tornPush : List FaultyAction :=
  [.call (some (.write 5)) (.push [1] 0),
    .call none (.push [2] 0)]

/- Whether some task is ready. -/
def hasReadyTask (system : System) : Bool :=
  system.engine.inner.readyQueue.pop.isSome

set_option maxRecDepth 100000 in
theorem exists_run_tornPush :
    ∃ system,
      FaultyRun none 4 0 tornPush system ∧
        hasReadyTask system = true := by
  apply Transition.exists_run_of_execute
  · simp
  · decide +kernel

theorem failed_call_intact_iff_tornPush :
    ∃ system,
      FaultyRun none 4 0 tornPush system ∧
        FailsIntact system.engine (.write 3)
          (.push [3] 0) := by
  rcases exists_run_tornPush with ⟨system, hRun, _⟩
  have hHits :
      (AppendFault.write 3).hits
        system.engine.inner.wal = true := rfl
  have hAppends :
      (EngineCall.push [3] 0).Appends system.engine :=
    trivial
  exact ⟨system, hRun,
    (failed_call_intact_iff hRun hHits hAppends).mpr
      (by simp)⟩

/- A pop whose write is torn loses the task it took. -/
theorem failed_pop_loses_task :
    ∃ system,
      FaultyRun none 4 0 tornPush system ∧
        (EngineCall.popAndLease 7 0 30).Appends
          system.engine ∧
        ¬ FailsIntact system.engine (.write 3)
          (.popAndLease 7 0 30) := by
  rcases exists_run_tornPush with ⟨system, hRun, hReady⟩
  have hAppends :
      (EngineCall.popAndLease 7 0 30).Appends
        system.engine := by
    intro hNone
    simp [hasReadyTask, hNone] at hReady
  exact ⟨system, hRun, hAppends,
    not_failsIntact_pop hRun.writable rfl hAppends⟩

end Nesso
