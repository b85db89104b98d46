import Nesso.Queue.ExpirationWorker
import Nesso.Recovery.AcceptedPushes
import Nesso.Recovery.FailedCalls
import Nesso.Recovery.Fifo

/-
  Leases that expire while the queue is closed.

  The worker counts an expired lease as a failed delivery;
  recovery makes the task ready with the retries it had.

  Key definitions include:
    * `TaskState`
    * `ExpiryAgrees`
    * `LeaseOp`
    * `deliveredTimes`
    * `EngineState.Accounted`

  The main theorems are:
    * `expiryAgrees_iff`
    * `leaseRun_deliveries_le`
    * `offline_expiry_sound_iff`
-/

------------------------------------------------------------
-- Live and Offline Expiry
------------------------------------------------------------

namespace Nesso

/- Whether a record is a lease that has expired. -/
def Record.leaseExpired
    (now : UInt64)
    (record : Record) : Bool :=
  match record.place with
  | .leased lease => lease.expireTimestamp ≤ now
  | _ => false

/- The latest records of all tasks that recovery finds. -/
def Wal.latestEntries [Hasher]
    (disk : Disk)
    (maxSegmentSize : Option Nat) : List (Loc × Record) :=
  KeyedLog.latests entryId
    (Wal.entries (Wal.open disk maxSegmentSize).1)

/- Whether recovery finds a lease that has expired. -/
def Wal.findsExpiredLease [Hasher]
    (disk : Disk)
    (maxSegmentSize : Option Nat)
    (now : UInt64) : Bool :=
  (Wal.latestEntries disk maxSegmentSize).any
    (fun entry => entry.2.leaseExpired now)

/- What the engine knows about one task. -/
structure TaskState where
  ready : List TaskRef
  lease : Option LeaseInfo
  live : Bool
deriving DecidableEq

def EngineState.taskState
    (inner : EngineState)
    (id : UInt64) : TaskState where
  ready :=
    inner.readyQueue.tasks.filter (fun task => task.id = id)
  lease := inner.leased[id]?
  live := inner.dataIndex.contains id

/- The ready queue without the entries of one task. -/
def ReadyQueue.without
    (queue : ReadyQueue)
    (id : UInt64) : ReadyQueue :=
  (queue.tasks.filter (fun task => task.id ≠ id)).foldl
    ReadyQueue.push ReadyQueue.new

/- A recovered engine whose task is under its lease again. -/
def Engine.restoreLease
    (engine : Engine)
    (id : UInt64)
    (lease : LeaseInfo) : Engine :=
  { engine with
    inner :=
      { engine.inner with
        readyQueue := engine.inner.readyQueue.without id
        leased := engine.inner.leased.insert id lease } }

/- One pass of the expiration worker. -/
def Engine.expirationPass [Hasher]
    (engine : Engine)
    (now : UInt64) : Engine :=
  engine.expireAll (engine.expiredTasks now)

/-
  Recovery leaves every task whose lease has expired where
  the worker would, had it found the lease.
-/
def ExpiryAgrees [Hasher]
    (disk : Disk)
    (maxSegmentSize : Option Nat)
    (cacheCapacity : Nat)
    (now : UInt64) : Prop :=
  let recovered :=
    (Engine.reopen disk maxSegmentSize cacheCapacity now).2
  ∀ entry ∈ Wal.latestEntries disk maxSegmentSize,
    ∀ lease, entry.2.place = .leased lease →
      lease.expireTimestamp ≤ now →
        recovered.inner.taskState entry.2.id =
          ((recovered.restoreLease entry.2.id
              lease).expirationPass now).inner.taskState
            entry.2.id

namespace ReadyQueue

theorem tasks_foldl_push_perm
    (tasks : List TaskRef)
    (queue : ReadyQueue) :
    (tasks.foldl ReadyQueue.push queue).tasks.Perm
      (queue.tasks ++ tasks) := by
  induction tasks generalizing queue with
  | nil => simp
  | cons task tasks ih =>
      refine (ih (queue.push task)).trans ?_
      refine ((queue.tasks_push_perm task).append_right
        tasks).trans ?_
      exact List.perm_middle.symm

theorem tasks_without_perm
    (queue : ReadyQueue)
    (id : UInt64) :
    (queue.without id).tasks.Perm
      (queue.tasks.filter (fun task => task.id ≠ id)) := by
  have hPerm :=
    tasks_foldl_push_perm
      (queue.tasks.filter (fun task => task.id ≠ id)) new
  rw [tasks_new, List.nil_append] at hPerm
  exact hPerm

end ReadyQueue

namespace Engine

variable [Hasher]

omit [Hasher] in
/- The only lease that has expired is the restored one. -/
theorem expiredTasks_restoreLease
    {engine : Engine}
    {now : UInt64}
    (hLive :
      ∀ (id : UInt64) (lease : LeaseInfo),
        engine.inner.leased[id]? = some lease →
          now < lease.expireTimestamp)
    (id : UInt64)
    {lease : LeaseInfo}
    (hExpired : lease.expireTimestamp ≤ now) :
    (engine.restoreLease id lease).expiredTasks now =
      [⟨id, lease.priority, lease.retries⟩] := by
  rw [← List.perm_singleton]
  apply (List.perm_ext_iff_of_nodup
    (List.Nodup.of_map _ (expiredTasks_ids_nodup _ now))
    (List.nodup_singleton _)).mpr
  intro task
  rw [mem_expiredTasks_iff, List.mem_singleton]
  simp only [restoreLease, Std.ExtTreeMap.getElem?_insert]
  constructor
  · rintro ⟨found, hFound, hOver, hTask⟩
    split at hFound
    · next hId =>
        rw [Std.compare_eq_iff_eq] at hId
        rw [Option.some.injEq] at hFound
        rw [hTask, ← hFound, ← hId]
    · exact (UInt64.not_le.mpr
        (hLive _ _ hFound) hOver).elim
  · rintro rfl
    exact ⟨lease, by simp, hExpired, rfl⟩

/-
  The worker makes the task ready with one more retry, or
  gives it up.
-/
theorem taskState_expirationPass
    {engine : Engine}
    {now : UInt64}
    (hLive :
      ∀ (id : UInt64) (lease : LeaseInfo),
        engine.inner.leased[id]? = some lease →
          now < lease.expireTimestamp)
    (id : UInt64)
    {lease : LeaseInfo}
    (hExpired : lease.expireTimestamp ≤ now) :
    ((engine.restoreLease id lease).expirationPass
        now).inner.taskState id =
      if maxRetries ≤ lease.retries + 1 then
        ⟨[], none, false⟩
      else
        ⟨[⟨id, lease.priority, lease.retries + 1⟩], none,
          engine.inner.dataIndex.contains id⟩ := by
  have hWithout :
      (engine.inner.readyQueue.without id).tasks.filter
        (fun task => task.id = id) = [] := by
    rw [← List.perm_nil]
    refine ((ReadyQueue.tasks_without_perm _ id).filter
      _).trans ?_
    rw [List.filter_filter]
    apply List.Perm.of_eq
    rw [List.filter_eq_nil_iff]
    intro task _
    by_cases hId : task.id = id <;> simp [hId]
  rw [expirationPass, expiredTasks_restoreLease hLive id
    hExpired]
  simp only [expireAll, processExpired, List.map_cons,
    List.map_nil, List.foldl_cons, List.foldl_nil,
    expireTask_none, Change.failure]
  split
  · simp only [EngineState.taskState, perform,
      Change.apply, restoreLease, hWithout]
    simp
  · have hPush :
        ((engine.inner.readyQueue.without id).push
            ⟨id, lease.priority,
              lease.retries + 1⟩).tasks.filter
          (fun task => task.id = id) =
            [⟨id, lease.priority, lease.retries + 1⟩] := by
      rw [← List.perm_singleton]
      refine ((ReadyQueue.tasks_push_perm _ _).filter
        _).trans ?_
      rw [List.filter_cons, hWithout]
      simp
    simp only [EngineState.taskState, perform,
      Change.apply, restoreLease, hPush]
    simp

end Engine

/- A recovered lease has not expired. -/
theorem EngineState.Recovered.lt_expireTimestamp
    {now : UInt64}
    {entries : List (Loc × Record)}
    {inner : EngineState}
    (hInner : inner.Recovered now entries)
    {id : UInt64}
    {lease : LeaseInfo}
    (hLease : inner.leased[id]? = some lease) :
    now < lease.expireTimestamp := by
  rw [hInner.leased_eq, Replay.lease_eq_some_iff] at hLease
  rcases hLease with ⟨entry, _, hPlace⟩
  exact (Record.placeAt_eq_leased_iff.mp hPlace).2

/- A lease that expired offline keeps its retries. -/
theorem mem_ready_of_leaseExpired
    {now : UInt64}
    {entries : List (Loc × Record)}
    {inner : EngineState}
    (hInner : inner.Recovered now entries)
    {entry : Loc × Record}
    (hEntry : entry ∈ KeyedLog.latests entryId entries)
    {lease : LeaseInfo}
    (hPlace : entry.2.place = .leased lease)
    (hExpired : lease.expireTimestamp ≤ now) :
    (⟨entry.2.id, entry.2.priority, lease.retries⟩ :
        TaskRef) ∈ inner.readyQueue.tasks := by
  have hReady :
      entry.2.placeAt now =
        .ready ⟨entry.2.id, entry.2.priority,
          lease.retries⟩ := by
    simp [Record.placeAt, hPlace, UInt64.not_lt.mpr hExpired]
  rw [ReadyQueue.mem_tasks_iff, hInner.bucket_eq,
    List.mem_filter, Replay.mem_ready_iff
      (fun _ _ hReady =>
        (Record.id_of_placeAt_eq_ready hReady).1)]
  exact ⟨⟨entry, KeyedLog.mem_latests_iff.mp hEntry,
    hReady⟩, by simp⟩

variable [Hasher]

/- Recovery and the worker never agree on such a task. -/
theorem not_agrees_of_leaseExpired
    {disk : Disk}
    {maxSegmentSize : Option Nat}
    {cacheCapacity : Nat}
    {now : UInt64}
    {entry : Loc × Record}
    (hEntry : entry ∈ Wal.latestEntries disk maxSegmentSize)
    (hExpired : entry.2.leaseExpired now = true) :
    ¬ ExpiryAgrees disk maxSegmentSize cacheCapacity now := by
  intro hAgrees
  unfold Record.leaseExpired at hExpired
  split at hExpired
  · next lease hPlace =>
      rw [decide_eq_true_eq] at hExpired
      rcases Engine.reopen_any_spec disk maxSegmentSize
        cacheCapacity now with
        ⟨next, hReopen, _, _, _, _, hInner⟩
      have hTask :=
        mem_ready_of_leaseExpired hInner hEntry hPlace
          hExpired
      have hSame := hAgrees entry hEntry lease hPlace hExpired
      rw [hReopen, Engine.taskState_expirationPass
        (fun _ _ hLease => hInner.lt_expireTimestamp hLease)
        _ hExpired] at hSame
      have hMem :
          (⟨entry.2.id, entry.2.priority, lease.retries⟩ :
              TaskRef) ∈
            (next.inner.taskState entry.2.id).ready :=
        List.mem_filter.mpr ⟨hTask, by simp⟩
      rw [hSame] at hMem
      split at hMem
      · simp at hMem
      · simp at hMem
  · simp at hExpired

/- They agree when no lease has expired offline. -/
theorem expiryAgrees_iff
    (disk : Disk)
    (maxSegmentSize : Option Nat)
    (cacheCapacity : Nat)
    (now : UInt64) :
    ExpiryAgrees disk maxSegmentSize cacheCapacity now ↔
      Wal.findsExpiredLease disk maxSegmentSize now =
        false := by
  rw [Wal.findsExpiredLease, List.any_eq_false]
  constructor
  · intro hAgrees entry hEntry hExpired
    exact not_agrees_of_leaseExpired hEntry hExpired hAgrees
  · intro hNone entry hEntry lease hPlace hExpired
    apply (hNone entry hEntry _).elim
    simp [Record.leaseExpired, hPlace, hExpired]

end Nesso

------------------------------------------------------------
-- Runs with Expiring Leases
------------------------------------------------------------

namespace Nesso

/- How an event changes the deliveries of a task. -/
def Event.countDelivery
    (id : UInt64)
    (count : Nat) : Event → Nat
| .pushed found _ _ => if found = id then 0 else count
| .leased found => if found = id then count + 1 else count
| _ => count

/- The deliveries of a task since it was pushed. -/
def deliveredTimes
    (history : List Event)
    (id : UInt64) : Nat :=
  history.foldl (Event.countDelivery id) 0

theorem deliveredTimes_append_singleton
    (history : List Event)
    (event : Event)
    (id : UInt64) :
    deliveredTimes (history ++ [event]) id =
      event.countDelivery id (deliveredTimes history id) := by
  simp [deliveredTimes]

/- Operations, and the expiry of one lease by the worker. -/
inductive LeaseOp where
| life (op : LifeOp)
| expire (fault : Option AppendFault)
    (id : UInt64) (now : UInt64)

namespace Service

variable [Hasher]

def expire
    (service : Service)
    (fault : Option AppendFault)
    (id : UInt64)
    (now : UInt64) : Service :=
  match service.engine.inner.leased[id]? with
  | none => service
  | some lease =>
      if lease.expireTimestamp ≤ now then
        { service with
          engine :=
            service.engine.expireTask fault
              ⟨id, lease.priority, lease.retries⟩ }
      else
        service

def leaseStep
    (service : Service) : LeaseOp → Option Service
| .life op => service.step op
| .expire fault id now =>
    some (service.expire fault id now)

end Service

/-
  Payloads leave room for a state's metadata, the id counter
  does not overflow, and no restart finds an expired lease.
-/
def LeaseOp.ExpiresLive [Hasher]
    (service : Service) : LeaseOp → Prop
| .life (.push _ payload _) =>
    payload.length ≤ maxUserPayloadSize ∧
      service.engine.inner.IdsLeft
| .life (.restart maxSegmentSize _ now) =>
    Wal.findsExpiredLease service.engine.disk maxSegmentSize
      now = false
| _ => True

instance (inner : EngineState) : Decidable inner.IdsLeft :=
  inferInstanceAs (Decidable (_ ≠ _))

instance [Hasher]
    (service : Service)
    (op : LeaseOp) :
    Decidable (op.ExpiresLive service) :=
  match op with
  | .life (.push ..) => inferInstanceAs (Decidable (_ ∧ _))
  | .life (.restart ..) =>
      inferInstanceAs (Decidable (_ = _))
  | .life (.popAndLease ..) => isTrue trivial
  | .life (.ack ..) => isTrue trivial
  | .life (.nack ..) => isTrue trivial
  | .life .compact => isTrue trivial
  | .expire .. => isTrue trivial

/- Runs from an empty directory. -/
def LeaseRun [Hasher]
    (maxSegmentSize : Option Nat)
    (cacheCapacity : Nat)
    (start : UInt64) :
    List LeaseOp → Service → Prop :=
  Transition.Run Service.leaseStep LeaseOp.ExpiresLive
    (Service.start maxSegmentSize cacheCapacity start)

/- How often a task in this place may have been delivered. -/
def Place.Allows (count : Nat) : Place → Prop
| .ready task =>
    count ≤ task.retries.toNat ∧ task.retries < maxRetries
| .leased lease =>
    count ≤ lease.retries.toNat + 1 ∧
      lease.retries < maxRetries
| .terminal => True

/-
  The queue is part of what the log says, and no task was
  delivered more often than its place in the log allows.
-/
structure EngineState.Accounted
    (inner : EngineState)
    (records : List Record)
    (history : List Event) : Prop where
  known : ∀ record ∈ records, record.id < inner.nextId
  short :
    ∀ record ∈ records,
      record.userPayload.length ≤ maxUserPayloadSize
  long :
    ∀ record ∈ records, record.opType = .leased →
      13 ≤ record.payload.length
  ready :
    ∀ task ∈ inner.readyQueue.tasks,
      Replay.placeOf Record.place records task.id =
        some (.ready task)
  ready_nodup :
    (inner.readyQueue.tasks.map TaskRef.id).Nodup
  leased :
    ∀ (id : UInt64) (lease : LeaseInfo),
      inner.leased[id]? = some lease →
        Replay.placeOf Record.place records id =
          some (.leased lease)
  allowed :
    ∀ id place,
      Replay.placeOf Record.place records id = some place →
        place.Allows (deliveredTimes history id)
  bounded :
    ∀ id, deliveredTimes history id ≤ maxRetries.toNat

namespace EngineState.Accounted

variable {inner next : EngineState}
variable {records : List Record} {history : List Event}

/- A task that is leased is not ready. -/
theorem not_ready_of_leased
    (hInner : inner.Accounted records history)
    {id : UInt64}
    {lease : LeaseInfo}
    (hLease : inner.leased[id]? = some lease) :
    ∀ task ∈ inner.readyQueue.tasks, task.id ≠ id := by
  rintro task hTask rfl
  have hReady := hInner.ready task hTask
  rw [hInner.leased _ _ hLease] at hReady
  simp at hReady

/- Tasks may get lost from memory only. -/
theorem of_subset
    (hInner : inner.Accounted records history)
    (hNextId : inner.nextId ≤ next.nextId)
    (hReady :
      next.readyQueue.tasks ⊆ inner.readyQueue.tasks)
    (hNodup : (next.readyQueue.tasks.map TaskRef.id).Nodup)
    (hLeased : next.leased = inner.leased) :
    next.Accounted records history where
  known := fun record hRecord =>
    UInt64.lt_of_lt_of_le (hInner.known record hRecord)
      hNextId
  short := hInner.short
  long := hInner.long
  ready := fun task hTask =>
    hInner.ready task (hReady hTask)
  ready_nodup := hNodup
  leased := by
    rw [hLeased]
    exact hInner.leased
  allowed := hInner.allowed
  bounded := hInner.bounded

/- One more record, which alone places its task. -/
theorem append
    (hInner : inner.Accounted records history)
    {record : Record}
    {later : List Event}
    (hNextId : inner.nextId ≤ next.nextId)
    (hKnown : record.id < next.nextId)
    (hShort :
      record.userPayload.length ≤ maxUserPayloadSize)
    (hLong :
      record.opType = .leased →
        13 ≤ record.payload.length)
    (hReady :
      ∀ task ∈ next.readyQueue.tasks,
        (task ∈ inner.readyQueue.tasks ∧
            task.id ≠ record.id) ∨
          record.place = .ready task)
    (hNodup : (next.readyQueue.tasks.map TaskRef.id).Nodup)
    (hLeased :
      ∀ (id : UInt64) (lease : LeaseInfo),
        next.leased[id]? = some lease →
          (inner.leased[id]? = some lease ∧
              id ≠ record.id) ∨
            (id = record.id ∧ record.place = .leased lease))
    (hOther :
      ∀ id, id ≠ record.id →
        deliveredTimes later id =
          deliveredTimes history id)
    (hAllows :
      record.place.Allows (deliveredTimes later record.id))
    (hBounded :
      deliveredTimes later record.id ≤ maxRetries.toNat) :
    next.Accounted (records ++ [record]) later := by
  have hPlace :
      ∀ id,
        Replay.placeOf Record.place (records ++ [record])
            id =
          if id = record.id then some record.place
          else Replay.placeOf Record.place records id := by
    intro id
    rw [Replay.placeOf, KeyedLog.latest_append_singleton]
    by_cases hId : id = record.id
    · simp [hId]
    · simp [hId, Ne.symm hId, Replay.placeOf]
  constructor
  · intro found hFound
    rcases List.mem_append.mp hFound with hOld | hNew
    · exact UInt64.lt_of_lt_of_le (hInner.known found hOld)
        hNextId
    · rw [List.mem_singleton.mp hNew]
      exact hKnown
  · intro found hFound
    rcases List.mem_append.mp hFound with hOld | hNew
    · exact hInner.short found hOld
    · rw [List.mem_singleton.mp hNew]
      exact hShort
  · intro found hFound
    rcases List.mem_append.mp hFound with hOld | hNew
    · exact hInner.long found hOld
    · rw [List.mem_singleton.mp hNew]
      exact hLong
  · intro task hTask
    rw [hPlace]
    rcases hReady task hTask with ⟨hOld, hNe⟩ | hNew
    · rw [if_neg hNe]
      exact hInner.ready task hOld
    · rw [if_pos (Record.id_of_place_eq_ready hNew).1, hNew]
  · exact hNodup
  · intro id lease hLease
    rw [hPlace]
    rcases hLeased id lease hLease with
      ⟨hOld, hNe⟩ | ⟨hId, hNew⟩
    · rw [if_neg hNe]
      exact hInner.leased id lease hOld
    · rw [if_pos hId, hNew]
  · intro id place hFound
    rw [hPlace] at hFound
    split at hFound
    · next hId =>
        rw [Option.some.injEq] at hFound
        rw [hId, ← hFound]
        exact hAllows
    · next hId =>
        rw [hOther id hId]
        exact hInner.allowed id place hFound
  · intro id
    by_cases hId : id = record.id
    · rw [hId]
      exact hBounded
    · rw [hOther id hId]
      exact hInner.bounded id

/- Events that neither push nor deliver. -/
theorem of_history
    (hInner : inner.Accounted records history)
    {later : List Event}
    (hSame :
      ∀ id,
        deliveredTimes later id =
          deliveredTimes history id) :
    inner.Accounted records later where
  known := hInner.known
  short := hInner.short
  long := hInner.long
  ready := hInner.ready
  ready_nodup := hInner.ready_nodup
  leased := hInner.leased
  allowed := by
    intro id place hPlace
    rw [hSame]
    exact hInner.allowed id place hPlace
  bounded := by
    intro id
    rw [hSame]
    exact hInner.bounded id

theorem placed_lt
    (hInner : inner.Accounted records history)
    {id : UInt64}
    {place : Place}
    (hPlace :
      Replay.placeOf Record.place records id =
        some place) :
    id < inner.nextId := by
  rw [Replay.placeOf, Option.map_eq_some_iff] at hPlace
  rcases hPlace with ⟨record, hLatest, _⟩
  rcases KeyedLog.latest_mem hLatest with ⟨hRecord, hId⟩
  rw [← hId]
  exact hInner.known record hRecord

/- A new task has not been delivered. -/
theorem add
    (hInner : inner.Accounted records history)
    (hLeft : inner.IdsLeft)
    (priority : UInt8)
    {payload : Bytes}
    (hShort : payload.length ≤ maxUserPayloadSize)
    (loc : Loc) :
    (Change.apply inner loc
        (.add priority payload)).Accounted
      (records ++
        [Change.record inner (.add priority payload)])
      (history ++
        [.pushed inner.nextId priority payload]) := by
  have hLt : inner.nextId < inner.nextId + 1 :=
    UInt64.lt_add_one_of_ne hLeft
  have hPerm :=
    inner.readyQueue.tasks_push_perm
      ⟨inner.nextId, priority, 0⟩
  have hFresh :
      ∀ task ∈ inner.readyQueue.tasks,
        task.id ≠ inner.nextId := by
    intro task hTask hId
    have hKnown := hInner.placed_lt (hInner.ready task hTask)
    rw [hId] at hKnown
    exact UInt64.lt_irrefl _ hKnown
  apply hInner.append
  · exact UInt64.le_of_lt hLt
  · exact hLt
  · exact hShort
  · simp [Change.record]
  · intro task hTask
    rcases List.mem_cons.mp (hPerm.mem_iff.mp hTask) with
      hNew | hOld
    · right
      rw [hNew]
      rfl
    · exact .inl ⟨hOld, hFresh task hOld⟩
  · refine (hPerm.map TaskRef.id).nodup_iff.mpr ?_
    rw [List.map_cons, List.nodup_cons]
    refine ⟨?_, hInner.ready_nodup⟩
    intro hMem
    rcases List.mem_map.mp hMem with ⟨task, hTask, hId⟩
    exact hFresh task hTask hId
  · intro id lease hLease
    refine .inl ⟨hLease, ?_⟩
    intro hId
    have hKnown :=
      hInner.placed_lt (hInner.leased id lease hLease)
    rw [hId] at hKnown
    exact UInt64.lt_irrefl _ hKnown
  · intro id hId
    rw [deliveredTimes_append_singleton]
    exact if_neg (Ne.symm hId)
  · simp [deliveredTimes_append_singleton,
      Event.countDelivery, Change.record, Record.place,
      Place.Allows, maxRetries]
  · simp [deliveredTimes_append_singleton,
      Event.countDelivery, Change.record]

/- A lease allows one delivery more than its retries. -/
theorem grant
    (hInner : inner.Accounted records history)
    {task : TaskRef}
    {rest : ReadyQueue}
    (hPop : inner.readyQueue.pop = some (task, rest))
    (consumerId : UInt32)
    (expireTimestamp : UInt64)
    {later : List Event}
    (hLater :
      later = history ∨ later = history ++ [.leased task.id])
    (loc : Loc) :
    (Change.apply inner loc
        (.grant task rest consumerId
          expireTimestamp)).Accounted
      (records ++
        [Change.record inner
          (.grant task rest consumerId
            expireTimestamp)]) later := by
  have hPerm := ReadyQueue.tasks_pop_perm hPop
  have hTask : task ∈ inner.readyQueue.tasks :=
    hPerm.mem_iff.mpr (by simp)
  have hNodup :=
    (hPerm.map TaskRef.id).nodup_iff.mp hInner.ready_nodup
  rw [List.map_cons, List.nodup_cons] at hNodup
  have hPlaced := hInner.ready task hTask
  have hAllowed := hInner.allowed _ _ hPlaced
  have hPlace :=
    Change.place_record_grant inner task rest consumerId
      expireTimestamp
  have hCount :
      deliveredTimes later task.id ≤
        task.retries.toNat + 1 := by
    rcases hLater with rfl | rfl
    · exact Nat.le_succ_of_le hAllowed.1
    · rw [deliveredTimes_append_singleton,
        Event.countDelivery, if_pos rfl]
      exact Nat.succ_le_succ hAllowed.1
  have hRetries :
      task.retries.toNat < maxRetries.toNat :=
    UInt8.lt_iff_toNat_lt.mp hAllowed.2
  apply hInner.append
  · exact UInt64.le_refl _
  · exact hInner.placed_lt hPlaced
  · simp [Change.record, Record.userPayload,
      length_leasePayload]
  · simp [Change.record, length_leasePayload]
  · intro other hOther
    have hOld : other ∈ inner.readyQueue.tasks :=
      hPerm.mem_iff.mpr (List.mem_cons_of_mem _ hOther)
    refine .inl ⟨hOld, ?_⟩
    intro hId
    apply hNodup.1
    exact List.mem_map.mpr ⟨other, hOther, hId⟩
  · exact hNodup.2
  · intro id lease hLease
    simp only [Change.apply,
      Std.ExtTreeMap.getElem?_insert] at hLease
    split at hLease
    · next hId =>
        rw [Std.compare_eq_iff_eq] at hId
        rw [Option.some.injEq] at hLease
        right
        rw [hPlace, hLease]
        exact ⟨hId.symm, rfl⟩
    · next hId =>
        rw [Std.compare_eq_iff_eq] at hId
        exact .inl ⟨hLease, fun hEq => hId hEq.symm⟩
  · intro id hId
    rcases hLater with rfl | rfl
    · rfl
    · rw [deliveredTimes_append_singleton]
      exact if_neg (Ne.symm hId)
  · rw [hPlace]
    exact ⟨hCount, hAllowed.2⟩
  · exact le_trans hCount hRetries

/- A task that ends is placed nowhere. -/
theorem finish
    (hInner : inner.Accounted records history)
    {id : UInt64}
    {lease : LeaseInfo}
    (hLease : inner.leased[id]? = some lease)
    (deadRetries : Option UInt8)
    (loc : Loc) :
    (Change.apply inner loc
        (.finish id lease.priority deadRetries)).Accounted
      (records ++
        [Change.record inner
          (.finish id lease.priority deadRetries)])
      history := by
  have hPlaced := hInner.leased id lease hLease
  generalize hRecord :
    Change.record inner
      (.finish id lease.priority deadRetries) = record
  have hId : record.id = id := by
    cases deadRetries <;> rw [← hRecord] <;> rfl
  have hPlace : record.place = .terminal := by
    cases deadRetries <;> rw [← hRecord] <;> rfl
  have hShort :
      record.userPayload.length ≤ maxUserPayloadSize := by
    cases deadRetries <;> rw [← hRecord] <;>
      simp [Change.record, Record.userPayload,
        maxUserPayloadSize, maxPayloadSize]
  have hLong : record.opType ≠ .leased := by
    cases deadRetries <;> rw [← hRecord] <;>
      simp [Change.record]
  apply hInner.append
  · exact UInt64.le_refl _
  · rw [hId]
    exact hInner.placed_lt hPlaced
  · exact hShort
  · exact fun hOp => (hLong hOp).elim
  · intro task hTask
    rw [hId]
    exact .inl
      ⟨hTask, hInner.not_ready_of_leased hLease task hTask⟩
  · exact hInner.ready_nodup
  · intro other found hFound
    simp only [Change.apply,
      Std.ExtTreeMap.getElem?_erase] at hFound
    split at hFound
    · simp at hFound
    · next hOther =>
        rw [Std.compare_eq_iff_eq] at hOther
        rw [hId]
        exact .inl ⟨hFound, fun hEq => hOther hEq.symm⟩
  · exact fun _ _ => rfl
  · rw [hPlace]
    trivial
  · exact hInner.bounded _

/- A failed delivery is counted as a retry. -/
theorem retry
    (hInner : inner.Accounted records history)
    {id : UInt64}
    {lease : LeaseInfo}
    (hLease : inner.leased[id]? = some lease)
    (hRetries : lease.retries + 1 < maxRetries)
    {failureType : OpType}
    (hType :
      failureType = .nacked ∨ failureType = .expired)
    (loc : Loc) :
    (Change.apply inner loc
        (.retry id lease.priority (lease.retries + 1)
          failureType)).Accounted
      (records ++
        [Change.record inner
          (.retry id lease.priority (lease.retries + 1)
            failureType)])
      history := by
  have hPlaced := hInner.leased id lease hLease
  have hAllowed := hInner.allowed _ _ hPlaced
  have hFree := hInner.not_ready_of_leased hLease
  have hPerm :=
    inner.readyQueue.tasks_push_perm
      ⟨id, lease.priority, lease.retries + 1⟩
  generalize hRecord :
    Change.record inner
      (.retry id lease.priority (lease.retries + 1)
        failureType) = record
  have hId : record.id = id := by
    rw [← hRecord]
    rfl
  have hPlace :
      record.place =
        .ready ⟨id, lease.priority, lease.retries + 1⟩ := by
    rcases hType with rfl | rfl <;> rw [← hRecord] <;> rfl
  have hShort :
      record.userPayload.length ≤ maxUserPayloadSize := by
    rcases hType with rfl | rfl <;> rw [← hRecord] <;>
      simp [Change.record, Record.userPayload]
  have hLong : record.opType ≠ .leased := by
    rcases hType with rfl | rfl <;> rw [← hRecord] <;>
      simp [Change.record]
  have hCount :
      (lease.retries + 1).toNat =
        lease.retries.toNat + 1 := by
    have hLt :
        lease.retries.toNat < maxRetries.toNat :=
      UInt8.lt_iff_toNat_lt.mp hAllowed.2
    have hMax : maxRetries.toNat = 3 := rfl
    rw [UInt8.toNat_add]
    simp
    omega
  apply hInner.append
  · exact UInt64.le_refl _
  · rw [hId]
    exact hInner.placed_lt hPlaced
  · exact hShort
  · exact fun hOp => (hLong hOp).elim
  · intro task hTask
    rcases List.mem_cons.mp (hPerm.mem_iff.mp hTask) with
      hNew | hOld
    · right
      rw [hPlace, hNew]
    · rw [hId]
      exact .inl ⟨hOld, hFree task hOld⟩
  · refine (hPerm.map TaskRef.id).nodup_iff.mpr ?_
    rw [List.map_cons, List.nodup_cons]
    refine ⟨?_, hInner.ready_nodup⟩
    intro hMem
    rcases List.mem_map.mp hMem with ⟨task, hTask, hEq⟩
    exact hFree task hTask hEq
  · intro other found hFound
    simp only [Change.apply,
      Std.ExtTreeMap.getElem?_erase] at hFound
    split at hFound
    · simp at hFound
    · next hOther =>
        rw [Std.compare_eq_iff_eq] at hOther
        rw [hId]
        exact .inl ⟨hFound, fun hEq => hOther hEq.symm⟩
  · exact fun _ _ => rfl
  · rw [hPlace, hId]
    refine ⟨?_, hRetries⟩
    rw [hCount]
    exact hAllowed.1
  · exact hInner.bounded _

theorem failure
    (hInner : inner.Accounted records history)
    {id : UInt64}
    {lease : LeaseInfo}
    (hLease : inner.leased[id]? = some lease)
    {failureType : OpType}
    (hType :
      failureType = .nacked ∨ failureType = .expired)
    (loc : Loc) :
    (Change.apply inner loc
        (.failure id lease.priority lease.retries
          failureType)).Accounted
      (records ++
        [Change.record inner
          (.failure id lease.priority lease.retries
            failureType)])
      history := by
  unfold Change.failure
  split
  · exact hInner.finish hLease _ loc
  · next hFew =>
      exact hInner.retry hLease (UInt8.not_le.mp hFew) hType
        loc

end EngineState.Accounted

end Nesso

------------------------------------------------------------
-- Accounted Engines
------------------------------------------------------------

namespace Nesso

namespace Engine

variable [Hasher]

/- The records that the directory holds. -/
def records (engine : Engine) : List Record :=
  (Wal.entries engine.disk).map Prod.snd

structure Accounted
    (engine : Engine)
    (history : List Event) : Prop where
  hosted : engine.Hosted []
  settled : engine.disk.Settled
  inner : engine.inner.Accounted engine.records history

/- Whether or not an append meets a fault. -/
theorem appendRecord_cases
    {engine : Engine}
    (hWritable : engine.inner.wal.Writable engine.disk)
    (hSettled : engine.disk.Settled)
    (fault : Option AppendFault)
    {record : Record}
    (hFits : record.Fits) :
    (∃ loc next,
      engine.appendRecord fault record = (.ok loc, next) ∧
        next.inner =
          { engine.inner with wal := next.inner.wal } ∧
        next.disk.Settled ∧
        next.records = engine.records ++ [record]) ∨
      ∃ error next,
        engine.appendRecord fault record =
            (.error error, next) ∧
          next.inner =
            { engine.inner with wal := next.inner.wal } ∧
          next.disk.Settled ∧
          next.records = engine.records := by
  by_cases hHits :
      ∃ found ∈ fault,
        found.hits engine.inner.wal = true
  · rcases hHits with ⟨found, hFound, hHits⟩
    rw [Option.mem_def] at hFound
    subst hFound
    rcases appendRecord_error hWritable hHits record with
      ⟨next, hAppend, hNext⟩
    refine .inr ⟨_, next, hAppend, hNext.inner_eq,
      hNext.settled hSettled, ?_⟩
    rw [records, hNext.entries_eq]
    rfl
  · have hFault :
        ∀ found ∈ fault,
          found.hits engine.inner.wal = false := by
      intro found hFound
      cases hCase : found.hits engine.inner.wal with
      | false => rfl
      | true => exact (hHits ⟨found, hFound, hCase⟩).elim
    rcases hWritable.append_ok hFault record with
      ⟨disk, wal, hAppend, _, hGrows, _⟩
    rcases hWritable.target_whole hSettled with
      ⟨hOne, hWhole⟩
    have hLe := hWritable.ids_le_nextLoc
    let next : Engine :=
      { engine with
        disk := disk
        inner := { engine.inner with wal := wal } }
    refine .inl ⟨_, next, by rw [appendRecord, hAppend],
      rfl, ?_, ?_⟩
    · exact hSettled.grows hGrows hLe hOne
        (whole_append_encode hWhole hFits)
    · rw [records, records,
        hGrows.entries_of_encode hLe hWhole hFits,
        List.map_append]
      rfl

end Engine

namespace Engine.Accounted

variable [Hasher]
variable {engine next : Engine} {history later : List Event}

/- The maps after a change, whatever the writer is. -/
theorem of_inner
    (hHosted : next.Hosted [])
    (hSettled : next.disk.Settled)
    {inner : EngineState}
    {records : List Record}
    (hInner : inner.Accounted records later)
    (hRecords : next.records = records)
    (hNextId : next.inner.nextId = inner.nextId)
    (hReady : next.inner.readyQueue = inner.readyQueue)
    (hLeased : next.inner.leased = inner.leased) :
    next.Accounted later where
  hosted := hHosted
  settled := hSettled
  inner := by
    rw [hRecords]
    apply hInner.of_subset
    · rw [hNextId]
      exact UInt64.le_refl _
    · rw [hReady]
      exact List.Subset.refl _
    · rw [hReady]
      exact hInner.ready_nodup
    · exact hLeased

/- A failed append changes nothing that is accounted for. -/
theorem of_failed_append
    (hEngine : engine.Accounted history)
    (hHosted : next.Hosted [])
    (hSettled : next.disk.Settled)
    (hInner :
      next.inner =
        { engine.inner with wal := next.inner.wal })
    (hRecords : next.records = engine.records) :
    next.Accounted history := by
  refine of_inner hHosted hSettled hEngine.inner hRecords
    ?_ ?_ ?_
  · rw [hInner]
  · rw [hInner]
  · rw [hInner]

theorem push
    (hEngine : engine.Accounted history)
    (fault : Option AppendFault)
    (priority : UInt8)
    {payload : Bytes}
    (hShort : payload.length ≤ maxUserPayloadSize)
    (hLeft : engine.inner.IdsLeft) :
    (engine.push fault payload priority).2.Accounted
      (history ++
        System.eventIf (engine.push fault payload
          priority).1 (fun id =>
            .pushed id priority payload)) := by
  have hHosted :=
    hEngine.hosted.appendsTo
      (engine.appendsTo_push fault payload priority)
  let started : Engine :=
    { engine with
      inner :=
        { engine.inner with
          nextId := engine.inner.nextId + 1 } }
  have hWritable :
      started.inner.wal.Writable started.disk :=
    hEngine.hosted.writable
  have hFits :
      (⟨engine.inner.nextId, .created, priority, payload⟩ :
        Record).Fits :=
    le_trans hShort (Nat.sub_le _ _)
  rcases Engine.appendRecord_cases hWritable
    hEngine.settled fault hFits with
    ⟨loc, next, hAppend, hInner, hSettled, hRecords⟩ |
    ⟨error, next, hAppend, hInner, hSettled, hRecords⟩
  · have hPush :
        engine.push fault payload priority =
          (.ok engine.inner.nextId,
            { next with
              inner :=
                { next.inner with
                  index :=
                    next.inner.index.insert
                      engine.inner.nextId loc
                  dataIndex :=
                    next.inner.dataIndex.insert
                      engine.inner.nextId loc
                  payloadCache :=
                    next.inner.payloadCache.insert
                      engine.inner.nextId payload
                  readyQueue :=
                    next.inner.readyQueue.push
                      ⟨engine.inner.nextId, priority,
                        0⟩ } }) := by
      simp only [Engine.push, started] at hAppend ⊢
      rw [hAppend]
    rw [hPush] at hHosted ⊢
    refine of_inner hHosted hSettled
      (hEngine.inner.add hLeft priority hShort loc)
      hRecords ?_ ?_ ?_
    · rw [hInner]
      rfl
    · rw [hInner]
      rfl
    · rw [hInner]
      rfl
  · have hPush :
        engine.push fault payload priority =
          (.error error, next) := by
      simp only [Engine.push, started] at hAppend ⊢
      rw [hAppend]
    rw [hPush] at hHosted ⊢
    simp only [System.eventIf, List.append_nil]
    refine ⟨hHosted, hSettled, ?_⟩
    rw [hRecords]
    apply hEngine.inner.of_subset
    · rw [hInner]
      exact UInt64.le_of_lt (UInt64.lt_add_one_of_ne hLeft)
    · rw [hInner]
      exact List.Subset.refl _
    · rw [hInner]
      exact hEngine.inner.ready_nodup
    · rw [hInner]

/- The locked section of a pop; `later` may count it. -/
theorem popLocked
    (hEngine : engine.Accounted history)
    (fault : Option AppendFault)
    (consumerId : UInt32)
    (now leaseTtlSecs : UInt64) :
    (engine.popLocked fault consumerId now
        leaseTtlSecs).2.Accounted history ∧
      ∀ ticket,
        (engine.popLocked fault consumerId now
            leaseTtlSecs).1 = .ok (some ticket) →
          (engine.popLocked fault consumerId now
              leaseTtlSecs).2.Accounted
            (history ++ [.leased ticket.id]) := by
  have hHosted :=
    hEngine.hosted.appendsTo
      (engine.appendsTo_popLocked fault consumerId now
        leaseTtlSecs)
  cases hPop : engine.inner.readyQueue.pop with
  | none =>
      have hNone :
          engine.popLocked fault consumerId now
            leaseTtlSecs = (.ok none, engine) := by
        simp [Engine.popLocked, hPop]
      rw [hNone]
      exact ⟨hEngine, by simp⟩
  | some popped =>
      rcases popped with ⟨task, rest⟩
      let started : Engine :=
        { engine with
          inner :=
            { engine.inner with readyQueue := rest } }
      have hWritable :
          started.inner.wal.Writable started.disk :=
        hEngine.hosted.writable
      have hFits :
          ((Change.grant task rest consumerId
            (now + leaseTtlSecs)).record
              engine.inner).Fits :=
        Change.record_fits (by simp)
      rcases Engine.appendRecord_cases hWritable
        hEngine.settled fault hFits with
        ⟨loc, next, hAppend, hInner, hSettled, hRecords⟩ |
        ⟨error, next, hAppend, hInner, hSettled, hRecords⟩
      · have hLocked :
            ∃ result granted,
              engine.popLocked fault consumerId now
                  leaseTtlSecs = (result, granted) ∧
                granted.disk = next.disk ∧
                granted.inner.nextId =
                  engine.inner.nextId ∧
                granted.inner.readyQueue = rest ∧
                granted.inner.leased =
                  engine.inner.leased.insert task.id
                    ⟨consumerId, now + leaseTtlSecs,
                      task.retries, task.priority⟩ ∧
                ∀ ticket, result = .ok (some ticket) →
                  ticket.id = task.id := by
          simp only [Engine.popLocked, hPop]
          simp only [Change.record, started] at hAppend
          rw [hAppend]
          simp only
          split
          · refine ⟨_, _, rfl, rfl, ?_, ?_, ?_, by simp⟩
            · rw [hInner]
            · rw [hInner]
            · rw [hInner]
          · refine ⟨_, _, rfl, rfl, ?_, ?_, ?_, ?_⟩
            · rw [hInner]
            · rw [hInner]
            · rw [hInner]
            · intro ticket hTicket
              rw [Except.ok.injEq, Option.some.injEq]
                at hTicket
              rw [← hTicket]
        rcases hLocked with
          ⟨result, granted, hLocked, hDisk, hNextId, hReady,
            hLeased, hTicket⟩
        rw [hLocked] at hHosted ⊢
        have hGranted :
            ∀ later,
              (later = history ∨
                later = history ++ [.leased task.id]) →
                granted.Accounted later := by
          intro later hLater
          refine of_inner hHosted (hDisk ▸ hSettled)
            (hEngine.inner.grant hPop consumerId
              (now + leaseTtlSecs) hLater loc) ?_ hNextId
            hReady hLeased
          rw [Engine.records, hDisk]
          exact hRecords
        refine ⟨hGranted history (.inl rfl), ?_⟩
        intro ticket hResult
        rw [hTicket ticket hResult]
        exact hGranted _ (.inr rfl)
      · have hLocked :
            engine.popLocked fault consumerId now
              leaseTtlSecs = (.error error, next) := by
          simp only [Engine.popLocked, hPop]
          simp only [Change.record, started] at hAppend
          rw [hAppend]
        rw [hLocked] at hHosted ⊢
        refine ⟨⟨hHosted, hSettled, ?_⟩, by simp⟩
        have hPerm := ReadyQueue.tasks_pop_perm hPop
        have hNodup :=
          (hPerm.map TaskRef.id).nodup_iff.mp
            hEngine.inner.ready_nodup
        rw [List.map_cons, List.nodup_cons] at hNodup
        rw [hRecords]
        apply hEngine.inner.of_subset
        · rw [hInner]
          exact UInt64.le_refl _
        · rw [hInner]
          intro other hOther
          exact hPerm.mem_iff.mpr
            (List.mem_cons_of_mem _ hOther)
        · rw [hInner]
          exact hNodup.2
        · rw [hInner]

/- Neither caches nor open files are accounted for. -/
theorem of_alike
    (hEngine : engine.Accounted history)
    (hAlike : engine.Alike next) :
    next.Accounted history := by
  refine of_inner
    (hEngine.hosted.of_alike hAlike.disk_eq hAlike.wal_eq)
    ?_ hEngine.inner ?_ hAlike.nextId_eq
    hAlike.readyQueue_eq hAlike.leased_eq
  · rw [hAlike.disk_eq]
    exact hEngine.settled
  · rw [Engine.records, hAlike.disk_eq]
    rfl

theorem popAndLease
    (hEngine : engine.Accounted history)
    (fault : Option AppendFault)
    (consumerId : UInt32)
    (now leaseTtlSecs : UInt64) :
    (engine.popAndLease fault consumerId now
        leaseTtlSecs).2.Accounted
      (history ++
        Service.deliveries
          (engine.popAndLease fault consumerId now
            leaseTtlSecs).1) := by
  rcases hEngine.popLocked fault consumerId now
    leaseTtlSecs with ⟨hQuiet, hCounted⟩
  unfold Engine.popAndLease
  generalize
    engine.popLocked fault consumerId now leaseTtlSecs = out
    at hQuiet hCounted ⊢
  rcases out with ⟨error | _ | ticket, locked⟩
  · simpa [Service.deliveries] using hQuiet
  · simpa [Service.deliveries] using hQuiet
  · have hRead := Engine.alike_popRead locked ticket
    simp only
    unfold Service.deliveries
    split
    · next record retries hResult =>
        rcases Engine.ok_of_map_ok hResult with
          ⟨found, hFound, hPair⟩
        have hId : record.id = ticket.id := by
          rw [Option.some.injEq, Prod.mk.injEq] at hPair
          rw [← hPair.1]
          exact (Engine.fields_of_popRead hFound).1
        rw [hId]
        exact (hCounted ticket rfl).of_alike hRead
    · rw [List.append_nil]
      exact hQuiet.of_alike hRead

/- Events of an ack or a nack are not deliveries. -/
theorem of_eventIf
    (hEngine : engine.Accounted history)
    (result : Except IoError Unit)
    {event : Event}
    (hEvent :
      ∀ id count, event.countDelivery id count = count) :
    engine.Accounted
      (history ++
        System.eventIf result (fun _ => event)) := by
  refine ⟨hEngine.hosted, hEngine.settled,
    hEngine.inner.of_history ?_⟩
  intro id
  cases result with
  | error error => simp [System.eventIf]
  | ok _ =>
      rw [System.eventIf, deliveredTimes_append_singleton,
        hEvent]

/- An ack, or any other end of a lease. -/
theorem ack
    (hEngine : engine.Accounted history)
    (fault : Option AppendFault)
    (id : UInt64)
    (consumerId : UInt32) :
    (engine.ack fault id consumerId).2.Accounted
      history := by
  have hHosted :=
    hEngine.hosted.appendsTo
      (engine.appendsTo_ack fault id consumerId)
  unfold Engine.ack at hHosted ⊢
  cases hLease : engine.inner.leased[id]? with
  | none => exact hEngine
  | some lease =>
      simp only [hLease] at hHosted ⊢
      split at hHosted
      · rw [if_pos ‹_›]
        exact hEngine
      · rw [if_neg ‹_›]
        have hFits :
            ((Change.finish id lease.priority none).record
              engine.inner).Fits :=
          Change.record_fits (by simp)
        rcases Engine.appendRecord_cases
          hEngine.hosted.writable hEngine.settled fault
          hFits with
          ⟨loc, next, hAppend, hInner, hSettled,
            hRecords⟩ |
          ⟨error, next, hAppend, hInner, hSettled,
            hRecords⟩
        · simp only [Change.record] at hAppend
          rw [hAppend] at hHosted ⊢
          dsimp only
          refine of_inner hHosted hSettled
            (hEngine.inner.finish hLease none loc) hRecords
            ?_ ?_ ?_
          · rw [hInner]
            rfl
          · rw [hInner]
            rfl
          · rw [hInner]
            rfl
        · simp only [Change.record] at hAppend
          rw [hAppend] at hHosted ⊢
          exact hEngine.of_failed_append hHosted hSettled
            hInner hRecords

theorem processTaskFailure
    (hEngine : engine.Accounted history)
    (fault : Option AppendFault)
    {id : UInt64}
    {lease : LeaseInfo}
    (hLease : engine.inner.leased[id]? = some lease)
    {failureType : OpType}
    (hType :
      failureType = .nacked ∨ failureType = .expired) :
    (engine.processTaskFailure fault id lease.priority
      lease.retries failureType).2.Accounted history := by
  have hHosted :=
    hEngine.hosted.appendsTo
      (engine.appendsTo_processTaskFailure fault id
        lease.priority lease.retries failureType)
  have hInnerFailed := hEngine.inner.failure hLease hType
  unfold Change.failure at hInnerFailed
  unfold Engine.processTaskFailure at hHosted ⊢
  have hLive : failureType ≠ .deadLettered := by
    rcases hType with rfl | rfl <;> simp
  by_cases hDead : maxRetries ≤ lease.retries + 1
  · simp only [hDead, if_true] at hHosted hInnerFailed ⊢
    have hFits :
        ((Change.finish id lease.priority
          (some (lease.retries + 1))).record
            engine.inner).Fits :=
      Change.record_fits (by simp)
    rcases Engine.appendRecord_cases
      hEngine.hosted.writable hEngine.settled fault hFits
      with
      ⟨loc, next, hAppend, hInner, hSettled, hRecords⟩ |
      ⟨error, next, hAppend, hInner, hSettled, hRecords⟩
    · simp only [Change.record] at hAppend
      rw [hAppend] at hHosted ⊢
      dsimp only
      refine of_inner hHosted hSettled (hInnerFailed loc)
        hRecords ?_ ?_ ?_
      · rw [hInner]
        rfl
      · rw [hInner]
        rfl
      · rw [hInner]
        rfl
    · simp only [Change.record] at hAppend
      rw [hAppend] at hHosted ⊢
      exact hEngine.of_failed_append hHosted hSettled hInner
        hRecords
  · simp only [hDead, if_false, hLive]
      at hHosted hInnerFailed ⊢
    have hFits :
        ((Change.retry id lease.priority
          (lease.retries + 1) failureType).record
            engine.inner).Fits :=
      Change.record_fits (by simp)
    rcases Engine.appendRecord_cases
      hEngine.hosted.writable hEngine.settled fault hFits
      with
      ⟨loc, next, hAppend, hInner, hSettled, hRecords⟩ |
      ⟨error, next, hAppend, hInner, hSettled, hRecords⟩
    · simp only [Change.record] at hAppend
      rw [hAppend] at hHosted ⊢
      dsimp only
      refine of_inner hHosted hSettled (hInnerFailed loc)
        hRecords ?_ ?_ ?_
      · rw [hInner]
        rfl
      · rw [hInner]
        rfl
      · rw [hInner]
        rfl
    · simp only [Change.record] at hAppend
      rw [hAppend] at hHosted ⊢
      exact hEngine.of_failed_append hHosted hSettled hInner
        hRecords

theorem nack
    (hEngine : engine.Accounted history)
    (fault : Option AppendFault)
    (id : UInt64)
    (consumerId : UInt32) :
    (engine.nack fault id consumerId).2.Accounted
      history := by
  unfold Engine.nack
  cases hLease : engine.inner.leased[id]? with
  | none => exact hEngine
  | some lease =>
      dsimp only
      split
      · exact hEngine
      · exact hEngine.processTaskFailure fault hLease
          (.inl rfl)

end Engine.Accounted

end Nesso

------------------------------------------------------------
-- Compactions and Restarts
------------------------------------------------------------

namespace Nesso

variable [Hasher]

/- Compaction of a directory leaves it settled. -/
theorem Disk.Settled.compacted
    {disk swapped : Disk}
    (hSettled : disk.Settled)
    {ids rest : List Nat}
    (hIds : disk.segmentIds = ids ++ rest)
    (hFits :
      ∀ record ∈ compacted (Wal.recordsIn disk ids),
        record.Fits)
    (hClean : swapped.Clean)
    (hSwapped : swapped.segmentIds = 1 :: rest)
    (hOne :
      swapped.read (.wal 1) =
        some (encodeRecords
          (compacted (Wal.recordsIn disk ids))))
    (hKept :
      ∀ segmentId ∈ rest,
        swapped.read (.wal segmentId) =
          disk.read (.wal segmentId)) :
    swapped.Settled ∧
      Wal.recordsIn swapped swapped.segmentIds =
        compacted (Wal.recordsIn disk ids) ++
          Wal.recordsIn disk rest := by
  constructor
  · constructor
    · exact hClean
    · simp [hSwapped]
    · intro segmentId hMem
      rw [hSwapped, List.mem_cons] at hMem
      rcases hMem with rfl | hRest
      · exact le_refl 1
      · exact hSettled.one_le segmentId
          (by simp [hIds, hRest])
    · intro content hRead
      rcases List.eq_nil_or_concat rest with
        hNil | ⟨front, last, hRest⟩
      · have hLast : Wal.lastSegmentId swapped = 1 :=
          Wal.lastSegmentId_eq
            (by simp [hSwapped, hNil] :
              swapped.segmentIds = [] ++ [1]) (le_refl 1)
        have hEmpty :
            Framing.validLength frameParser [] = 0 :=
          Framing.validLength_eq_zero rfl
        have hLength :=
          validLength_encodeRecords_append hFits []
        rw [List.append_nil, hEmpty] at hLength
        rw [hLast, hOne, Option.some.injEq] at hRead
        rw [← hRead]
        exact hLength
      · rw [List.concat_eq_append] at hRest
        have hLastOne : 1 ≤ last :=
          hSettled.one_le last (by simp [hIds, hRest])
        have hLast : Wal.lastSegmentId swapped = last :=
          Wal.lastSegmentId_eq
            (by simp [hSwapped, hRest] :
              swapped.segmentIds = (1 :: front) ++ [last])
            hLastOne
        have hOld : Wal.lastSegmentId disk = last :=
          Wal.lastSegmentId_eq
            (by simp [hIds, hRest] :
              disk.segmentIds = (ids ++ front) ++ [last])
            hLastOne
        rw [hLast, hKept last (by simp [hRest]), ← hOld]
          at hRead
        exact hSettled.whole content hRead
  · rw [hSwapped, ← List.singleton_append,
      Wal.recordsIn_append, Wal.recordsIn_congr hKept]
    congr 1
    generalize Wal.recordsIn disk ids = closed at hFits hOne
    simp only [Wal.recordsIn, List.flatMap_cons,
      List.flatMap_nil, List.append_nil, hOne,
      Option.getD_some]
    rw [segmentRecords_encodeRecords hFits]
    exact Framing.map_snd_located _ _ _

omit [Hasher] in
/- Compaction keeps the places of all live tasks. -/
theorem EngineState.Accounted.compact
    {inner : EngineState}
    {closed later : List Record}
    {history : List Event}
    (hInner : inner.Accounted (closed ++ later) history)
    (hFits : ∀ record ∈ closed, record.Fits) :
    inner.Accounted (compacted closed ++ later) history := by
  have hLong :
      ∀ record ∈ closed, record.opType = .leased →
        13 ≤ record.payload.length := by
    intro record hRecord
    exact hInner.long record (List.mem_append_left _ hRecord)
  have hShort :
      ∀ record ∈ closed,
        record.userPayload.length ≤ maxUserPayloadSize := by
    intro record hRecord
    exact hInner.short record
      (List.mem_append_left _ hRecord)
  have hPlace :
      ∀ id (found : Place), found ≠ .terminal →
        (Replay.placeOf Record.place
            (compacted closed ++ later) id = some found ↔
          Replay.placeOf Record.place (closed ++ later) id =
            some found) := by
    intro id found hFound
    exact Replay.placeOf_compacted_append_iff
      Record.place_eq_terminal_iff
      (fun record hRecord =>
        (CompactionMaps.ofRecords
          closed).place_recordToWrite rfl
            (hLong record hRecord)) later id hFound
  constructor
  · intro record hRecord
    rcases List.mem_append.mp hRecord with hNew | hLater
    · rcases mem_compacted_iff.mp hNew with
        ⟨id, last, hLast, rfl⟩
      rcases CompactionMaps.id_of_getElem?_latestRecords
        hLast with ⟨hId, hMem, _⟩
      rw [(CompactionMaps.recordToWrite_fields _ hId).1,
        ← hId]
      exact hInner.known last (List.mem_append_left _ hMem)
    · exact hInner.known record
        (List.mem_append_right _ hLater)
  · intro record hRecord
    rcases List.mem_append.mp hRecord with hNew | hLater
    · exact (compacted_short hFits hShort record hNew).2
    · exact hInner.short record
        (List.mem_append_right _ hLater)
  · intro record hRecord
    rcases List.mem_append.mp hRecord with hNew | hLater
    · exact compacted_long hLong record hNew
    · exact hInner.long record
        (List.mem_append_right _ hLater)
  · intro task hTask
    exact (hPlace _ _ (by simp)).mpr
      (hInner.ready task hTask)
  · exact hInner.ready_nodup
  · intro id lease hLease
    exact (hPlace _ _ (by simp)).mpr
      (hInner.leased id lease hLease)
  · intro id place hFound
    by_cases hTerminal : place = .terminal
    · rw [hTerminal]
      trivial
    · exact hInner.allowed id place
        ((hPlace id place hTerminal).mp hFound)
  · exact hInner.bounded

omit [Hasher] in
/- Segments are either below the active one or not. -/
theorem Disk.segmentIds_split
    (disk : Disk)
    (active : Nat) :
    disk.segmentIds =
      disk.segmentIds.filter (· < active) ++
        disk.segmentIds.filter (active ≤ ·) := by
  have hSorted := Disk.segmentIds_pairwise_lt disk
  apply hSorted.eq_of_mem_iff
  · rw [List.pairwise_append]
    refine ⟨hSorted.filter _, hSorted.filter _, ?_⟩
    intro left hLeft right hRight
    simp only [List.mem_filter, decide_eq_true_eq]
      at hLeft hRight
    omega
  · intro segmentId
    simp only [List.mem_append, List.mem_filter,
      decide_eq_true_eq, ← and_or_left]
    have hOr := Nat.lt_or_ge segmentId active
    simp [hOr]

/- A whole compaction. -/
theorem Engine.Accounted.compact
    {engine : Engine}
    {history : List Event}
    (hEngine : engine.Accounted history) :
    engine.compact.2.Accounted history := by
  unfold Engine.compact
  cases hPlan : engine.compactPlan with
  | none => exact hEngine
  | some ids =>
      simp only [Engine.compactPlan, Wal.planCompaction]
        at hPlan
      split at hPlan
      · simp at hPlan
      · next hSome =>
          rw [Option.some.injEq] at hPlan
          rw [hPlan] at hSome
          have hHosted := hEngine.hosted
          have hIds :=
            Disk.segmentIds_split engine.disk
              engine.inner.wal.activeSegmentId
          rw [hPlan] at hIds
          have hClosed : engine.Hosted ids := by
            refine ⟨hHosted.writable, hHosted.no_swap,
              hHosted.one_le, hHosted.one_le_active, ?_⟩
            intro segmentId hMem
            rw [← hPlan, List.mem_filter,
              decide_eq_true_eq] at hMem
            exact ⟨hHosted.one_le segmentId hMem.1, hMem.2⟩
          generalize
            engine.disk.segmentIds.filter
              (engine.inner.wal.activeSegmentId ≤ ·) = rest
            at hIds
          rcases Wal.compaction_failing_spec hIds
            hHosted.one_le hSome (fun _ => false) with
            ⟨result, written, swapped, hPhase1, hPhase2,
              hClean, hSwapped, hOne, hKept⟩
          rw [Wal.executeCompactionPhase2Failing_never]
            at hPhase2
          have hNone : Wal.leftover (fun _ => false) ids = [] := by
            simp [Wal.leftover]
          rw [hNone, List.nil_append] at hSwapped hKept
          have hRecords :
              engine.records =
                Wal.recordsIn engine.disk ids ++
                  Wal.recordsIn engine.disk rest := by
            rw [Engine.records, Wal.map_snd_entries, hIds,
              Wal.recordsIn_append]
          have hInner := hEngine.inner
          rw [hRecords] at hInner
          have hFits :
              ∀ record ∈ Wal.recordsIn engine.disk ids,
                record.Fits :=
            fun _ hRecord =>
              Wal.fits_of_mem_recordsIn hRecord
          have hShort :
              ∀ record ∈ Wal.recordsIn engine.disk ids,
                record.userPayload.length ≤
                  maxUserPayloadSize :=
            fun record hRecord =>
              hInner.short record
                (List.mem_append_left _ hRecord)
          rcases hEngine.settled.compacted hIds
            (fun record hRecord =>
              (compacted_short hFits hShort record
                hRecord).1) hClean hSwapped hOne hKept with
            ⟨hSettled, hAll⟩
          have hMoved :=
            (hClosed.compactPhase1 ids).compactPhase2 hSome
              result.2
          have hFirst :
              engine.compactPhase1 ids =
                (.ok result.2,
                  { engine with disk := written }) := by
            simp [Engine.compactPhase1, hPhase1, Except.map]
          rw [hFirst] at hMoved
          simp only [hFirst]
          simp only [Engine.compactPhase2, hPhase2]
            at hMoved ⊢
          refine Engine.Accounted.of_inner
            ⟨hMoved.writable, hMoved.no_swap, hMoved.one_le,
              hMoved.one_le_active, by simp⟩ hSettled
            (hInner.compact hFits) ?_ ?_ ?_ ?_
          · rw [Engine.records, Wal.map_snd_entries]
            exact hAll
          · simp [EngineState.remap_eq]
          · simp [EngineState.remap_eq]
          · simp [EngineState.remap_eq]

/- A restart that finds no expired lease. -/
theorem Engine.Accounted.reopen
    {engine : Engine}
    {history : List Event}
    (hEngine : engine.Accounted history)
    {maxSegmentSize : Option Nat}
    (cacheCapacity : Nat)
    {now : UInt64}
    (hLive :
      Wal.findsExpiredLease engine.disk maxSegmentSize now =
        false) :
    (Engine.reopen engine.disk maxSegmentSize cacheCapacity
      now).2.Accounted history := by
  have hHosted := hEngine.hosted
  have hOpen :=
    Wal.open_settled hEngine.settled maxSegmentSize
  have hNextHosted :=
    System.hosted_reopen hHosted.no_swap hHosted.one_le
      maxSegmentSize cacheCapacity now
  rcases Engine.reopen_any_spec engine.disk maxSegmentSize
    cacheCapacity now with
    ⟨next, hReopen, hDisk, _, _, _, hRecovered⟩
  rw [hReopen] at hNextHosted ⊢
  rw [hOpen] at hDisk hRecovered
  rw [Wal.findsExpiredLease, Wal.latestEntries, hOpen,
    List.any_eq_false] at hLive
  -- No latest record is an expired lease.
  have hPlaceAt :
      ∀ id entry,
        KeyedLog.latest entryId (Wal.entries engine.disk)
            id = some entry →
          entry.2.placeAt now = entry.2.place := by
    intro id entry hLatest
    rcases KeyedLog.latest_mem hLatest with ⟨_, rfl⟩
    have hNot :=
      hLive entry (KeyedLog.mem_latests_iff.mpr hLatest)
    unfold Record.leaseExpired at hNot
    unfold Record.placeAt
    cases hPlace : entry.2.place with
    | ready task => rfl
    | terminal => rfl
    | leased lease =>
        rw [hPlace] at hNot
        simp only [decide_eq_true_eq] at hNot
        simp [UInt64.not_le.mp hNot]
  have hPlaceOf :
      ∀ id entry,
        KeyedLog.latest entryId (Wal.entries engine.disk)
            id = some entry →
          Replay.placeOf Record.place engine.records id =
            some entry.2.place := by
    intro id entry hLatest
    rw [Engine.records, ← Replay.map_latest_entryId,
      hLatest]
    rfl
  have hRecords : next.records = engine.records := by
    rw [Engine.records, hDisk]
    rfl
  refine ⟨hNextHosted, hDisk ▸ hEngine.settled, ?_⟩
  rw [hRecords]
  constructor
  · intro record hRecord
    rcases List.mem_map.mp hRecord with ⟨entry, hEntry, rfl⟩
    rw [hRecovered.nextId_eq]
    apply Replay.lt_nextId _ entry hEntry
    intro other hOther hLast
    have hKnown :=
      hEngine.inner.known other.2
        (List.mem_map_of_mem hOther)
    change entryId other < engine.inner.nextId at hKnown
    rw [hLast, UInt64.lt_iff_toNat_lt] at hKnown
    have hBound := engine.inner.nextId.toNat_lt
    simp at hKnown
    omega
  · exact hEngine.inner.short
  · exact hEngine.inner.long
  · intro task hTask
    rcases hRecovered.latest_of_ready hTask with
      ⟨entry, hLatest, hReady⟩
    rw [hPlaceOf _ _ hLatest, ← hPlaceAt _ _ hLatest,
      hReady]
  · exact hRecovered.placed.ready_nodup
  · intro id lease hLease
    rw [hRecovered.leased_eq, Replay.lease_eq_some_iff]
      at hLease
    rcases hLease with ⟨entry, hLatest, hLeased⟩
    rw [hPlaceOf _ _ hLatest, ← hPlaceAt _ _ hLatest,
      hLeased]
  · exact hEngine.inner.allowed
  · exact hEngine.inner.bounded

def Service.Accounted (service : Service) : Prop :=
  service.engine.Accounted service.history

/- A directory that was just created holds no task. -/
theorem Service.accounted_start
    (maxSegmentSize : Option Nat)
    (cacheCapacity : Nat)
    (now : UInt64) :
    (Service.start maxSegmentSize cacheCapacity
      now).Accounted := by
  have hHosted :=
    (System.hosted_start maxSegmentSize cacheCapacity
      now).engine
  rcases Disk.settled_open_empty maxSegmentSize with
    ⟨hSettled, hEntries⟩
  rcases Engine.reopen_any_spec FileSystem.empty
    maxSegmentSize cacheCapacity now with
    ⟨next, hReopen, hDisk, _, _, _, hRecovered⟩
  simp only [System.start, hReopen] at hHosted
  rw [hEntries] at hRecovered
  rcases hRecovered.empty with ⟨hReady, hLeased, _⟩
  have hRecords : next.records = [] := by
    rw [Engine.records, hDisk, hEntries]
    rfl
  simp only [Service.Accounted, Service.start, hReopen]
  refine ⟨hHosted, hDisk ▸ hSettled, ?_⟩
  rw [hRecords]
  constructor
  · simp
  · simp
  · simp
  · simp [hReady]
  · simp [hReady]
  · simp [hLeased]
  · simp [Replay.placeOf]
  · simp [deliveredTimes]

/- Every operation is accounted for. -/
theorem Service.accounted_step
    {service next : Service}
    (hService : service.Accounted)
    {op : LeaseOp}
    (hOp : op.ExpiresLive service)
    (hNext : service.leaseStep op = some next) :
    next.Accounted := by
  cases op with
  | expire fault id now =>
      simp only [Service.leaseStep, Option.some.injEq]
        at hNext
      rw [← hNext]
      unfold Service.expire
      cases hLease : service.engine.inner.leased[id]? with
      | none => exact hService
      | some lease =>
          dsimp only
          split
          · exact hService.processTaskFailure fault hLease
              (.inr rfl)
          · exact hService
  | life op =>
      cases op with
      | push fault payload priority =>
          simp only [Service.leaseStep, Service.step,
            Option.some.injEq] at hNext
          rw [← hNext]
          exact hService.push fault priority hOp.1 hOp.2
      | popAndLease fault consumerId now leaseTtlSecs =>
          simp only [Service.leaseStep, Service.step,
            Option.some.injEq] at hNext
          rw [← hNext]
          exact hService.popAndLease fault consumerId now
            leaseTtlSecs
      | ack fault id consumerId =>
          simp only [Service.leaseStep, Service.step,
            Option.some.injEq] at hNext
          rw [← hNext]
          exact (hService.ack fault id
            consumerId).of_eventIf _ (fun _ _ => rfl)
      | nack fault id consumerId =>
          simp only [Service.leaseStep, Service.step,
            Option.some.injEq] at hNext
          rw [← hNext]
          exact (hService.nack fault id
            consumerId).of_eventIf _ (fun _ _ => rfl)
      | compact =>
          simp only [Service.leaseStep, Service.step,
            Option.some.injEq] at hNext
          rw [← hNext]
          exact hService.compact
      | restart maxSegmentSize cacheCapacity now =>
          simp only [Service.leaseStep, Service.step,
            Service.restart] at hNext
          have hEngine :=
            hService.reopen cacheCapacity hOp
          split at hNext
          · next engine hReopen =>
              rw [Option.some.injEq] at hNext
              rw [hReopen] at hEngine
              rw [← hNext]
              exact hEngine
          · simp at hNext

/- No task is delivered more than `MAX_RETRIES` times. -/
theorem leaseRun_deliveries_le
    {maxSegmentSize : Option Nat}
    {cacheCapacity : Nat}
    {start : UInt64}
    {ops : List LeaseOp}
    {service : Service}
    (hRun :
      LeaseRun maxSegmentSize cacheCapacity start ops
        service)
    (id : UInt64) :
    deliveredTimes service.history id ≤
      maxRetries.toNat := by
  have hService : service.Accounted :=
    Transition.Run.invariant
      (Service.accounted_start maxSegmentSize cacheCapacity
        start)
      (fun hService hOp hNext =>
        Service.accounted_step hService hOp hNext) hRun
  exact hService.inner.bounded id

/-
  Recovery agrees with the worker exactly when it finds no
  expired lease; if that is so at every restart, no task is
  delivered more often than `MAX_RETRIES` times.
-/
theorem offline_expiry_sound_iff :
    (∀ disk maxSegmentSize cacheCapacity now,
      ExpiryAgrees disk maxSegmentSize cacheCapacity now ↔
        Wal.findsExpiredLease disk maxSegmentSize now =
          false) ∧
      ∀ maxSegmentSize cacheCapacity start ops service,
        LeaseRun maxSegmentSize cacheCapacity start ops
            service →
          ∀ id,
            deliveredTimes service.history id ≤
              maxRetries.toNat := by
  refine ⟨expiryAgrees_iff, ?_⟩
  intro maxSegmentSize cacheCapacity start ops service hRun
    id
  exact leaseRun_deliveries_le hRun id

end Nesso

------------------------------------------------------------
-- Leases That Expire Offline
------------------------------------------------------------

namespace Nesso

/- A lease that expires live and one that is kept. -/
def expiredOnce : List LeaseOp :=
  [.life (.push none [1] 0),
    .life (.popAndLease none 7 0 1),
    .expire none 1 5,
    .life (.popAndLease none 7 5 10),
    .life (.restart none 4 6)]

set_option maxRecDepth 100000 in
theorem offline_expiry_sound_iff_expiredOnce :
    ∃ service,
      LeaseRun none 4 0 expiredOnce service ∧
        deliveredTimes service.history 1 = 2 ∧
        ∀ id,
          deliveredTimes service.history id ≤
            maxRetries.toNat := by
  have hEnd :
      (Transition.execute
        (Transition.checkedStep Service.leaseStep
          (fun service op => op.ExpiresLive service))
        expiredOnce (Service.start none 4 0)).any
          (fun service =>
            deliveredTimes service.history 1 = 2) = true := by
    decide +kernel
  rcases Transition.exists_run_of_checked
    (fun _ _ hOp => of_decide_eq_true hOp) hEnd with
    ⟨service, hRun, hTwice⟩
  exact ⟨service, hRun, of_decide_eq_true hTwice,
    offline_expiry_sound_iff.2 none 4 0 expiredOnce service
      hRun⟩

/- Four leases, each of which expires offline. -/
def expiredOffline : List LeaseOp :=
  [.life (.push none [1] 0),
    .life (.popAndLease none 7 0 1),
    .life (.restart none 4 5),
    .life (.popAndLease none 7 5 1),
    .life (.restart none 4 10),
    .life (.popAndLease none 7 10 1),
    .life (.restart none 4 15),
    .life (.popAndLease none 7 15 1)]

set_option maxRecDepth 100000 in
theorem expired_offline_delivers_again :
    ∃ service,
      Transition.Run Service.leaseStep (fun _ _ => True)
          (Service.start none 4 0) expiredOffline service ∧
        ¬ ExpiryAgrees service.engine.disk none 4 20 ∧
        maxRetries.toNat <
          deliveredTimes service.history 1 := by
  have hEnd :
      (Transition.execute Service.leaseStep expiredOffline
        (Service.start none 4 0)).any
          (fun service =>
            Wal.findsExpiredLease service.engine.disk none
                20 ∧
              maxRetries.toNat <
                deliveredTimes service.history 1) =
        true := by
    decide +kernel
  rcases Transition.exists_run_of_execute
    (fun _ _ _ => trivial) hEnd with
    ⟨service, hRun, hProperty⟩
  rcases of_decide_eq_true hProperty with
    ⟨hFinds, hMore⟩
  rcases List.any_eq_true.mp hFinds with
    ⟨entry, hEntry, hExpired⟩
  exact ⟨service, hRun,
    not_agrees_of_leaseExpired hEntry hExpired, hMore⟩

end Nesso
