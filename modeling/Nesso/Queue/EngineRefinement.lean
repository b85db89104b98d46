import Nesso.Library.Refinement
import Nesso.Queue.ExpirationWorker
import Nesso.Queue.Mirror
import Nesso.Recovery.PayloadSurvival
import Nesso.Storage.Checksum

/-
  The engine refines the abstract work queue: clients get the
  answers of the abstract queue, and compactions, caches and
  segments cannot be observed.

  Key definitions include:
    * `EngineAction`
    * `EngineReply`
    * `Engine.answer`
    * `TaskQueue.respond`
    * `Engine.Realizes`

  The main theorems are:
    * `Engine.Realizes.simulation`
    * `engineRun_refines_taskQueue`
    * `engineRuns_answer_alike`
-/

------------------------------------------------------------
-- Calls and Answers
------------------------------------------------------------

namespace Nesso

open PriorityBucketQueue (bucketOf)

/-
  Whole operations.  `expire` is an undisturbed pass of the
  expiration worker over the leases that it finds expired, in
  the order in which the hash map lists them.
-/
inductive EngineAction where
| push (payload : Bytes) (priority : UInt8)
| popAndLease (consumerId : UInt32)
    (now leaseTtlSecs : UInt64)
| ack (id : UInt64) (consumerId : UInt32)
| nack (id : UInt64) (consumerId : UInt32)
| status
| expire (now : UInt64) (tasks : List ExpiredTask)
| compact
| clearPayloadCache
| clearReaderCache

/- What a caller is told. -/
inductive EngineReply where
| pushed (result : Except IoError UInt64)
| popped
    (result : Except IoError (Option (Record × UInt8)))
| settled (result : Except IoError Unit)
| counts (ready leased : Nat)

namespace Engine

/- `clear_reader_cache`. -/
def clearReaderCache (engine : Engine) : Engine :=
  { engine with reader := engine.reader.clearCache }

variable [Hasher]

def answer
    (engine : Engine) :
    EngineAction → Option EngineReply × Engine
| .push payload priority =>
    let out := engine.push none payload priority
    (some (.pushed out.1), out.2)
| .popAndLease consumerId now leaseTtlSecs =>
    let out :=
      engine.popAndLease none consumerId now leaseTtlSecs
    (some (.popped out.1), out.2)
| .ack id consumerId =>
    let out := engine.ack none id consumerId
    (some (.settled out.1), out.2)
| .nack id consumerId =>
    let out := engine.nack none id consumerId
    (some (.settled out.1), out.2)
| .status =>
    (some (.counts engine.status.1 engine.status.2), engine)
| .expire _ tasks =>
    (none,
      engine.processExpired
        (tasks.map (fun task => (none, task))))
| .compact => (none, engine.compact.2)
| .clearPayloadCache => (none, engine.clearPayloadCache)
| .clearReaderCache => (none, engine.clearReaderCache)

end Engine

namespace EngineAction

/- The call of the abstract queue that an action makes. -/
def call : EngineAction → Option TaskCall
| push payload priority =>
    some (.push payload (bucketOf priority))
| popAndLease consumerId now leaseTtlSecs =>
    some (.take consumerId (now + leaseTtlSecs))
| ack id consumerId => some (.ack id consumerId)
| nack id consumerId => some (.nack id consumerId)
| status => some .status
| expire _ tasks =>
    some (.expire (tasks.map ExpiredTask.id))
| compact | clearPayloadCache | clearReaderCache => none

/-
  Pushed payloads leave room for a state's metadata, the id
  counter does not overflow, and the worker lists the leases
  that have expired.
-/
def Admissible
    (engine : Engine) : EngineAction → Prop
| push payload _ =>
    engine.inner.IdsLeft ∧
      payload.length ≤ maxUserPayloadSize
| expire now tasks => tasks.Perm (engine.expiredTasks now)
| _ => True

instance
    (engine : Engine)
    (action : EngineAction) :
    Decidable (action.Admissible engine) :=
  match action with
  | push _ _ =>
      inferInstanceAs (Decidable (¬ _ = _ ∧ _ ≤ _))
  | expire _ _ =>
      inferInstanceAs (Decidable (List.Perm _ _))
  | popAndLease _ _ _ | ack _ _ | nack _ _ | status
  | compact | clearPayloadCache | clearReaderCache =>
      inferInstanceAs (Decidable True)

end EngineAction

/- A reply of the abstract queue, as the engine spells it. -/
def EngineReply.ofTask : TaskReply → EngineReply
| .pushed id => .pushed (.ok id)
| .taken none => .popped (.ok none)
| .taken (some ((id, level, failures), payload)) =>
    .popped
      (.ok
        (some
          (⟨id, .created, UInt8.ofNat level.val, payload⟩,
            UInt8.ofNat failures)))
| .done => .settled (.ok ())
| .notHeld => .settled (.error Engine.notLeased)
| .heldByAnother =>
    .settled (.error Engine.leasedToAnother)
| .counts free held => .counts free held

def TaskQueue.respond
    (queue : TaskQueue)
    (call : TaskCall) : Option EngineReply × TaskQueue :=
  ((queue.serve call).1.map EngineReply.ofTask,
    (queue.serve call).2)

/- An engine opened on an empty directory. -/
def Engine.fresh [Hasher]
    (maxSegmentSize : Option Nat)
    (cacheCapacity : Nat)
    (now : UInt64) : Engine :=
  (Engine.reopen FileSystem.empty maxSegmentSize
    cacheCapacity now).2

end Nesso

------------------------------------------------------------
-- Calls on the Maps
------------------------------------------------------------

namespace Nesso

open PriorityBucketQueue (bucketOf)

namespace TaskQueue

variable {queue : TaskQueue}
variable {payloads : UInt64 → Option Bytes}

/- The tasks have the payloads that were pushed. -/
def Carries
    (queue : TaskQueue)
    (payloads : UInt64 → Option Bytes) : Prop :=
  ∀ item ∈ queue.items, payloads item.id = some item.payload

/- Every call but a push moves tasks with their payloads. -/
theorem Carries.serve
    (hCarries : queue.Carries payloads)
    (call : TaskCall)
    (hCall :
      ∀ payload priority, call ≠ .push payload priority) :
    (queue.serve call).2.Carries payloads := by
  intro item hItem
  rcases WorkQueue.stems_of_mem_serve _ _ hCall hItem with
    ⟨old, hOld, hId, hPayload⟩
  rw [← hId, ← hPayload]
  exact hCarries old hOld

end TaskQueue

namespace EngineState.Mirrors

variable {engine : Engine} {queue : TaskQueue}

/- A pushed task has a fresh id. -/
theorem carries_push
    (hMirrors : engine.inner.Mirrors queue)
    {payloads : UInt64 → Option Bytes}
    (hCarries : queue.Carries payloads)
    (payload : Bytes)
    (level : Fin 256) :
    (queue.serve (.push payload level)).2.Carries
      (Function.update payloads engine.inner.nextId
        (some payload)) := by
  intro item hItem
  rcases List.mem_append.mp hItem with hItem | hItem
  · have hNe : item.id ≠ engine.inner.nextId := by
      intro hId
      have hLt := hMirrors.ids_lt item hItem
      rw [hId] at hLt
      exact UInt64.lt_irrefl _ hLt
    rw [Function.update_of_ne hNe]
    exact hCarries item hItem
  · rw [List.mem_singleton.mp hItem]
    simp [hMirrors.nextId_eq]

/- Nothing is given away when nothing is ready. -/
theorem serve_take_of_empty
    (hMirrors : engine.inner.Mirrors queue)
    (hPop : engine.inner.readyQueue.pop = none)
    (consumerId : UInt32)
    (expireTimestamp : UInt64) :
    queue.serve (.take consumerId expireTimestamp) =
      (some (.taken none), queue) := by
  simp only [TaskQueue.serve, WorkQueue.serve,
    WorkQueue.answered, WorkQueue.take,
    hMirrors.free_eq_nil hPop]
  rfl

/- The engine and the queue know the same leases. -/
theorem settle_eq
    (hMirrors : engine.inner.Mirrors queue)
    (id : UInt64)
    (consumerId : UInt32)
    (rest : TaskItem → List TaskItem) :
    queue.settle id consumerId rest =
      match engine.inner.leased[id]? with
      | none => (.notHeld, queue)
      | some lease =>
          if lease.consumerId = consumerId then
            queue.settle id lease.consumerId rest
          else
            (.heldByAnother, queue) := by
  cases hLease : engine.inner.leased[id]? with
  | none =>
      have hNone := hMirrors.leaseCard_eq_none hLease
      unfold WorkQueue.settle
      cases hLookup : WorkQueue.lookup queue.items id with
      | none => rfl
      | some item => simp only [hNone item hLookup]
  | some lease =>
      by_cases hConsumer : lease.consumerId = consumerId
      · simp only [hConsumer, if_true]
      · rcases hMirrors.exists_item_of_lease hLease with
          ⟨item, hLookup, _, _, _, hStage, _, _⟩
        simp only [WorkQueue.settle, hLookup, hStage,
          hConsumer, if_false]

/- The ready queue holds as many tasks as are free. -/
theorem length_free
    (hMirrors : engine.inner.Mirrors queue)
    (hNodup :
      (engine.inner.readyQueue.tasks.map
        TaskRef.id).Nodup) :
    (WorkQueue.free queue.items).length =
      engine.inner.readyQueue.len := by
  rw [ReadyQueue.len_eq,
    ← List.length_map (f := WorkQueue.Item.id),
    ← List.length_map (f := TaskRef.id)]
  have hFreeNodup :
      ((WorkQueue.free queue.items).map
        WorkQueue.Item.id).Nodup :=
    hMirrors.ids_nodup.sublist (List.filter_sublist.map _)
  apply List.Perm.length_eq
  rw [List.perm_ext_iff_of_nodup hFreeNodup hNodup]
  intro id
  simp only [List.mem_map]
  constructor
  · rintro ⟨item, hItem, rfl⟩
    rcases exists_bucketOf_eq item.priority with
      ⟨priority, hPriority⟩
    have hCard :
        item.card ∈
          (engine.inner.readyQueue.bucket priority).map
            TaskRef.card := by
      rw [hMirrors.free_eq]
      exact List.mem_map_of_mem
        (PriorityList.mem_lane_iff.mpr
          ⟨hItem, hPriority.symm⟩)
    rcases List.mem_map.mp hCard with ⟨task, hTask, hSame⟩
    refine ⟨task, ?_, congrArg Prod.fst hSame⟩
    rw [ReadyQueue.mem_tasks_iff,
      ReadyQueue.priority_of_mem_bucket hTask]
    exact hTask
  · rintro ⟨task, hTask, rfl⟩
    have hCard :
        task.card ∈
          (PriorityList.lane WorkQueue.Item.priority
            (WorkQueue.free queue.items)
            (bucketOf task.priority)).map
              WorkQueue.Item.card := by
      rw [← hMirrors.free_eq]
      exact List.mem_map_of_mem
        (ReadyQueue.mem_tasks_iff.mp hTask)
    rcases List.mem_map.mp hCard with ⟨item, hItem, hSame⟩
    exact ⟨item, (PriorityList.mem_lane_iff.mp hItem).1,
      congrArg Prod.fst hSame⟩

/- The lease map holds as many leases as are in force. -/
theorem length_held
    (hMirrors : engine.inner.Mirrors queue) :
    queue.items.length -
        (WorkQueue.free queue.items).length =
      engine.inner.leased.size := by
  have hSplit :=
    List.length_eq_length_filter_add
      (l := queue.items) WorkQueue.Item.isFree
  have hHeld :
      (queue.items.filter (fun item =>
          !item.isFree)).length =
        engine.inner.leased.size := by
    rw [← Std.ExtTreeMap.length_keys,
      ← List.length_map (f := WorkQueue.Item.id)]
    apply List.Perm.length_eq
    rw [List.perm_ext_iff_of_nodup
      (hMirrors.ids_nodup.sublist
        (List.filter_sublist.map _))
      Std.ExtTreeMap.nodup_keys]
    intro id
    rw [Std.ExtTreeMap.mem_keys,
      ← Std.ExtTreeMap.isSome_getElem?_iff_mem]
    simp only [List.mem_map, List.mem_filter]
    constructor
    · rintro ⟨item, ⟨hItem, hFree⟩, rfl⟩
      have hLookup :=
        (WorkQueue.lookup_eq_some_iff
          hMirrors.ids_nodup).mpr ⟨hItem, rfl⟩
      have hCard := hMirrors.held_eq item.id
      rw [hLookup, Option.bind_some] at hCard
      rw [← Option.isSome_map (f := LeaseInfo.card), hCard,
        TaskItem.leaseCard, Option.isSome_map]
      simpa [WorkQueue.Item.isFree] using hFree
    · intro hLeased
      rcases Option.isSome_iff_exists.mp hLeased with
        ⟨lease, hLease⟩
      rcases hMirrors.exists_item_of_lease hLease with
        ⟨item, _, hItem, hId, hFree, _⟩
      exact ⟨item, ⟨hItem, by simp [hFree]⟩, hId⟩
  rw [WorkQueue.free] at *
  omega

theorem status
    (hMirrors : engine.inner.Mirrors queue)
    (hNodup :
      (engine.inner.readyQueue.tasks.map
        TaskRef.id).Nodup) :
    queue.respond .status =
      (some (.counts engine.status.1 engine.status.2),
        queue) := by
  simp only [TaskQueue.respond, TaskQueue.serve,
    WorkQueue.serve, Option.map_some, EngineReply.ofTask,
    hMirrors.length_held]
  rw [hMirrors.length_free hNodup]
  rfl

variable [Hasher]

theorem push
    (hMirrors : engine.inner.Mirrors queue)
    (hLeft : engine.inner.IdsLeft)
    (payload : Bytes)
    (priority : UInt8) :
    (engine.push none payload priority).1 =
        .ok queue.nextId ∧
      (engine.push none payload priority).2.inner.Mirrors
        (queue.serve
          (.push payload (bucketOf priority))).2 := by
  rw [Engine.push_none, hMirrors.nextId_eq]
  exact ⟨rfl,
    (hMirrors.add hLeft priority payload
      engine.inner.wal.nextLoc).of_fields_eq rfl rfl rfl⟩

theorem ack
    (hMirrors : engine.inner.Mirrors queue)
    (id : UInt64)
    (consumerId : UInt32) :
    (queue.respond (.ack id consumerId)).1 =
        some (.settled (engine.ack none id consumerId).1) ∧
      (engine.ack none id consumerId).2.inner.Mirrors
        (queue.serve (.ack id consumerId)).2 := by
  rw [TaskQueue.respond, TaskQueue.serve, WorkQueue.serve,
    WorkQueue.answered, hMirrors.settle_eq,
    Engine.ack_none]
  cases hLease : engine.inner.leased[id]? with
  | none => exact ⟨rfl, hMirrors⟩
  | some lease =>
      by_cases hConsumer : lease.consumerId = consumerId
      · simp only [hConsumer, if_true]
        rcases hMirrors.serve_settle hLease (fun _ => [])
          with ⟨item, hItem, rfl, hHeld, _, _, _, hSettle⟩
        rw [← hConsumer, hSettle]
        exact ⟨rfl,
          (hMirrors.finish hItem hHeld lease.priority none
            engine.inner.wal.nextLoc).of_fields_eq rfl rfl
              rfl⟩
      · simp only [hConsumer, if_false]
        exact ⟨rfl, hMirrors⟩

/- A failed delivery, by a nack or by the worker. -/
theorem perform_failure
    (hMirrors : engine.inner.Mirrors queue)
    {id : UInt64}
    {lease : LeaseInfo}
    (hLease : engine.inner.leased[id]? = some lease)
    (failureType : OpType) :
    ∃ item ∈ queue.items,
      item.id = id ∧ item.isFree = false ∧
        WorkQueue.lookup queue.items id = some item ∧
        queue.settle id lease.consumerId
            (WorkQueue.Item.failed maxRetries.toNat) =
          (.done,
            { queue with
              items :=
                WorkQueue.without queue.items id ++
                  item.failed maxRetries.toNat }) ∧
        (engine.perform
          (.failure id lease.priority lease.retries
            failureType)).inner.Mirrors
          { queue with
            items :=
              WorkQueue.without queue.items id ++
                item.failed maxRetries.toNat } := by
  rcases hMirrors.serve_settle hLease
    (WorkQueue.Item.failed maxRetries.toNat) with
    ⟨item, hItem, rfl, hHeld, hPriority, hRetries, hLookup,
      hSettle⟩
  exact ⟨item, hItem, rfl, hHeld, hLookup, hSettle,
    (hMirrors.failure hItem hHeld hPriority hRetries
      failureType engine.inner.wal.nextLoc).of_fields_eq rfl
        rfl rfl⟩

theorem nack
    (hMirrors : engine.inner.Mirrors queue)
    (id : UInt64)
    (consumerId : UInt32) :
    (queue.respond (.nack id consumerId)).1 =
        some (.settled (engine.nack none id consumerId).1) ∧
      (engine.nack none id consumerId).2.inner.Mirrors
        (queue.serve (.nack id consumerId)).2 := by
  rw [TaskQueue.respond, TaskQueue.serve, WorkQueue.serve,
    WorkQueue.answered, hMirrors.settle_eq,
    Engine.nack_none]
  cases hLease : engine.inner.leased[id]? with
  | none => exact ⟨rfl, hMirrors⟩
  | some lease =>
      by_cases hConsumer : lease.consumerId = consumerId
      · rcases hMirrors.perform_failure hLease .nacked with
          ⟨item, _, _, _, _, hSettle, hNext⟩
        simp only [hConsumer, if_true]
        rw [← hConsumer, hSettle]
        exact ⟨rfl, hNext⟩
      · simp only [hConsumer, if_false]
        exact ⟨rfl, hMirrors⟩

end EngineState.Mirrors

end Nesso

------------------------------------------------------------
-- Realized Queues
------------------------------------------------------------

namespace Nesso

open PriorityBucketQueue (bucketOf)

namespace Engine

variable [Hasher]

/-
  The engine keeps the payloads on disk and its maps mirror
  the abstract queue.
-/
structure Realizes
    (engine : Engine)
    (queue : TaskQueue)
    (log : SegmentedLog)
    (payloads : UInt64 → Option Bytes) : Prop where
  keeps : engine.Keeps log payloads
  mirrors : engine.inner.Mirrors queue
  carried :
    ∀ item ∈ queue.items,
      payloads item.id = some item.payload

/- Some log and payloads with which an engine realizes it. -/
def Implements
    (engine : Engine)
    (queue : TaskQueue) : Prop :=
  ∃ log payloads, engine.Realizes queue log payloads

omit [Hasher] in
theorem alike_touchCache
    (engine : Engine)
    (id : UInt64) :
    engine.Alike (engine.touchCache id) :=
  ⟨rfl, rfl, rfl, rfl, rfl, rfl, rfl⟩

/- A pop grants a lease; the rest is reading. -/
theorem alike_popAndLease
    {engine : Engine}
    {task : TaskRef}
    {rest : ReadyQueue}
    (hPop :
      engine.inner.readyQueue.pop = some (task, rest))
    {dataLoc : Loc}
    (hLoc :
      engine.inner.dataIndex[task.id]? = some dataLoc)
    (consumerId : UInt32)
    (now leaseTtlSecs : UInt64) :
    (engine.perform
      (.grant task rest consumerId
        (now + leaseTtlSecs))).Alike
      (engine.popAndLease none consumerId now
        leaseTtlSecs).2 := by
  simp only [Engine.popAndLease, popLocked_none, hPop, hLoc]
  exact (alike_touchCache _ _).trans (alike_popRead _ _)

/-
  A pass of the worker over leases that are in force fails
  their tasks one after another.
-/
theorem expireAll_related
    {R : Engine → TaskQueue → Prop}
    (hFailure :
      ∀ {engine queue id lease},
        R engine queue →
          engine.inner.leased[id]? = some lease →
            ∃ item,
              item.isFree = false ∧
                WorkQueue.lookup queue.items id =
                  some item ∧
                R
                  (engine.perform
                    (.failure id lease.priority
                      lease.retries .expired))
                  { queue with
                    items :=
                      WorkQueue.without queue.items id ++
                        item.failed maxRetries.toNat })
    {engine : Engine}
    {queue : TaskQueue}
    (hRelated : R engine queue)
    {tasks : List ExpiredTask}
    (hNodup : (tasks.map ExpiredTask.id).Nodup)
    (hHeld :
      ∀ task ∈ tasks,
        ∃ lease,
          engine.inner.leased[task.id]? = some lease ∧
            task =
              ⟨task.id, lease.priority, lease.retries⟩) :
    R (engine.expireAll tasks)
      ((tasks.map ExpiredTask.id).foldl
        (WorkQueue.expireOne maxRetries.toNat) queue) := by
  induction tasks generalizing engine queue with
  | nil => exact hRelated
  | cons task tasks ih =>
      rcases hHeld task (by simp) with
        ⟨lease, hLease, hTask⟩
      rcases hFailure hRelated hLease with
        ⟨item, hItemHeld, hLookup, hNext⟩
      rw [List.map_cons, List.nodup_cons] at hNodup
      have hFirst :
          engine.expireTask none task =
            engine.perform
              (.failure task.id lease.priority lease.retries
                .expired) := by
        rw [expireTask_none]
        rw [hTask]
      have hOne :
          WorkQueue.expireOne maxRetries.toNat queue
              task.id =
            { queue with
              items :=
                WorkQueue.without queue.items task.id ++
                  item.failed maxRetries.toNat } := by
        simp [WorkQueue.expireOne, hLookup, hItemHeld]
      rw [List.map_cons, List.foldl_cons, hOne,
        Engine.expireAll, processExpired, List.map_cons,
        List.foldl_cons, hFirst]
      apply ih hNext hNodup.2
      intro other hOther
      rcases hHeld other (by simp [hOther]) with
        ⟨found, hFound, hFields⟩
      refine ⟨found, ?_, hFields⟩
      have hNe : task.id ≠ other.id := by
        intro hSame
        exact hNodup.1
          (List.mem_map.mpr ⟨other, hOther, hSame.symm⟩)
      change
        (Change.apply engine.inner _
          (.failure task.id lease.priority lease.retries
            .expired)).leased[other.id]? = some found
      rw [leased_failure, Std.ExtTreeMap.getElem?_erase]
      simp [hNe, hFound]

namespace Realizes

variable {engine next : Engine} {queue : TaskQueue}
variable {log : SegmentedLog}
variable {payloads : UInt64 → Option Bytes}

theorem push
    (hRealizes : engine.Realizes queue log payloads)
    (hLeft : engine.inner.IdsLeft)
    {payload : Bytes}
    (hShort : payload.length ≤ maxUserPayloadSize)
    (priority : UInt8) :
    (engine.push none payload priority).1 =
        .ok queue.nextId ∧
      (engine.push none payload priority).2.Implements
        (queue.serve
          (.push payload (bucketOf priority))).2 := by
  rcases hRealizes.keeps.push hLeft hShort priority with
    ⟨nextLog, hKeeps⟩
  rcases hRealizes.mirrors.push hLeft payload priority with
    ⟨hReply, hMirrors⟩
  exact ⟨hReply, nextLog, _, hKeeps, hMirrors,
    hRealizes.mirrors.carries_push hRealizes.carried payload
      (bucketOf priority)⟩

/- Only the caches and handles of the engine differ. -/
theorem of_alike
    (hRealizes : engine.Realizes queue log payloads)
    {nextLog : SegmentedLog}
    (hKeeps : next.Keeps nextLog payloads)
    (hAlike : engine.Alike next) :
    next.Realizes queue nextLog payloads where
  keeps := hKeeps
  mirrors :=
    hRealizes.mirrors.of_fields_eq hAlike.nextId_eq
      hAlike.readyQueue_eq hAlike.leased_eq
  carried := hRealizes.carried

/- A pop returns what the abstract queue gives away. -/
theorem popAndLease
    (hRealizes : engine.Realizes queue log payloads)
    (consumerId : UInt32)
    (now leaseTtlSecs : UInt64) :
    (queue.respond (.take consumerId
        (now + leaseTtlSecs))).1 =
        some
          (.popped
            (engine.popAndLease none consumerId now
              leaseTtlSecs).1) ∧
      (engine.popAndLease none consumerId now
        leaseTtlSecs).2.Implements
          (queue.serve (.take consumerId
            (now + leaseTtlSecs))).2 := by
  have hMirrors := hRealizes.mirrors
  rcases hRealizes.keeps.popAndLease consumerId now
    leaseTtlSecs with ⟨nextLog, hKeeps⟩
  have hResult :=
    hRealizes.keeps.serves.reads.popAndLease_eq consumerId
      now leaseTtlSecs
  rw [hResult, popResult]
  cases hPop : engine.inner.readyQueue.pop with
  | none =>
      have hServe :=
        hMirrors.serve_take_of_empty hPop consumerId
          (now + leaseTtlSecs)
      have hEngine :
          (engine.popAndLease none consumerId now
            leaseTtlSecs).2 = engine := by
        simp [Engine.popAndLease, popLocked_none, hPop]
      rw [TaskQueue.respond, hServe, hEngine]
      exact ⟨rfl, log, payloads, hRealizes⟩
  | some popped =>
      rcases popped with ⟨task, rest⟩
      have hTask : task ∈ engine.inner.readyQueue.tasks :=
        (ReadyQueue.tasks_pop_perm hPop).mem_iff.mpr
          (by simp)
      have hData :=
        hRealizes.keeps.placed.ready_data task hTask
      rcases Option.isSome_iff_exists.mp
        (Std.ExtTreeMap.isSome_getElem?_iff_mem.mpr hData)
        with ⟨dataLoc, hLoc⟩
      rcases hMirrors.grant hPop consumerId
        (now + leaseTtlSecs) engine.inner.wal.nextLoc with
        ⟨item, hItem, hCard, hServe, hNext⟩
      have hId : item.id = task.id :=
        congrArg Prod.fst hCard
      have hPayload := hRealizes.carried item hItem
      rw [hId] at hPayload
      have hCarries :=
        TaskQueue.Carries.serve hRealizes.carried
          (.take consumerId (now + leaseTtlSecs))
          (by simp)
      have hGranted :=
        alike_popAndLease hPop hLoc consumerId now
          leaseTtlSecs
      rw [hServe] at hCarries
      rw [TaskQueue.respond, hServe]
      constructor
      · simp [hLoc, hPayload, hCard, TaskRef.card,
          EngineReply.ofTask, bucketOf]
      · exact ⟨nextLog, payloads, hKeeps,
          hNext.of_fields_eq hGranted.nextId_eq
            hGranted.readyQueue_eq hGranted.leased_eq,
          hCarries⟩

theorem ack
    (hRealizes : engine.Realizes queue log payloads)
    (id : UInt64)
    (consumerId : UInt32) :
    (queue.respond (.ack id consumerId)).1 =
        some (.settled (engine.ack none id consumerId).1) ∧
      (engine.ack none id consumerId).2.Implements
        (queue.serve (.ack id consumerId)).2 := by
  rcases hRealizes.keeps.ack id consumerId with
    ⟨nextLog, hKeeps⟩
  rcases hRealizes.mirrors.ack id consumerId with
    ⟨hReply, hMirrors⟩
  exact ⟨hReply, nextLog, payloads, hKeeps, hMirrors,
    TaskQueue.Carries.serve hRealizes.carried _ (by simp)⟩

/- A failed delivery, by a nack or by the worker. -/
theorem failure
    (hRealizes : engine.Realizes queue log payloads)
    {id : UInt64}
    {lease : LeaseInfo}
    (hLease : engine.inner.leased[id]? = some lease)
    {failureType : OpType}
    (hType :
      failureType = .nacked ∨ failureType = .expired) :
    ∃ item ∈ queue.items,
      item.id = id ∧ item.isFree = false ∧
        WorkQueue.lookup queue.items id = some item ∧
        queue.settle id lease.consumerId
            (WorkQueue.Item.failed maxRetries.toNat) =
          (.done,
            { queue with
              items :=
                WorkQueue.without queue.items id ++
                  item.failed maxRetries.toNat }) ∧
        (engine.perform
          (.failure id lease.priority lease.retries
            failureType)).Implements
          { queue with
            items :=
              WorkQueue.without queue.items id ++
                item.failed maxRetries.toNat } := by
  rcases hRealizes.mirrors.perform_failure hLease
    failureType with
    ⟨item, hItem, hId, hHeld, hLookup, hSettle, hNext⟩
  refine ⟨item, hItem, hId, hHeld, hLookup, hSettle, ?_⟩
  rcases hRealizes.keeps.leased_known hLease with
    ⟨hMem, hKnown⟩
  have hKeeps :=
    hRealizes.keeps.perform
      (Change.known_failure hKnown lease.priority
        lease.retries hType)
      (hRealizes.keeps.placed.failure hMem lease.priority
        lease.retries failureType _)
  rw [Change.payloads_failure] at hKeeps
  refine ⟨_, payloads, hKeeps, hNext, ?_⟩
  have hCarries :=
    TaskQueue.Carries.serve hRealizes.carried
      (.nack id lease.consumerId) (by simp)
  rw [TaskQueue.serve, WorkQueue.serve, WorkQueue.answered,
    hSettle] at hCarries
  exact hCarries

theorem nack
    (hRealizes : engine.Realizes queue log payloads)
    (id : UInt64)
    (consumerId : UInt32) :
    (queue.respond (.nack id consumerId)).1 =
        some (.settled (engine.nack none id consumerId).1) ∧
      (engine.nack none id consumerId).2.Implements
        (queue.serve (.nack id consumerId)).2 := by
  rcases hRealizes.keeps.nack id consumerId with
    ⟨nextLog, hKeeps⟩
  rcases hRealizes.mirrors.nack id consumerId with
    ⟨hReply, hMirrors⟩
  exact ⟨hReply, nextLog, payloads, hKeeps, hMirrors,
    TaskQueue.Carries.serve hRealizes.carried _ (by simp)⟩

/- A pass of the worker over leases that are in force. -/
theorem expireAll
    (hRealizes : engine.Realizes queue log payloads)
    {tasks : List ExpiredTask}
    (hNodup : (tasks.map ExpiredTask.id).Nodup)
    (hHeld :
      ∀ task ∈ tasks,
        ∃ lease,
          engine.inner.leased[task.id]? = some lease ∧
            task =
              ⟨task.id, lease.priority, lease.retries⟩) :
    (engine.expireAll tasks).Implements
      ((tasks.map ExpiredTask.id).foldl
        (WorkQueue.expireOne maxRetries.toNat) queue) := by
  refine expireAll_related (R := Implements) ?_
    ⟨log, payloads, hRealizes⟩ hNodup hHeld
  rintro state abstract id lease
    ⟨found, stored, hState⟩ hLease
  rcases hState.failure hLease (.inr rfl) with
    ⟨item, _, _, hItemHeld, hLookup, _, hNext⟩
  exact ⟨item, hItemHeld, hLookup, hNext⟩

/- A compaction moves payloads on disk and nothing else. -/
theorem compact
    (hRealizes : engine.Realizes queue log payloads) :
    engine.compact.2.Implements queue := by
  rcases hRealizes.keeps.compact with ⟨nextLog, hKeeps⟩
  refine ⟨nextLog, payloads, hKeeps, ?_, hRealizes.carried⟩
  have hMirrors := hRealizes.mirrors
  unfold Engine.compact
  split
  · exact hMirrors
  · next closedSegments hPlan =>
      split
      · next error written hPhase1 =>
          have hInner :
              written.inner = engine.inner :=
            congrArg (fun out => out.2.inner) hPhase1.symm
          rw [hInner]
          exact hMirrors
      · next newOffsets written hPhase1 =>
          have hInner :
              written.inner = engine.inner :=
            congrArg (fun out => out.2.inner) hPhase1.symm
          rw [← hInner] at hMirrors
          simp only [compactPhase2]
          split
          · exact hMirrors
          · rw [EngineState.remap_eq]
            exact hMirrors.of_fields_eq rfl rfl rfl

end Realizes

/- Every operation answers as the abstract queue does. -/
theorem Realizes.simulation :
    Refinement.Simulation Engine.answer TaskQueue.respond
      EngineAction.call
      (fun engine action => action.Admissible engine)
      Engine.Implements := by
  constructor
  · rintro engine queue action called
      ⟨log, payloads, hRealizes⟩ hAllowed hCall
    cases action with
    | push payload priority =>
        rw [EngineAction.call, Option.some.injEq] at hCall
        rw [← hCall]
        rcases hRealizes.push hAllowed.1 hAllowed.2 priority
          with ⟨hReply, hNext⟩
        refine ⟨?_, hNext⟩
        simp only [answer, hReply]
        rfl
    | popAndLease consumerId now leaseTtlSecs =>
        rw [EngineAction.call, Option.some.injEq] at hCall
        rw [← hCall]
        rcases hRealizes.popAndLease consumerId now
          leaseTtlSecs with ⟨hReply, hNext⟩
        exact ⟨hReply.symm, hNext⟩
    | ack id consumerId =>
        rw [EngineAction.call, Option.some.injEq] at hCall
        rw [← hCall]
        rcases hRealizes.ack id consumerId with
          ⟨hReply, hNext⟩
        exact ⟨hReply.symm, hNext⟩
    | nack id consumerId =>
        rw [EngineAction.call, Option.some.injEq] at hCall
        rw [← hCall]
        rcases hRealizes.nack id consumerId with
          ⟨hReply, hNext⟩
        exact ⟨hReply.symm, hNext⟩
    | status =>
        rw [EngineAction.call, Option.some.injEq] at hCall
        rw [← hCall, hRealizes.mirrors.status
          hRealizes.keeps.placed.ready_nodup]
        exact ⟨rfl, log, payloads, hRealizes⟩
    | expire now tasks =>
        rw [EngineAction.call, Option.some.injEq] at hCall
        rw [← hCall]
        refine ⟨rfl, hRealizes.expireAll ?_ ?_⟩
        · exact (hAllowed.map _).nodup_iff.mpr
            (expiredTasks_ids_nodup _ now)
        · intro task hTask
          rcases mem_expiredTasks_iff.mp
            (hAllowed.mem_iff.mp hTask) with
            ⟨lease, hLease, _, hFields⟩
          exact ⟨lease, hLease, hFields⟩
    | compact => simp [EngineAction.call] at hCall
    | clearPayloadCache =>
        simp [EngineAction.call] at hCall
    | clearReaderCache =>
        simp [EngineAction.call] at hCall
  · rintro engine queue action
      ⟨log, payloads, hRealizes⟩ _ hCall
    cases action with
    | compact => exact ⟨rfl, hRealizes.compact⟩
    | clearPayloadCache =>
        have hServes :
            engine.clearPayloadCache.Serves log payloads :=
          hRealizes.keeps.serves.withCache
            (by simp [PayloadCache.clear])
        exact ⟨rfl, log, payloads,
          hRealizes.of_alike
            (hRealizes.keeps.of_caches hServes rfl rfl rfl
              rfl rfl)
            ⟨rfl, rfl, rfl, rfl, rfl, rfl, rfl⟩⟩
    | clearReaderCache =>
        have hServes :
            engine.clearReaderCache.Serves log payloads :=
          ⟨hRealizes.keeps.serves.tracks,
            WalReader.coherent_new _,
            hRealizes.keeps.serves.stored⟩
        exact ⟨rfl, log, payloads,
          hRealizes.of_alike
            (hRealizes.keeps.of_caches hServes rfl rfl rfl
              rfl rfl)
            ⟨rfl, rfl, rfl, rfl, rfl, rfl, rfl⟩⟩
    | _ => simp [EngineAction.call] at hCall

theorem implements_fresh
    (maxSegmentSize : Option Nat)
    (cacheCapacity : Nat)
    (now : UInt64) :
    (fresh maxSegmentSize cacheCapacity now).Implements
      .empty := by
  rcases Service.keepsPayloads_start maxSegmentSize
    cacheCapacity now with ⟨log, hKeeps⟩
  rcases reopen_empty_spec maxSegmentSize cacheCapacity now
    with ⟨next, hNext, _, _, _, _, hInner⟩
  rcases hInner.empty with ⟨hReady, hLeased, _, hNextId⟩
  have hFresh :
      fresh maxSegmentSize cacheCapacity now = next := by
    rw [fresh, hNext]
  refine ⟨log, _, hKeeps, ?_, by simp [TaskQueue.empty]⟩
  rw [hFresh]
  constructor
  · rw [hNextId]
    rfl
  · simp [TaskQueue.empty]
  · simp [TaskQueue.empty]
  · simp [TaskQueue.empty]
  · intro priority
    have hBucket := hInner.bucket_eq priority
    rw [hBucket]
    rfl
  · intro id
    rw [hLeased]
    simp [TaskQueue.empty, WorkQueue.lookup]

end Engine

end Nesso

------------------------------------------------------------
-- Runs of the Engine
------------------------------------------------------------

namespace Nesso

section Runs

variable [Hasher]

/-
  Whatever the clients call, and wherever compactions, expiry
  passes and cache clears come in between, they are answered
  as by the abstract queue.
-/
theorem engineRun_refines_taskQueue
    {maxSegmentSize : Option Nat}
    {cacheCapacity : Nat}
    {start : UInt64}
    {actions : List EngineAction}
    (hAdmits :
      Refinement.Admits Engine.answer
        (fun engine action => action.Admissible engine)
        (Engine.fresh maxSegmentSize cacheCapacity start)
        actions) :
    Refinement.answers Engine.answer
        (Engine.fresh maxSegmentSize cacheCapacity start)
        actions =
      Refinement.answers TaskQueue.respond .empty
        (actions.filterMap EngineAction.call) :=
  Engine.Realizes.simulation.answers_eq
    (Engine.implements_fresh maxSegmentSize cacheCapacity
      start) hAdmits

/-
  Segment sizes, cache capacities, compactions and cleared
  caches cannot be told from the answers.
-/
theorem engineRuns_answer_alike
    {leftSize rightSize : Option Nat}
    {leftCapacity rightCapacity : Nat}
    {leftStart rightStart : UInt64}
    {left right : List EngineAction}
    (hLeft :
      Refinement.Admits Engine.answer
        (fun engine action => action.Admissible engine)
        (Engine.fresh leftSize leftCapacity leftStart) left)
    (hRight :
      Refinement.Admits Engine.answer
        (fun engine action => action.Admissible engine)
        (Engine.fresh rightSize rightCapacity rightStart)
        right)
    (hCalls :
      left.filterMap EngineAction.call =
        right.filterMap EngineAction.call) :
    Refinement.answers Engine.answer
        (Engine.fresh leftSize leftCapacity leftStart)
        left =
      Refinement.answers Engine.answer
        (Engine.fresh rightSize rightCapacity rightStart)
        right := by
  rw [Engine.Realizes.simulation.answers_eq
      (Engine.implements_fresh leftSize leftCapacity
        leftStart) hLeft,
    Engine.Realizes.simulation.answers_eq
      (Engine.implements_fresh rightSize rightCapacity
        rightStart) hRight, hCalls]

end Runs

/- A task expires, is compacted and delivered again. -/
def expiredAndCompacted : List EngineAction :=
  [.push [7, 8] 5, .push [9] 3, .popAndLease 1 10 20,
    .expire 30 [⟨1, 5, 0⟩], .compact, .clearPayloadCache,
    .popAndLease 2 40 20, .nack 1 3, .ack 1 2, .status]

/- The same calls without the maintenance. -/
def expiredOnly : List EngineAction :=
  [.push [7, 8] 5, .push [9] 3, .popAndLease 1 10 20,
    .expire 30 [⟨1, 5, 0⟩], .popAndLease 2 40 20,
    .nack 1 3, .ack 1 2, .status]

set_option maxRecDepth 100000 in
theorem engineRun_refines_taskQueue_expired :
    Refinement.Admits Engine.answer
        (fun engine action => action.Admissible engine)
        (Engine.fresh (some 40) 4 0) expiredAndCompacted ∧
      Refinement.answers Engine.answer
          (Engine.fresh (some 40) 4 0)
          expiredAndCompacted =
        Refinement.answers TaskQueue.respond .empty
          (expiredAndCompacted.filterMap
            EngineAction.call) := by
  have hAdmits :
      Refinement.Admits Engine.answer
        (fun engine action => action.Admissible engine)
        (Engine.fresh (some 40) 4 0)
        expiredAndCompacted := by
    decide +kernel
  exact ⟨hAdmits, engineRun_refines_taskQueue hAdmits⟩

set_option maxRecDepth 100000 in
theorem engineRuns_answer_alike_compacted :
    Refinement.answers Engine.answer
        (Engine.fresh (some 40) 4 0) expiredAndCompacted =
      Refinement.answers Engine.answer
        (Engine.fresh none 0 7) expiredOnly :=
  engineRuns_answer_alike (by decide +kernel)
    (by decide +kernel) rfl

end Nesso
