import Nesso.Library.WorkQueue
import Nesso.Queue.Change

/-
  The engine's maps as an abstract work queue: the buckets are
  the lanes of the free tasks, and the lease map holds the
  leases in force.

  Key definitions include:
    * `TaskQueue`
    * `EngineState.Mirrors`

  Every change of the maps is a call of the abstract queue:
    * `EngineState.Mirrors.add`
    * `EngineState.Mirrors.grant`
    * `EngineState.Mirrors.finish`
    * `EngineState.Mirrors.failure`
-/

------------------------------------------------------------
-- Mirrored States
------------------------------------------------------------

namespace Nesso

open PriorityBucketQueue (bucketOf)

/- The abstract queue with the types of the engine. -/
abbrev TaskItem :=
  WorkQueue.Item UInt64 (Fin 256) Bytes UInt32 UInt64

abbrev TaskQueue :=
  WorkQueue UInt64 (Fin 256) Bytes UInt32 UInt64

abbrev TaskCall :=
  WorkQueue.Call UInt64 (Fin 256) Bytes UInt32 UInt64

abbrev TaskReply :=
  WorkQueue.Reply UInt64 (Fin 256) Bytes

namespace TaskQueue

def empty : TaskQueue where
  items := []
  nextId := 1

/- The abstract queue counts and ends as the engine does. -/
def serve
    (queue : TaskQueue)
    (call : TaskCall) : Option TaskReply × TaskQueue :=
  WorkQueue.serve (· + 1) maxRetries.toNat queue call

end TaskQueue

def TaskRef.card (task : TaskRef) : UInt64 × Fin 256 × Nat :=
  (task.id, bucketOf task.priority, task.retries.toNat)

/- A lease with the fields of its task. -/
def LeaseInfo.card
    (lease : LeaseInfo) :
    (UInt32 × UInt64) × Fin 256 × Nat :=
  ((lease.consumerId, lease.expireTimestamp),
    bucketOf lease.priority, lease.retries.toNat)

/- The lease in force on a task, with the task's fields. -/
def TaskItem.leaseCard
    (item : TaskItem) :
    Option ((UInt32 × UInt64) × Fin 256 × Nat) :=
  item.stage.lease?.map
    (fun lease => (lease, item.priority, item.failures))

/- The maps hold the tasks of the abstract queue. -/
structure EngineState.Mirrors
    (inner : EngineState)
    (queue : TaskQueue) : Prop where
  nextId_eq : queue.nextId = inner.nextId
  ids_nodup :
    (queue.items.map WorkQueue.Item.id).Nodup
  ids_lt :
    ∀ item ∈ queue.items, item.id < inner.nextId
  failures_lt :
    ∀ item ∈ queue.items,
      item.failures < maxRetries.toNat
  free_eq :
    ∀ priority,
      (inner.readyQueue.bucket priority).map TaskRef.card =
        (PriorityList.lane WorkQueue.Item.priority
          (WorkQueue.free queue.items)
          (bucketOf priority)).map WorkQueue.Item.card
  held_eq :
    ∀ id,
      inner.leased[id]?.map LeaseInfo.card =
        (WorkQueue.lookup queue.items id).bind
          TaskItem.leaseCard

theorem exists_bucketOf_eq
    (level : Fin 256) :
    ∃ priority, bucketOf priority = level := by
  refine ⟨UInt8.ofNat level.val, ?_⟩
  apply Fin.ext
  simp [bucketOf]

theorem bucketOf_lt_bucketOf_iff
    {left right : UInt8} :
    bucketOf left < bucketOf right ↔ left < right := by
  rw [UInt8.lt_iff_toNat_lt]
  rfl

namespace EngineState.Mirrors

variable {inner next : EngineState} {queue : TaskQueue}

/- Caches, indexes and the log do not matter. -/
theorem of_fields_eq
    (hMirrors : inner.Mirrors queue)
    (hNextId : next.nextId = inner.nextId)
    (hReady : next.readyQueue = inner.readyQueue)
    (hLeased : next.leased = inner.leased) :
    next.Mirrors queue := by
  constructor
  · rw [hNextId]
    exact hMirrors.nextId_eq
  · exact hMirrors.ids_nodup
  · rw [hNextId]
    exact hMirrors.ids_lt
  · exact hMirrors.failures_lt
  · rw [hReady]
    exact hMirrors.free_eq
  · rw [hLeased]
    exact hMirrors.held_eq

/- The lease map holds the leases of held tasks only. -/
theorem exists_item_of_lease
    (hMirrors : inner.Mirrors queue)
    {id : UInt64}
    {lease : LeaseInfo}
    (hLease : inner.leased[id]? = some lease) :
    ∃ item,
      WorkQueue.lookup queue.items id = some item ∧
        item ∈ queue.items ∧ item.id = id ∧
        item.isFree = false ∧
        item.stage.lease? =
          some (lease.consumerId, lease.expireTimestamp) ∧
        item.priority = bucketOf lease.priority ∧
        item.failures = lease.retries.toNat := by
  have hHeld := hMirrors.held_eq id
  rw [hLease, Option.map_some] at hHeld
  rcases Option.bind_eq_some_iff.mp hHeld.symm with
    ⟨item, hLookup, hCard⟩
  rcases (WorkQueue.lookup_eq_some_iff
    hMirrors.ids_nodup).mp hLookup with ⟨hMem, hId⟩
  rcases Option.map_eq_some_iff.mp hCard with
    ⟨held, hStage, hFields⟩
  simp only [LeaseInfo.card, Prod.mk.injEq] at hFields
  rcases hFields with ⟨rfl, hPriority, hRetries⟩
  refine ⟨item, hLookup, hMem, hId, ?_, hStage, hPriority,
    hRetries⟩
  simp [WorkQueue.Item.isFree, hStage]

/- A task without a lease is not held. -/
theorem leaseCard_eq_none
    (hMirrors : inner.Mirrors queue)
    {id : UInt64}
    (hLease : inner.leased[id]? = none) :
    ∀ item, WorkQueue.lookup queue.items id = some item →
      item.stage.lease? = none := by
  intro item hLookup
  have hHeld := hMirrors.held_eq id
  rw [hLease, hLookup, Option.map_none,
    Option.bind_some] at hHeld
  exact Option.map_eq_none_iff.mp hHeld.symm

/- Nothing is free when the ready queue is empty. -/
theorem free_eq_nil
    (hMirrors : inner.Mirrors queue)
    (hPop : inner.readyQueue.pop = none) :
    WorkQueue.free queue.items = [] := by
  suffices hLanes :
      ∀ level,
        PriorityList.lane WorkQueue.Item.priority
          (WorkQueue.free queue.items) level = [] from
    PriorityList.eq_nil_of_lanes hLanes
  intro level
  rcases exists_bucketOf_eq level with ⟨priority, rfl⟩
  have hBucket : inner.readyQueue.bucket priority = [] := by
    rw [List.eq_nil_iff_forall_not_mem]
    intro task hTask
    have hPriority :=
      ReadyQueue.priority_of_mem_bucket hTask
    have hMem : task ∈ inner.readyQueue.tasks := by
      rw [ReadyQueue.mem_tasks_iff, hPriority]
      exact hTask
    rw [ReadyQueue.tasks_eq_nil_of_pop hPop] at hMem
    simp at hMem
  have hLane := hMirrors.free_eq priority
  rw [hBucket, List.map_nil] at hLane
  exact List.map_eq_nil_iff.mp hLane.symm

/- The bucket queue pops the task that is given away. -/
theorem exists_item_of_pop
    (hMirrors : inner.Mirrors queue)
    {task : TaskRef}
    {rest : ReadyQueue}
    (hPop : inner.readyQueue.pop = some (task, rest)) :
    ∃ item,
      (PriorityList.pop WorkQueue.Item.priority
          (WorkQueue.free queue.items)).1 = some item ∧
        item ∈ queue.items ∧ item.isFree = true ∧
        item.card = task.card ∧
        ∀ priority,
          (rest.bucket priority).map TaskRef.card =
            (PriorityList.lane WorkQueue.Item.priority
              (WorkQueue.without
                (WorkQueue.free queue.items) item.id)
              (bucketOf priority)).map
                WorkQueue.Item.card := by
  rcases ReadyQueue.pop_eq_some hPop with
    ⟨hHead, hOthers, hAbove⟩
  have hLane := hMirrors.free_eq task.priority
  rw [hHead, List.map_cons] at hLane
  rcases List.map_eq_cons_iff.mp hLane.symm with
    ⟨item, items, hItems, hCard, hRest⟩
  have hHigher :
      ∀ level, bucketOf task.priority < level →
        PriorityList.lane WorkQueue.Item.priority
          (WorkQueue.free queue.items) level = [] := by
    intro level hLevel
    rcases exists_bucketOf_eq level with ⟨priority, rfl⟩
    have hEmpty := hMirrors.free_eq priority
    rw [hAbove priority
      (bucketOf_lt_bucketOf_iff.mp hLevel),
      List.map_nil] at hEmpty
    exact List.map_eq_nil_iff.mp hEmpty.symm
  have hTop :=
    (PriorityList.pop_of_highest_lane hItems hHigher).1
  have hMem :
      item ∈ WorkQueue.free queue.items :=
    (PriorityList.mem_lane_iff.mp
      (by rw [hItems]; simp)).1
  rcases WorkQueue.mem_free_iff.mp hMem with
    ⟨hMem, hFree⟩
  refine ⟨item, hTop, hMem, hFree, hCard, ?_⟩
  intro priority
  rw [WorkQueue.lane_free_without_of_top
    hMirrors.ids_nodup hItems]
  by_cases hPriority : priority = task.priority
  · rw [hPriority, if_pos rfl]
    exact hRest.symm
  · rw [if_neg (fun hSame =>
      hPriority (ReadyQueue.bucketOf_injective hSame)),
      hOthers priority hPriority]
    exact hMirrors.free_eq priority

/-
  A task that moves behind the others, or leaves, is the only
  one that changes.
-/
theorem move
    (hMirrors : inner.Mirrors queue)
    {item : TaskItem}
    (hItem : item ∈ queue.items)
    {rest : List TaskItem}
    (hIds : ∀ moved ∈ rest, moved.id = item.id)
    (hLength : rest.length ≤ 1)
    (hFailures :
      ∀ moved ∈ rest, moved.failures < maxRetries.toNat)
    (hNextId : next.nextId = inner.nextId)
    (hFree :
      ∀ priority,
        (next.readyQueue.bucket priority).map TaskRef.card =
          (PriorityList.lane WorkQueue.Item.priority
            (WorkQueue.without
                (WorkQueue.free queue.items) item.id ++
              WorkQueue.free rest)
            (bucketOf priority)).map WorkQueue.Item.card)
    (hSelf :
      next.leased[item.id]?.map LeaseInfo.card =
        rest.head?.bind TaskItem.leaseCard)
    (hOthers :
      ∀ id, id ≠ item.id →
        next.leased[id]? = inner.leased[id]?) :
    next.Mirrors
      { queue with
        items :=
          WorkQueue.without queue.items item.id ++ rest }
    := by
  constructor
  · rw [hNextId]
    exact hMirrors.nextId_eq
  · exact WorkQueue.nodup_without_append
      hMirrors.ids_nodup hIds hLength
  · intro other hOther
    rw [hNextId]
    rcases List.mem_append.mp hOther with hOther | hOther
    · exact hMirrors.ids_lt other
        (WorkQueue.mem_without_iff.mp hOther).1
    · rw [hIds other hOther]
      exact hMirrors.ids_lt item hItem
  · intro other hOther
    rcases List.mem_append.mp hOther with hOther | hOther
    · exact hMirrors.failures_lt other
        (WorkQueue.mem_without_iff.mp hOther).1
    · exact hFailures other hOther
  · intro priority
    rw [WorkQueue.free_without_append]
    exact hFree priority
  · intro id
    rw [WorkQueue.lookup_without_append hIds]
    by_cases hId : id = item.id
    · rw [if_pos hId, hId]
      exact hSelf
    · rw [if_neg hId, hOthers id hId]
      exact hMirrors.held_eq id

end EngineState.Mirrors

end Nesso

------------------------------------------------------------
-- Changes as Calls
------------------------------------------------------------

namespace Nesso

open PriorityBucketQueue (bucketOf)

/- Pushing extends the lane of the task's priority. -/
theorem ReadyQueue.map_card_bucket_push
    (ready : ReadyQueue)
    (task : TaskRef)
    (priority : UInt8)
    {tasks : List TaskItem}
    {item : TaskItem}
    (hCard : item.card = task.card)
    (hTasks :
      (ready.bucket priority).map TaskRef.card =
        (PriorityList.lane WorkQueue.Item.priority tasks
          (bucketOf priority)).map WorkQueue.Item.card) :
    ((ready.push task).bucket priority).map TaskRef.card =
      (PriorityList.lane WorkQueue.Item.priority
        (tasks ++ [item]) (bucketOf priority)).map
          WorkQueue.Item.card := by
  have hItem : item.priority = bucketOf task.priority :=
    congrArg (fun card => card.2.1) hCard
  have hLane :
      PriorityList.lane WorkQueue.Item.priority
          (tasks ++ [item]) (bucketOf priority) = _ :=
    PriorityList.lane_push tasks item (bucketOf priority)
  rw [bucket_push, hLane, hItem]
  by_cases hPriority : task.priority = priority
  · rw [if_pos hPriority, if_pos (congrArg _ hPriority),
      List.map_append, List.map_append, hTasks,
      List.map_singleton, List.map_singleton, hCard]
  · rw [if_neg hPriority,
      if_neg (fun hSame =>
        hPriority (bucketOf_injective hSame))]
    exact hTasks

namespace EngineState.Mirrors

variable {inner : EngineState} {queue : TaskQueue}

theorem add
    (hMirrors : inner.Mirrors queue)
    (hLeft : inner.IdsLeft)
    (priority : UInt8)
    (payload : Bytes)
    (loc : Loc) :
    (Change.apply inner loc (.add priority payload)).Mirrors
      (queue.serve
        (.push payload (bucketOf priority))).2 := by
  have hLt := UInt64.lt_add_one_of_ne hLeft
  have hFresh :
      ∀ item ∈ queue.items, item.id ≠ inner.nextId := by
    intro item hItem hId
    have hOld := hMirrors.ids_lt item hItem
    rw [hId] at hOld
    exact UInt64.lt_irrefl _ hOld
  constructor
  · exact congrArg (· + 1) hMirrors.nextId_eq
  · simp only [TaskQueue.serve, WorkQueue.serve,
      WorkQueue.answered, WorkQueue.push, List.map_append,
      List.map_singleton]
    rw [List.nodup_append]
    refine ⟨hMirrors.ids_nodup, List.nodup_singleton _, ?_⟩
    intro left hOld right hNew
    rcases List.mem_map.mp hOld with ⟨item, hItem, rfl⟩
    rw [List.mem_singleton.mp hNew, hMirrors.nextId_eq]
    exact hFresh item hItem
  · intro item hItem
    rcases List.mem_append.mp hItem with hItem | hItem
    · exact UInt64.lt_trans (hMirrors.ids_lt item hItem) hLt
    · rw [List.mem_singleton.mp hItem]
      change queue.nextId < inner.nextId + 1
      rw [hMirrors.nextId_eq]
      exact hLt
  · intro item hItem
    rcases List.mem_append.mp hItem with hItem | hItem
    · exact hMirrors.failures_lt item hItem
    · rw [List.mem_singleton.mp hItem]
      exact (by decide : 0 < maxRetries.toNat)
  · intro level
    change
      ((inner.readyQueue.push
        ⟨inner.nextId, priority, 0⟩).bucket level).map
          TaskRef.card = _
    have hPushed :
        WorkQueue.free
            (queue.serve
              (.push payload (bucketOf priority))).2.items =
          WorkQueue.free queue.items ++
            [⟨queue.nextId, bucketOf priority, payload, 0,
              .waiting⟩] := by
      simp only [TaskQueue.serve, WorkQueue.serve,
        WorkQueue.answered, WorkQueue.push, WorkQueue.free,
        List.filter_append]
      rfl
    rw [hPushed]
    apply ReadyQueue.map_card_bucket_push
    · rw [hMirrors.nextId_eq]
      rfl
    · exact hMirrors.free_eq level
  · intro id
    change inner.leased[id]?.map LeaseInfo.card = _
    rw [hMirrors.held_eq id]
    simp only [TaskQueue.serve, WorkQueue.serve,
      WorkQueue.answered, WorkQueue.push, WorkQueue.lookup,
      List.find?_append]
    cases hFound : queue.items.find?
        (fun item => item.id = id) with
    | some item => rfl
    | none =>
        rw [Option.none_or, Option.bind_none]
        by_cases hId : queue.nextId = id
        · simp [hId, TaskItem.leaseCard,
            WorkQueue.Stage.lease?]
        · simp [hId]

/- The queue after a task was given away. -/
def grantedTo
    (queue : TaskQueue)
    (item : TaskItem)
    (consumerId : UInt32)
    (expireTimestamp : UInt64) : TaskQueue :=
  { queue with
    items :=
      WorkQueue.without queue.items item.id ++
        [{ item with
           stage := .held consumerId expireTimestamp }] }

/- A pop is a call that gives the task away. -/
theorem grant
    (hMirrors : inner.Mirrors queue)
    {task : TaskRef}
    {rest : ReadyQueue}
    (hPop : inner.readyQueue.pop = some (task, rest))
    (consumerId : UInt32)
    (expireTimestamp : UInt64)
    (loc : Loc) :
    ∃ item ∈ queue.items,
      item.card = task.card ∧
        queue.serve (.take consumerId expireTimestamp) =
          (some (.taken (some (item.card, item.payload))),
            grantedTo queue item consumerId
              expireTimestamp) ∧
        (Change.apply inner loc
          (.grant task rest consumerId
            expireTimestamp)).Mirrors
          (grantedTo queue item consumerId
            expireTimestamp) := by
  rcases hMirrors.exists_item_of_pop hPop with
    ⟨item, hTop, hItem, hFree, hCard, hRest⟩
  have hId : item.id = task.id := congrArg Prod.fst hCard
  have hPriority : item.priority = bucketOf task.priority :=
    congrArg (fun card => card.2.1) hCard
  have hRetries : item.failures = task.retries.toNat :=
    congrArg (fun card => card.2.2) hCard
  refine ⟨item, hItem, hCard, ?_, ?_⟩
  · simp only [TaskQueue.serve, WorkQueue.serve,
      WorkQueue.answered, WorkQueue.take, hTop, grantedTo]
  · apply hMirrors.move hItem
    · intro moved hMoved
      rw [List.mem_singleton.mp hMoved]
    · simp
    · intro moved hMoved
      rw [List.mem_singleton.mp hMoved]
      exact hMirrors.failures_lt item hItem
    · rfl
    · intro priority
      have hNone :
          WorkQueue.free
              [({ item with
                  stage :=
                    .held consumerId expireTimestamp } :
                TaskItem)] = [] := rfl
      rw [hNone, List.append_nil]
      exact hRest priority
    · rw [hId]
      simp [Change.apply, TaskItem.leaseCard,
        LeaseInfo.card, WorkQueue.Stage.lease?, hPriority,
        hRetries]
    · intro id hOther
      rw [hId] at hOther
      simp [Change.apply, Std.ExtTreeMap.getElem?_insert,
        hOther.symm]

/- The holder of a lease may settle its task. -/
theorem serve_settle
    (hMirrors : inner.Mirrors queue)
    {id : UInt64}
    {lease : LeaseInfo}
    (hLease : inner.leased[id]? = some lease)
    (rest : TaskItem → List TaskItem) :
    ∃ item ∈ queue.items,
      item.id = id ∧ item.isFree = false ∧
        item.priority = bucketOf lease.priority ∧
        item.failures = lease.retries.toNat ∧
        WorkQueue.lookup queue.items id = some item ∧
        queue.settle id lease.consumerId rest =
          (.done,
            { queue with
              items :=
                WorkQueue.without queue.items item.id ++
                  rest item }) := by
  rcases hMirrors.exists_item_of_lease hLease with
    ⟨item, hLookup, hItem, hId, hHeld, hStage, hPriority,
      hRetries⟩
  refine ⟨item, hItem, hId, hHeld, hPriority, hRetries,
    hLookup, ?_⟩
  simp only [WorkQueue.settle, hLookup, hStage, if_true, hId]

/- The ready queue keeps its tasks when a lease ends. -/
theorem lane_without_held
    (hMirrors : inner.Mirrors queue)
    {item : TaskItem}
    (hItem : item ∈ queue.items)
    (hHeld : item.isFree = false)
    (priority : UInt8) :
    (inner.readyQueue.bucket priority).map TaskRef.card =
      (PriorityList.lane WorkQueue.Item.priority
        (WorkQueue.without (WorkQueue.free queue.items)
          item.id) (bucketOf priority)).map
            WorkQueue.Item.card := by
  rw [WorkQueue.without_free_of_held hMirrors.ids_nodup
    hItem hHeld]
  exact hMirrors.free_eq priority

/- A task that ends leaves both queues. -/
theorem finish
    (hMirrors : inner.Mirrors queue)
    {item : TaskItem}
    (hItem : item ∈ queue.items)
    (hHeld : item.isFree = false)
    (priority : UInt8)
    (deadRetries : Option UInt8)
    (loc : Loc) :
    (Change.apply inner loc
      (.finish item.id priority deadRetries)).Mirrors
        { queue with
          items :=
            WorkQueue.without queue.items item.id ++ [] } := by
  apply hMirrors.move hItem
  · simp
  · simp
  · simp
  · rfl
  · intro level
    have hNone : WorkQueue.free ([] : List TaskItem) = [] :=
      rfl
    rw [hNone, List.append_nil]
    exact hMirrors.lane_without_held hItem hHeld level
  · simp [Change.apply]
  · intro id hOther
    simp [Change.apply, Std.ExtTreeMap.getElem?_erase,
      hOther.symm]

/- Both sides count failed deliveries alike. -/
theorem failures_succ
    (hMirrors : inner.Mirrors queue)
    {item : TaskItem}
    (hItem : item ∈ queue.items)
    {retries : UInt8}
    (hRetries : item.failures = retries.toNat) :
    (retries + 1).toNat = item.failures + 1 ∧
      (maxRetries ≤ retries + 1 ↔
        maxRetries.toNat ≤ item.failures + 1) := by
  have hLt := hMirrors.failures_lt item hItem
  have hNat :
      (retries + 1).toNat = item.failures + 1 := by
    rw [hRetries] at hLt ⊢
    have hMax : maxRetries.toNat = 3 := rfl
    rw [UInt8.toNat_add, Nat.mod_eq_of_lt]
    · rfl
    · have hOne : (1 : UInt8).toNat = 1 := rfl
      omega
  refine ⟨hNat, ?_⟩
  rw [UInt8.le_iff_toNat_le, hNat]

/- A failed delivery ends the task or queues it again. -/
theorem failure
    (hMirrors : inner.Mirrors queue)
    {item : TaskItem}
    (hItem : item ∈ queue.items)
    (hHeld : item.isFree = false)
    {priority retries : UInt8}
    (hPriority : item.priority = bucketOf priority)
    (hRetries : item.failures = retries.toNat)
    (failureType : OpType)
    (loc : Loc) :
    (Change.apply inner loc
      (.failure item.id priority retries
        failureType)).Mirrors
        { queue with
          items :=
            WorkQueue.without queue.items item.id ++
              item.failed maxRetries.toNat } := by
  rcases hMirrors.failures_succ hItem hRetries with
    ⟨hNat, hDead⟩
  unfold Change.failure WorkQueue.Item.failed
  by_cases hLimit : maxRetries ≤ retries + 1
  · rw [if_pos hLimit, if_pos (hDead.mp hLimit)]
    exact hMirrors.finish hItem hHeld priority _ loc
  · rw [if_neg hLimit, if_neg (fun hLe =>
      hLimit (hDead.mpr hLe))]
    have hLess : item.failures + 1 < maxRetries.toNat := by
      by_contra hLe
      exact hLimit (hDead.mpr (Nat.not_lt.mp hLe))
    apply hMirrors.move hItem
    · intro moved hMoved
      rw [List.mem_singleton.mp hMoved]
    · simp
    · intro moved hMoved
      rw [List.mem_singleton.mp hMoved]
      exact hLess
    · rfl
    · intro level
      change
        ((inner.readyQueue.push
          ⟨item.id, priority, retries + 1⟩).bucket
            level).map TaskRef.card = _
      have hFree :
          WorkQueue.free
              [({ item with
                  failures := item.failures + 1
                  stage := .waiting } : TaskItem)] =
            [{ item with
               failures := item.failures + 1
               stage := .waiting }] := rfl
      rw [hFree]
      apply ReadyQueue.map_card_bucket_push
      · simp only [WorkQueue.Item.card, TaskRef.card,
          hPriority, hNat]
      · exact hMirrors.lane_without_held hItem hHeld level
    · simp [Change.apply, TaskItem.leaseCard,
        WorkQueue.Stage.lease?]
    · intro id hOther
      simp [Change.apply, Std.ExtTreeMap.getElem?_erase,
        hOther.symm]

end EngineState.Mirrors

end Nesso
