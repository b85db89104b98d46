import Nesso.Library.PriorityList

/-
  Work queues with leases, in the abstract.

  The live tasks are listed in the order of what last happened
  to them.  A task is given to a consumer until a deadline; it
  ends when it is acknowledged or has failed too often.  After
  a restart a lease is in force when its deadline is still to
  come.

  Key definitions include:
    * `WorkQueue`
    * `WorkQueue.Call`
    * `WorkQueue.Reply`
    * `WorkQueue.serve`

  The rules for the lists are:
    * `WorkQueue.lookup_without_append`
    * `WorkQueue.free_without_append`
    * `WorkQueue.lane_free_without_of_top`

  Only pushes bring new payloads:
    * `WorkQueue.stems_of_mem_serve`
-/

------------------------------------------------------------
-- Tasks
------------------------------------------------------------

namespace Nesso

namespace WorkQueue

/- A lapsed lease ended while the queue was closed. -/
inductive Stage (Consumer Time : Type) where
| waiting
| held (consumer : Consumer) (deadline : Time)
| lapsed (consumer : Consumer) (deadline : Time)
deriving DecidableEq

structure Item
    (Id Priority Payload Consumer Time : Type) where
  id : Id
  priority : Priority
  payload : Payload
  failures : Nat
  stage : Stage Consumer Time

variable {Id Priority Payload Consumer Time : Type}

namespace Stage

/- The lease in force. -/
def lease? : Stage Consumer Time → Option (Consumer × Time)
| held consumer deadline => some (consumer, deadline)
| _ => none

/- The lease that was granted last, in force or not. -/
def grant? : Stage Consumer Time → Option (Consumer × Time)
| waiting => none
| held consumer deadline | lapsed consumer deadline =>
    some (consumer, deadline)

/- A restart judges every lease by its deadline. -/
def restart
    [LT Time] [DecidableLT Time]
    (now : Time) :
    Stage Consumer Time → Stage Consumer Time
| waiting => waiting
| held consumer deadline | lapsed consumer deadline =>
    if now < deadline then
      held consumer deadline
    else
      lapsed consumer deadline

theorem lease?_restart
    [LT Time] [DecidableLT Time]
    (now : Time)
    (stage : Stage Consumer Time) :
    (stage.restart now).lease? =
      stage.grant?.filter (fun lease => now < lease.2) := by
  cases stage with
  | waiting => rfl
  | held consumer deadline =>
      by_cases hLive : now < deadline <;>
        simp [restart, lease?, grant?, hLive, Option.filter]
  | lapsed consumer deadline =>
      by_cases hLive : now < deadline <;>
        simp [restart, lease?, grant?, hLive, Option.filter]

theorem grant?_restart
    [LT Time] [DecidableLT Time]
    (now : Time)
    (stage : Stage Consumer Time) :
    (stage.restart now).grant? = stage.grant? := by
  cases stage with
  | waiting => rfl
  | held consumer deadline =>
      by_cases hLive : now < deadline <;>
        simp [restart, grant?, hLive]
  | lapsed consumer deadline =>
      by_cases hLive : now < deadline <;>
        simp [restart, grant?, hLive]

end Stage

namespace Item

/- Nobody holds the task. -/
def isFree
    (item : Item Id Priority Payload Consumer Time) : Bool :=
  item.stage.lease?.isNone

def restart
    [LT Time] [DecidableLT Time]
    (now : Time)
    (item : Item Id Priority Payload Consumer Time) :
    Item Id Priority Payload Consumer Time :=
  { item with stage := item.stage.restart now }

/- The task without its payload and lease. -/
def card
    (item : Item Id Priority Payload Consumer Time) :
    Id × Priority × Nat :=
  (item.id, item.priority, item.failures)

/- What is left of a task after a failed delivery. -/
def failed
    (limit : Nat)
    (item : Item Id Priority Payload Consumer Time) :
    List (Item Id Priority Payload Consumer Time) :=
  if limit ≤ item.failures + 1 then
    []
  else
    [{ item with
       failures := item.failures + 1
       stage := .waiting }]

end Item

/- The tasks that can be given to a consumer. -/
def free
    (items : List (Item Id Priority Payload Consumer Time)) :
    List (Item Id Priority Payload Consumer Time) :=
  items.filter Item.isFree

variable [DecidableEq Id]

/- The live task with an id. -/
def lookup
    (items : List (Item Id Priority Payload Consumer Time))
    (id : Id) :
    Option (Item Id Priority Payload Consumer Time) :=
  items.find? (fun item => item.id = id)

/- The other tasks. -/
def without
    (items : List (Item Id Priority Payload Consumer Time))
    (id : Id) :
    List (Item Id Priority Payload Consumer Time) :=
  items.filter (fun item => item.id ≠ id)

end WorkQueue

end Nesso

------------------------------------------------------------
-- Queues
------------------------------------------------------------

namespace Nesso

structure WorkQueue
    (Id Priority Payload Consumer Time : Type) where
  items :
    List (WorkQueue.Item Id Priority Payload Consumer Time)
  nextId : Id

namespace WorkQueue

variable {Id Priority Payload Consumer Time : Type}

inductive Call
    (Id Priority Payload Consumer Time : Type) where
| push (payload : Payload) (priority : Priority)
| take (consumer : Consumer) (deadline : Time)
| ack (id : Id) (consumer : Consumer)
| nack (id : Id) (consumer : Consumer)
| expire (ids : List Id)
| status
| restart (now : Time)

inductive Reply (Id Priority Payload : Type) where
| pushed (id : Id)
| taken
    (task : Option ((Id × Priority × Nat) × Payload))
| done
| notHeld
| heldByAnother
| counts (free held : Nat)
deriving DecidableEq

/- The task that a reply delivers. -/
def Reply.delivery? :
    Reply Id Priority Payload →
      Option ((Id × Priority × Nat) × Payload)
| .taken task => task
| _ => none

def answered
    (out :
      Reply Id Priority Payload ×
        WorkQueue Id Priority Payload Consumer Time) :
    Option (Reply Id Priority Payload) ×
      WorkQueue Id Priority Payload Consumer Time :=
  (some out.1, out.2)

variable [DecidableEq Id] [DecidableEq Consumer]
variable [LinearOrder Priority]
variable [LT Time] [DecidableLT Time]

def push
    (queue : WorkQueue Id Priority Payload Consumer Time)
    (succ : Id → Id)
    (payload : Payload)
    (priority : Priority) :
    Reply Id Priority Payload ×
      WorkQueue Id Priority Payload Consumer Time :=
  (.pushed queue.nextId,
    { items :=
        queue.items ++
          [{ id := queue.nextId
             priority := priority
             payload := payload
             failures := 0
             stage := .waiting }]
      nextId := succ queue.nextId })

/- Give away the first free task of the greatest priority. -/
def take
    (queue : WorkQueue Id Priority Payload Consumer Time)
    (consumer : Consumer)
    (deadline : Time) :
    Reply Id Priority Payload ×
      WorkQueue Id Priority Payload Consumer Time :=
  match (PriorityList.pop Item.priority
      (free queue.items)).1 with
  | none => (.taken none, queue)
  | some item =>
      (.taken (some (item.card, item.payload)),
        { queue with
          items :=
            without queue.items item.id ++
              [{ item with
                 stage := .held consumer deadline }] })

/- The holder of a task gives it back. -/
def settle
    (queue : WorkQueue Id Priority Payload Consumer Time)
    (id : Id)
    (consumer : Consumer)
    (rest :
      Item Id Priority Payload Consumer Time →
        List (Item Id Priority Payload Consumer Time)) :
    Reply Id Priority Payload ×
      WorkQueue Id Priority Payload Consumer Time :=
  match lookup queue.items id with
  | none => (.notHeld, queue)
  | some item =>
      match item.stage.lease? with
      | none => (.notHeld, queue)
      | some (holder, _) =>
          if holder = consumer then
            (.done,
              { queue with
                items :=
                  without queue.items id ++ rest item })
          else
            (.heldByAnother, queue)

/- A lease that ran out counts as a failed delivery. -/
def expireOne
    (limit : Nat)
    (queue : WorkQueue Id Priority Payload Consumer Time)
    (id : Id) :
    WorkQueue Id Priority Payload Consumer Time :=
  match lookup queue.items id with
  | none => queue
  | some item =>
      if item.isFree then
        queue
      else
        { queue with
          items :=
            without queue.items id ++ item.failed limit }

/- Expiries and restarts are not answered. -/
def serve
    (succ : Id → Id)
    (limit : Nat)
    (queue : WorkQueue Id Priority Payload Consumer Time) :
    Call Id Priority Payload Consumer Time →
      Option (Reply Id Priority Payload) ×
        WorkQueue Id Priority Payload Consumer Time
| .push payload priority =>
    answered (queue.push succ payload priority)
| .take consumer deadline =>
    answered (queue.take consumer deadline)
| .ack id consumer =>
    answered (queue.settle id consumer (fun _ => []))
| .nack id consumer =>
    answered (queue.settle id consumer (Item.failed limit))
| .expire ids =>
    (none, ids.foldl (expireOne limit) queue)
| .status =>
    (some
      (.counts (free queue.items).length
        (queue.items.length - (free queue.items).length)),
      queue)
| .restart now =>
    (none,
      { queue with
        items := queue.items.map (Item.restart now) })

end WorkQueue

end Nesso

------------------------------------------------------------
-- Lists of Tasks
------------------------------------------------------------

namespace Nesso

namespace WorkQueue

variable {Id Priority Payload Consumer Time : Type}
variable {items : List (Item Id Priority Payload Consumer Time)}
variable {item other : Item Id Priority Payload Consumer Time}

theorem mem_free_iff :
    item ∈ free items ↔ item ∈ items ∧ item.isFree := by
  simp [free]

variable [DecidableEq Id]

theorem mem_without_iff
    {id : Id} :
    item ∈ without items id ↔
      item ∈ items ∧ item.id ≠ id := by
  simp [without]

theorem lookup_eq_some_iff
    (hNodup : (items.map Item.id).Nodup)
    {id : Id} :
    lookup items id = some item ↔
      item ∈ items ∧ item.id = id := by
  constructor
  · intro hLookup
    exact ⟨List.mem_of_find?_eq_some hLookup,
      by simpa using List.find?_some hLookup⟩
  · rintro ⟨hMem, hId⟩
    cases hLookup : lookup items id with
    | none =>
        have hNone := List.find?_eq_none.mp hLookup item hMem
        simp [hId] at hNone
    | some found =>
        have hFound := List.mem_of_find?_eq_some hLookup
        have hFoundId : found.id = id := by
          simpa using List.find?_some hLookup
        exact congrArg some
          (List.inj_on_of_nodup_map hNodup hFound hMem
            (hFoundId.trans hId.symm))

/- Ids stay distinct when a task moves or leaves. -/
theorem nodup_without_append
    (hNodup : (items.map Item.id).Nodup)
    {id : Id}
    {rest : List (Item Id Priority Payload Consumer Time)}
    (hIds : ∀ item ∈ rest, item.id = id)
    (hLength : rest.length ≤ 1) :
    ((without items id ++ rest).map Item.id).Nodup := by
  rw [List.map_append, List.nodup_append]
  refine ⟨?_, ?_, ?_⟩
  · exact hNodup.sublist (List.filter_sublist.map _)
  · rcases rest with _ | ⟨head, _ | ⟨second, tail⟩⟩
    · simp
    · simp
    · simp at hLength
  · intro left hLeft right hRight
    rcases List.mem_map.mp hLeft with ⟨item, hItem, rfl⟩
    rcases List.mem_map.mp hRight with ⟨moved, hMoved, rfl⟩
    rw [hIds moved hMoved]
    exact (mem_without_iff.mp hItem).2

/- Looking up a task after another one moved or left. -/
theorem lookup_without_append
    {id : Id}
    {rest : List (Item Id Priority Payload Consumer Time)}
    (hIds : ∀ item ∈ rest, item.id = id)
    (found : Id) :
    lookup (without items id ++ rest) found =
      if found = id then rest.head?
      else lookup items found := by
  rw [lookup, List.find?_append]
  by_cases hFound : found = id
  · rw [if_pos hFound]
    have hNone :
        (without items id).find?
          (fun item => item.id = found) = none := by
      rw [List.find?_eq_none]
      intro item hItem
      simpa [hFound] using (mem_without_iff.mp hItem).2
    rw [hNone, Option.none_or]
    cases rest with
    | nil => rfl
    | cons head tail =>
        rw [List.find?_cons_of_pos
          (by simp [hFound, hIds head])]
        rfl
  · rw [if_neg hFound]
    have hRest :
        rest.find? (fun item => item.id = found) = none := by
      rw [List.find?_eq_none]
      intro item hItem
      rw [hIds item hItem]
      simpa using Ne.symm hFound
    rw [hRest, Option.or_none, without, List.find?_filter,
      lookup]
    congr 1
    funext item
    by_cases hItem : item.id = found
    · simp [hItem, hFound]
    · simp [hItem]

/- The free tasks after a task moved or left. -/
theorem free_without_append
    (id : Id)
    (rest : List (Item Id Priority Payload Consumer Time)) :
    free (without items id ++ rest) =
      without (free items) id ++ free rest := by
  rw [free, without, List.filter_append,
    List.filter_filter, free, free, without,
    List.filter_filter]
  congr 1
  apply List.filter_congr
  intro item _
  exact Bool.and_comm _ _

/- A task that is not free is not missed by the free ones. -/
theorem without_free_of_held
    (hNodup : (items.map Item.id).Nodup)
    (hMem : item ∈ items)
    (hHeld : item.isFree = false) :
    without (free items) item.id = free items := by
  rw [without, List.filter_eq_self]
  intro other hOther
  rcases mem_free_iff.mp hOther with ⟨hOtherMem, hFree⟩
  rw [decide_eq_true_eq]
  intro hId
  have hSame :=
    List.inj_on_of_nodup_map hNodup hOtherMem hMem hId
  rw [hSame, hHeld] at hFree
  simp at hFree

variable [LinearOrder Priority]

/-
  When the first free task of a lane is taken, the rest of
  the lane and the other lanes are left.
-/
theorem lane_free_without_of_top
    (hNodup : (items.map Item.id).Nodup)
    {level : Priority}
    {rest : List (Item Id Priority Payload Consumer Time)}
    (hLane :
      PriorityList.lane Item.priority (free items) level =
        item :: rest)
    (other : Priority) :
    PriorityList.lane Item.priority
        (without (free items) item.id) other =
      if other = level then rest
      else
        PriorityList.lane Item.priority (free items)
          other := by
  have hItem :
      item ∈ free items ∧ item.priority = level :=
    PriorityList.mem_lane_iff.mp (by rw [hLane]; simp)
  have hFreeNodup : ((free items).map Item.id).Nodup :=
    hNodup.sublist (List.filter_sublist.map _)
  have hSwap :
      PriorityList.lane Item.priority
          (without (free items) item.id) other =
        (PriorityList.lane Item.priority (free items)
          other).filter (fun found => found.id ≠ item.id) := by
    rw [PriorityList.lane, without, PriorityList.lane,
      List.filter_filter, List.filter_filter]
    apply List.filter_congr
    intro found _
    exact Bool.and_comm _ _
  rw [hSwap]
  by_cases hOther : other = level
  · rw [if_pos hOther, hOther, hLane,
      List.filter_cons_of_neg (by simp),
      List.filter_eq_self]
    have hLaneNodup : ((item :: rest).map Item.id).Nodup := by
      rw [← hLane]
      exact hFreeNodup.sublist (List.filter_sublist.map _)
    rw [List.map_cons, List.nodup_cons] at hLaneNodup
    intro found hFound
    rw [decide_eq_true_eq]
    intro hId
    exact hLaneNodup.1
      (List.mem_map.mpr ⟨found, hFound, hId⟩)
  · rw [if_neg hOther, List.filter_eq_self]
    intro found hFound
    rcases PriorityList.mem_lane_iff.mp hFound with
      ⟨hMem, hPriority⟩
    rw [decide_eq_true_eq]
    intro hId
    have hSame :=
      List.inj_on_of_nodup_map hFreeNodup hMem hItem.1 hId
    rw [hSame, hItem.2] at hPriority
    exact hOther hPriority.symm

end WorkQueue

end Nesso

------------------------------------------------------------
-- Kept Payloads
------------------------------------------------------------

namespace Nesso

namespace WorkQueue

variable {Id Priority Payload Consumer Time : Type}

/- A task is an old one, perhaps at another stage. -/
def Item.Stems
    (item : Item Id Priority Payload Consumer Time)
    (items :
      List (Item Id Priority Payload Consumer Time)) :
    Prop :=
  ∃ old ∈ items, old.id = item.id ∧ old.payload = item.payload

variable {items : List (Item Id Priority Payload Consumer Time)}
variable {item : Item Id Priority Payload Consumer Time}

theorem Item.stems_of_mem
    (hItem : item ∈ items) :
    item.Stems items :=
  ⟨item, hItem, rfl, rfl⟩

theorem stems_of_mem_failed
    {limit : Nat}
    {old : Item Id Priority Payload Consumer Time}
    (hOld : old ∈ items)
    (hItem : item ∈ old.failed limit) :
    item.Stems items := by
  unfold Item.failed at hItem
  split at hItem
  · simp at hItem
  · rw [List.mem_singleton] at hItem
    rw [hItem]
    exact ⟨old, hOld, rfl, rfl⟩

variable [DecidableEq Id]

theorem mem_of_lookup
    {id : Id}
    (hLookup : lookup items id = some item) :
    item ∈ items :=
  List.mem_of_find?_eq_some hLookup

theorem stems_without_append
    {id : Id}
    {rest : List (Item Id Priority Payload Consumer Time)}
    (hRest : ∀ moved ∈ rest, moved.Stems items)
    (hItem : item ∈ without items id ++ rest) :
    item.Stems items := by
  rcases List.mem_append.mp hItem with hOld | hMoved
  · exact Item.stems_of_mem (mem_without_iff.mp hOld).1
  · exact hRest item hMoved

variable {queue : WorkQueue Id Priority Payload Consumer Time}

theorem stems_settle
    [DecidableEq Consumer]
    {id : Id}
    {consumer : Consumer}
    {rest :
      Item Id Priority Payload Consumer Time →
        List (Item Id Priority Payload Consumer Time)}
    (hRest :
      ∀ old ∈ queue.items, ∀ moved ∈ rest old,
        moved.Stems queue.items)
    (hItem :
      item ∈ (queue.settle id consumer rest).2.items) :
    item.Stems queue.items := by
  unfold settle at hItem
  split at hItem
  · exact Item.stems_of_mem hItem
  · next old hLookup =>
      split at hItem
      · exact Item.stems_of_mem hItem
      · split at hItem
        · exact stems_without_append
            (hRest old (mem_of_lookup hLookup)) hItem
        · exact Item.stems_of_mem hItem

theorem stems_expireOne
    {limit : Nat}
    {id : Id}
    (hItem :
      item ∈ (expireOne limit queue id).items) :
    item.Stems queue.items := by
  unfold expireOne at hItem
  split at hItem
  · exact Item.stems_of_mem hItem
  · next old hLookup =>
      split at hItem
      · exact Item.stems_of_mem hItem
      · refine stems_without_append ?_ hItem
        intro moved hMoved
        exact stems_of_mem_failed (mem_of_lookup hLookup)
          hMoved

theorem stems_foldl_expireOne
    {limit : Nat}
    {ids : List Id}
    (hItem :
      item ∈ (ids.foldl (expireOne limit) queue).items) :
    item.Stems queue.items := by
  induction ids generalizing queue with
  | nil => exact Item.stems_of_mem hItem
  | cons id ids ih =>
      rcases ih hItem with ⟨later, hLater, hId, hPayload⟩
      rcases stems_expireOne hLater with
        ⟨old, hOld, hOldId, hOldPayload⟩
      exact ⟨old, hOld, hOldId.trans hId,
        hOldPayload.trans hPayload⟩

variable [LinearOrder Priority]

theorem stems_take
    {consumer : Consumer}
    {deadline : Time}
    (hItem :
      item ∈ (queue.take consumer deadline).2.items) :
    item.Stems queue.items := by
  unfold take at hItem
  split at hItem
  · exact Item.stems_of_mem hItem
  · next old hPop =>
      refine stems_without_append ?_ hItem
      intro moved hMoved
      rw [List.mem_singleton.mp hMoved]
      have hFree : old ∈ free queue.items :=
        List.mem_of_find?_eq_some hPop
      exact ⟨old, (mem_free_iff.mp hFree).1, rfl, rfl⟩

variable [DecidableEq Consumer]
variable [LT Time] [DecidableLT Time]

/- Every call but a push keeps ids with their payloads. -/
theorem stems_of_mem_serve
    (succ : Id → Id)
    (limit : Nat)
    {call : Call Id Priority Payload Consumer Time}
    (hCall : ∀ payload priority, call ≠ .push payload priority)
    (hItem : item ∈ (serve succ limit queue call).2.items) :
    item.Stems queue.items := by
  cases call with
  | push payload priority =>
      exact (hCall payload priority rfl).elim
  | take consumer deadline => exact stems_take hItem
  | ack id consumer =>
      exact stems_settle (by simp) hItem
  | nack id consumer =>
      refine stems_settle ?_ hItem
      intro old hOld moved hMoved
      exact stems_of_mem_failed hOld hMoved
  | expire ids => exact stems_foldl_expireOne hItem
  | status => exact Item.stems_of_mem hItem
  | restart now =>
      rcases List.mem_map.mp hItem with ⟨old, hOld, rfl⟩
      exact ⟨old, hOld, rfl, rfl⟩

end WorkQueue

end Nesso
