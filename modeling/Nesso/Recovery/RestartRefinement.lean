import Nesso.Queue.EngineRefinement
import Nesso.Recovery.Fifo

/-
  Restarts refine the abstract work queue: a restart judges
  every lease by the clock and leaves the rest of the queue as
  it is.

  The log lists the tasks of a priority in the order of their
  latest records, which is the order of the abstract queue.
  Compaction keeps that order only for tasks whose ids are in
  order.

  Key definitions include:
    * `Replay.lane`
    * `TaskItem.Reflects`
    * `TaskQueue.Logs`
    * `Engine.Logged`
    * `EngineLife`

  The main theorems are:
    * `Engine.Logged.simulation`
    * `lifetimes_refine_taskQueue`
-/

------------------------------------------------------------
-- The Lanes of a Log
------------------------------------------------------------

namespace Nesso

open PriorityBucketQueue (bucketOf)

namespace Place

/- The lane of a live task. -/
def level? : Place → Option (Fin 256)
| ready task => some (bucketOf task.priority)
| leased lease => some (bucketOf lease.priority)
| terminal => none

/- A place at a given time: an expired lease is ready. -/
def atTime
    (now id : UInt64) : Place → Place
| leased lease =>
    if now < lease.expireTimestamp then
      leased lease
    else
      ready ⟨id, lease.priority, lease.retries⟩
| place => place

theorem level?_atTime
    (now id : UInt64)
    (place : Place) :
    (place.atTime now id).level? = place.level? := by
  cases place with
  | ready task => rfl
  | leased lease =>
      by_cases hLive : now < lease.expireTimestamp
      · simp [Place.atTime, hLive]
      · simp [Place.atTime, hLive, level?]
  | terminal => rfl

theorem level?_eq_none_iff
    {place : Place} :
    place.level? = none ↔ place = .terminal := by
  cases place <;> simp [level?]

end Place

theorem Record.placeAt_eq_atTime
    (now : UInt64)
    (record : Record) :
    record.placeAt now = record.place.atTime now record.id := by
  unfold Record.placeAt
  cases hPlace : record.place with
  | ready task => rfl
  | leased lease =>
      simp only [Place.atTime,
        Record.priority_of_place_eq_leased hPlace]
  | terminal => rfl

namespace Replay

/- The live tasks of a priority, in log order. -/
def lane
    (entries : List (Loc × Record))
    (level : Fin 256) : List (UInt64 × Place) :=
  ((KeyedLog.latests entryId entries).map (fun entry =>
    (entryId entry, entry.2.place))).filter
      (fun task => task.2.level? = some level)

theorem lane_append
    (entries later : List (Loc × Record))
    (level : Fin 256) :
    lane (entries ++ later) level =
      (lane entries level).filter (fun task =>
        (KeyedLog.latest entryId later task.1).isNone) ++
        lane later level := by
  simp only [lane, KeyedLog.latests_append,
    List.map_append, List.filter_append, List.filter_map,
    List.filter_filter]
  congr 2
  apply List.filter_congr
  intro entry _
  exact Bool.and_comm _ _

/- One more record moves its task behind the others. -/
theorem lane_append_singleton
    (entries : List (Loc × Record))
    (entry : Loc × Record)
    (level : Fin 256) :
    lane (entries ++ [entry]) level =
      (lane entries level).filter (fun task =>
        task.1 ≠ entryId entry) ++
        if entry.2.place.level? = some level then
          [(entryId entry, entry.2.place)]
        else [] := by
  rw [lane_append]
  congr 1
  · apply List.filter_congr
    intro task _
    by_cases hId : entryId entry = task.1
    · simp [KeyedLog.latest, KeyedLog.history_singleton,
        hId]
    · simp [KeyedLog.latest, KeyedLog.history_singleton,
        hId, Ne.symm hId]
  · by_cases hLevel : entry.2.place.level? = some level
    · simp [lane, KeyedLog.latests, hLevel]
    · simp [lane, KeyedLog.latests, hLevel]

/- A live task is placed by its latest record. -/
theorem mem_lane_iff
    {entries : List (Loc × Record)}
    {level : Fin 256}
    {id : UInt64}
    {place : Place} :
    (id, place) ∈ lane entries level ↔
      placeOf Record.place (entries.map Prod.snd) id =
          some place ∧
        place.level? = some level := by
  rw [← map_latest_entryId, Option.map_eq_some_iff]
  simp only [lane, List.mem_filter, List.mem_map,
    KeyedLog.mem_latests_iff, Prod.mk.injEq,
    decide_eq_true_eq]
  constructor
  · rintro ⟨⟨entry, hLatest, rfl, hPlace⟩, hLevel⟩
    exact ⟨⟨entry, hLatest, hPlace⟩, hLevel⟩
  · rintro ⟨⟨entry, hLatest, hPlace⟩, hLevel⟩
    rcases KeyedLog.latest_mem hLatest with ⟨_, rfl⟩
    exact ⟨⟨entry, hLatest, rfl, hPlace⟩, hLevel⟩

/- What a restart queues, from the lanes. -/
theorem ready_placeAt_filter
    (now : UInt64)
    (entries : List (Loc × Record))
    (priority : UInt8) :
    (ready (Record.placeAt now) entries).filter
        (fun task => task.priority = priority) =
      (lane entries (bucketOf priority)).filterMap
        (fun task => (task.2.atTime now task.1).task?) := by
  rw [ready, lane, List.filter_filterMap,
    List.filterMap_filter, List.filterMap_map]
  apply List.filterMap_congr
  intro entry _
  have hLevel :=
    Place.level?_atTime now entry.2.id entry.2.place
  simp only [Function.comp_apply, entryId, ← hLevel,
    Record.placeAt_eq_atTime]
  cases entry.2.place.atTime now entry.2.id with
  | ready task =>
      by_cases hPriority : task.priority = priority
      · simp [Place.task?, Place.level?, hPriority]
      · have hLane :
            bucketOf task.priority ≠ bucketOf priority := by
          intro hSame
          exact hPriority
            (ReadyQueue.bucketOf_injective hSame)
        simp [Place.task?, Place.level?, hPriority, hLane]
  | leased lease => simp [Place.task?]
  | terminal => simp [Place.task?]

theorem lane_ids_nodup
    (entries : List (Loc × Record))
    (level : Fin 256) :
    ((lane entries level).map Prod.fst).Nodup := by
  have hNodup :
      ((KeyedLog.latests entryId entries).map
        entryId).Nodup :=
    KeyedLog.latests_keys_nodup entries
  have hMap :
      (KeyedLog.latests entryId entries).map entryId =
        ((KeyedLog.latests entryId entries).map
          (fun entry =>
            (entryId entry, entry.2.place))).map
              Prod.fst := by
    simp
  rw [hMap] at hNodup
  exact hNodup.sublist (List.filter_sublist.map _)

end Replay

end Nesso

------------------------------------------------------------
-- Logged Queues
------------------------------------------------------------

namespace Nesso

open PriorityBucketQueue (bucketOf)

/- A task is where its latest record has put it. -/
def TaskItem.Reflects
    (item : TaskItem)
    (task : UInt64 × Place) : Prop :=
  item.id = task.1 ∧
    match item.stage.grant? with
    | none =>
        ∃ found,
          task.2 = .ready found ∧ found.card = item.card
    | some grant =>
        ∃ lease,
          task.2 = .leased lease ∧
            lease.card =
              (grant, item.priority, item.failures)

/- The tasks of the queue are the live tasks of the log. -/
def TaskQueue.Logs
    (queue : TaskQueue)
    (entries : List (Loc × Record)) : Prop :=
  ∀ level,
    List.Forall₂ TaskItem.Reflects
      (PriorityList.lane WorkQueue.Item.priority queue.items
        level)
      (Replay.lane entries level)

theorem exists_related_of_mem
    {α β : Type}
    {R : α → β → Prop}
    {left : List α}
    {right : List β}
    (hRelated : List.Forall₂ R left right)
    {a : α}
    (hMem : a ∈ left) :
    ∃ b ∈ right, R a b := by
  induction hRelated with
  | nil => simp at hMem
  | cons hHead _ ih =>
      rcases List.mem_cons.mp hMem with rfl | hMem
      · exact ⟨_, by simp, hHead⟩
      · rcases ih hMem with ⟨b, hRight, hTail⟩
        exact ⟨b, List.mem_cons_of_mem _ hRight, hTail⟩

namespace TaskItem.Reflects

variable {item : TaskItem} {task : UInt64 × Place}

theorem level?_eq
    (hReflects : item.Reflects task) :
    task.2.level? = some item.priority := by
  rcases hReflects with ⟨_, hPlace⟩
  split at hPlace
  · rcases hPlace with ⟨found, hFound, hCard⟩
    rw [hFound]
    exact congrArg (fun card => some card.2.1) hCard
  · rcases hPlace with ⟨lease, hFound, hCard⟩
    rw [hFound]
    exact congrArg (fun card => some card.2.1) hCard

/- A restart judges a task as recovery does. -/
theorem atTime_cases
    (hReflects : item.Reflects task)
    (now : UInt64) :
    (∃ found,
      task.2.atTime now task.1 = .ready found ∧
        found.card = (item.restart now).card ∧
        (item.restart now).stage.lease? = none) ∨
      ∃ lease,
        task.2.atTime now task.1 = .leased lease ∧
          TaskItem.leaseCard (item.restart now) =
            some lease.card := by
  rcases task with ⟨id, place⟩
  rcases hReflects with ⟨rfl, hPlace⟩
  have hRestart :=
    WorkQueue.Stage.lease?_restart now item.stage
  split at hPlace
  · next hGrant =>
      rcases hPlace with ⟨found, rfl, hCard⟩
      rw [hGrant] at hRestart
      exact .inl ⟨found, rfl, hCard, hRestart⟩
  · next grant hGrant =>
      rcases hPlace with ⟨lease, rfl, hCard⟩
      rcases grant with ⟨consumer, deadline⟩
      have hFields := hCard
      simp only [LeaseInfo.card, Prod.mk.injEq] at hFields
      rcases hFields with ⟨⟨_, rfl⟩, hPriority, hRetries⟩
      rw [hGrant] at hRestart
      by_cases hLive : now < lease.expireTimestamp
      · right
        refine ⟨lease, by simp [Place.atTime, hLive], ?_⟩
        rw [TaskItem.leaseCard, WorkQueue.Item.restart,
          hRestart]
        simp [Option.filter, hLive, hCard]
      · left
        refine ⟨⟨item.id, lease.priority, lease.retries⟩,
          by simp [Place.atTime, hLive], ?_, ?_⟩
        · simp only [TaskRef.card, WorkQueue.Item.card,
            WorkQueue.Item.restart, hPriority, hRetries]
        · rw [WorkQueue.Item.restart, hRestart]
          simp [Option.filter, hLive]

/- A restart frees a task when its lease has run out. -/
theorem task?_atTime
    (hReflects : item.Reflects task)
    (now : UInt64) :
    (task.2.atTime now task.1).task?.map TaskRef.card =
      if (item.restart now).isFree then
        some (item.restart now).card
      else none := by
  rcases hReflects.atTime_cases now with
    ⟨found, hAt, hCard, hFree⟩ | ⟨lease, hAt, hHeld⟩
  · rw [hAt, WorkQueue.Item.isFree, hFree]
    simp [Place.task?, hCard]
  · have hSome : (item.restart now).stage.lease? ≠ none := by
      intro hNone
      rw [TaskItem.leaseCard, hNone] at hHeld
      simp at hHeld
    rw [hAt, WorkQueue.Item.isFree]
    simp [Place.task?, hSome]

/- A restart keeps the leases that are still in force. -/
theorem lease?_atTime
    (hReflects : item.Reflects task)
    (now : UInt64) :
    (task.2.atTime now task.1).lease?.map LeaseInfo.card =
      TaskItem.leaseCard (item.restart now) := by
  rcases hReflects.atTime_cases now with
    ⟨found, hAt, _, hFree⟩ | ⟨lease, hAt, hHeld⟩
  · rw [hAt, TaskItem.leaseCard, hFree]
    rfl
  · rw [hAt, hHeld]
    rfl

theorem restart
    (hReflects : item.Reflects task)
    (now : UInt64) :
    TaskItem.Reflects (item.restart now) task := by
  refine ⟨hReflects.1, ?_⟩
  rw [WorkQueue.Item.restart,
    WorkQueue.Stage.grant?_restart]
  exact hReflects.2

end TaskItem.Reflects

namespace TaskQueue.Logs

variable {queue : TaskQueue}
variable {entries : List (Loc × Record)}

theorem lane_without
    (hLogs : queue.Logs entries)
    (id : UInt64)
    (level : Fin 256) :
    List.Forall₂ TaskItem.Reflects
      (PriorityList.lane WorkQueue.Item.priority
        (WorkQueue.without queue.items id) level)
      ((Replay.lane entries level).filter (fun task =>
        task.1 ≠ id)) := by
  have hSwap :
      PriorityList.lane WorkQueue.Item.priority
          (WorkQueue.without queue.items id) level =
        (PriorityList.lane WorkQueue.Item.priority
          queue.items level).filter
            (fun item => item.id ≠ id) := by
    rw [PriorityList.lane, WorkQueue.without,
      PriorityList.lane, List.filter_filter,
      List.filter_filter]
    apply List.filter_congr
    intro item _
    exact Bool.and_comm _ _
  rw [hSwap]
  apply List.rel_filter _ (hLogs level)
  intro item task hReflects
  simp [hReflects.1]

/- A record that puts its task last. -/
theorem append_live
    (hLogs : queue.Logs entries)
    {item : TaskItem}
    {id : UInt64}
    (hItem : item.id = id)
    (loc : Loc)
    {record : Record}
    (hReflects : item.Reflects (record.id, record.place))
    {nextId : UInt64} :
    Logs
      { items :=
          WorkQueue.without queue.items id ++ [item]
        nextId := nextId }
      (entries ++ [(loc, record)]) := by
  intro level
  rw [← hItem]
  have hId : item.id = record.id := hReflects.1
  have hLane :
      PriorityList.lane WorkQueue.Item.priority
          (WorkQueue.without queue.items item.id ++ [item])
          level = _ :=
    PriorityList.lane_push
      (WorkQueue.without queue.items item.id) item level
  have hOthers := hLogs.lane_without item.id level
  rw [hLane, Replay.lane_append_singleton]
  simp only [entryId, ← hId, hReflects.level?_eq,
    Option.some.injEq]
  by_cases hLevel : item.priority = level
  · rw [if_pos hLevel, if_pos hLevel]
    apply List.rel_append hOthers
    rw [hId]
    exact .cons hReflects .nil
  · rw [if_neg hLevel, if_neg hLevel, List.append_nil]
    exact hOthers

/- A record that ends its task. -/
theorem append_terminal
    (hLogs : queue.Logs entries)
    {record : Record}
    {id : UInt64}
    (hId : record.id = id)
    (loc : Loc)
    (hTerminal : record.place = .terminal)
    {nextId : UInt64} :
    Logs
      { items := WorkQueue.without queue.items id ++ []
        nextId := nextId }
      (entries ++ [(loc, record)]) := by
  intro level
  rw [← hId]
  rw [Replay.lane_append_singleton]
  simp only [hTerminal, Place.level?, reduceCtorEq,
    if_false, List.append_nil]
  exact hLogs.lane_without record.id level

theorem restart
    (hLogs : queue.Logs entries)
    (now : UInt64) :
    (queue.serve (.restart now)).2.Logs entries := by
  intro level
  have hLane :
      PriorityList.lane WorkQueue.Item.priority
          (queue.items.map (WorkQueue.Item.restart now))
          level =
        (PriorityList.lane WorkQueue.Item.priority
          queue.items level).map
            (WorkQueue.Item.restart now) := by
    rw [PriorityList.lane, List.filter_map]
    rfl
  change List.Forall₂ _
    (PriorityList.lane WorkQueue.Item.priority
      (queue.items.map (WorkQueue.Item.restart now))
      level) _
  rw [hLane, List.forall₂_map_left_iff]
  refine List.Forall₂.imp ?_ (hLogs level)
  intro item task hReflects
  exact hReflects.restart now

/- Every task has its latest record in the log. -/
theorem exists_place
    (hLogs : queue.Logs entries)
    {item : TaskItem}
    (hItem : item ∈ queue.items) :
    ∃ place,
      Replay.placeOf Record.place (entries.map Prod.snd)
          item.id = some place ∧
        item.Reflects (item.id, place) := by
  have hLane :
      item ∈ PriorityList.lane WorkQueue.Item.priority
        queue.items item.priority :=
    PriorityList.mem_lane_iff.mpr ⟨hItem, rfl⟩
  rcases exists_related_of_mem (hLogs item.priority) hLane
    with ⟨⟨id, place⟩, hTask, hReflects⟩
  have hId : item.id = id := hReflects.1
  subst hId
  exact ⟨place, (Replay.mem_lane_iff.mp hTask).1, hReflects⟩

/- Every live task of the log is in the queue. -/
theorem exists_item
    (hLogs : queue.Logs entries)
    {id : UInt64}
    {place : Place}
    (hPlace :
      Replay.placeOf Record.place (entries.map Prod.snd)
        id = some place)
    (hLive : place ≠ .terminal) :
    ∃ item ∈ queue.items, item.id = id := by
  cases hLevel : place.level? with
  | none =>
      exact (hLive (Place.level?_eq_none_iff.mp hLevel)).elim
  | some level =>
      have hTask :=
        Replay.mem_lane_iff.mpr ⟨hPlace, hLevel⟩
      rcases exists_related_of_mem (hLogs level).flip hTask
        with ⟨item, hItem, hReflects⟩
      exact ⟨item, (PriorityList.mem_lane_iff.mp hItem).1,
        hReflects.1⟩

/- The tasks that recovery queues are the free ones. -/
theorem map_card_ready
    (hLogs : queue.Logs entries)
    (now : UInt64)
    (priority : UInt8) :
    ((Replay.ready (Record.placeAt now) entries).filter
        (fun task => task.priority = priority)).map
        TaskRef.card =
      (PriorityList.lane WorkQueue.Item.priority
        (WorkQueue.free
          (queue.serve (.restart now)).2.items)
        (bucketOf priority)).map WorkQueue.Item.card := by
  have hLane :
      PriorityList.lane WorkQueue.Item.priority
          (WorkQueue.free
            (queue.items.map (WorkQueue.Item.restart now)))
          (bucketOf priority) =
        WorkQueue.free
          ((PriorityList.lane WorkQueue.Item.priority
            queue.items (bucketOf priority)).map
              (WorkQueue.Item.restart now)) := by
    rw [PriorityList.lane, WorkQueue.free, WorkQueue.free,
      List.filter_filter, List.filter_map,
      PriorityList.lane, List.filter_map, List.filter_filter]
    congr 1
    apply List.filter_congr
    intro item _
    exact Bool.and_comm _ _
  change _ =
    (PriorityList.lane WorkQueue.Item.priority
      (WorkQueue.free
        (queue.items.map (WorkQueue.Item.restart now)))
      (bucketOf priority)).map WorkQueue.Item.card
  rw [Replay.ready_placeAt_filter, hLane]
  have hRelated := hLogs (bucketOf priority)
  generalize PriorityList.lane WorkQueue.Item.priority
    queue.items (bucketOf priority) = items at hRelated ⊢
  generalize Replay.lane entries (bucketOf priority) =
    tasks at hRelated ⊢
  induction hRelated with
  | nil => rfl
  | @cons item task items tasks hReflects _ ih =>
      have hTask := hReflects.task?_atTime now
      rw [List.filterMap_cons, List.map_cons]
      by_cases hFree : (item.restart now).isFree = true
      · rw [if_pos hFree] at hTask
        rcases Option.map_eq_some_iff.mp hTask with
          ⟨found, hFound, hCard⟩
        rw [hFound, WorkQueue.free,
          List.filter_cons_of_pos hFree, List.map_cons,
          List.map_cons, hCard, ih]
        rfl
      · rw [if_neg hFree, Option.map_eq_none_iff] at hTask
        rw [hTask, WorkQueue.free,
          List.filter_cons_of_neg hFree, ih]
        rfl

theorem lookup_restart
    (items : List TaskItem)
    (now id : UInt64) :
    WorkQueue.lookup
        (items.map (WorkQueue.Item.restart now)) id =
      (WorkQueue.lookup items id).map
        (WorkQueue.Item.restart now) := by
  rw [WorkQueue.lookup, List.find?_map]
  rfl

/- The leases that recovery restores are in force. -/
theorem map_card_lease
    (hLogs : queue.Logs entries)
    (now id : UInt64) :
    (Replay.lease (Record.placeAt now) entries id).map
        LeaseInfo.card =
      (WorkQueue.lookup
        (queue.serve (.restart now)).2.items id).bind
          TaskItem.leaseCard := by
  have hLease :
      Replay.lease (Record.placeAt now) entries id =
        (Replay.placeOf Record.place
          (entries.map Prod.snd) id).bind
            (fun place => (place.atTime now id).lease?) := by
    rw [← Replay.map_latest_entryId, Replay.lease]
    cases hLatest : KeyedLog.latest entryId entries id with
    | none => rfl
    | some entry =>
        rcases KeyedLog.latest_mem hLatest with ⟨_, rfl⟩
        simp [Record.placeAt_eq_atTime, entryId]
  rw [hLease]
  change _ =
    (WorkQueue.lookup
      (queue.items.map (WorkQueue.Item.restart now))
        id).bind TaskItem.leaseCard
  rw [lookup_restart]
  cases hLookup : WorkQueue.lookup queue.items id with
  | none =>
      cases hPlace :
        Replay.placeOf Record.place (entries.map Prod.snd)
          id with
      | none => rfl
      | some place =>
          by_cases hTerminal : place = .terminal
          · rw [hTerminal]
            rfl
          · rcases hLogs.exists_item hPlace hTerminal with
              ⟨item, hItem, hId⟩
            have hNone :=
              List.find?_eq_none.mp hLookup item hItem
            simp [hId] at hNone
  | some item =>
      have hItem := List.mem_of_find?_eq_some hLookup
      have hId : item.id = id := by
        simpa using List.find?_some hLookup
      subst hId
      rcases hLogs.exists_place hItem with
        ⟨place, hPlace, hReflects⟩
      rw [hPlace]
      exact hReflects.lease?_atTime now

end TaskQueue.Logs

end Nesso

------------------------------------------------------------
-- Logged Engines
------------------------------------------------------------

namespace Nesso

open PriorityBucketQueue (bucketOf)

namespace Engine

variable [Hasher]

/-
  Besides realizing the queue, the engine has its tasks on
  disk in the order of the queue.
-/
structure Logged
    (engine : Engine)
    (queue : TaskQueue) : Prop where
  implemented : engine.Implements queue
  logs : queue.Logs (Wal.entries engine.disk)
  long :
    ∀ entry ∈ Wal.entries engine.disk,
      entry.2.opType = .leased →
        13 ≤ entry.2.payload.length

/- The live tasks that a compaction would rewrite. -/
def closedTasks (engine : Engine) : List (Loc × Record) :=
  (KeyedLog.latests entryId
    (Wal.entries engine.disk)).filter (fun entry =>
      (ofLex entry.1).1 <
          engine.inner.wal.activeSegmentId ∧
        entry.2.opType.isTerminal = false)

/- Those of one priority are in the order of their ids. -/
def ClosedInOrder (engine : Engine) : Prop :=
  engine.closedTasks.Pairwise (fun left right =>
    left.2.priority = right.2.priority →
      entryId left < entryId right)

/- The log still knows the greatest id that was given out. -/
def IdsKnown (engine : Engine) : Prop :=
  Replay.nextId (Wal.entries engine.disk) =
    engine.inner.nextId

theorem entries_perform
    {engine : Engine}
    {log : SegmentedLog}
    {payloads : UInt64 → Option Bytes}
    (hKeeps : engine.Keeps log payloads)
    {change : Change}
    (hFits : (change.record engine.inner).Fits) :
    Wal.entries (engine.perform change).disk =
      Wal.entries engine.disk ++
        [(engine.inner.wal.nextLoc,
          change.record engine.inner)] := by
  have hTracks := hKeeps.serves.tracks
  have hNext := (tracks_perform hTracks hFits).1
  rw [hNext.segmentsOn.entries_eq,
    hTracks.segmentsOn.entries_eq]
  exact hTracks.entries_append _

namespace Logged

variable {engine next : Engine} {queue : TaskQueue}

/- One more record, and the queue that it describes. -/
theorem perform
    (hLogged : engine.Logged queue)
    {change : Change}
    (hFits : (change.record engine.inner).Fits)
    (hLong :
      (change.record engine.inner).opType = .leased →
        13 ≤ (change.record engine.inner).payload.length)
    (hDisk : next.disk = (engine.perform change).disk)
    {after : TaskQueue}
    (hImplements : next.Implements after)
    (hLogs :
      after.Logs
        (Wal.entries engine.disk ++
          [(engine.inner.wal.nextLoc,
            change.record engine.inner)])) :
    next.Logged after := by
  rcases hLogged.implemented with
    ⟨log, payloads, hRealizes⟩
  have hEntries := entries_perform hRealizes.keeps hFits
  rw [← hDisk] at hEntries
  refine ⟨hImplements, ?_, ?_⟩
  · rw [hEntries]
    exact hLogs
  · rw [hEntries]
    intro entry hEntry
    rcases List.mem_append.mp hEntry with hEntry | hEntry
    · exact hLogged.long entry hEntry
    · rw [List.mem_singleton.mp hEntry]
      exact hLong

/- Only the caches and handles of the engine differ. -/
theorem of_disk_eq
    (hLogged : engine.Logged queue)
    (hImplements : next.Implements queue)
    (hDisk : next.disk = engine.disk) :
    next.Logged queue := by
  refine ⟨hImplements, ?_, ?_⟩
  · rw [hDisk]
    exact hLogged.logs
  · rw [hDisk]
    exact hLogged.long

theorem push
    (hLogged : engine.Logged queue)
    (hLeft : engine.inner.IdsLeft)
    {payload : Bytes}
    (hShort : payload.length ≤ maxUserPayloadSize)
    (priority : UInt8) :
    (engine.push none payload priority).2.Logged
      (queue.serve
        (.push payload (bucketOf priority))).2 := by
  rcases hLogged.implemented with
    ⟨log, payloads, hRealizes⟩
  have hMirrors := hRealizes.mirrors
  have hImplements :=
    (hRealizes.push hLeft hShort priority).2
  rw [push_none] at hImplements ⊢
  have hFits :
      ((Change.add priority payload).record
        engine.inner).Fits := by
    apply Change.record_fits
    intro other found hChange
    rw [Change.add.injEq] at hChange
    rw [← hChange.2]
    exact le_trans hShort (Nat.sub_le _ _)
  apply hLogged.perform hFits (by simp [Change.record]) rfl
    hImplements
  have hOthers :
      WorkQueue.without queue.items queue.nextId =
        queue.items := by
    rw [WorkQueue.without, List.filter_eq_self]
    intro item hItem
    have hLt := hMirrors.ids_lt item hItem
    rw [← hMirrors.nextId_eq] at hLt
    simpa using UInt64.ne_of_lt hLt
  have hReflects :
      TaskItem.Reflects
        { id := queue.nextId
          priority := bucketOf priority
          payload := payload
          failures := 0
          stage := .waiting }
        (engine.inner.nextId,
          .ready ⟨engine.inner.nextId, priority, 0⟩) := by
    refine ⟨hMirrors.nextId_eq, _, rfl, ?_⟩
    simp [TaskRef.card, WorkQueue.Item.card,
      hMirrors.nextId_eq]
  change TaskQueue.Logs
    { items := queue.items ++ [_]
      nextId := queue.nextId + 1 } _
  rw [← hOthers]
  refine hLogged.logs.append_live ?_ _ ?_
  · rfl
  · exact hReflects

/- A lease that is granted is logged with its task. -/
theorem popAndLease
    (hLogged : engine.Logged queue)
    (consumerId : UInt32)
    (now leaseTtlSecs : UInt64) :
    (engine.popAndLease none consumerId now
      leaseTtlSecs).2.Logged
        (queue.serve (.take consumerId
          (now + leaseTtlSecs))).2 := by
  rcases hLogged.implemented with
    ⟨log, payloads, hRealizes⟩
  have hMirrors := hRealizes.mirrors
  have hImplements :=
    (hRealizes.popAndLease consumerId now leaseTtlSecs).2
  cases hPop : engine.inner.readyQueue.pop with
  | none =>
      have hServe :
          (queue.serve
            (.take consumerId (now + leaseTtlSecs))).2 =
            queue := by
        simp only [TaskQueue.serve, WorkQueue.serve,
          WorkQueue.answered, WorkQueue.take,
          hMirrors.free_eq_nil hPop]
        rfl
      have hEngine :
          (engine.popAndLease none consumerId now
            leaseTtlSecs).2 = engine := by
        simp [Engine.popAndLease, popLocked_none, hPop]
      rw [hServe, hEngine]
      exact hLogged
  | some popped =>
      rcases popped with ⟨task, rest⟩
      have hTask : task ∈ engine.inner.readyQueue.tasks :=
        (ReadyQueue.tasks_pop_perm hPop).mem_iff.mpr
          (by simp)
      have hData :=
        hRealizes.keeps.placed.ready_data task hTask
      rcases Option.isSome_iff_exists.mp
        (Std.ExtTreeMap.isSome_getElem?_iff_mem.mpr hData)
        with ⟨dataLoc, hLoc⟩
      have hGranted :=
        alike_popAndLease hPop hLoc consumerId now
          leaseTtlSecs
      rcases hMirrors.grant hPop consumerId
        (now + leaseTtlSecs) engine.inner.wal.nextLoc with
        ⟨item, hItem, hCard, hServe, hNext⟩
      rw [hServe] at hImplements ⊢
      have hDue :
          (Change.grant task rest consumerId
            (now + leaseTtlSecs)).Due engine.inner :=
        hPop
      apply hLogged.perform hDue.fits
        (by simp [Change.record, length_leasePayload])
        hGranted.disk_eq hImplements
      have hReflects :
          TaskItem.Reflects
            { item with
              stage :=
                .held consumerId (now + leaseTtlSecs) }
            (task.id,
              .leased
                ⟨consumerId, now + leaseTtlSecs,
                  task.retries, task.priority⟩) := by
        simp only [TaskRef.card, WorkQueue.Item.card,
          Prod.mk.injEq] at hCard
        refine ⟨hCard.1, _, rfl, ?_⟩
        rw [LeaseInfo.card, hCard.2.1, hCard.2.2]
      rw [← Change.place_record_grant engine.inner task rest]
        at hReflects
      refine hLogged.logs.append_live ?_ _ ?_
      · rfl
      · exact hReflects

theorem ack
    (hLogged : engine.Logged queue)
    (id : UInt64)
    (consumerId : UInt32) :
    (engine.ack none id consumerId).2.Logged
      (queue.serve (.ack id consumerId)).2 := by
  rcases hLogged.implemented with
    ⟨log, payloads, hRealizes⟩
  have hImplements := (hRealizes.ack id consumerId).2
  rw [TaskQueue.serve, WorkQueue.serve, WorkQueue.answered,
    hRealizes.mirrors.settle_eq] at hImplements ⊢
  rw [ack_none] at hImplements ⊢
  cases hLease : engine.inner.leased[id]? with
  | none => exact hLogged
  | some lease =>
      simp only [hLease] at hImplements
      by_cases hConsumer : lease.consumerId = consumerId
      · simp only [hConsumer, if_true] at hImplements ⊢
        rcases hRealizes.mirrors.serve_settle hLease
          (fun _ => []) with
          ⟨item, hItem, rfl, _, _, _, _, hSettle⟩
        rw [← hConsumer, hSettle] at hImplements ⊢
        have hDue :
            (Change.finish item.id lease.priority none).Due
              engine.inner :=
          ⟨lease, hLease, rfl⟩
        apply hLogged.perform hDue.fits
          (by simp [Change.record]) rfl hImplements
        refine hLogged.logs.append_terminal ?_ _ ?_
        · rfl
        · rfl
      · simp only [hConsumer, if_false]
        exact hLogged

/- A failed delivery, by a nack or by the worker. -/
theorem failure
    (hLogged : engine.Logged queue)
    {id : UInt64}
    {lease : LeaseInfo}
    (hLease : engine.inner.leased[id]? = some lease)
    {failureType : OpType}
    (hType :
      failureType = .nacked ∨ failureType = .expired) :
    ∃ item ∈ queue.items,
      item.isFree = false ∧
        WorkQueue.lookup queue.items id = some item ∧
        queue.settle id lease.consumerId
            (WorkQueue.Item.failed maxRetries.toNat) =
          (.done,
            { queue with
              items :=
                WorkQueue.without queue.items id ++
                  item.failed maxRetries.toNat }) ∧
        (engine.perform
          (.failure id lease.priority lease.retries
            failureType)).Logged
          { queue with
            items :=
              WorkQueue.without queue.items id ++
                item.failed maxRetries.toNat } := by
  rcases hLogged.implemented with
    ⟨log, payloads, hRealizes⟩
  have hMirrors := hRealizes.mirrors
  rcases hRealizes.failure hLease hType with
    ⟨item, hItem, rfl, hHeld, hLookup, hSettle,
      hImplements⟩
  refine ⟨item, hItem, hHeld, hLookup, hSettle, ?_⟩
  have hDue := Change.due_failure hLease hType
  have hLong :
      ((Change.failure item.id lease.priority lease.retries
        failureType).record engine.inner).opType ≠
          .leased := by
    unfold Change.failure
    rcases hType with rfl | rfl <;>
      split <;> simp [Change.record]
  apply hLogged.perform hDue.fits
    (fun hOp => (hLong hOp).elim) rfl hImplements
  rcases hMirrors.exists_item_of_lease hLease with
    ⟨found, hFound, _, _, _, _, hPriority, hRetries⟩
  rw [hLookup, Option.some.injEq] at hFound
  subst hFound
  rcases hMirrors.failures_succ hItem hRetries with
    ⟨hNat, hDead⟩
  unfold Change.failure WorkQueue.Item.failed
  by_cases hLimit : maxRetries ≤ lease.retries + 1
  · rw [if_pos hLimit, if_pos (hDead.mp hLimit)]
    refine hLogged.logs.append_terminal ?_ _ ?_
    · rfl
    · rfl
  · rw [if_neg hLimit,
      if_neg (fun hLe => hLimit (hDead.mpr hLe))]
    have hReflects :
        TaskItem.Reflects
          { item with
            failures := item.failures + 1
            stage := .waiting }
          (item.id,
            .ready
              ⟨item.id, lease.priority,
                lease.retries + 1⟩) := by
      refine ⟨rfl, _, rfl, ?_⟩
      simp only [TaskRef.card, WorkQueue.Item.card,
        hPriority, hNat]
    refine hLogged.logs.append_live ?_ _ ?_
    · rfl
    · rcases hType with rfl | rfl <;> exact hReflects

theorem nack
    (hLogged : engine.Logged queue)
    (id : UInt64)
    (consumerId : UInt32) :
    (engine.nack none id consumerId).2.Logged
      (queue.serve (.nack id consumerId)).2 := by
  rcases hLogged.implemented with
    ⟨log, payloads, hRealizes⟩
  rw [TaskQueue.serve, WorkQueue.serve, WorkQueue.answered,
    hRealizes.mirrors.settle_eq, nack_none]
  cases hLease : engine.inner.leased[id]? with
  | none => exact hLogged
  | some lease =>
      by_cases hConsumer : lease.consumerId = consumerId
      · rcases hLogged.failure hLease (.inl rfl) with
          ⟨item, _, _, _, hSettle, hNext⟩
        simp only [hConsumer, if_true]
        rw [← hConsumer, hSettle]
        exact hNext
      · simp only [hConsumer, if_false]
        exact hLogged

/- A pass of the worker over leases that are in force. -/
theorem expireAll
    (hLogged : engine.Logged queue)
    {tasks : List ExpiredTask}
    (hNodup : (tasks.map ExpiredTask.id).Nodup)
    (hHeld :
      ∀ task ∈ tasks,
        ∃ lease,
          engine.inner.leased[task.id]? = some lease ∧
            task =
              ⟨task.id, lease.priority, lease.retries⟩) :
    (engine.expireAll tasks).Logged
      ((tasks.map ExpiredTask.id).foldl
        (WorkQueue.expireOne maxRetries.toNat) queue) := by
  refine expireAll_related (R := Logged) ?_ hLogged hNodup
    hHeld
  intro state abstract id lease hState hLease
  rcases hState.failure hLease (.inr rfl) with
    ⟨item, _, hItemHeld, hLookup, _, hNext⟩
  exact ⟨item, hItemHeld, hLookup, hNext⟩

end Logged

end Engine

end Nesso

------------------------------------------------------------
-- Compactions
------------------------------------------------------------

namespace Nesso

open PriorityBucketQueue (bucketOf)

namespace Replay

/-
  Sorted records may replace older ones that leave every live
  task in the same place, if the tasks were sorted before.
-/
theorem lane_of_replaced
    {old small later : List (Loc × Record)}
    (hPlaces :
      ∀ id,
        placeOf Record.place (small.map Prod.snd) id =
          (placeOf Record.place (old.map Prod.snd)
            id).filter (fun place => place ≠ .terminal))
    (hSorted :
      small.Pairwise (fun left right =>
        entryId left < entryId right))
    {level : Fin 256}
    (hOrder :
      ((lane old level).filter (fun task =>
        (KeyedLog.latest entryId later
          task.1).isNone)).Pairwise
            (fun left right => left.1 < right.1)) :
    lane (small ++ later) level =
      lane (old ++ later) level := by
  rw [lane_append, lane_append]
  congr 1
  have hNew :
      ((lane small level).filter (fun task =>
        (KeyedLog.latest entryId later
          task.1).isNone)).Pairwise
            (fun left right => left.1 < right.1) := by
    have hLatests :
        (KeyedLog.latests entryId small).Pairwise
          (fun left right =>
            entryId left < entryId right) :=
      hSorted.sublist (KeyedLog.latests_sublist small)
    apply List.Pairwise.filter
    apply List.Pairwise.filter
    rw [List.pairwise_map]
    exact hLatests
  have hNodup :
      ∀ entries,
        ((lane entries level).filter (fun task =>
          (KeyedLog.latest entryId later
            task.1).isNone)).Nodup := by
    intro entries
    exact (lane_ids_nodup entries level).of_map.filter _
  refine List.Perm.eq_of_pairwise ?_ hNew hOrder ?_
  · intro left right _ _ hLt hGt
    exact (UInt64.lt_irrefl _
      (UInt64.lt_trans hLt hGt)).elim
  · rw [List.perm_ext_iff_of_nodup (hNodup small)
      (hNodup old)]
    rintro ⟨id, place⟩
    rw [List.mem_filter, List.mem_filter, mem_lane_iff,
      mem_lane_iff, hPlaces, Option.filter_eq_some_iff]
    have hLive :
        place.level? = some level → place ≠ .terminal := by
      rintro hLevel rfl
      simp [Place.level?] at hLevel
    constructor
    · rintro ⟨⟨⟨hPlace, _⟩, hLevel⟩, hLater⟩
      exact ⟨⟨hPlace, hLevel⟩, hLater⟩
    · rintro ⟨⟨hPlace, hLevel⟩, hLater⟩
      exact ⟨⟨⟨hPlace, by simpa using hLive hLevel⟩,
        hLevel⟩, hLater⟩

end Replay

namespace Engine

variable [Hasher]

/- The rewritten tasks of a priority are in id order. -/
theorem ClosedInOrder.lane
    {engine : Engine}
    {log : SegmentedLog}
    (hTracks : engine.inner.wal.Tracks engine.disk log)
    (hOrder : engine.ClosedInOrder)
    (level : Fin 256) :
    ((Replay.lane (entriesOf log.closed) level).filter
      (fun task =>
        (KeyedLog.latest entryId
          (entriesOf [(log.activeId, log.active)])
          task.1).isNone)).Pairwise
            (fun left right => left.1 < right.1) := by
  have hSegments := hTracks.segmentsOn
  have hEntries :
      Wal.entries engine.disk =
        entriesOf log.closed ++
          entriesOf [(log.activeId, log.active)] := by
    rw [hSegments.entries_eq, SegmentedLog.segments,
      entriesOf_append]
  rw [ClosedInOrder, closedTasks, hEntries,
    KeyedLog.latests_append, List.filter_append] at hOrder
  have hClosed := (List.pairwise_append.mp hOrder).1
  have hLevel :
      ∀ {entry : Loc × Record},
        entry.2.place.level? = some level →
          bucketOf entry.2.priority = level ∧
            entry.2.opType.isTerminal = false := by
    intro entry hEntry
    have hIff := Record.place_eq_terminal_iff entry.2
    cases hPlace : entry.2.place with
    | ready task =>
        rw [hPlace] at hEntry hIff
        refine ⟨?_, by simpa using hIff⟩
        rw [← (Record.id_of_place_eq_ready hPlace).2]
        exact Option.some.inj hEntry
    | leased lease =>
        rw [hPlace] at hEntry hIff
        refine ⟨?_, by simpa using hIff⟩
        rw [← Record.priority_of_place_eq_leased hPlace]
        exact Option.some.inj hEntry
    | terminal => simp [hPlace, Place.level?] at hEntry
  have hRewritten :
      ∀ entry ∈ KeyedLog.latests entryId
          (entriesOf log.closed),
        (ofLex entry.1).1 <
          engine.inner.wal.activeSegmentId := by
    intro entry hEntry
    rcases segment_of_mem_entriesOf
      ((KeyedLog.latests_sublist _).mem hEntry) with
      ⟨records, hSegment, _⟩
    rw [hTracks.activeSegmentId_eq]
    exact hSegments.closed_lt_activeId hSegment
  rw [Replay.lane, List.filter_map, List.filter_map,
    List.pairwise_map, List.filter_filter]
  rw [List.filter_filter, List.pairwise_filter] at hClosed
  rw [List.pairwise_filter]
  refine hClosed.imp_of_mem ?_
  intro left right hLeft hRight hLt hLeftIn hRightIn
  simp only [Function.comp_apply, Bool.and_eq_true,
    decide_eq_true_eq] at hLeftIn hRightIn
  have hLeftLevel := hLevel hLeftIn.2
  have hRightLevel := hLevel hRightIn.2
  apply hLt
  · simp [hRewritten left hLeft, hLeftLevel.2,
      -Option.isNone_iff_eq_none, hLeftIn.1]
  · simp [hRewritten right hRight, hRightLevel.2,
      -Option.isNone_iff_eq_none, hRightIn.1]
  · exact ReadyQueue.bucketOf_injective
      (hLeftLevel.1.trans hRightLevel.1.symm)

namespace Logged

variable {engine next : Engine} {queue : TaskQueue}

theorem compact
    (hLogged : engine.Logged queue)
    (hOrder : engine.ClosedInOrder) :
    engine.compact.2.Logged queue := by
  rcases hLogged.implemented with
    ⟨log, payloads, hRealizes⟩
  have hImplements := hRealizes.compact
  have hKeeps := hRealizes.keeps
  have hSegments := hKeeps.serves.tracks.segmentsOn
  have hLong :
      ∀ record ∈ log.segments.flatMap Prod.snd,
        record.opType = .leased →
          13 ≤ record.payload.length := by
    intro record hRecord
    have hOld := hLogged.long
    rw [hSegments.entries_eq] at hOld
    rw [← map_snd_entriesOf] at hRecord
    rcases List.mem_map.mp hRecord with ⟨entry, hEntry, rfl⟩
    exact hOld entry hEntry
  rw [SegmentedLog.segments, List.flatMap_append] at hLong
  unfold Engine.compact at hImplements ⊢
  rw [Engine.compactPlan_eq hKeeps.serves.tracks]
    at hImplements ⊢
  by_cases hClosed : log.closed = []
  · rw [if_pos hClosed]
    exact hLogged
  · rw [if_neg hClosed] at hImplements ⊢
    have hSplit : log.closed = log.closed ++ [] := by simp
    rcases hKeeps.serves.compactPhase1 hSplit with
      ⟨written, hPhase1, hWritten, hInner, hTemp⟩
    rcases hWritten.compactPhase2 hSplit hClosed hTemp with
      ⟨small, hPhase2, hSmall, hRemap, _⟩
    simp only [hPhase1, hPhase2] at hImplements ⊢
    have hEntries := hSmall.tracks.segmentsOn.entries_eq
    refine ⟨hImplements, ?_, ?_⟩
    · rw [hEntries]
      intro level
      have hOld := hLogged.logs level
      rw [hSegments.entries_eq, SegmentedLog.segments,
        entriesOf_append] at hOld
      have hSame :
          Replay.lane
              (entriesOf [(1, compacted
                  (log.closed.flatMap Prod.snd))] ++
                entriesOf [(log.activeId, log.active)])
              level =
            Replay.lane
              (entriesOf log.closed ++
                entriesOf [(log.activeId, log.active)])
              level := by
        apply Replay.lane_of_replaced
        · intro id
          rw [map_snd_entriesOf, map_snd_entriesOf,
            List.flatMap_singleton]
          exact Replay.placeOf_compacted
            Record.place_eq_terminal_iff
            (fun record hRecord =>
              (CompactionMaps.ofRecords
                _).place_recordToWrite rfl
                  (hLong record
                    (List.mem_append_left _ hRecord))) id
        · have hSorted :=
            compacted_pairwise_lt
              (log.closed.flatMap Prod.snd)
          have hRecords :
              (entriesOf [(1, compacted
                (log.closed.flatMap Prod.snd))]).map
                  Prod.snd =
                compacted
                  (log.closed.flatMap Prod.snd) := by
            rw [map_snd_entriesOf]
            simp
          rw [← hRecords, List.pairwise_map] at hSorted
          exact hSorted
        · exact ClosedInOrder.lane hKeeps.serves.tracks
            hOrder level
      rw [← hSame, ← entriesOf_append] at hOld
      exact hOld
    · rw [hEntries]
      intro entry hEntry
      have hRecord :=
        List.mem_map_of_mem (f := Prod.snd) hEntry
      rw [map_snd_entriesOf] at hRecord
      simp only [SegmentedLog.segments] at hRecord
      rw [List.flatMap_append, List.flatMap_singleton,
        List.mem_append] at hRecord
      rcases hRecord with hRecord | hRecord
      · exact compacted_long
          (fun record hMem =>
            hLong record (List.mem_append_left _ hMem))
          entry.2 hRecord
      · exact hLong entry.2
          (List.mem_append_right _ hRecord)

/- A compaction without failing system calls succeeds. -/
theorem compact_ok
    (hLogged : engine.Logged queue) :
    ∃ compacted, engine.compact.1 = .ok compacted := by
  rcases hLogged.implemented with
    ⟨log, payloads, hRealizes⟩
  have hKeeps := hRealizes.keeps
  unfold Engine.compact
  rw [Engine.compactPlan_eq hKeeps.serves.tracks]
  by_cases hClosed : log.closed = []
  · rw [if_pos hClosed]
    exact ⟨false, rfl⟩
  · rw [if_neg hClosed]
    have hSplit : log.closed = log.closed ++ [] := by simp
    rcases hKeeps.serves.compactPhase1 hSplit with
      ⟨written, hPhase1, hWritten, _, hTemp⟩
    rcases hWritten.compactPhase2 hSplit hClosed hTemp with
      ⟨small, hPhase2, _⟩
    simp only [hPhase1, hPhase2]
    exact ⟨true, rfl⟩

omit [Hasher] in
/- The maps that recovery builds mirror the queue. -/
theorem mirrors_restart
    {inner recovered : EngineState}
    {entries : List (Loc × Record)}
    (hMirrors : inner.Mirrors queue)
    (hLogs : queue.Logs entries)
    {now : UInt64}
    (hRecovered : recovered.Recovered now entries)
    (hKnown : Replay.nextId entries = inner.nextId) :
    recovered.Mirrors
      (queue.serve (.restart now)).2 := by
  have hNextId : recovered.nextId = inner.nextId := by
    rw [hRecovered.nextId_eq, hKnown]
  have hIds :
      (queue.items.map (WorkQueue.Item.restart now)).map
          WorkQueue.Item.id =
        queue.items.map WorkQueue.Item.id := by
    rw [List.map_map]
    rfl
  constructor
  · rw [hNextId]
    exact hMirrors.nextId_eq
  · have hNodup := hMirrors.ids_nodup
    rw [← hIds] at hNodup
    exact hNodup
  · rw [hNextId]
    intro item hItem
    rcases List.mem_map.mp hItem with ⟨old, hOld, rfl⟩
    exact hMirrors.ids_lt old hOld
  · intro item hItem
    rcases List.mem_map.mp hItem with ⟨old, hOld, rfl⟩
    exact hMirrors.failures_lt old hOld
  · intro priority
    rw [hRecovered.bucket_eq]
    exact hLogs.map_card_ready now priority
  · intro id
    rw [hRecovered.leased_eq]
    exact hLogs.map_card_lease now id

/- Recovery finds the queue as the restart leaves it. -/
theorem restart
    (hLogged : engine.Logged queue)
    (hCurrent : engine.DataCurrent)
    (hKnown : engine.IdsKnown)
    (maxSegmentSize : Option Nat)
    (cacheCapacity : Nat)
    (now : UInt64) :
    ∃ next,
      Engine.reopen engine.disk maxSegmentSize
          cacheCapacity now = (.ok (), next) ∧
        next.Logged (queue.serve (.restart now)).2 := by
  rcases hLogged.implemented with
    ⟨log, payloads, hRealizes⟩
  have hKeeps := hRealizes.keeps
  have hMirrors := hRealizes.mirrors
  rcases hKeeps.reopen hCurrent maxSegmentSize cacheCapacity
    now with ⟨next, nextLog, hNext, hKept⟩
  rcases reopen_intact_spec
    hKeeps.serves.tracks.segmentsOn
    (by simp [SegmentedLog.segments]) hKeeps.clean
    maxSegmentSize cacheCapacity now with
    ⟨sameLog, same, hSameLog, hSame, hSameTracks, _, _, _,
      hInner⟩
  rw [hNext, Prod.mk.injEq] at hSame
  rcases hSame with ⟨_, rfl⟩
  have hEntries :
      Wal.entries next.disk = Wal.entries engine.disk := by
    rw [hSameTracks.segmentsOn.entries_eq, hSameLog,
      hKeeps.serves.tracks.segmentsOn.entries_eq]
  rw [← hKeeps.serves.tracks.segmentsOn.entries_eq]
    at hInner
  refine ⟨next, hNext, ⟨nextLog, payloads, hKept, ?_, ?_⟩,
    ?_, ?_⟩
  · exact mirrors_restart hMirrors hLogged.logs hInner
      hKnown
  · intro item hItem
    rcases List.mem_map.mp hItem with ⟨old, hOld, rfl⟩
    exact hRealizes.carried old hOld
  · rw [hEntries]
    exact hLogged.logs.restart now
  · rw [hEntries]
    exact hLogged.long

end Logged

end Engine

end Nesso

------------------------------------------------------------
-- Lifetimes
------------------------------------------------------------

namespace Nesso

/- Operations of the engine, and restarts on its disk. -/
inductive EngineLife where
| run (action : EngineAction)
| restart (maxSegmentSize : Option Nat)
    (cacheCapacity : Nat) (now : UInt64)

namespace EngineLife

def call : EngineLife → Option TaskCall
| run action => action.call
| restart _ _ now => some (.restart now)

variable [Hasher]

/- A restart that fails reports its error. -/
def answer
    (engine : Engine) :
    EngineLife → Option EngineReply × Engine
| run action => engine.answer action
| restart maxSegmentSize cacheCapacity now =>
    match Engine.reopen engine.disk maxSegmentSize
        cacheCapacity now with
    | (.ok (), next) => (none, next)
    | (.error error, next) =>
        (some (.settled (.error error)), next)

/-
  Compactions find their tasks in id order, and restarts find
  the payloads and the ids that were given out.
-/
def Admissible
    (engine : Engine) : EngineLife → Prop
| run .compact => engine.ClosedInOrder
| run action => action.Admissible engine
| restart _ _ _ => engine.DataCurrent ∧ engine.IdsKnown

instance
    (engine : Engine)
    (life : EngineLife) :
    Decidable (life.Admissible engine) :=
  match life with
  | run .compact =>
      inferInstanceAs (Decidable (List.Pairwise _ _))
  | restart _ _ _ =>
      have : Decidable engine.IdsKnown :=
        inferInstanceAs (Decidable (_ = _))
      inferInstanceAs (Decidable (_ ∧ _))
  | run (.push payload priority) =>
      inferInstanceAs
        (Decidable
          ((EngineAction.push payload priority).Admissible
            engine))
  | run (.expire now tasks) =>
      inferInstanceAs
        (Decidable
          ((EngineAction.expire now tasks).Admissible
            engine))
  | run (.popAndLease _ _ _) | run (.ack _ _)
  | run (.nack _ _) | run .status
  | run .clearPayloadCache | run .clearReaderCache =>
      inferInstanceAs (Decidable True)

end EngineLife

namespace Engine.Logged

variable [Hasher]
variable {engine : Engine} {queue : TaskQueue}

/- The calls of clients and of the worker are logged. -/
theorem run
    (hLogged : engine.Logged queue)
    {action : EngineAction}
    (hAllowed : action.Admissible engine)
    {called : TaskCall}
    (hCall : action.call = some called) :
    (engine.answer action).2.Logged
      (queue.serve called).2 := by
  cases action with
  | push payload priority =>
      rw [EngineAction.call, Option.some.injEq] at hCall
      rw [← hCall]
      exact hLogged.push hAllowed.1 hAllowed.2 priority
  | popAndLease consumerId now leaseTtlSecs =>
      rw [EngineAction.call, Option.some.injEq] at hCall
      rw [← hCall]
      exact hLogged.popAndLease consumerId now leaseTtlSecs
  | ack id consumerId =>
      rw [EngineAction.call, Option.some.injEq] at hCall
      rw [← hCall]
      exact hLogged.ack id consumerId
  | nack id consumerId =>
      rw [EngineAction.call, Option.some.injEq] at hCall
      rw [← hCall]
      exact hLogged.nack id consumerId
  | status =>
      rw [EngineAction.call, Option.some.injEq] at hCall
      rw [← hCall]
      exact hLogged
  | expire now tasks =>
      rw [EngineAction.call, Option.some.injEq] at hCall
      rw [← hCall]
      apply hLogged.expireAll
      · exact (hAllowed.map _).nodup_iff.mpr
          (expiredTasks_ids_nodup _ now)
      · intro task hTask
        rcases mem_expiredTasks_iff.mp
          (hAllowed.mem_iff.mp hTask) with
          ⟨lease, hLease, _, hFields⟩
        exact ⟨lease, hLease, hFields⟩
  | compact => simp [EngineAction.call] at hCall
  | clearPayloadCache =>
      simp [EngineAction.call] at hCall
  | clearReaderCache =>
      simp [EngineAction.call] at hCall

/- Every operation and restart is that of the queue. -/
theorem simulation :
    Refinement.Simulation EngineLife.answer
      TaskQueue.respond EngineLife.call
      (fun engine life => life.Admissible engine)
      Engine.Logged := by
  constructor
  · intro engine queue life called hLogged hAllowed hCall
    cases life with
    | run action =>
        have hAction : action.Admissible engine := by
          cases action <;>
            first | exact hAllowed | trivial
        have hVisible :=
          Realizes.simulation.visible hLogged.implemented
            hAction hCall
        exact ⟨hVisible.1, hLogged.run hAction hCall⟩
    | restart maxSegmentSize cacheCapacity now =>
        rw [EngineLife.call, Option.some.injEq] at hCall
        rw [← hCall]
        rcases hLogged.restart hAllowed.1 hAllowed.2
          maxSegmentSize cacheCapacity now with
          ⟨next, hNext, hRestarted⟩
        simp only [EngineLife.answer, hNext]
        exact ⟨rfl, hRestarted⟩
  · intro engine queue life hLogged hAllowed hCall
    cases life with
    | run action =>
        have hAction : action.Admissible engine := by
          cases action <;>
            first | exact hAllowed | trivial
        have hSilent :=
          Realizes.simulation.silent hLogged.implemented
            hAction hCall
        refine ⟨hSilent.1, ?_⟩
        cases action with
        | compact => exact hLogged.compact hAllowed
        | clearPayloadCache =>
            exact hLogged.of_disk_eq hSilent.2 rfl
        | clearReaderCache =>
            exact hLogged.of_disk_eq hSilent.2 rfl
        | _ =>
            simp [EngineLife.call, EngineAction.call]
              at hCall
    | restart maxSegmentSize cacheCapacity now =>
        simp [EngineLife.call] at hCall

theorem fresh
    (maxSegmentSize : Option Nat)
    (cacheCapacity : Nat)
    (now : UInt64) :
    (Engine.fresh maxSegmentSize cacheCapacity now).Logged
      .empty := by
  rcases reopen_empty_spec maxSegmentSize cacheCapacity now
    with ⟨next, hNext, hTracks, _⟩
  have hFresh :
      Engine.fresh maxSegmentSize cacheCapacity now =
        next := by
    rw [Engine.fresh, hNext]
  have hEntries : Wal.entries next.disk = [] := by
    rw [hTracks.segmentsOn.entries_eq]
    rfl
  refine ⟨implements_fresh maxSegmentSize cacheCapacity now,
    ?_, ?_⟩
  · rw [hFresh, hEntries]
    intro level
    exact .nil
  · simp [hFresh, hEntries]

end Engine.Logged

/-
  Across any number of restarts, with other settings each
  time, clients are answered as by one abstract queue whose
  restarts only judge the leases.
-/
theorem lifetimes_refine_taskQueue [Hasher]
    {maxSegmentSize : Option Nat}
    {cacheCapacity : Nat}
    {start : UInt64}
    {lives : List EngineLife}
    (hAdmits :
      Refinement.Admits EngineLife.answer
        (fun engine life => life.Admissible engine)
        (Engine.fresh maxSegmentSize cacheCapacity start)
        lives) :
    Refinement.answers EngineLife.answer
        (Engine.fresh maxSegmentSize cacheCapacity start)
        lives =
      Refinement.answers TaskQueue.respond .empty
        (lives.filterMap EngineLife.call) :=
  Engine.Logged.simulation.answers_eq
    (Engine.Logged.fresh maxSegmentSize cacheCapacity start)
    hAdmits

/- A lease runs out while the queue is closed. -/
def lapsedLease : List EngineLife :=
  [.run (.push [7, 8] 5), .run (.push [9] 3),
    .run (.popAndLease 1 10 20), .run (.popAndLease 2 10 90),
    .run .compact, .restart none 0 40, .run .status,
    .run (.popAndLease 3 50 20), .run (.ack 1 3),
    .run (.ack 2 2), .run .status]

set_option maxRecDepth 100000 in
theorem lifetimes_refine_taskQueue_lapsed :
    Refinement.Admits EngineLife.answer
        (fun engine life => life.Admissible engine)
        (Engine.fresh (some 40) 4 0) lapsedLease ∧
      Refinement.answers EngineLife.answer
          (Engine.fresh (some 40) 4 0) lapsedLease =
        Refinement.answers TaskQueue.respond .empty
          (lapsedLease.filterMap EngineLife.call) := by
  have hAdmits :
      Refinement.Admits EngineLife.answer
        (fun engine life => life.Admissible engine)
        (Engine.fresh (some 40) 4 0) lapsedLease := by
    decide +kernel
  exact ⟨hAdmits, lifetimes_refine_taskQueue hAdmits⟩

end Nesso
