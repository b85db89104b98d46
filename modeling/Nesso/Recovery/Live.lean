import Nesso.Queue.Change
import Nesso.Recovery.Replay

/-
  Without compaction the live state is at all times the
  state that the log determines.

  Key definitions include:
    * `EngineState.Queued`
    * `EngineState.Reflects`

  Every change keeps this:
    * `EngineState.Reflects.add`
    * `EngineState.Reflects.grant`
    * `EngineState.Reflects.finish`
    * `EngineState.Reflects.retry`
-/

------------------------------------------------------------
-- Logs Extended by One Record
------------------------------------------------------------

namespace Nesso

namespace Replay

variable {entries : List (Loc × Record)}

/- The lease of a task after one more record. -/
theorem lease_append_singleton
    (place : Record → Place)
    (entries : List (Loc × Record))
    (entry : Loc × Record)
    (id : UInt64) :
    lease place (entries ++ [entry]) id =
      if entryId entry = id then (place entry.2).lease?
      else lease place entries id := by
  rw [lease, KeyedLog.latest_append_singleton]
  by_cases hId : entryId entry = id
  · simp [hId]
  · simp [hId, lease]

/- A task id occurs once among the ready tasks. -/
theorem ready_append_singleton
    {place : Record → Place}
    (hPlace :
      ∀ record task, place record = .ready task →
        task.id = record.id)
    (entries : List (Loc × Record))
    (entry : Loc × Record) :
    ready place (entries ++ [entry]) =
      (ready place entries).filter
          (fun task => task.id ≠ entryId entry) ++
        (place entry.2).task?.toList := by
  rw [ready, KeyedLog.latests_append_singleton,
    List.filterMap_append, ready]
  congr 1
  · induction KeyedLog.latests entryId entries with
    | nil => rfl
    | cons head latests ih =>
        have hId :
            ∀ task, (place head.2).task? = some task →
              task.id = entryId head := by
          intro task hTask
          cases hHead : place head.2 <;>
            simp only [hHead, Place.task?, reduceCtorEq,
              Option.some.injEq] at hTask
          rw [← hTask]
          exact hPlace _ _ hHead
        cases hTask : (place head.2).task? with
        | none =>
            by_cases hKey : entryId head = entryId entry
            · simpa [hTask, hKey] using ih
            · simpa [hTask, hKey] using ih
        | some task =>
            by_cases hKey : entryId head = entryId entry
            · simpa [hTask, hKey, hId task hTask] using ih
            · simpa [hTask, hKey, hId task hTask] using ih

/- A new Created record adds one more of them. -/
theorem latest_created_append_singleton
    (entries : List (Loc × Record))
    (entry : Loc × Record)
    (id : UInt64) :
    KeyedLog.latest entryId (created (entries ++ [entry]))
        id =
      if entry.2.opType = .created ∧ entryId entry = id then
        some entry
      else
        KeyedLog.latest entryId (created entries) id := by
  by_cases hCreated : entry.2.opType = .created
  · simp only [created, List.filter_append,
      List.filter_cons, hCreated, decide_true, if_true,
      List.filter_nil, true_and]
    rw [KeyedLog.latest_append_singleton]
  · simp [created, hCreated]

/- The data location of a task after one more record. -/
theorem dataLoc_append_singleton
    (entries : List (Loc × Record))
    (entry : Loc × Record)
    (id : UInt64) :
    dataLoc (entries ++ [entry]) id =
      if entryId entry = id then
        if entry.2.opType.isTerminal then none
        else if entry.2.opType = .created then some entry.1
        else
          ((KeyedLog.latest entryId (created entries)
            id).map Prod.fst).or (some entry.1)
      else dataLoc entries id := by
  rw [dataLoc, latest_created_append_singleton,
    KeyedLog.latest_append_singleton]
  by_cases hId : entryId entry = id
  · by_cases hCreated : entry.2.opType = .created
    · simp [hId, hCreated]
    · simp [hId, hCreated]
  · simp [hId, dataLoc]

/- Scanning an old id does not move the id counter. -/
theorem nextId_append_singleton
    (entries : List (Loc × Record))
    (entry : Loc × Record) :
    nextId (entries ++ [entry]) =
      bumpId (nextId entries) entry := by
  simp [nextId]

end Replay

end Nesso

------------------------------------------------------------
-- Ready and Leased Tasks
------------------------------------------------------------

namespace Nesso

/- A granted lease is read back from its record. -/
theorem Change.place_record_grant
    (inner : EngineState)
    (task : TaskRef)
    (rest : ReadyQueue)
    (consumerId : UInt32)
    (expireTimestamp : UInt64) :
    (Change.record inner
        (.grant task rest consumerId
          expireTimestamp)).place =
      .leased
        ⟨consumerId, expireTimestamp, task.retries,
          task.priority⟩ := by
  have hLease :=
    leaseOfRecord_leasePayload task.id task.priority
      consumerId expireTimestamp task.retries []
  rw [List.append_nil] at hLease
  simp [Record.place, Change.record, length_leasePayload,
    hLease]

namespace EngineState

/- The queue and the leases are what the log determines. -/
structure Queued
    (inner : EngineState)
    (entries : List (Loc × Record)) : Prop where
  leased_eq :
    ∀ id,
      inner.leased[id]? =
        Replay.lease Record.place entries id
  bucket_eq :
    ∀ priority,
      inner.readyQueue.bucket priority =
        (Replay.ready Record.place entries).filter
          (fun task => task.priority = priority)

theorem ready_filter_append_singleton
    (entries : List (Loc × Record))
    (entry : Loc × Record)
    (priority : UInt8) :
    (Replay.ready Record.place
        (entries ++ [entry])).filter
          (fun task => task.priority = priority) =
      ((Replay.ready Record.place entries).filter
          (fun task => task.priority = priority)).filter
            (fun task => task.id ≠ entryId entry) ++
        entry.2.place.task?.toList.filter
          (fun task => task.priority = priority) := by
  rw [Replay.ready_append_singleton
    (fun _ _ hPlace =>
      (Record.id_of_place_eq_ready hPlace).1),
    List.filter_append, List.filter_filter,
    List.filter_filter]
  congr 2
  funext task
  exact Bool.and_comm _ _

namespace Queued

variable {inner : EngineState}
variable {entries : List (Loc × Record)}

/- A ready task was put there by its latest record. -/
theorem latest_of_ready
    (hQueued : inner.Queued entries)
    {task : TaskRef}
    (hTask : task ∈ inner.readyQueue.tasks) :
    ∃ entry,
      KeyedLog.latest entryId entries task.id =
          some entry ∧
        entry.2.place = .ready task := by
  rw [ReadyQueue.mem_tasks_iff, hQueued.bucket_eq]
    at hTask
  rcases List.mem_filterMap.mp
    (List.mem_of_mem_filter hTask) with
    ⟨entry, hEntry, hPlace⟩
  have hReady : entry.2.place = .ready task := by
    cases hCase : entry.2.place <;>
      simp_all [Place.task?]
  refine ⟨entry, ?_, hReady⟩
  rw [(Record.id_of_place_eq_ready hReady).1]
  exact KeyedLog.mem_latests_iff.mp hEntry

/- A leased task was put there by its latest record. -/
theorem latest_of_leased
    (hQueued : inner.Queued entries)
    {id : UInt64}
    {lease : LeaseInfo}
    (hLease : inner.leased[id]? = some lease) :
    ∃ entry,
      KeyedLog.latest entryId entries id = some entry ∧
        entry.2.place = .leased lease := by
  rw [hQueued.leased_eq, Replay.lease] at hLease
  rcases Option.bind_eq_some_iff.mp hLease with
    ⟨entry, hEntry, hPlace⟩
  refine ⟨entry, hEntry, ?_⟩
  cases hCase : entry.2.place <;> simp_all [Place.lease?]

/- A record of a task that is not ready adds at the end. -/
theorem ready_eq_bucket_append
    (hQueued : inner.Queued entries)
    {entry : Loc × Record}
    (hNotReady :
      ∀ task ∈ inner.readyQueue.tasks,
        task.id ≠ entryId entry)
    (priority : UInt8) :
    (Replay.ready Record.place
        (entries ++ [entry])).filter
          (fun task => task.priority = priority) =
      inner.readyQueue.bucket priority ++
        entry.2.place.task?.toList.filter
          (fun task => task.priority = priority) := by
  rw [ready_filter_append_singleton, ← hQueued.bucket_eq]
  congr 1
  rw [List.filter_eq_self]
  intro task hTask
  have hPriority :=
    ReadyQueue.priority_of_mem_bucket hTask
  subst hPriority
  simpa using
    hNotReady task (ReadyQueue.mem_tasks_iff.mpr hTask)

/- A task that is not placed ready is not queued. -/
theorem not_ready_of_latest
    (hQueued : inner.Queued entries)
    {id : UInt64}
    (hLatest :
      ∀ entry,
        KeyedLog.latest entryId entries id = some entry →
          entry.2.place.task? = none) :
    ∀ task ∈ inner.readyQueue.tasks, task.id ≠ id := by
  rintro task hTask rfl
  rcases hQueued.latest_of_ready hTask with
    ⟨entry, hEntry, hPlace⟩
  have hNone := hLatest entry hEntry
  rw [hPlace] at hNone
  simp [Place.task?] at hNone

/- A new task is queued last. -/
theorem add
    (hQueued : inner.Queued entries)
    (hFresh :
      KeyedLog.latest entryId entries inner.nextId = none)
    (priority : UInt8)
    (payload : Bytes)
    (loc : Loc) :
    (Change.apply inner loc
        (.add priority payload)).Queued
      (entries ++
        [(loc, Change.record inner
          (.add priority payload))]) := by
  constructor
  · intro id
    rw [Replay.lease_append_singleton]
    simp only [Change.apply, Change.record, entryId]
    by_cases hId : inner.nextId = id
    · subst hId
      rw [hQueued.leased_eq, Replay.lease, hFresh]
      simp [Record.place, Place.lease?]
    · simp [hId, hQueued.leased_eq]
  · intro other
    rw [hQueued.ready_eq_bucket_append]
    · simp only [Change.apply, Change.record,
        Record.place, Place.task?, Option.toList_some,
        ReadyQueue.bucket_push]
      by_cases hPriority : priority = other
      · simp [hPriority]
      · simp [hPriority]
    · apply hQueued.not_ready_of_latest
      intro entry hEntry
      change KeyedLog.latest entryId entries
        inner.nextId = some entry at hEntry
      simp [hFresh] at hEntry

/- Popping a task removes it from its own bucket only. -/
theorem bucket_pop
    (hQueued : inner.Queued entries)
    {task : TaskRef}
    {rest : ReadyQueue}
    (hPop : inner.readyQueue.pop = some (task, rest))
    (priority : UInt8) :
    rest.bucket priority =
      (inner.readyQueue.bucket priority).filter
        (fun other => other.id ≠ task.id) := by
  have hTask : task ∈ inner.readyQueue.tasks :=
    (ReadyQueue.tasks_pop_perm hPop).mem_iff.mpr (by simp)
  rcases hQueued.latest_of_ready hTask with
    ⟨old, hOld, hOldPlace⟩
  rcases ReadyQueue.pop_eq_some hPop with
    ⟨hBucket, hOthers, _⟩
  -- The popped task is the only one with its id.
  have hNodup :
      ((inner.readyQueue.bucket priority).map
        TaskRef.id).Nodup := by
    rw [hQueued.bucket_eq]
    exact (List.filter_sublist.map _).nodup
      (Replay.ready_ids_nodup
        (fun _ _ hReady =>
          (Record.id_of_place_eq_ready hReady).1)
        entries)
  by_cases hPriority : priority = task.priority
  · subst hPriority
    rw [hBucket] at hNodup ⊢
    rw [List.map_cons, List.nodup_cons] at hNodup
    rw [List.filter_cons_of_neg (by simp), eq_comm,
      List.filter_eq_self]
    intro other hOther
    have hNe : other.id ≠ task.id := by
      intro hEq
      exact hNodup.1
        (List.mem_map.mpr ⟨other, hOther, hEq⟩)
    simpa using hNe
  · rw [hOthers priority hPriority, eq_comm,
      List.filter_eq_self]
    intro other hOther
    have hNe : other.id ≠ task.id := by
      intro hEq
      have hReady : other ∈ inner.readyQueue.tasks := by
        rw [ReadyQueue.mem_tasks_iff,
          ReadyQueue.priority_of_mem_bucket hOther]
        exact hOther
      rcases hQueued.latest_of_ready hReady with
        ⟨found, hFound, hFoundPlace⟩
      rw [hEq, hOld, Option.some.injEq] at hFound
      rw [← hFound, hOldPlace, Place.ready.injEq]
        at hFoundPlace
      apply hPriority
      rw [← ReadyQueue.priority_of_mem_bucket hOther,
        hFoundPlace]
    simpa using hNe

/- A popped task is leased. -/
theorem grant
    (hQueued : inner.Queued entries)
    {task : TaskRef}
    {rest : ReadyQueue}
    (hPop : inner.readyQueue.pop = some (task, rest))
    (consumerId : UInt32)
    (expireTimestamp : UInt64)
    (loc : Loc) :
    (Change.apply inner loc
        (.grant task rest consumerId
          expireTimestamp)).Queued
      (entries ++
        [(loc, Change.record inner
          (.grant task rest consumerId
            expireTimestamp))]) := by
  have hPlace :=
    Change.place_record_grant inner task rest consumerId
      expireTimestamp
  constructor
  · intro id
    rw [Replay.lease_append_singleton, hPlace]
    simp only [Change.apply, Change.record, entryId,
      Std.ExtTreeMap.getElem?_insert]
    by_cases hId : task.id = id
    · simp [hId, Place.lease?]
    · simp [hId, hQueued.leased_eq]
  · intro priority
    rw [ready_filter_append_singleton, hPlace,
      ← hQueued.bucket_eq]
    simp only [Place.task?, Option.toList_none,
      List.filter_nil, List.append_nil]
    exact hQueued.bucket_pop hPop priority

/- A leased task that ends is gone. -/
theorem finish
    (hQueued : inner.Queued entries)
    {id : UInt64}
    {lease : LeaseInfo}
    (hLease : inner.leased[id]? = some lease)
    (deadRetries : Option UInt8)
    (loc : Loc) :
    (Change.apply inner loc
        (.finish id lease.priority deadRetries)).Queued
      (entries ++
        [(loc, Change.record inner
          (.finish id lease.priority
            deadRetries))]) := by
  rcases hQueued.latest_of_leased hLease with
    ⟨old, hOld, hOldPlace⟩
  generalize hRecord :
    Change.record inner
      (.finish id lease.priority deadRetries) = record
  have hEntry : entryId (loc, record) = id := by
    cases deadRetries <;> rw [← hRecord] <;> rfl
  have hPlace : record.place = .terminal := by
    cases deadRetries <;> rw [← hRecord] <;> rfl
  constructor
  · intro other
    rw [Replay.lease_append_singleton, hEntry, hPlace]
    simp only [Change.apply,
      Std.ExtTreeMap.getElem?_erase]
    by_cases hOther : id = other
    · simp [hOther, Place.lease?]
    · simp [hOther, hQueued.leased_eq]
  · intro priority
    rw [hQueued.ready_eq_bucket_append, hPlace]
    · simp [Place.task?, Change.apply]
    · rw [hEntry]
      apply hQueued.not_ready_of_latest
      intro entry hFound
      rw [hOld, Option.some.injEq] at hFound
      rw [← hFound, hOldPlace]
      rfl

/- A leased task that failed is queued last. -/
theorem retry
    (hQueued : inner.Queued entries)
    {id : UInt64}
    {lease : LeaseInfo}
    (hLease : inner.leased[id]? = some lease)
    (retries : UInt8)
    {failureType : OpType}
    (hType :
      failureType = .nacked ∨ failureType = .expired)
    (loc : Loc) :
    (Change.apply inner loc
        (.retry id lease.priority retries
          failureType)).Queued
      (entries ++
        [(loc, Change.record inner
          (.retry id lease.priority retries
            failureType))]) := by
  rcases hQueued.latest_of_leased hLease with
    ⟨old, hOld, hOldPlace⟩
  have hPlace :
      (Change.record inner
          (.retry id lease.priority retries
            failureType)).place =
        .ready ⟨id, lease.priority, retries⟩ := by
    rcases hType with rfl | rfl <;> rfl
  constructor
  · intro other
    rw [Replay.lease_append_singleton, hPlace]
    simp only [Change.apply, Change.record, entryId,
      Std.ExtTreeMap.getElem?_erase]
    by_cases hOther : id = other
    · simp [hOther, Place.lease?]
    · simp [hOther, hQueued.leased_eq]
  · intro priority
    rw [hQueued.ready_eq_bucket_append, hPlace]
    · simp only [Change.apply, Place.task?,
        Option.toList_some, ReadyQueue.bucket_push]
      by_cases hPriority : lease.priority = priority
      · simp [hPriority]
      · simp [hPriority]
    · apply hQueued.not_ready_of_latest
      intro entry hFound
      change KeyedLog.latest entryId entries id =
        some entry at hFound
      rw [hOld, Option.some.injEq] at hFound
      rw [← hFound, hOldPlace]
      rfl

end Queued

end EngineState

end Nesso

------------------------------------------------------------
-- The Live State
------------------------------------------------------------

namespace Nesso

namespace EngineState

/- The state is the one the log determines. -/
structure Reflects
    (inner : EngineState)
    (entries : List (Loc × Record)) : Prop where
  ids_lt : ∀ entry ∈ entries, entryId entry < inner.nextId
  nextId_eq : inner.nextId = Replay.nextId entries
  created_ne_none :
    ∀ entry ∈ entries,
      KeyedLog.latest entryId (Replay.created entries)
        (entryId entry) ≠ none
  index_eq :
    ∀ id,
      inner.index[id]? =
        (KeyedLog.latest entryId entries id).map Prod.fst
  dataIndex_eq :
    ∀ id, inner.dataIndex[id]? = Replay.dataLoc entries id
  leased_eq :
    ∀ id,
      inner.leased[id]? =
        Replay.lease Record.place entries id
  bucket_eq :
    ∀ priority,
      inner.readyQueue.bucket priority =
        (Replay.ready Record.place entries).filter
          (fun task => task.priority = priority)

namespace Reflects

variable {inner : EngineState}
variable {entries : List (Loc × Record)}

theorem queued
    (hInner : inner.Reflects entries) :
    inner.Queued entries :=
  ⟨hInner.leased_eq, hInner.bucket_eq⟩

/-
  The parts of the state that do not depend on the kind of
  change, for a record of a known task.
-/
theorem ids_lt_append
    (hInner : inner.Reflects entries)
    {entry : Loc × Record}
    (hId : entryId entry < inner.nextId) :
    ∀ other ∈ entries ++ [entry],
      entryId other < inner.nextId := by
  intro other hOther
  rw [List.mem_append, List.mem_singleton] at hOther
  rcases hOther with hOther | rfl
  · exact hInner.ids_lt other hOther
  · exact hId

theorem nextId_eq_append
    (hInner : inner.Reflects entries)
    {entry : Loc × Record}
    (hId : entryId entry < inner.nextId) :
    inner.nextId = Replay.nextId (entries ++ [entry]) := by
  rw [Replay.nextId_append_singleton, ← hInner.nextId_eq,
    Replay.bumpId, if_neg (UInt64.not_le.mpr hId)]

theorem created_ne_none_append
    (hInner : inner.Reflects entries)
    {entry : Loc × Record}
    (hCreated :
      entry.2.opType = .created ∨
        ∃ other ∈ entries, entryId other = entryId entry) :
    ∀ other ∈ entries ++ [entry],
      KeyedLog.latest entryId
        (Replay.created (entries ++ [entry]))
        (entryId other) ≠ none := by
  intro other hOther
  rw [Replay.latest_created_append_singleton]
  split
  · simp
  · next hNew =>
      rw [List.mem_append, List.mem_singleton] at hOther
      rcases hOther with hOther | rfl
      · exact hInner.created_ne_none other hOther
      · rcases hCreated with hCreated | ⟨old, hOld, hId⟩
        · exact (hNew ⟨hCreated, rfl⟩).elim
        · rw [← hId]
          exact hInner.created_ne_none old hOld

theorem index_eq_insert
    (hInner : inner.Reflects entries)
    (entry : Loc × Record)
    (id : UInt64) :
    (inner.index.insert (entryId entry) entry.1)[id]? =
      (KeyedLog.latest entryId (entries ++ [entry])
        id).map Prod.fst := by
  rw [KeyedLog.latest_append_singleton,
    Std.ExtTreeMap.getElem?_insert]
  by_cases hId : entryId entry = id
  · simp [hId]
  · simp [hId, hInner.index_eq]

/- A known task keeps its Created record's location. -/
theorem dataIndex_eq_append
    (hInner : inner.Reflects entries)
    {entry old : Loc × Record}
    (hOld :
      KeyedLog.latest entryId entries (entryId entry) =
        some old)
    (hOldLive : old.2.opType.isTerminal = false)
    (hLive : entry.2.opType.isTerminal = false)
    (hOp : entry.2.opType ≠ .created)
    (id : UInt64) :
    inner.dataIndex[id]? =
      Replay.dataLoc (entries ++ [entry]) id := by
  rw [Replay.dataLoc_append_singleton]
  by_cases hId : entryId entry = id
  · subst hId
    have hMem := KeyedLog.latest_mem hOld
    have hCreated := hInner.created_ne_none old hMem.1
    rw [hMem.2] at hCreated
    rcases Option.ne_none_iff_exists'.mp hCreated with
      ⟨first, hFirst⟩
    rw [if_pos rfl, hInner.dataIndex_eq, Replay.dataLoc,
      hOld]
    simp [hOldLive, hLive, hOp, hFirst]
  · rw [if_neg hId, hInner.dataIndex_eq]

end Reflects

end EngineState

end Nesso

------------------------------------------------------------
-- Changes of the Live State
------------------------------------------------------------

namespace Nesso

namespace EngineState

namespace Reflects

variable {inner : EngineState}
variable {entries : List (Loc × Record)}

/- A new task is ready with no retries. -/
theorem add
    (hInner : inner.Reflects entries)
    (hLeft : inner.IdsLeft)
    (priority : UInt8)
    (payload : Bytes)
    (loc : Loc) :
    (Change.apply inner loc
        (.add priority payload)).Reflects
      (entries ++
        [(loc, Change.record inner
          (.add priority payload))]) := by
  have hLt := UInt64.lt_add_one_of_ne hLeft
  have hFresh :
      KeyedLog.latest entryId entries inner.nextId =
        none := by
    rw [KeyedLog.latest_eq_none_iff]
    intro entry hEntry hId
    have hOld := hInner.ids_lt entry hEntry
    rw [hId] at hOld
    exact (UInt64.lt_irrefl _ hOld).elim
  have hQueued :=
    hInner.queued.add hFresh priority payload loc
  constructor
  · intro entry hEntry
    rw [List.mem_append, List.mem_singleton] at hEntry
    rcases hEntry with hEntry | rfl
    · exact UInt64.lt_trans (hInner.ids_lt entry hEntry) hLt
    · exact hLt
  · rw [Replay.nextId_append_singleton,
      ← hInner.nextId_eq, Replay.bumpId, if_pos]
    · rfl
    · exact UInt64.le_refl _
  · exact hInner.created_ne_none_append (.inl rfl)
  · exact hInner.index_eq_insert
      (loc, Change.record inner (.add priority payload))
  · intro id
    rw [Replay.dataLoc_append_singleton]
    simp only [Change.apply, Change.record, entryId,
      Std.ExtTreeMap.getElem?_insert]
    by_cases hId : inner.nextId = id
    · simp [hId, OpType.isTerminal]
    · simp [hId, hInner.dataIndex_eq]
  · exact hQueued.leased_eq
  · exact hQueued.bucket_eq

/- A popped task is leased. -/
theorem grant
    (hInner : inner.Reflects entries)
    {task : TaskRef}
    {rest : ReadyQueue}
    (hPop : inner.readyQueue.pop = some (task, rest))
    (consumerId : UInt32)
    (expireTimestamp : UInt64)
    (loc : Loc) :
    (Change.apply inner loc
        (.grant task rest consumerId
          expireTimestamp)).Reflects
      (entries ++
        [(loc, Change.record inner
          (.grant task rest consumerId
            expireTimestamp))]) := by
  have hTask : task ∈ inner.readyQueue.tasks :=
    (ReadyQueue.tasks_pop_perm hPop).mem_iff.mpr (by simp)
  rcases hInner.queued.latest_of_ready hTask with
    ⟨old, hOld, hOldPlace⟩
  have hOldMem := KeyedLog.latest_mem hOld
  have hLt : task.id < inner.nextId := by
    rw [← hOldMem.2]
    exact hInner.ids_lt old hOldMem.1
  have hOldLive : old.2.opType.isTerminal = false := by
    have hIff := Record.place_eq_terminal_iff old.2
    rw [hOldPlace] at hIff
    simpa using hIff
  have hQueued :=
    hInner.queued.grant hPop consumerId expireTimestamp loc
  constructor
  · exact hInner.ids_lt_append hLt
  · exact hInner.nextId_eq_append hLt
  · exact hInner.created_ne_none_append
      (.inr ⟨old, hOldMem.1, hOldMem.2⟩)
  · exact hInner.index_eq_insert
      (loc, Change.record inner
        (.grant task rest consumerId expireTimestamp))
  · exact hInner.dataIndex_eq_append hOld hOldLive rfl
      (by simp [Change.record])
  · exact hQueued.leased_eq
  · exact hQueued.bucket_eq

/- A leased task that ends is gone. -/
theorem finish
    (hInner : inner.Reflects entries)
    {id : UInt64}
    {lease : LeaseInfo}
    (hLease : inner.leased[id]? = some lease)
    (deadRetries : Option UInt8)
    (loc : Loc) :
    (Change.apply inner loc
        (.finish id lease.priority deadRetries)).Reflects
      (entries ++
        [(loc, Change.record inner
          (.finish id lease.priority
            deadRetries))]) := by
  rcases hInner.queued.latest_of_leased hLease with
    ⟨old, hOld, hOldPlace⟩
  have hOldMem := KeyedLog.latest_mem hOld
  have hLt : id < inner.nextId := by
    rw [← hOldMem.2]
    exact hInner.ids_lt old hOldMem.1
  have hQueued :=
    hInner.queued.finish hLease deadRetries loc
  generalize hRecord :
    Change.record inner
      (.finish id lease.priority deadRetries) = record
    at hQueued ⊢
  have hId : record.id = id := by
    cases deadRetries <;> rw [← hRecord] <;> rfl
  have hPlace : record.place = .terminal := by
    cases deadRetries <;> rw [← hRecord] <;> rfl
  have hTerminal : record.opType.isTerminal = true :=
    (Record.place_eq_terminal_iff record).mp hPlace
  have hEntry : entryId (loc, record) = id := hId
  constructor
  · exact hInner.ids_lt_append (by rwa [hEntry])
  · exact hInner.nextId_eq_append (by rwa [hEntry])
  · exact hInner.created_ne_none_append
      (.inr ⟨old, hOldMem.1, by rw [hOldMem.2, hEntry]⟩)
  · have hIndex := hInner.index_eq_insert (loc, record)
    rw [hEntry] at hIndex
    exact hIndex
  · intro other
    rw [Replay.dataLoc_append_singleton, hEntry]
    simp only [Change.apply,
      Std.ExtTreeMap.getElem?_erase]
    by_cases hOther : id = other
    · simp [hOther, hTerminal]
    · simp [hOther, hInner.dataIndex_eq]
  · exact hQueued.leased_eq
  · exact hQueued.bucket_eq

/- A leased task that failed is ready again. -/
theorem retry
    (hInner : inner.Reflects entries)
    {id : UInt64}
    {lease : LeaseInfo}
    (hLease : inner.leased[id]? = some lease)
    (retries : UInt8)
    {failureType : OpType}
    (hType :
      failureType = .nacked ∨ failureType = .expired)
    (loc : Loc) :
    (Change.apply inner loc
        (.retry id lease.priority retries
          failureType)).Reflects
      (entries ++
        [(loc, Change.record inner
          (.retry id lease.priority retries
            failureType))]) := by
  rcases hInner.queued.latest_of_leased hLease with
    ⟨old, hOld, hOldPlace⟩
  have hOldMem := KeyedLog.latest_mem hOld
  have hOldLive : old.2.opType.isTerminal = false := by
    have hIff := Record.place_eq_terminal_iff old.2
    rw [hOldPlace] at hIff
    simpa using hIff
  have hLt : id < inner.nextId := by
    rw [← hOldMem.2]
    exact hInner.ids_lt old hOldMem.1
  have hQueued :=
    hInner.queued.retry hLease retries hType loc
  have hLive :
      failureType.isTerminal = false ∧
        failureType ≠ .created := by
    rcases hType with rfl | rfl <;> decide
  constructor
  · exact hInner.ids_lt_append hLt
  · exact hInner.nextId_eq_append hLt
  · exact hInner.created_ne_none_append
      (.inr ⟨old, hOldMem.1, hOldMem.2⟩)
  · exact hInner.index_eq_insert
      (loc, Change.record inner
        (.retry id lease.priority retries failureType))
  · exact hInner.dataIndex_eq_append hOld hOldLive
      hLive.1 hLive.2
  · exact hQueued.leased_eq
  · exact hQueued.bucket_eq

end Reflects

end EngineState

end Nesso
