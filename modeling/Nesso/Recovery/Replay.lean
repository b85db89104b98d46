import Nesso.Library.KeyedLog
import Nesso.Storage.Engine

/-
  Recovery as a function of the log: every task is where its
  latest record puts it.

  Key definitions include:
    * `Place`
    * `Record.place`
    * `Record.placeAt`
    * `Replay.dataLoc`
    * `Replay.lease`
    * `Replay.ready`
-/

------------------------------------------------------------
-- Places
------------------------------------------------------------

namespace Nesso

/- Where a task is. -/
inductive Place where
| ready (task : TaskRef)
| leased (lease : LeaseInfo)
| terminal
deriving DecidableEq

namespace Place

def task? : Place → Option TaskRef
| ready task => some task
| _ => none

def lease? : Place → Option LeaseInfo
| leased lease => some lease
| _ => none

end Place

namespace Record

/- Where a record leaves its task. -/
def place (record : Record) : Place :=
  match record.opType with
  | .created => .ready ⟨record.id, record.priority, 0⟩
  | .nacked | .expired =>
      .ready
        ⟨record.id, record.priority,
          record.payload.headD 0⟩
  | .leased =>
      if 13 ≤ record.payload.length then
        .leased (EngineState.leaseOfRecord record)
      else
        .ready ⟨record.id, record.priority, 0⟩
  | .acked | .deadLettered => .terminal

/- The same at a given time: an expired lease is ready. -/
def placeAt
    (now : UInt64)
    (record : Record) : Place :=
  match record.place with
  | .leased lease =>
      if now < lease.expireTimestamp then
        .leased lease
      else
        .ready ⟨record.id, record.priority, lease.retries⟩
  | place => place

/- Only finished tasks are terminal. -/
theorem place_eq_terminal_iff
    (record : Record) :
    record.place = .terminal ↔
      record.opType.isTerminal = true := by
  unfold place
  cases record.opType with
  | leased =>
      simp only [OpType.isTerminal, Bool.false_eq_true,
        iff_false]
      split <;> simp
  | _ => simp [OpType.isTerminal]

theorem placeAt_eq_terminal_iff
    (now : UInt64)
    (record : Record) :
    record.placeAt now = .terminal ↔
      record.opType.isTerminal = true := by
  rw [← place_eq_terminal_iff, placeAt]
  cases record.place with
  | ready task => simp
  | leased lease =>
      simp only [reduceCtorEq, iff_false]
      split <;> simp
  | terminal => simp

/- A lease carries the priority of its record. -/
theorem priority_of_place_eq_leased
    {record : Record}
    {lease : LeaseInfo}
    (hPlace : record.place = .leased lease) :
    lease.priority = record.priority := by
  unfold place at hPlace
  cases hOp : record.opType <;>
    simp only [hOp, reduceCtorEq] at hPlace
  split at hPlace
  · rw [Place.leased.injEq] at hPlace
    rw [← hPlace]
    rfl
  · simp at hPlace

/- A ready task carries the id of its record. -/
theorem id_of_place_eq_ready
    {record : Record}
    {task : TaskRef}
    (hPlace : record.place = .ready task) :
    task.id = record.id ∧
      task.priority = record.priority := by
  unfold place at hPlace
  cases hOp : record.opType <;>
    simp only [hOp, reduceCtorEq, Place.ready.injEq]
      at hPlace
  · rw [← hPlace]
    exact ⟨rfl, rfl⟩
  · split at hPlace
    · simp at hPlace
    · rw [Place.ready.injEq] at hPlace
      rw [← hPlace]
      exact ⟨rfl, rfl⟩
  · rw [← hPlace]
    exact ⟨rfl, rfl⟩
  · rw [← hPlace]
    exact ⟨rfl, rfl⟩

theorem id_of_placeAt_eq_ready
    {now : UInt64}
    {record : Record}
    {task : TaskRef}
    (hPlace : record.placeAt now = .ready task) :
    task.id = record.id ∧
      task.priority = record.priority := by
  unfold placeAt at hPlace
  split at hPlace
  · split at hPlace
    · simp at hPlace
    · rw [Place.ready.injEq] at hPlace
      rw [← hPlace]
      exact ⟨rfl, rfl⟩
  · exact id_of_place_eq_ready hPlace

/- An expired lease is placed like a ready task. -/
theorem placeAt_eq_ready_iff
    {now : UInt64}
    {record : Record}
    {task : TaskRef} :
    record.placeAt now = .ready task ↔
      record.place = .ready task ∨
        ∃ lease,
          record.place = .leased lease ∧
            lease.expireTimestamp ≤ now ∧
            task = ⟨record.id, lease.priority,
              lease.retries⟩ := by
  unfold placeAt
  cases hPlace : record.place with
  | ready found => simp
  | leased lease =>
      have hPriority := priority_of_place_eq_leased hPlace
      by_cases hLive : now < lease.expireTimestamp
      · simp [hLive, UInt64.not_le.mpr hLive]
      · simp [hLive, UInt64.not_lt.mp hLive, hPriority,
          eq_comm]
  | terminal => simp

theorem placeAt_eq_leased_iff
    {now : UInt64}
    {record : Record}
    {lease : LeaseInfo} :
    record.placeAt now = .leased lease ↔
      record.place = .leased lease ∧
        now < lease.expireTimestamp := by
  unfold placeAt
  cases hPlace : record.place with
  | ready found => simp
  | leased found =>
      by_cases hLive : now < found.expireTimestamp
      · simp only [hLive, if_true, Place.leased.injEq]
        constructor
        · rintro rfl
          exact ⟨rfl, hLive⟩
        · rintro ⟨rfl, _⟩
          rfl
      · simp only [hLive, if_false, reduceCtorEq,
          Place.leased.injEq, false_iff, not_and]
        rintro rfl
        exact hLive
  | terminal => simp

end Record

end Nesso

------------------------------------------------------------
-- The State a Log Determines
------------------------------------------------------------

namespace Nesso

/- The task a log entry is about. -/
def entryId (entry : Loc × Record) : UInt64 :=
  entry.2.id

namespace Replay

/- `next_id` after scanning one more record. -/
def bumpId
    (nextId : UInt64)
    (entry : Loc × Record) : UInt64 :=
  if nextId ≤ entryId entry then entryId entry + 1
  else nextId

def nextId (entries : List (Loc × Record)) : UInt64 :=
  entries.foldl bumpId 1

/- The Created records of a log. -/
def created
    (entries : List (Loc × Record)) :
    List (Loc × Record) :=
  entries.filter (fun entry => entry.2.opType = .created)

/- The location of a live task's latest record. -/
def indexLoc
    (entries : List (Loc × Record))
    (id : UInt64) : Option Loc :=
  (KeyedLog.latest entryId entries id).bind
    (fun entry =>
      if entry.2.opType.isTerminal then none
      else some entry.1)

/-
  The location of a live task's payload: its last Created
  record, or its latest record when it has none.
-/
def dataLoc
    (entries : List (Loc × Record))
    (id : UInt64) : Option Loc :=
  (KeyedLog.latest entryId entries id).bind
    (fun entry =>
      if entry.2.opType.isTerminal then none
      else
        ((KeyedLog.latest entryId (created entries)
          id).map Prod.fst).or (some entry.1))

/- The lease of a task, for a way of placing records. -/
def lease
    (place : Record → Place)
    (entries : List (Loc × Record))
    (id : UInt64) : Option LeaseInfo :=
  (KeyedLog.latest entryId entries id).bind
    (fun entry => (place entry.2).lease?)

/- The ready tasks, in log order of their latest record. -/
def ready
    (place : Record → Place)
    (entries : List (Loc × Record)) : List TaskRef :=
  (KeyedLog.latests entryId entries).filterMap
    (fun entry => (place entry.2).task?)

/- A task without records has no Created record. -/
theorem latest_created_eq_none
    {entries : List (Loc × Record)}
    {id : UInt64}
    (hLatest : KeyedLog.latest entryId entries id = none) :
    KeyedLog.latest entryId (created entries) id = none := by
  rw [KeyedLog.latest_eq_none_iff] at hLatest ⊢
  intro entry hEntry
  exact hLatest entry (List.mem_of_mem_filter hEntry)

/- A task is ready when its latest record says so. -/
theorem mem_ready_iff
    {place : Record → Place}
    (hPlace :
      ∀ record task, place record = .ready task →
        task.id = record.id)
    {entries : List (Loc × Record)}
    {task : TaskRef} :
    task ∈ ready place entries ↔
      ∃ entry,
        KeyedLog.latest entryId entries task.id =
            some entry ∧
          place entry.2 = .ready task := by
  have hTask :
      ∀ found : Place,
        found.task? = some task ↔ found = .ready task := by
    intro found
    cases found <;> simp [Place.task?]
  simp only [ready, List.mem_filterMap, hTask,
    KeyedLog.mem_latests_iff]
  constructor
  · rintro ⟨entry, hLatest, hReady⟩
    refine ⟨entry, ?_, hReady⟩
    rw [hPlace _ _ hReady]
    exact hLatest
  · rintro ⟨entry, hLatest, hReady⟩
    refine ⟨entry, ?_, hReady⟩
    rw [hPlace _ _ hReady] at hLatest
    exact hLatest

theorem lease_eq_some_iff
    {place : Record → Place}
    {entries : List (Loc × Record)}
    {id : UInt64}
    {found : LeaseInfo} :
    lease place entries id = some found ↔
      ∃ entry,
        KeyedLog.latest entryId entries id = some entry ∧
          place entry.2 = .leased found := by
  have hLease :
      ∀ other : Place,
        other.lease? = some found ↔
          other = .leased found := by
    intro other
    cases other <;> simp [Place.lease?]
  simp [lease, Option.bind_eq_some_iff, hLease]

/- Ready tasks have pairwise different ids. -/
theorem ready_ids_nodup
    {place : Record → Place}
    (hPlace :
      ∀ record task, place record = .ready task →
        task.id = record.id)
    (entries : List (Loc × Record)) :
    ((ready place entries).map TaskRef.id).Nodup := by
  have hSublist :
      ∀ log : List (Loc × Record),
        ((log.filterMap
          (fun entry => (place entry.2).task?)).map
            TaskRef.id).Sublist (log.map entryId) := by
    intro log
    induction log with
    | nil => simp
    | cons entry log ih =>
        cases hCase : place entry.2 with
        | ready task =>
            simp only [List.filterMap_cons, hCase,
              Place.task?, List.map_cons,
              hPlace _ _ hCase]
            exact ih.cons_cons _
        | leased lease =>
            simp only [List.filterMap_cons, hCase,
              Place.task?, List.map_cons]
            exact ih.cons _
        | terminal =>
            simp only [List.filterMap_cons, hCase,
              Place.task?, List.map_cons]
            exact ih.cons _
  exact (hSublist _).nodup (KeyedLog.latests_keys_nodup _)

/- Ready tasks are listed in log order. -/
theorem ready_pairwise
    {place : Record → Place}
    (hPlace :
      ∀ record task, place record = .ready task →
        task.id = record.id)
    {entries : List (Loc × Record)}
    (hSorted :
      entries.Pairwise
        (fun left right => left.1 < right.1)) :
    (ready place entries).Pairwise
      (fun left right =>
        ∃ leftLoc rightLoc,
          (KeyedLog.latest entryId entries left.id).map
              Prod.fst = some leftLoc ∧
            (KeyedLog.latest entryId entries right.id).map
              Prod.fst = some rightLoc ∧
            leftLoc < rightLoc) := by
  have hLatest :
      ∀ entry ∈ KeyedLog.latests entryId entries,
        ∀ task, (place entry.2).task? = some task →
          (KeyedLog.latest entryId entries task.id).map
            Prod.fst = some entry.1 := by
    intro entry hEntry task hTask
    have hReady : place entry.2 = .ready task := by
      cases hCase : place entry.2 <;>
        simp_all [Place.task?]
    rw [hPlace _ _ hReady]
    have hLast := KeyedLog.mem_latests_iff.mp hEntry
    rw [entryId] at hLast
    rw [hLast]
    rfl
  rw [ready, List.pairwise_filterMap]
  have hOrder :
      (KeyedLog.latests entryId entries).Pairwise
        (fun left right => left.1 < right.1) :=
    hSorted.sublist (KeyedLog.latests_sublist entries)
  refine hOrder.imp_of_mem ?_
  intro left right hLeft hRight hLt task hTask other hOther
  exact ⟨left.1, right.1, hLatest left hLeft task hTask,
    hLatest right hRight other hOther, hLt⟩

end Replay

end Nesso
