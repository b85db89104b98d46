import Nesso.Queue.Change

/-
  Where every task of a queue is, judged by the history of
  what the clients were told.

  Key definitions include:
    * `Event`
    * `Finished`
    * `Tally`
    * `Conserved`

  Every change keeps the tasks accounted for:
    * `Conserved.add`
    * `Conserved.grant`
    * `Conserved.finish`
    * `Conserved.failure`
-/

------------------------------------------------------------
-- Histories
------------------------------------------------------------

namespace Nesso

/- What has happened to a task so far. -/
inductive Event where
| pushed (id : UInt64) (priority : UInt8) (payload : Bytes)
| leased (id : UInt64)
| acked (id : UInt64)
| nacked (id : UInt64)
| expired (id : UInt64)
deriving DecidableEq

namespace Event

def id : Event → UInt64
| pushed id _ _ => id
| leased id => id
| acked id => id
| nacked id => id
| expired id => id

/- The arguments of a push that returned the given id. -/
def pushOf (id : UInt64) : Event → Option (UInt8 × Bytes)
| pushed found priority payload =>
    if found = id then some (priority, payload) else none
| _ => none

end Event

/- The pushes that returned an id. -/
def pushes
    (history : List Event)
    (id : UInt64) : List (UInt8 × Bytes) :=
  history.filterMap (Event.pushOf id)

/- How often a task was leased. -/
def leases
    (history : List Event)
    (id : UInt64) : Nat :=
  history.count (.leased id)

/- How often a task was nacked. -/
def nacks
    (history : List Event)
    (id : UInt64) : Nat :=
  history.count (.nacked id)

/- How often a lease of a task failed. -/
def failures
    (history : List Event)
    (id : UInt64) : Nat :=
  nacks history id + history.count (.expired id)

/- A task ends when it is acked or fails too often. -/
def Finished
    (history : List Event)
    (id : UInt64) : Prop :=
  .acked id ∈ history ∨
    maxRetries.toNat ≤ failures history id

/-
  The record of a task that is not finished; `held` counts
  the lease it is under, if any.
-/
structure Tally
    (history : List Event)
    (id : UInt64)
    (priority retries : UInt8)
    (held : Nat) : Prop where
  pushes_eq :
    ∃ payload, pushes history id = [(priority, payload)]
  not_acked : .acked id ∉ history
  retries_eq : retries.toNat = failures history id
  retries_lt : retries < maxRetries
  leases_eq :
    leases history id = failures history id + held

@[simp] theorem leases_append_singleton
    (history : List Event)
    (event : Event)
    (id : UInt64) :
    leases (history ++ [event]) id =
      leases history id +
        (if event = .leased id then 1 else 0) := by
  by_cases hEvent : event = .leased id
  · simp [leases, hEvent]
  · simp [leases, hEvent]

@[simp] theorem failures_append_singleton
    (history : List Event)
    (event : Event)
    (id : UInt64) :
    failures (history ++ [event]) id =
      failures history id +
        (if event = .nacked id ∨ event = .expired id then 1
          else 0) := by
  by_cases hNacked : event = .nacked id
  · simp [failures, nacks, hNacked]
    omega
  · by_cases hExpired : event = .expired id
    · simp [failures, nacks, hExpired]
      omega
    · simp [failures, nacks, hNacked, hExpired]

/- Only a push changes the pushes. -/
theorem pushes_append_singleton
    (history : List Event)
    {event : Event}
    {id : UInt64}
    (hEvent : event.pushOf id = none) :
    pushes (history ++ [event]) id = pushes history id := by
  simp [pushes, hEvent]

/- Events of other tasks do not count. -/
theorem events_append_other
    (history : List Event)
    {event : Event}
    {id : UInt64}
    (hOther : event.id ≠ id) :
    pushes (history ++ [event]) id = pushes history id ∧
      leases (history ++ [event]) id = leases history id ∧
      nacks (history ++ [event]) id = nacks history id ∧
      failures (history ++ [event]) id =
        failures history id ∧
      (.acked id ∈ history ++ [event] ↔
        .acked id ∈ history) := by
  have hNe : id ≠ event.id := Ne.symm hOther
  cases event <;> simp only [Event.id] at hOther hNe <;>
    simp [pushes, leases, nacks, failures, Event.pushOf,
      hOther, hNe]

theorem Tally.append_other
    {history : List Event}
    {id : UInt64}
    {priority retries : UInt8}
    {held : Nat}
    (hTally : Tally history id priority retries held)
    {event : Event}
    (hOther : event.id ≠ id) :
    Tally (history ++ [event]) id priority retries held
    := by
  rcases events_append_other history hOther with
    ⟨hPushes, hLeases, _, hFailures, hAcked⟩
  constructor
  · rw [hPushes]
    exact hTally.pushes_eq
  · rw [hAcked]
    exact hTally.not_acked
  · rw [hFailures]
    exact hTally.retries_eq
  · exact hTally.retries_lt
  · rw [hLeases, hFailures]
    exact hTally.leases_eq

/- A task with a tally is not finished. -/
theorem Tally.not_finished
    {history : List Event}
    {id : UInt64}
    {priority retries : UInt8}
    {held : Nat}
    (hTally : Tally history id priority retries held) :
    ¬ Finished history id := by
  have hLt := UInt8.lt_iff_toNat_lt.mp hTally.retries_lt
  rw [hTally.retries_eq] at hLt
  rintro (hAcked | hLe)
  · exact hTally.not_acked hAcked
  · omega

end Nesso

------------------------------------------------------------
-- Conservation
------------------------------------------------------------

namespace Nesso

/- Every task is in exactly one place. -/
structure Conserved
    (inner : EngineState)
    (history : List Event) : Prop where
  known : ∀ event ∈ history, event.id < inner.nextId
  ready_nodup :
    (inner.readyQueue.tasks.map TaskRef.id).Nodup
  ready_tally :
    ∀ task ∈ inner.readyQueue.tasks,
      Tally history task.id task.priority task.retries 0
  ready_free :
    ∀ task ∈ inner.readyQueue.tasks,
      inner.leased[task.id]? = none
  leased_tally :
    ∀ (id : UInt64) (lease : LeaseInfo),
      inner.leased[id]? = some lease →
        Tally history id lease.priority lease.retries 1
  dataIndex_iff :
    ∀ id,
      id ∈ inner.dataIndex ↔
        (∃ task ∈ inner.readyQueue.tasks, task.id = id) ∨
          id ∈ inner.leased
  accounted :
    ∀ id, pushes history id ≠ [] →
      id ∈ inner.dataIndex ∨ Finished history id
  leases_le :
    ∀ id, leases history id ≤ maxRetries.toNat

namespace Conserved

variable {inner : EngineState} {history : List Event}

/- Nothing has happened to a fresh id. -/
theorem fresh
    (hInner : Conserved inner history)
    {id : UInt64}
    (hId : inner.nextId ≤ id) :
    pushes history id = [] ∧ leases history id = 0 ∧
      failures history id = 0 ∧ .acked id ∉ history := by
  have hNone : ∀ event ∈ history, event.id ≠ id := by
    rintro event hEvent rfl
    exact UInt64.not_lt.mpr hId (hInner.known event hEvent)
  refine ⟨?_, ?_, ?_, ?_⟩
  · rw [pushes, List.filterMap_eq_nil_iff]
    intro event hEvent
    have hOther := hNone event hEvent
    cases event <;> simp_all [Event.pushOf, Event.id]
  · rw [leases, List.count_eq_zero]
    intro hEvent
    exact hNone _ hEvent rfl
  · rw [failures, nacks, List.count_eq_zero.mpr,
      List.count_eq_zero.mpr]
    · intro hEvent
      exact hNone _ hEvent rfl
    · intro hEvent
      exact hNone _ hEvent rfl
  · intro hEvent
    exact hNone _ hEvent rfl

theorem known_append
    (hInner : Conserved inner history)
    {event : Event}
    (hEvent : event.id < inner.nextId) :
    ∀ other ∈ history ++ [event],
      other.id < inner.nextId := by
  intro other hOther
  rw [List.mem_append, List.mem_singleton] at hOther
  rcases hOther with hOther | rfl
  · exact hInner.known other hOther
  · exact hEvent

/- A live task has been pushed before. -/
theorem lt_of_tally
    (hInner : Conserved inner history)
    {id : UInt64}
    {priority retries : UInt8}
    {held : Nat}
    (hTally : Tally history id priority retries held) :
    id < inner.nextId := by
  by_contra hLe
  have hFresh := hInner.fresh (UInt64.not_lt.mp hLe)
  rcases hTally.pushes_eq with ⟨payload, hPushes⟩
  rw [hFresh.1] at hPushes
  simp at hPushes

/- Other pushed tasks stay accounted for. -/
theorem accounted_append
    (hInner : Conserved inner history)
    {event : Event}
    {dataIndex : Std.ExtTreeMap UInt64 Loc}
    (hOther :
      ∀ id, id ≠ event.id →
        (id ∈ inner.dataIndex → id ∈ dataIndex))
    (hSame :
      pushes (history ++ [event]) event.id ≠ [] →
        event.id ∈ dataIndex ∨
          Finished (history ++ [event]) event.id) :
    ∀ id, pushes (history ++ [event]) id ≠ [] →
      id ∈ dataIndex ∨ Finished (history ++ [event]) id := by
  intro id hPushes
  by_cases hId : id = event.id
  · subst hId
    exact hSame hPushes
  · rcases events_append_other history (Ne.symm hId) with
      ⟨hSamePushes, _, _, hFailures, hAcked⟩
    rw [hSamePushes] at hPushes
    rcases hInner.accounted id hPushes with hData | hDone
    · exact .inl (hOther id hId hData)
    · right
      rw [Finished, hAcked, hFailures]
      exact hDone

/- A new task is ready and has no past. -/
theorem add
    (hInner : Conserved inner history)
    (hLeft : inner.IdsLeft)
    (priority : UInt8)
    (payload : Bytes)
    (loc : Loc) :
    Conserved
      (Change.apply inner loc (.add priority payload))
      (history ++
        [.pushed inner.nextId priority payload]) := by
  have hLt := UInt64.lt_add_one_of_ne hLeft
  rcases hInner.fresh (UInt64.le_refl _) with
    ⟨hPushes, hLeases, hFailures, hAcked⟩
  have hPerm :=
    ReadyQueue.tasks_push_perm inner.readyQueue
      ⟨inner.nextId, priority, 0⟩
  have hOldReady :
      ∀ task ∈ inner.readyQueue.tasks,
        task.id ≠ inner.nextId := by
    intro task hTask hId
    have hOld := hInner.lt_of_tally
      (hInner.ready_tally task hTask)
    rw [hId] at hOld
    exact UInt64.lt_irrefl _ hOld
  have hOldLeased :
      ∀ (id : UInt64) (lease : LeaseInfo),
        inner.leased[id]? = some lease →
          id ≠ inner.nextId := by
    rintro id lease hLease rfl
    exact UInt64.lt_irrefl _ (hInner.lt_of_tally
      (hInner.leased_tally _ lease hLease))
  have hNotLeased : inner.leased[inner.nextId]? = none := by
    cases hLease : inner.leased[inner.nextId]? with
    | none => rfl
    | some lease =>
        exact (hOldLeased _ lease hLease rfl).elim
  have hTally :
      Tally
        (history ++ [.pushed inner.nextId priority payload])
        inner.nextId priority 0 0 := by
    constructor
    · refine ⟨payload, ?_⟩
      rw [pushes, List.filterMap_append]
      rw [pushes] at hPushes
      rw [hPushes]
      simp [Event.pushOf]
    · simp [hAcked]
    · simp [hFailures]
    · decide
    · simp [hFailures, hLeases]
  constructor
  · intro event hEvent
    rw [List.mem_append, List.mem_singleton] at hEvent
    rcases hEvent with hEvent | rfl
    · exact UInt64.lt_trans (hInner.known event hEvent) hLt
    · exact hLt
  · simp only [Change.apply]
    rw [(hPerm.map _).nodup_iff, List.map_cons,
      List.nodup_cons]
    refine ⟨?_, hInner.ready_nodup⟩
    intro hMem
    rcases List.mem_map.mp hMem with ⟨task, hTask, hId⟩
    exact hOldReady task hTask hId
  · intro task hTask
    rcases List.mem_cons.mp (hPerm.mem_iff.mp hTask) with
      rfl | hOld
    · exact hTally
    · exact (hInner.ready_tally task hOld).append_other
        (hOldReady task hOld).symm
  · intro task hTask
    rcases List.mem_cons.mp (hPerm.mem_iff.mp hTask) with
      rfl | hOld
    · exact hNotLeased
    · exact hInner.ready_free task hOld
  · intro id lease hLease
    exact (hInner.leased_tally id lease hLease).append_other
      (hOldLeased id lease hLease).symm
  · intro id
    simp only [Change.apply, Std.ExtTreeMap.mem_insert,
      Std.LawfulEqCmp.compare_eq_iff_eq]
    rw [hInner.dataIndex_iff]
    constructor
    · rintro (rfl | hOld | hOld)
      · exact .inl ⟨⟨inner.nextId, priority, 0⟩,
          hPerm.mem_iff.mpr (by simp), rfl⟩
      · rcases hOld with ⟨task, hTask, rfl⟩
        exact .inl ⟨task,
          hPerm.mem_iff.mpr (by simp [hTask]), rfl⟩
      · exact .inr hOld
    · rintro (⟨task, hTask, rfl⟩ | hLeased)
      · rcases List.mem_cons.mp (hPerm.mem_iff.mp hTask)
          with rfl | hOld
        · exact .inl rfl
        · exact .inr (.inl ⟨task, hOld, rfl⟩)
      · exact .inr (.inr hLeased)
  · apply hInner.accounted_append
    · intro id _ hData
      simp only [Change.apply, Std.ExtTreeMap.mem_insert]
      exact .inr hData
    · intro _
      simp [Change.apply, Event.id]
  · intro id
    simpa using hInner.leases_le id

/- A popped task is held under one more lease. -/
theorem grant
    (hInner : Conserved inner history)
    {task : TaskRef}
    {rest : ReadyQueue}
    (hPop : inner.readyQueue.pop = some (task, rest))
    (consumerId : UInt32)
    (expireTimestamp : UInt64)
    (loc : Loc) :
    Conserved
      (Change.apply inner loc
        (.grant task rest consumerId expireTimestamp))
      (history ++ [.leased task.id]) := by
  have hPerm := ReadyQueue.tasks_pop_perm hPop
  have hTask : task ∈ inner.readyQueue.tasks :=
    hPerm.mem_iff.mpr (by simp)
  have hTally := hInner.ready_tally task hTask
  have hRest :
      ∀ other ∈ rest.tasks,
        other ∈ inner.readyQueue.tasks ∧
          other.id ≠ task.id := by
    intro other hOther
    have hNodup := hInner.ready_nodup
    rw [(hPerm.map _).nodup_iff, List.map_cons,
      List.nodup_cons] at hNodup
    refine ⟨hPerm.mem_iff.mpr (by simp [hOther]), ?_⟩
    intro hId
    exact hNodup.1 (List.mem_map.mpr ⟨other, hOther, hId⟩)
  have hGranted :
      Tally (history ++ [.leased task.id]) task.id
        task.priority task.retries 1 := by
    constructor
    · rw [pushes_append_singleton _ rfl]
      exact hTally.pushes_eq
    · simpa using hTally.not_acked
    · simpa using hTally.retries_eq
    · exact hTally.retries_lt
    · simpa using hTally.leases_eq
  have hLeased :
      ∀ id,
        (Change.apply inner loc
          (.grant task rest consumerId
            expireTimestamp)).leased[id]? =
          if task.id = id then
            some ⟨consumerId, expireTimestamp,
              task.retries, task.priority⟩
          else inner.leased[id]? := by
    intro id
    simp [Change.apply, Std.ExtTreeMap.getElem?_insert]
  constructor
  · exact hInner.known_append (hInner.lt_of_tally hTally)
  · have hNodup := hInner.ready_nodup
    rw [(hPerm.map _).nodup_iff, List.map_cons,
      List.nodup_cons] at hNodup
    exact hNodup.2
  · intro other hOther
    have hOld := hRest other hOther
    exact (hInner.ready_tally other hOld.1).append_other
      (Ne.symm hOld.2)
  · intro other hOther
    have hOld := hRest other hOther
    rw [hLeased, if_neg (Ne.symm hOld.2)]
    exact hInner.ready_free other hOld.1
  · intro id lease hLease
    rw [hLeased] at hLease
    split at hLease
    · next hId =>
        subst hId
        rw [Option.some.injEq] at hLease
        rw [← hLease]
        exact hGranted
    · next hId =>
        exact (hInner.leased_tally id lease
          hLease).append_other hId
  · intro id
    have hMem :
        id ∈ (Change.apply inner loc
            (.grant task rest consumerId
              expireTimestamp)).leased ↔
          task.id = id ∨ id ∈ inner.leased := by
      simp [Change.apply, Std.ExtTreeMap.mem_insert]
    rw [hMem]
    change id ∈ inner.dataIndex ↔
      (∃ other ∈ rest.tasks, other.id = id) ∨ _
    rw [hInner.dataIndex_iff]
    constructor
    · rintro (⟨other, hOther, rfl⟩ | hOld)
      · rcases List.mem_cons.mp (hPerm.mem_iff.mp hOther)
          with rfl | hOther
        · exact .inr (.inl rfl)
        · exact .inl ⟨other, hOther, rfl⟩
      · exact .inr (.inr hOld)
    · rintro (⟨other, hOther, rfl⟩ | rfl | hOld)
      · exact .inl ⟨other, (hRest other hOther).1, rfl⟩
      · exact .inl ⟨task, hTask, rfl⟩
      · exact .inr hOld
  · apply hInner.accounted_append
    · intro id _ hData
      exact hData
    · intro _
      left
      change task.id ∈ inner.dataIndex
      rw [hInner.dataIndex_iff]
      exact .inl ⟨task, hTask, rfl⟩
  · intro id
    by_cases hId : task.id = id
    · subst hId
      have hLt :=
        UInt8.lt_iff_toNat_lt.mp hTally.retries_lt
      have hLeases := hTally.leases_eq
      have hRetries := hTally.retries_eq
      rw [leases_append_singleton]
      simp only [if_true]
      omega
    · simpa [hId] using hInner.leases_le id

/-
  A leased task that ends: the event is its ack, or its last
  failure.
-/
theorem finish
    (hInner : Conserved inner history)
    {id : UInt64}
    {lease : LeaseInfo}
    (hLease : inner.leased[id]? = some lease)
    {event : Event}
    (hEvent : event.id = id)
    (hPush : event.pushOf id = none)
    (hFinished : Finished (history ++ [event]) id)
    (hLeases : event ≠ .leased id)
    (deadRetries : Option UInt8)
    (loc : Loc) :
    Conserved
      (Change.apply inner loc
        (.finish id lease.priority deadRetries))
      (history ++ [event]) := by
  have hTally := hInner.leased_tally id lease hLease
  have hReady :
      ∀ task ∈ inner.readyQueue.tasks, task.id ≠ id := by
    rintro task hTask rfl
    rw [hInner.ready_free task hTask] at hLease
    simp at hLease
  constructor
  · apply hInner.known_append
    rw [hEvent]
    exact hInner.lt_of_tally hTally
  · exact hInner.ready_nodup
  · intro task hTask
    apply (hInner.ready_tally task hTask).append_other
    rw [hEvent]
    exact Ne.symm (hReady task hTask)
  · intro task hTask
    have hNe := Ne.symm (hReady task hTask)
    simp only [Change.apply,
      Std.ExtTreeMap.getElem?_erase]
    simp [hNe, hInner.ready_free task hTask]
  · intro other found hFound
    simp only [Change.apply,
      Std.ExtTreeMap.getElem?_erase] at hFound
    split at hFound
    · simp at hFound
    · next hNe =>
        apply (hInner.leased_tally other found
          hFound).append_other
        rw [hEvent]
        simpa using hNe
  · intro other
    simp only [Change.apply, Std.ExtTreeMap.mem_erase,
      hInner.dataIndex_iff]
    constructor
    · rintro ⟨hNe, hOld | hOld⟩
      · exact .inl hOld
      · exact .inr ⟨hNe, hOld⟩
    · rintro (⟨task, hTask, rfl⟩ | ⟨hNe, hOld⟩)
      · refine ⟨?_, .inl ⟨task, hTask, rfl⟩⟩
        simpa using Ne.symm (hReady task hTask)
      · exact ⟨hNe, .inr hOld⟩
  · apply hInner.accounted_append
    · intro other hOther hData
      rw [hEvent] at hOther
      simp only [Change.apply, Std.ExtTreeMap.mem_erase]
      exact ⟨by simpa using Ne.symm hOther, hData⟩
    · intro _
      right
      rw [hEvent]
      exact hFinished
  · intro other
    by_cases hOther : event = .leased other
    · have hId : other = id := by
        rw [← hEvent, hOther]
        rfl
      rw [hId] at hOther
      exact (hLeases hOther).elim
    · simpa [hOther] using hInner.leases_le other

/- A failed task waits again with one more retry. -/
theorem retry
    (hInner : Conserved inner history)
    {id : UInt64}
    {lease : LeaseInfo}
    (hLease : inner.leased[id]? = some lease)
    {event : Event}
    (hEvent : event = .nacked id ∨ event = .expired id)
    {retries : UInt8}
    (hRetries : retries.toNat = lease.retries.toNat + 1)
    (hLt : retries < maxRetries)
    (failureType : OpType)
    (loc : Loc) :
    Conserved
      (Change.apply inner loc
        (.retry id lease.priority retries failureType))
      (history ++ [event]) := by
  have hTally := hInner.leased_tally id lease hLease
  have hEventId : event.id = id := by
    rcases hEvent with rfl | rfl <;> rfl
  have hReady :
      ∀ task ∈ inner.readyQueue.tasks, task.id ≠ id := by
    rintro task hTask rfl
    rw [hInner.ready_free task hTask] at hLease
    simp at hLease
  have hPerm :=
    ReadyQueue.tasks_push_perm inner.readyQueue
      ⟨id, lease.priority, retries⟩
  have hNext :
      Tally (history ++ [event]) id lease.priority retries
        0 := by
    have hOldRetries := hTally.retries_eq
    have hLeases := hTally.leases_eq
    constructor
    · rw [pushes_append_singleton]
      · exact hTally.pushes_eq
      · rcases hEvent with rfl | rfl <;> rfl
    · rcases hEvent with rfl | rfl <;>
        simpa using hTally.not_acked
    · rw [failures_append_singleton, if_pos hEvent]
      omega
    · exact hLt
    · rw [failures_append_singleton, if_pos hEvent,
        leases_append_singleton, if_neg]
      · omega
      · rcases hEvent with rfl | rfl <;> simp
  constructor
  · apply hInner.known_append
    rw [hEventId]
    exact hInner.lt_of_tally hTally
  · simp only [Change.apply]
    rw [(hPerm.map _).nodup_iff, List.map_cons,
      List.nodup_cons]
    refine ⟨?_, hInner.ready_nodup⟩
    intro hMem
    rcases List.mem_map.mp hMem with ⟨task, hTask, hId⟩
    exact hReady task hTask hId
  · intro task hTask
    rcases List.mem_cons.mp (hPerm.mem_iff.mp hTask) with
      rfl | hOld
    · exact hNext
    · apply (hInner.ready_tally task hOld).append_other
      rw [hEventId]
      exact Ne.symm (hReady task hOld)
  · intro task hTask
    simp only [Change.apply,
      Std.ExtTreeMap.getElem?_erase]
    rcases List.mem_cons.mp (hPerm.mem_iff.mp hTask) with
      rfl | hOld
    · simp
    · have hNe := Ne.symm (hReady task hOld)
      simp [hNe, hInner.ready_free task hOld]
  · intro other found hFound
    simp only [Change.apply,
      Std.ExtTreeMap.getElem?_erase] at hFound
    split at hFound
    · simp at hFound
    · next hNe =>
        apply (hInner.leased_tally other found
          hFound).append_other
        rw [hEventId]
        simpa using hNe
  · intro other
    simp only [Change.apply, Std.ExtTreeMap.mem_erase,
      hInner.dataIndex_iff]
    constructor
    · rintro (⟨task, hTask, rfl⟩ | hOld)
      · exact .inl ⟨task,
          hPerm.mem_iff.mpr (by simp [hTask]), rfl⟩
      · by_cases hOther : id = other
        · exact .inl ⟨⟨id, lease.priority, retries⟩,
            hPerm.mem_iff.mpr (by simp), hOther⟩
        · exact .inr ⟨by simpa using hOther, hOld⟩
    · rintro (⟨task, hTask, rfl⟩ | ⟨_, hOld⟩)
      · rcases List.mem_cons.mp (hPerm.mem_iff.mp hTask)
          with rfl | hOld
        · right
          exact Std.ExtTreeMap.isSome_getElem?_iff_mem.mp
            (by rw [hLease]; rfl)
        · exact .inl ⟨task, hOld, rfl⟩
      · exact .inr hOld
  · apply hInner.accounted_append
    · intro other _ hData
      exact hData
    · intro _
      left
      rw [hEventId]
      change id ∈ inner.dataIndex
      rw [hInner.dataIndex_iff]
      right
      exact Std.ExtTreeMap.isSome_getElem?_iff_mem.mp
        (by rw [hLease]; rfl)
  · intro other
    have hNe : event ≠ .leased other := by
      rcases hEvent with rfl | rfl <;> simp
    simpa [hNe] using hInner.leases_le other

/- A failed delivery retries the task or ends it. -/
theorem failure
    (hInner : Conserved inner history)
    {id : UInt64}
    {lease : LeaseInfo}
    (hLease : inner.leased[id]? = some lease)
    {event : Event}
    (hEvent : event = .nacked id ∨ event = .expired id)
    (failureType : OpType)
    (loc : Loc) :
    Conserved
      (Change.apply inner loc
        (.failure id lease.priority lease.retries
          failureType))
      (history ++ [event]) := by
  have hTally := hInner.leased_tally id lease hLease
  have hOld := UInt8.lt_iff_toNat_lt.mp hTally.retries_lt
  have hMax : maxRetries.toNat = 3 := rfl
  have hRetries :
      (lease.retries + 1).toNat =
        lease.retries.toNat + 1 := by
    rw [UInt8.toNat_add]
    have hOne : (1 : UInt8).toNat = 1 := rfl
    omega
  unfold Change.failure
  split
  · next hDead =>
      apply hInner.finish hLease
      · rcases hEvent with rfl | rfl <;> rfl
      · rcases hEvent with rfl | rfl <;> rfl
      · right
        have hCount := hTally.retries_eq
        have hLe := UInt8.le_iff_toNat_le.mp hDead
        rw [failures_append_singleton, if_pos hEvent]
        omega
      · rcases hEvent with rfl | rfl <;> simp
  · next hAlive =>
      exact hInner.retry hLease hEvent hRetries
        (UInt8.not_le.mp hAlive) failureType loc

/- A finished task is nowhere. -/
theorem not_live_of_finished
    (hInner : Conserved inner history)
    {id : UInt64}
    (hFinished : Finished history id) :
    (∀ task ∈ inner.readyQueue.tasks, task.id ≠ id) ∧
      id ∉ inner.leased ∧ id ∉ inner.dataIndex := by
  have hReady :
      ∀ task ∈ inner.readyQueue.tasks, task.id ≠ id := by
    rintro task hTask rfl
    exact (hInner.ready_tally task hTask).not_finished
      hFinished
  have hLeased : id ∉ inner.leased := by
    intro hMem
    rcases Option.isSome_iff_exists.mp
      (Std.ExtTreeMap.isSome_getElem?_iff_mem.mpr hMem) with
      ⟨lease, hLease⟩
    exact (hInner.leased_tally id lease hLease).not_finished
      hFinished
  refine ⟨hReady, hLeased, ?_⟩
  rw [hInner.dataIndex_iff]
  rintro (⟨task, hTask, hId⟩ | hMem)
  · exact hReady task hTask hId
  · exact hLeased hMem

/- Only the places and the id counter matter. -/
theorem of_places_eq
    (hInner : Conserved inner history)
    {next : EngineState}
    (hNextId : next.nextId = inner.nextId)
    (hReady : next.readyQueue = inner.readyQueue)
    (hLeased : next.leased = inner.leased)
    (hData :
      ∀ id, id ∈ next.dataIndex ↔ id ∈ inner.dataIndex) :
    Conserved next history := by
  constructor
  · rw [hNextId]
    exact hInner.known
  · rw [hReady]
    exact hInner.ready_nodup
  · rw [hReady]
    exact hInner.ready_tally
  · rw [hReady, hLeased]
    exact hInner.ready_free
  · rw [hLeased]
    exact hInner.leased_tally
  · intro id
    rw [hData, hReady, hLeased]
    exact hInner.dataIndex_iff id
  · intro id hPushes
    rw [hData]
    exact hInner.accounted id hPushes
  · exact hInner.leases_le

end Conserved

/- An empty queue with no history. -/
theorem conserved_nil
    {inner : EngineState}
    (hReady : inner.readyQueue.tasks = [])
    (hLeased : inner.leased = ∅)
    (hData : inner.dataIndex = ∅) :
    Conserved inner [] := by
  constructor <;>
    simp [hReady, hLeased, hData, pushes, leases]

end Nesso
