import Nesso.Queue.System
import Nesso.Storage.Checksum

/-
  Conservation of tasks under client operations and
  compaction.

  Key definitions include:
    * `Action.IsClient`
    * `pushedIds`
    * `Engine.readyCount`
    * `TaskConservation`

  The main theorem is:
    * `clientRun_conserves_tasks`
-/

------------------------------------------------------------
-- Client Runs
------------------------------------------------------------

namespace Nesso

/- Everything but the expiration worker. -/
def Action.IsClient : Action → Prop
| .snapshotExpired _ _ => False
| .processExpired => False
| _ => True

/- Runs of clients and compactions on a new queue. -/
def ClientRun [Hasher]
    (maxSegmentSize : Option Nat)
    (cacheCapacity : Nat)
    (start : UInt64) :
    List Action → System → Prop :=
  Transition.Run System.step
    (fun _ action => action.IsClient)
    (System.start maxSegmentSize cacheCapacity start)

/- The ids that `push` has returned. -/
def pushedIds (history : List Event) : List UInt64 :=
  history.filterMap (fun event =>
    match event with
    | .pushed id _ _ => some id
    | _ => none)

/- How many entries of the ready queue name a task. -/
def Engine.readyCount
    (engine : Engine)
    (id : UInt64) : Nat :=
  (engine.inner.readyQueue.tasks.map TaskRef.id).count id

/- Every pushed task is in one place, and stays traceable. -/
structure TaskConservation [Hasher]
    (system : System) : Prop where
  one_place :
    ∀ id ∈ pushedIds system.history,
      (system.engine.readyCount id = 1 ∧
          id ∉ system.engine.inner.leased ∧
          ¬ Finished system.history id) ∨
        (system.engine.readyCount id = 0 ∧
          id ∈ system.engine.inner.leased ∧
          ¬ Finished system.history id) ∨
        (system.engine.readyCount id = 0 ∧
          id ∉ system.engine.inner.leased ∧
          Finished system.history id)
  dataIndex_keys :
    ∀ id,
      id ∈ system.engine.inner.dataIndex ↔
        0 < system.engine.readyCount id ∨
          id ∈ system.engine.inner.leased
  status_eq :
    system.engine.status =
      (((pushedIds system.history).filter
          (fun id =>
            0 < system.engine.readyCount id)).length,
        ((pushedIds system.history).filter
          (fun id =>
            id ∈ system.engine.inner.leased)).length)
  task_fields :
    ∀ task ∈ system.engine.inner.readyQueue.tasks,
      (∃ payload,
        pushes system.history task.id =
          [(task.priority, payload)]) ∧
        task.retries.toNat =
          nacks system.history task.id ∧
        task.retries < maxRetries
  lease_fields :
    ∀ (id : UInt64) (lease : LeaseInfo),
      system.engine.inner.leased[id]? = some lease →
        (∃ payload,
          pushes system.history id =
            [(lease.priority, payload)]) ∧
          lease.retries.toNat = nacks system.history id ∧
          lease.retries < maxRetries
  third_nack :
    ∀ id consumerId,
      (system.engine.nack none id consumerId).1 = .ok () →
        nacks system.history id + 1 = maxRetries.toNat →
          (system.engine.nack none id
              consumerId).2.readyCount id = 0 ∧
            id ∉ (system.engine.nack none id
              consumerId).2.inner.leased ∧
            id ∉ (system.engine.nack none id
              consumerId).2.inner.dataIndex
  ack_iff :
    ∀ id consumerId,
      (system.engine.ack none id consumerId).1 = .ok () ↔
        ∃ lease,
          system.engine.inner.leased[id]? = some lease ∧
            lease.consumerId = consumerId
  nack_iff :
    ∀ id consumerId,
      (system.engine.nack none id consumerId).1 = .ok () ↔
        ∃ lease,
          system.engine.inner.leased[id]? = some lease ∧
            lease.consumerId = consumerId
  pop_live :
    ∀ consumerId now leaseTtlSecs record retries,
      (system.engine.popAndLease none consumerId now
          leaseTtlSecs).1 = .ok (some (record, retries)) →
        ¬ Finished system.history record.id
  leases_le :
    ∀ id, leases system.history id ≤ maxRetries.toNat

end Nesso

------------------------------------------------------------
-- Counting Tasks
------------------------------------------------------------

namespace Nesso

theorem count_pushedIds
    (history : List Event)
    (id : UInt64) :
    (pushedIds history).count id =
      (pushes history id).length := by
  induction history with
  | nil => rfl
  | cons event history ih =>
      cases event with
      | pushed found priority payload =>
          rw [pushedIds, List.filterMap_cons, pushes,
            List.filterMap_cons]
          by_cases hId : found = id
          · simpa [Event.pushOf, hId, pushedIds, pushes]
              using ih
          · simpa [Event.pushOf, hId, pushedIds, pushes]
              using ih
      | _ => exact ih

theorem mem_pushedIds_iff
    {history : List Event}
    {id : UInt64} :
    id ∈ pushedIds history ↔ pushes history id ≠ [] := by
  rw [← List.count_pos_iff, count_pushedIds,
    List.length_pos_iff]

theorem Engine.readyCount_pos_iff
    {engine : Engine}
    {id : UInt64} :
    0 < engine.readyCount id ↔
      ∃ task ∈ engine.inner.readyQueue.tasks,
        task.id = id := by
  rw [Engine.readyCount, List.count_pos_iff, List.mem_map]

namespace Conserved

variable {engine : Engine} {history : List Event}

/- An id is never ready twice. -/
theorem readyCount_le_one
    (hInner : Conserved engine.inner history)
    (id : UInt64) :
    engine.readyCount id ≤ 1 :=
  List.nodup_iff_count_le_one.mp hInner.ready_nodup id

/- Pushed ids that are live occur once. -/
theorem filter_pushedIds_perm
    {ids : List UInt64}
    (hNodup : ids.Nodup)
    {p : UInt64 → Prop} [DecidablePred p]
    (hMem : ∀ id, p id ↔ id ∈ ids)
    (hOnce :
      ∀ id, p id → (pushes history id).length = 1) :
    ((pushedIds history).filter (fun id => p id)).length =
      ids.length := by
  apply List.Perm.length_eq
  rw [List.perm_iff_count]
  intro id
  by_cases hId : p id
  · rw [List.count_filter (by simpa using hId),
      count_pushedIds, hOnce id hId,
      List.count_eq_one_of_mem hNodup ((hMem id).mp hId)]
  · rw [List.count_eq_zero.mpr, List.count_eq_zero.mpr]
    · intro hMember
      exact hId ((hMem id).mpr hMember)
    · intro hMember
      have hP := (List.mem_filter.mp hMember).2
      exact hId (by simpa using hP)

/- A live task was pushed exactly once. -/
theorem length_pushes_of_live
    (hInner : Conserved engine.inner history)
    {id : UInt64}
    (hLive : id ∈ engine.inner.dataIndex) :
    (pushes history id).length = 1 := by
  rcases (hInner.dataIndex_iff id).mp hLive with
    ⟨task, hTask, rfl⟩ | hLeased
  · rcases (hInner.ready_tally task hTask).pushes_eq with
      ⟨payload, hPushes⟩
    rw [hPushes]
    rfl
  · rcases Option.isSome_iff_exists.mp
      (Std.ExtTreeMap.isSome_getElem?_iff_mem.mpr hLeased)
      with ⟨lease, hLease⟩
    rcases (hInner.leased_tally id lease hLease).pushes_eq
      with ⟨payload, hPushes⟩
    rw [hPushes]
    rfl

theorem status_eq
    (hInner : Conserved engine.inner history) :
    engine.status =
      (((pushedIds history).filter
          (fun id => 0 < engine.readyCount id)).length,
        ((pushedIds history).filter
          (fun id => id ∈ engine.inner.leased)).length) := by
  rw [Engine.status, ReadyQueue.len_eq]
  congr 1
  · rw [filter_pushedIds_perm hInner.ready_nodup]
    · rw [List.length_map]
    · intro id
      rw [Engine.readyCount_pos_iff, List.mem_map]
    · intro id hReady
      apply hInner.length_pushes_of_live
      rw [hInner.dataIndex_iff]
      exact .inl (Engine.readyCount_pos_iff.mp hReady)
  · rw [filter_pushedIds_perm
      (Std.ExtTreeMap.nodup_keys
        (t := engine.inner.leased))]
    · rw [Std.ExtTreeMap.length_keys]
    · intro id
      rw [Std.ExtTreeMap.mem_keys]
    · intro id hLeased
      apply hInner.length_pushes_of_live
      rw [hInner.dataIndex_iff]
      exact .inr hLeased

/- The place of a pushed task. -/
theorem one_place
    (hInner : Conserved engine.inner history)
    {id : UInt64}
    (hPushed : id ∈ pushedIds history) :
    (engine.readyCount id = 1 ∧
        id ∉ engine.inner.leased ∧ ¬ Finished history id) ∨
      (engine.readyCount id = 0 ∧
        id ∈ engine.inner.leased ∧ ¬ Finished history id) ∨
      (engine.readyCount id = 0 ∧
        id ∉ engine.inner.leased ∧ Finished history id) := by
  have hLe := hInner.readyCount_le_one id
  rw [mem_pushedIds_iff] at hPushed
  have hNotReady :
      (∀ task ∈ engine.inner.readyQueue.tasks,
        task.id ≠ id) → engine.readyCount id = 0 := by
    intro hNone
    by_contra hPos
    rcases Engine.readyCount_pos_iff.mp
      (Nat.pos_of_ne_zero hPos) with ⟨task, hTask, hId⟩
    exact hNone task hTask hId
  rcases hInner.accounted id hPushed with hLive | hDone
  · rcases (hInner.dataIndex_iff id).mp hLive with
      ⟨task, hTask, hId⟩ | hLeased
    · left
      have hPos :=
        Engine.readyCount_pos_iff.mpr ⟨task, hTask, hId⟩
      have hFree := hInner.ready_free task hTask
      have hTally := hInner.ready_tally task hTask
      rw [hId] at hFree hTally
      refine ⟨by omega, ?_, hTally.not_finished⟩
      rw [← Std.ExtTreeMap.isSome_getElem?_iff_mem, hFree]
      simp
    · right
      left
      rcases Option.isSome_iff_exists.mp
        (Std.ExtTreeMap.isSome_getElem?_iff_mem.mpr hLeased)
        with ⟨lease, hLease⟩
      refine ⟨hNotReady ?_, hLeased,
        (hInner.leased_tally id lease hLease).not_finished⟩
      rintro task hTask rfl
      rw [hInner.ready_free task hTask] at hLease
      simp at hLease
  · right
    right
    rcases hInner.not_live_of_finished hDone with
      ⟨hReady, hLeased, _⟩
    exact ⟨hNotReady hReady, hLeased, hDone⟩

end Conserved

end Nesso

------------------------------------------------------------
-- Conservation in Client Runs
------------------------------------------------------------

namespace Nesso

variable [Hasher]

/- Client actions never record an expiry. -/
theorem System.no_expiry_step
    {system next : System}
    (hSystem : ∀ id, .expired id ∉ system.history)
    {action : Action}
    (hAction : action.IsClient)
    (hStep : system.step action = some next) :
    ∀ id, .expired id ∉ next.history := by
  have hAppend :
      ∀ events : List Event,
        next.history = system.history ++ events →
          (∀ id, .expired id ∉ events) →
            ∀ id, .expired id ∉ next.history := by
    intro events hHistory hEvents id hMem
    rw [hHistory, List.mem_append] at hMem
    rcases hMem with hOld | hNew
    · exact hSystem id hOld
    · exact hEvents id hNew
  cases action with
  | push payload priority =>
      rw [step, push] at hStep
      split at hStep
      · simp at hStep
      · rw [Option.some.injEq] at hStep
        apply hAppend _ (by rw [← hStep])
        rw [Engine.push_none]
        simp [eventIf]
  | popLocked consumerId now leaseTtlSecs =>
      rw [step, Option.some.injEq] at hStep
      apply hAppend (grantEvents system.engine)
        (by rw [← hStep]; rfl)
      unfold grantEvents
      split <;> simp
  | popRead ticket =>
      rw [step, Option.some.injEq] at hStep
      rw [← hStep]
      exact hSystem
  | ack id consumerId =>
      rw [step, Option.some.injEq] at hStep
      apply hAppend _ (by rw [← hStep]; rfl)
      unfold eventIf
      split <;> simp
  | nack id consumerId =>
      rw [step, Option.some.injEq] at hStep
      apply hAppend _ (by rw [← hStep]; rfl)
      unfold eventIf
      split <;> simp
  | compactPlan =>
      rw [step, compactPlan] at hStep
      split at hStep
      · split at hStep <;>
          (rw [Option.some.injEq] at hStep
           rw [← hStep]
           exact hSystem)
      · simp at hStep
  | compactPhase1 =>
      rw [step, compactPhase1] at hStep
      split at hStep
      · rw [Option.some.injEq] at hStep
        rw [← hStep]
        exact hSystem
      · simp at hStep
  | compactPhase2 =>
      rw [step, compactPhase2] at hStep
      split at hStep
      · rw [Option.some.injEq] at hStep
        rw [← hStep]
        exact hSystem
      · simp at hStep
  | snapshotExpired now tasks => exact hAction.elim
  | processExpired => exact hAction.elim
  | clearPayloadCache =>
      rw [step, Option.some.injEq] at hStep
      rw [← hStep]
      exact hSystem

/- Along a client run all failures are nacks. -/
theorem ClientRun.conserves
    {maxSegmentSize : Option Nat}
    {cacheCapacity : Nat}
    {start : UInt64}
    {actions : List Action}
    {system : System}
    (hRun :
      ClientRun maxSegmentSize cacheCapacity start actions
        system) :
    system.Conserves ∧
      ∀ id, .expired id ∉ system.history := by
  induction hRun with
  | start =>
      refine ⟨System.conserves_start _ _ _, ?_⟩
      simp [System.start]
  | step _ hAction hStep ih =>
      refine ⟨System.conserves_step ih.1 ?_ hStep,
        System.no_expiry_step ih.2 hAction hStep⟩
      rintro rfl
      exact hAction

omit [Hasher] in
theorem failures_eq_nacks
    {history : List Event}
    (hNone : ∀ id, .expired id ∉ history)
    (id : UInt64) :
    failures history id = nacks history id := by
  rw [failures, List.count_eq_zero.mpr (hNone id),
    Nat.add_zero]

/-
  Whatever clients and compactions do, and in whatever order,
  no task is lost or duplicated.
-/
theorem clientRun_conserves_tasks
    {maxSegmentSize : Option Nat}
    {cacheCapacity : Nat}
    {start : UInt64}
    {actions : List Action}
    {system : System}
    (hRun :
      ClientRun maxSegmentSize cacheCapacity start actions
        system) :
    TaskConservation system := by
  rcases hRun.conserves with ⟨hInner, hNone⟩
  have hFailures := failures_eq_nacks hNone
  constructor
  · intro id hPushed
    exact Conserved.one_place hInner hPushed
  · intro id
    rw [hInner.dataIndex_iff, Engine.readyCount_pos_iff]
  · exact Conserved.status_eq hInner
  · intro task hTask
    have hTally := hInner.ready_tally task hTask
    rw [← hFailures]
    exact ⟨hTally.pushes_eq, hTally.retries_eq,
      hTally.retries_lt⟩
  · intro id lease hLease
    have hTally := hInner.leased_tally id lease hLease
    rw [← hFailures]
    exact ⟨hTally.pushes_eq, hTally.retries_eq,
      hTally.retries_lt⟩
  · intro id consumerId hNack hThird
    have hNext :
        (system.nack id consumerId).Conserves :=
      System.conserves_step hInner
        (by simp : Action.nack id consumerId ≠ _) rfl
    have hHistory :
        (system.nack id consumerId).history =
          system.history ++ [.nacked id] := by
      simp only [System.nack, hNack]
      rfl
    have hFinished :
        Finished (system.nack id consumerId).history
          id := by
      right
      rw [hHistory, failures_append_singleton, hFailures]
      simp only [true_or, if_true]
      omega
    rcases Conserved.not_live_of_finished hNext hFinished
      with ⟨hReady, hLeased, hData⟩
    refine ⟨?_, hLeased, hData⟩
    rw [Engine.readyCount, List.count_eq_zero]
    intro hMem
    rcases List.mem_map.mp hMem with ⟨task, hTask, hId⟩
    exact hReady task hTask hId
  · exact system.engine.ack_eq_ok_iff
  · exact system.engine.nack_eq_ok_iff
  · intro consumerId now leaseTtlSecs record retries hPop
    rcases Engine.popAndLease_eq_some hPop with
      ⟨task, rest, dataLoc, hReady, _, hId, _, _⟩
    rw [hId]
    apply (hInner.ready_tally task ?_).not_finished
    exact (ReadyQueue.tasks_pop_perm hReady).mem_iff.mpr
      (by simp)
  · exact hInner.leases_le

end Nesso

------------------------------------------------------------
-- A Client Run
------------------------------------------------------------

namespace Nesso

/- Two tasks of which one is delivered and nacked. -/
def nackedOnce : List Action :=
  [.push [7] 5, .push [8] 9, .popLocked 1 10 100,
    .nack 2 1, .popLocked 3 20 100]

set_option maxRecDepth 100000 in
theorem clientRun_conserves_tasks_nackedOnce :
    ∃ system,
      ClientRun (some 64) 4 0 nackedOnce system ∧
        system.engine.status = (1, 1) ∧
        TaskConservation system := by
  have hAllowed :
      ∀ system : System, ∀ action ∈ nackedOnce,
        action.IsClient := by
    simp [nackedOnce, Action.IsClient]
  have hEnd :
      (Transition.execute System.step nackedOnce
        (System.start (some 64) 4 0)).any
          (fun system =>
            system.engine.status = (1, 1)) = true := by
    decide +kernel
  rcases Transition.exists_run_of_execute hAllowed hEnd with
    ⟨system, hRun, hStatus⟩
  exact ⟨system, hRun, of_decide_eq_true hStatus,
    clientRun_conserves_tasks hRun⟩

end Nesso
