import Nesso.Queue.System
import Nesso.Storage.Checksum

/-
  The expiration worker: a snapshot of the expired leases in
  one critical section, their failure in a later one.

  Key definitions include:
    * `Undisturbed`
    * `Snapshot.Valid`
    * `ExpirationSafety`

  The main theorems are:
    * `expirationWorker_safe`
    * `expirationWorker_requeues_acked_task`
-/

------------------------------------------------------------
-- Safety of the Worker
------------------------------------------------------------

namespace Nesso

/-
  While the worker is between its sections, no ack and no
  nack succeeds on a task that it has collected.
-/
def Undisturbed (system : System) : Action → Prop
| .ack id consumerId | .nack id consumerId =>
    ∀ snapshot, system.snapshot = some snapshot →
      id ∈ snapshot.tasks.map ExpiredTask.id →
        ∀ lease,
          system.engine.inner.leased[id]? = some lease →
            lease.consumerId ≠ consumerId
| _ => True

/- The worker's second section for some of its tasks. -/
def Engine.expireAll [Hasher]
    (engine : Engine)
    (tasks : List ExpiredTask) : Engine :=
  engine.processExpired
    (tasks.map (fun task => (none, task)))

/- What the worker must never do to a task. -/
structure ExpirationSafety [Hasher]
    (system : System) : Prop where
  acts_on_observed_lease :
    ∀ snapshot front task back,
      system.snapshot = some snapshot →
        snapshot.tasks = front ++ task :: back →
          ∃ lease,
            (system.engine.expireAll
                front).inner.leased[task.id]? =
              some lease ∧
              snapshot.leased[task.id]? = some lease ∧
              leases system.history task.id =
                leases snapshot.history task.id ∧
              lease.expireTimestamp ≤ snapshot.now ∧
              task =
                ⟨task.id, lease.priority, lease.retries⟩
  finished_not_ready :
    ∀ task ∈ system.engine.inner.readyQueue.tasks,
      ¬ Finished system.history task.id
  ready_once :
    (system.engine.inner.readyQueue.tasks.map
      TaskRef.id).Nodup
  ready_not_leased :
    ∀ task ∈ system.engine.inner.readyQueue.tasks,
      task.id ∉ system.engine.inner.leased
  later_lease_kept :
    ∀ snapshot, system.snapshot = some snapshot →
      ∀ (id : UInt64) (lease : LeaseInfo),
        system.engine.inner.leased[id]? = some lease →
          leases system.history id ≠
            leases snapshot.history id →
            (system.engine.expireAll
                snapshot.tasks).inner.leased[id]? =
              some lease

end Nesso

------------------------------------------------------------
-- Valid Snapshots
------------------------------------------------------------

namespace Nesso

/- The collected tasks are held under the leases seen. -/
structure Snapshot.Valid
    (snapshot : Snapshot)
    (leased : Std.ExtTreeMap UInt64 LeaseInfo)
    (history : List Event) : Prop where
  nodup : (snapshot.tasks.map ExpiredTask.id).Nodup
  held :
    ∀ task ∈ snapshot.tasks,
      ∃ lease,
        leased[task.id]? = some lease ∧
          snapshot.leased[task.id]? = some lease ∧
          leases history task.id =
            leases snapshot.history task.id ∧
          lease.expireTimestamp ≤ snapshot.now ∧
          task = ⟨task.id, lease.priority, lease.retries⟩

/- The worker collects each expired lease once. -/
theorem expiredTasks_ids_nodup
    (engine : Engine)
    (now : UInt64) :
    ((engine.expiredTasks now).map
      ExpiredTask.id).Nodup := by
  have hDistinct :=
    Std.ExtTreeMap.distinct_keys_toList
      (t := engine.inner.leased)
  rw [List.Nodup, List.pairwise_map, Engine.expiredTasks,
    List.pairwise_filterMap]
  refine hDistinct.imp ?_
  intro left right hNe task hTask other hOther hEq
  split at hTask
  · split at hOther
    · rw [Option.some.injEq] at hTask hOther
      rw [← hTask, ← hOther] at hEq
      simp only at hEq
      simp [hEq] at hNe
    · simp at hOther
  · simp at hTask

/- A failure ends the lease of its own task only. -/
theorem leased_failure
    (inner : EngineState)
    (loc : Loc)
    (id : UInt64)
    (priority retries : UInt8)
    (failureType : OpType) :
    (Change.apply inner loc
        (.failure id priority retries failureType)).leased =
      inner.leased.erase id := by
  unfold Change.failure
  split <;> rfl

variable [Hasher]

/-
  Failing tasks that are held under the observed leases keeps
  all tasks accounted for and every other lease alive.
-/
theorem conserved_expireAll
    {engine : Engine}
    {history : List Event}
    (hInner : Conserved engine.inner history)
    {tasks : List ExpiredTask}
    (hNodup : (tasks.map ExpiredTask.id).Nodup)
    (hHeld :
      ∀ task ∈ tasks,
        ∃ lease,
          engine.inner.leased[task.id]? = some lease ∧
            task =
              ⟨task.id, lease.priority, lease.retries⟩) :
    Conserved (engine.expireAll tasks).inner
        (history ++
          tasks.map (fun task => .expired task.id)) ∧
      ∀ id ∉ tasks.map ExpiredTask.id,
        (engine.expireAll tasks).inner.leased[id]? =
          engine.inner.leased[id]? := by
  induction tasks generalizing engine history with
  | nil =>
      refine ⟨?_, fun id _ => rfl⟩
      simpa [Engine.expireAll, Engine.processExpired]
        using hInner
  | cons task tasks ih =>
      rw [List.map_cons, List.nodup_cons] at hNodup
      rcases hHeld task (by simp) with ⟨lease, hLease, hTask⟩
      have hPriority : task.priority = lease.priority := by
        rw [hTask]
      have hRetries : task.retries = lease.retries := by
        rw [hTask]
      have hFirst :
          engine.expireAll (task :: tasks) =
            (engine.expireTask none task).expireAll tasks :=
        rfl
      have hStep :
          Conserved (engine.expireTask none task).inner
            (history ++ [.expired task.id]) := by
        rw [Engine.expireTask_none, hPriority, hRetries]
        exact System.conserved_perform
          (hInner.failure hLease (.inr rfl) .expired)
      have hLeased :
          (engine.expireTask none task).inner.leased =
            engine.inner.leased.erase task.id := by
        rw [Engine.expireTask_none]
        exact leased_failure _ _ _ _ _ _
      have hRest :
          ∀ other ∈ tasks,
            ∃ lease,
              (engine.expireTask none
                  task).inner.leased[other.id]? =
                some lease ∧
                other = ⟨other.id, lease.priority,
                  lease.retries⟩ := by
        intro other hOther
        rcases hHeld other (by simp [hOther]) with
          ⟨found, hFound, hFields⟩
        refine ⟨found, ?_, hFields⟩
        have hNe : task.id ≠ other.id := by
          intro hEq
          apply hNodup.1
          rw [hEq]
          exact List.mem_map_of_mem hOther
        rw [hLeased, Std.ExtTreeMap.getElem?_erase]
        simpa [hNe] using hFound
      rcases ih hStep hNodup.2 hRest with ⟨hAll, hKept⟩
      refine ⟨?_, ?_⟩
      · rw [hFirst]
        rw [List.append_assoc] at hAll
        exact hAll
      · intro id hId
        rw [List.map_cons, List.mem_cons, not_or] at hId
        rw [hFirst, hKept id hId.2, hLeased,
          Std.ExtTreeMap.getElem?_erase]
        simp [Ne.symm hId.1]

end Nesso

------------------------------------------------------------
-- Undisturbed Runs
------------------------------------------------------------

namespace Nesso

namespace System

variable [Hasher]
variable {system next : System}

/-
  Outside the worker a lease survives every action, unless
  its own consumer acks or nacks it.
-/
theorem leased_step
    (hSystem : system.Conserves)
    {action : Action}
    (hStep : system.step action = some next)
    (hWorker :
      (∀ now tasks, action ≠ .snapshotExpired now tasks) ∧
        action ≠ .processExpired)
    {id : UInt64}
    {lease : LeaseInfo}
    (hLease :
      system.engine.inner.leased[id]? = some lease)
    (hKept :
      ∀ consumerId,
        action = .ack id consumerId ∨
            action = .nack id consumerId →
          lease.consumerId ≠ consumerId) :
    next.engine.inner.leased[id]? = some lease ∧
      leases next.history id =
        leases system.history id := by
  cases action with
  | push payload priority =>
      rcases push_cases hStep with ⟨_, rfl⟩
      refine ⟨hLease, ?_⟩
      simp
  | popLocked consumerId now leaseTtlSecs =>
      rw [step, Option.some.injEq] at hStep
      rw [← hStep]
      simp only [popLocked, Engine.popLocked_none,
        grantEvents]
      cases hPop :
          system.engine.inner.readyQueue.pop with
      | none => simpa using hLease
      | some popped =>
          rcases popped with ⟨task, rest⟩
          have hTask :
              task ∈ system.engine.inner.readyQueue.tasks :=
            (ReadyQueue.tasks_pop_perm hPop).mem_iff.mpr
              (by simp)
          have hNe : task.id ≠ id := by
            rintro rfl
            rw [hSystem.ready_free task hTask] at hLease
            simp at hLease
          have hGranted :
              (system.engine.perform
                (.grant task rest consumerId
                  (now + leaseTtlSecs))).inner.leased[id]? =
                some lease := by
            simp only [Engine.perform, Change.apply,
              Std.ExtTreeMap.getElem?_insert]
            simpa [hNe] using hLease
          refine ⟨?_, ?_⟩
          · simp only
            split
            · exact hGranted
            · exact hGranted
          · simp [hNe]
  | popRead ticket =>
      rw [step, Option.some.injEq] at hStep
      rw [← hStep]
      simp only [Engine.inner_popRead]
      exact ⟨hLease, trivial⟩
  | ack other consumerId =>
      rw [step, Option.some.injEq] at hStep
      rw [← hStep]
      simp only [ack, Engine.ack_none]
      cases hOther :
          system.engine.inner.leased[other]? with
      | none => simpa [eventIf] using hLease
      | some found =>
          simp only
          split
          · next hConsumer =>
              have hNe : other ≠ id := by
                rintro rfl
                rw [hLease, Option.some.injEq] at hOther
                apply hKept consumerId (.inl rfl)
                rw [hOther, hConsumer]
              refine ⟨?_, ?_⟩
              · simp only [Engine.perform, Change.apply,
                  Std.ExtTreeMap.getElem?_erase]
                simpa [hNe] using hLease
              · simp [eventIf]
          · simpa [eventIf] using hLease
  | nack other consumerId =>
      rw [step, Option.some.injEq] at hStep
      rw [← hStep]
      simp only [nack, Engine.nack_none]
      cases hOther :
          system.engine.inner.leased[other]? with
      | none => simpa [eventIf] using hLease
      | some found =>
          simp only
          split
          · next hConsumer =>
              have hNe : other ≠ id := by
                rintro rfl
                rw [hLease, Option.some.injEq] at hOther
                apply hKept consumerId (.inr rfl)
                rw [hOther, hConsumer]
              refine ⟨?_, ?_⟩
              · simp only [Engine.perform, leased_failure,
                  Std.ExtTreeMap.getElem?_erase]
                simpa [hNe] using hLease
              · simp [eventIf]
          · simpa [eventIf] using hLease
  | compactPlan =>
      rcases compactPlan_cases hStep with rfl | ⟨_, _, rfl⟩
      · exact ⟨hLease, rfl⟩
      · exact ⟨hLease, rfl⟩
  | compactPhase1 =>
      rcases compactPhase1_cases hStep with ⟨_, _, rfl⟩
      exact ⟨hLease, rfl⟩
  | compactPhase2 =>
      rcases compactPhase2_cases hStep with ⟨_, _, _, rfl⟩
      refine ⟨?_, rfl⟩
      simp only [Engine.compactPhase2]
      split
      · exact hLease
      · rw [EngineState.remap_eq]
        exact hLease
  | snapshotExpired now tasks =>
      exact (hWorker.1 now tasks rfl).elim
  | processExpired => exact (hWorker.2 rfl).elim
  | clearPayloadCache =>
      rw [step, Option.some.injEq] at hStep
      rw [← hStep]
      exact ⟨hLease, rfl⟩

/- A snapshot of the worker stays valid until it is used. -/
def WorkerValid (system : System) : Prop :=
  ∀ snapshot, system.snapshot = some snapshot →
    snapshot.Valid system.engine.inner.leased
      system.history

/- Only the worker changes its snapshot. -/
theorem snapshot_step
    {action : Action}
    (hStep : system.step action = some next)
    (hWorker :
      (∀ now tasks, action ≠ .snapshotExpired now tasks) ∧
        action ≠ .processExpired) :
    next.snapshot = system.snapshot := by
  cases action with
  | push payload priority =>
      rw [step, push] at hStep
      split at hStep
      · simp at hStep
      · rw [Option.some.injEq] at hStep
        rw [← hStep]
  | compactPlan =>
      rw [step, compactPlan] at hStep
      split at hStep
      · split at hStep <;>
          (rw [Option.some.injEq] at hStep
           rw [← hStep])
      · simp at hStep
  | compactPhase1 =>
      rw [step, compactPhase1] at hStep
      split at hStep
      · rw [Option.some.injEq] at hStep
        rw [← hStep]
      · simp at hStep
  | compactPhase2 =>
      rw [step, compactPhase2] at hStep
      split at hStep
      · rw [Option.some.injEq] at hStep
        rw [← hStep]
      · simp at hStep
  | snapshotExpired now tasks =>
      exact (hWorker.1 now tasks rfl).elim
  | processExpired => exact (hWorker.2 rfl).elim
  | _ =>
      rw [step, Option.some.injEq] at hStep
      subst hStep
      rfl

omit [Hasher] in
/- The worker collects the leases of this very state. -/
theorem valid_snapshotExpired
    {now : UInt64}
    {tasks : List ExpiredTask}
    (hStep :
      system.snapshotExpired now tasks = some next) :
    next.WorkerValid ∧ next.engine = system.engine ∧
      next.history = system.history := by
  obtain ⟨-, hPerm, rfl⟩ := snapshotExpired_cases hStep
  refine ⟨?_, rfl, rfl⟩
  intro snapshot hSnapshot
  rw [Option.some.injEq] at hSnapshot
  subst hSnapshot
  constructor
  · exact (hPerm.map _).nodup_iff.mpr
      (expiredTasks_ids_nodup _ now)
  · intro task hTask
    rcases mem_expiredTasks_iff.mp
      (hPerm.mem_iff.mp hTask) with
      ⟨lease, hLease, hExpired, hFields⟩
    exact ⟨lease, hLease, hLease, rfl, hExpired,
      hFields⟩

/- An undisturbed step keeps the snapshot valid. -/
theorem workerValid_step
    (hSystem : system.Conserves)
    (hValid : system.WorkerValid)
    {action : Action}
    (hAction : Undisturbed system action)
    (hStep : system.step action = some next) :
    next.WorkerValid := by
  by_cases hWorker :
      (∀ now tasks, action ≠ .snapshotExpired now tasks) ∧
        action ≠ .processExpired
  · intro snapshot hSnapshot
    rw [snapshot_step hStep hWorker] at hSnapshot
    have hOld := hValid snapshot hSnapshot
    constructor
    · exact hOld.nodup
    · intro task hTask
      rcases hOld.held task hTask with
        ⟨lease, hLease, hSeen, hLeases, hExpired, hFields⟩
      have hKept :
          ∀ consumerId,
            action = .ack task.id consumerId ∨
                action = .nack task.id consumerId →
              lease.consumerId ≠ consumerId := by
        intro consumerId hCase
        have hMem :
            task.id ∈ snapshot.tasks.map ExpiredTask.id :=
          List.mem_map_of_mem hTask
        rcases hCase with rfl | rfl
        · exact hAction snapshot hSnapshot hMem lease hLease
        · exact hAction snapshot hSnapshot hMem lease hLease
      rcases leased_step hSystem hStep hWorker hLease hKept
        with ⟨hNext, hCount⟩
      exact ⟨lease, hNext, hSeen, by rw [hCount, hLeases],
        hExpired, hFields⟩
  · cases action with
    | snapshotExpired now tasks =>
        exact (valid_snapshotExpired hStep).1
    | processExpired =>
        rw [step, processExpired] at hStep
        split at hStep
        · rw [Option.some.injEq] at hStep
          rw [← hStep]
          intro snapshot hSnapshot
          simp at hSnapshot
        · simp at hStep
    | _ => simp at hWorker

/- The worker's second section on a valid snapshot. -/
theorem conserves_processExpired
    (hSystem : system.Conserves)
    (hValid : system.WorkerValid)
    (hStep : system.processExpired = some next) :
    next.Conserves := by
  unfold processExpired at hStep
  split at hStep
  · next snapshot hSnapshot =>
      rw [Option.some.injEq] at hStep
      have hOld := hValid snapshot hSnapshot
      rw [← hStep]
      refine (conserved_expireAll hSystem hOld.nodup ?_).1
      intro task hTask
      rcases hOld.held task hTask with
        ⟨lease, hLease, _, _, _, hFields⟩
      exact ⟨lease, hLease, hFields⟩
  · simp at hStep

end System

variable [Hasher]

/- Runs in which nobody disturbs the worker. -/
def UndisturbedRun
    (maxSegmentSize : Option Nat)
    (cacheCapacity : Nat)
    (start : UInt64) :
    List Action → System → Prop :=
  Transition.Run System.step Undisturbed
    (System.start maxSegmentSize cacheCapacity start)

theorem UndisturbedRun.valid
    {maxSegmentSize : Option Nat}
    {cacheCapacity : Nat}
    {start : UInt64}
    {actions : List Action}
    {system : System}
    (hRun :
      UndisturbedRun maxSegmentSize cacheCapacity start
        actions system) :
    system.Conserves ∧ system.WorkerValid := by
  induction hRun with
  | start =>
      refine ⟨System.conserves_start _ _ _, ?_⟩
      intro snapshot hSnapshot
      simp [System.start] at hSnapshot
  | @step _ _ _ action _ hAction hStep ih =>
      refine ⟨?_, System.workerValid_step ih.1 ih.2 hAction
        hStep⟩
      by_cases hProcess : action = .processExpired
      · subst hProcess
        exact System.conserves_processExpired ih.1 ih.2 hStep
      · exact System.conserves_step ih.1 hProcess hStep

/-
  In every run without such a disturbance the worker acts on
  the leases that it has seen, and on nothing else.
-/
theorem expirationWorker_safe
    {maxSegmentSize : Option Nat}
    {cacheCapacity : Nat}
    {start : UInt64}
    {actions : List Action}
    {system : System}
    (hRun :
      UndisturbedRun maxSegmentSize cacheCapacity start
        actions system) :
    ExpirationSafety system := by
  rcases hRun.valid with ⟨hInner, hValid⟩
  have hHeld :
      ∀ snapshot, system.snapshot = some snapshot →
        ∀ task ∈ snapshot.tasks,
          ∃ lease,
            system.engine.inner.leased[task.id]? =
                some lease ∧
              task =
                ⟨task.id, lease.priority, lease.retries⟩
      := by
    intro snapshot hSnapshot task hTask
    rcases (hValid snapshot hSnapshot).held task hTask with
      ⟨lease, hLease, _, _, _, hFields⟩
    exact ⟨lease, hLease, hFields⟩
  constructor
  · intro snapshot front task back hSnapshot hTasks
    have hOld := hValid snapshot hSnapshot
    have hNodup := hOld.nodup
    rw [hTasks, List.map_append, List.map_cons,
      List.nodup_append] at hNodup
    rcases hOld.held task (by simp [hTasks]) with
      ⟨lease, hLease, hSeen, hLeases, hExpired, hFields⟩
    refine ⟨lease, ?_, hSeen, hLeases, hExpired, hFields⟩
    rw [(conserved_expireAll hInner hNodup.1 ?_).2]
    · exact hLease
    · intro hMem
      exact hNodup.2.2 _ hMem _ (by simp) rfl
    · intro other hOther
      exact hHeld snapshot hSnapshot other
        (by simp [hTasks, hOther])
  · intro task hTask
    exact (hInner.ready_tally task hTask).not_finished
  · exact hInner.ready_nodup
  · intro task hTask
    rw [← Std.ExtTreeMap.isSome_getElem?_iff_mem,
      hInner.ready_free task hTask]
    simp
  · intro snapshot hSnapshot id lease hLease hNew
    have hOld := hValid snapshot hSnapshot
    rw [(conserved_expireAll hInner hOld.nodup
      (hHeld snapshot hSnapshot)).2]
    · exact hLease
    · intro hMem
      rcases List.mem_map.mp hMem with ⟨task, hTask, rfl⟩
      rcases hOld.held task hTask with
        ⟨_, _, _, hLeases, _⟩
      exact hNew hLeases

end Nesso

------------------------------------------------------------
-- An Undisturbed and a Disturbed Run
------------------------------------------------------------

namespace Nesso

/- A lease that expires while its task waits for nobody. -/
def expiredLease : List Action :=
  [.push [7] 5, .popLocked 1 10 0,
    .snapshotExpired 20 [⟨1, 5, 0⟩]]

set_option maxRecDepth 100000 in
theorem expirationWorker_safe_expiredLease :
    ∃ system,
      UndisturbedRun (some 64) 4 0 expiredLease system ∧
        system.snapshot.isSome = true ∧
        ExpirationSafety system := by
  have hAllowed :
      ∀ system : System, ∀ action ∈ expiredLease,
        Undisturbed system action := by
    simp [expiredLease, Undisturbed]
  have hEnd :
      (Transition.execute System.step expiredLease
        (System.start (some 64) 4 0)).any
          (fun system => system.snapshot.isSome) =
        true := by
    decide +kernel
  rcases Transition.exists_run_of_execute hAllowed hEnd with
    ⟨system, hRun, hSnapshot⟩
  exact ⟨system, hRun, hSnapshot,
    expirationWorker_safe hRun⟩

/-
  Task 1 is leased, seen as expired, acked by its consumer,
  and then failed by the worker all the same.
-/
def ackedBeforeExpiry : List Action :=
  [.push [7] 5, .popLocked 1 10 0,
    .snapshotExpired 20 [⟨1, 5, 0⟩], .ack 1 1,
    .processExpired]

set_option maxRecDepth 100000 in
theorem expirationWorker_requeues_acked_task :
    ∃ actions system,
      Transition.Run System.step (fun _ _ => True)
          (System.start (some 64) 4 0) actions system ∧
        ¬ ExpirationSafety system := by
  have hEnd :
      (Transition.execute System.step ackedBeforeExpiry
        (System.start (some 64) 4 0)).any
          (fun system =>
            system.engine.inner.readyQueue.tasks.any
              (fun task =>
                .acked task.id ∈ system.history)) =
        true := by
    decide +kernel
  have hAllowed :
      ∀ system : System, ∀ action ∈ ackedBeforeExpiry,
        (fun _ _ => True) system action := by
    simp
  rcases Transition.exists_run_of_execute hAllowed hEnd with
    ⟨system, hRun, hTask⟩
  rcases List.any_eq_true.mp hTask with
    ⟨task, hReady, hAcked⟩
  refine ⟨ackedBeforeExpiry, system, hRun, ?_⟩
  intro hSafe
  exact hSafe.finished_not_ready task hReady
    (.inl (by simpa using hAcked))

end Nesso
