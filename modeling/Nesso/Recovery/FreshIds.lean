import Nesso.Queue.ClientRuns
import Nesso.Recovery.PayloadSurvival

/-
  Task ids across restarts.  The counter is rebuilt from the
  records on disk, and compaction drops the records of
  finished tasks, the last id among them.

  Key definitions include:
    * `LifeOp.CounterFits`
    * `LifeOp.FindsHighestId`
    * `IdsFresh`

  The main theorems are:
    * `lifeRun_ids_fresh`
    * `lifeRun_reuses_id`
-/

------------------------------------------------------------
-- The Id Counter
------------------------------------------------------------

namespace Nesso

namespace Engine

variable [Hasher]

/- An append leaves the id counter alone. -/
theorem nextId_of_appendRecord
    {fault : Option AppendFault}
    {engine next : Engine}
    {record : Record}
    {result : Except IoError Loc}
    (hAppend :
      engine.appendRecord fault record = (result, next)) :
    next.inner.nextId = engine.inner.nextId := by
  have hNext : (engine.appendRecord fault record).2 = next :=
    congrArg Prod.snd hAppend
  rw [← hNext]
  rfl

/- A push takes the next id, whether it succeeds or not. -/
theorem nextId_push
    (fault : Option AppendFault)
    (payload : Bytes)
    (priority : UInt8)
    (engine : Engine) :
    (engine.push fault payload priority).2.inner.nextId =
      engine.inner.nextId + 1 := by
  unfold push
  simp only
  split
  · next error next hAppend =>
      exact nextId_of_appendRecord hAppend
  · next loc next hAppend =>
      exact nextId_of_appendRecord hAppend

/- A push that succeeds returns the id it took. -/
theorem push_eq_ok
    {fault : Option AppendFault}
    {payload : Bytes}
    {priority : UInt8}
    {engine : Engine}
    {id : UInt64}
    (hPush :
      (engine.push fault payload priority).1 = .ok id) :
    id = engine.inner.nextId := by
  unfold push at hPush
  simp only at hPush
  split at hPush
  · simp at hPush
  · simpa using hPush.symm

theorem nextId_popLocked
    (fault : Option AppendFault)
    (consumerId : UInt32)
    (now leaseTtlSecs : UInt64)
    (engine : Engine) :
    (engine.popLocked fault consumerId now
        leaseTtlSecs).2.inner.nextId =
      engine.inner.nextId := by
  unfold popLocked
  cases engine.inner.readyQueue.pop with
  | none => rfl
  | some popped =>
      simp only
      split
      · next error next hAppend =>
          have hNext := nextId_of_appendRecord hAppend
          exact hNext
      · next loc next hAppend =>
          have hNext := nextId_of_appendRecord hAppend
          split
          · exact hNext
          · exact hNext

theorem nextId_popAndLease
    (fault : Option AppendFault)
    (consumerId : UInt32)
    (now leaseTtlSecs : UInt64)
    (engine : Engine) :
    (engine.popAndLease fault consumerId now
        leaseTtlSecs).2.inner.nextId =
      engine.inner.nextId := by
  have hLocked :=
    nextId_popLocked fault consumerId now leaseTtlSecs
      engine
  unfold popAndLease
  generalize
    engine.popLocked fault consumerId now leaseTtlSecs = out
    at hLocked ⊢
  rcases out with ⟨error | _ | ticket, next⟩
  · exact hLocked
  · exact hLocked
  · simp only [inner_popRead]
    exact hLocked

theorem nextId_ack
    (fault : Option AppendFault)
    (id : UInt64)
    (consumerId : UInt32)
    (engine : Engine) :
    (engine.ack fault id consumerId).2.inner.nextId =
      engine.inner.nextId := by
  unfold ack
  cases engine.inner.leased[id]? with
  | none => rfl
  | some lease =>
      simp only
      split
      · rfl
      · split
        · next error next hAppend =>
            exact nextId_of_appendRecord hAppend
        · next loc next hAppend =>
            have hNext := nextId_of_appendRecord hAppend
            exact hNext

theorem nextId_processTaskFailure
    (fault : Option AppendFault)
    (id : UInt64)
    (priority currentRetries : UInt8)
    (failureType : OpType)
    (engine : Engine) :
    (engine.processTaskFailure fault id priority
        currentRetries failureType).2.inner.nextId =
      engine.inner.nextId := by
  unfold processTaskFailure
  simp only
  generalize
    (if maxRetries ≤ currentRetries + 1 then
      OpType.deadLettered else failureType) = op
  split
  · next error next hAppend =>
      exact nextId_of_appendRecord hAppend
  · next loc next hAppend =>
      have hNext := nextId_of_appendRecord hAppend
      split
      · exact hNext
      · exact hNext

theorem nextId_nack
    (fault : Option AppendFault)
    (id : UInt64)
    (consumerId : UInt32)
    (engine : Engine) :
    (engine.nack fault id consumerId).2.inner.nextId =
      engine.inner.nextId := by
  unfold nack
  split
  · rfl
  · split
    · rfl
    · exact nextId_processTaskFailure _ _ _ _ _ _

theorem nextId_compact
    (engine : Engine) :
    engine.compact.2.inner.nextId =
      engine.inner.nextId := by
  unfold compact
  split
  · rfl
  · split
    · next error next hPhase =>
        have hNext := congrArg Prod.snd hPhase
        rw [← hNext]
        rfl
    · next newOffsets next hPhase =>
        have hNext := congrArg Prod.snd hPhase
        simp only [compactPhase1] at hNext
        simp only [compactPhase2]
        split
        · rw [← hNext]
        · rw [← hNext, EngineState.remap_eq]

omit [Hasher] in
/- Restoring tasks does not touch the counter. -/
theorem nextId_restoreTask
    (now : UInt64)
    (inner : EngineState)
    (id : UInt64)
    (loc : Loc)
    (record : Record) :
    (inner.restoreTask now id loc record).nextId =
      inner.nextId := by
  have hAdopt :
      (inner.adoptData id loc record).nextId =
        inner.nextId := by
    unfold EngineState.adoptData
    split <;> rfl
  unfold EngineState.restoreTask
  simp only [EngineState.enqueue]
  split
  · exact hAdopt
  · exact hAdopt
  · exact hAdopt
  · split
    · split
      · exact hAdopt
      · exact hAdopt
    · exact hAdopt
  · exact hAdopt
  · exact hAdopt

theorem nextId_restoreTasks
    (now : UInt64)
    (entries : List (UInt64 × Loc))
    (engine : Engine) :
    (restoreTasks now entries engine).2.inner.nextId =
      engine.inner.nextId := by
  induction entries generalizing engine with
  | nil => rfl
  | cons entry entries ih =>
      rcases entry with ⟨id, loc⟩
      rw [restoreTasks]
      split
      · rfl
      · rw [ih]
      · rw [ih, nextId_restoreTask]

/- The counter is rebuilt from the records on disk. -/
theorem nextId_reopen
    (disk : Disk)
    (maxSegmentSize : Option Nat)
    (cacheCapacity : Nat)
    (now : UInt64) :
    (reopen disk maxSegmentSize cacheCapacity
        now).2.inner.nextId =
      Replay.nextId
        (Wal.entries
          (Wal.open disk maxSegmentSize).1) := by
  simp only [reopen, recover]
  rw [nextId_restoreTasks]
  simp only [Wal.iterAll]
  rw [EngineState.foldl_indexRecord]
  rfl

end Engine

end Nesso

------------------------------------------------------------
-- Fresh Ids
------------------------------------------------------------

namespace Nesso

/- The 64-bit id counter does not overflow. -/
def LifeOp.CounterFits [Hasher]
    (service : Service) : LifeOp → Prop
| .push _ _ _ => service.engine.inner.IdsLeft
| .restart maxSegmentSize _ _ =>
    ∀ entry ∈ Wal.entries
        (Wal.open service.engine.disk maxSegmentSize).1,
      entryId entry ≠ UInt64.ofNat (2 ^ 64 - 1)
| _ => True

/-
  Whatever id a push has returned, a restart finds a record
  on disk with that id or a higher one.
-/
def LifeOp.FindsHighestId [Hasher]
    (service : Service) : LifeOp → Prop
| .restart maxSegmentSize _ _ =>
    ∀ id ∈ pushedIds service.history,
      ∃ entry ∈ Wal.entries
          (Wal.open service.engine.disk maxSegmentSize).1,
        id ≤ entryId entry
| _ => True

instance [Hasher]
    (service : Service)
    (op : LifeOp) :
    Decidable (op.CounterFits service) :=
  match op with
  | .push _ _ _ => inferInstanceAs (Decidable (_ ≠ _))
  | .restart maxSegmentSize _ _ =>
      decidable_of_iff
        ((Wal.entries
          (Wal.open service.engine.disk
            maxSegmentSize).1).all
          (fun entry =>
            entryId entry ≠ UInt64.ofNat (2 ^ 64 - 1)))
        (by simp [LifeOp.CounterFits])
  | .popAndLease _ _ _ _ => inferInstanceAs (Decidable True)
  | .ack _ _ _ => inferInstanceAs (Decidable True)
  | .nack _ _ _ => inferInstanceAs (Decidable True)
  | .compact => inferInstanceAs (Decidable True)

instance [Hasher]
    (service : Service)
    (op : LifeOp) :
    Decidable (op.FindsHighestId service) :=
  match op with
  | .restart maxSegmentSize _ _ =>
      decidable_of_iff
        ((pushedIds service.history).all (fun id =>
          (Wal.entries
            (Wal.open service.engine.disk
              maxSegmentSize).1).any
            (fun entry => id ≤ entryId entry)))
        (by simp [LifeOp.FindsHighestId])
  | .push _ _ _ => inferInstanceAs (Decidable True)
  | .popAndLease _ _ _ _ => inferInstanceAs (Decidable True)
  | .ack _ _ _ => inferInstanceAs (Decidable True)
  | .nack _ _ _ => inferInstanceAs (Decidable True)
  | .compact => inferInstanceAs (Decidable True)

/- No id was returned twice, and none will be. -/
structure IdsFresh (service : Service) : Prop where
  nodup : (pushedIds service.history).Nodup
  lt_nextId :
    ∀ id ∈ pushedIds service.history,
      id < service.engine.inner.nextId

theorem pushedIds_append
    (left right : List Event) :
    pushedIds (left ++ right) =
      pushedIds left ++ pushedIds right := by
  simp [pushedIds]

namespace IdsFresh

variable [Hasher]
variable {service next : Service}

/- An operation that returns no id leaves the ids fresh. -/
omit [Hasher] in
theorem of_no_push
    (hService : IdsFresh service)
    {engine : Engine}
    (hNextId :
      engine.inner.nextId = service.engine.inner.nextId)
    {events : List Event}
    (hEvents : pushedIds events = []) :
    IdsFresh
      { engine := engine
        history := service.history ++ events } := by
  constructor
  · rw [pushedIds_append, hEvents, List.append_nil]
    exact hService.nodup
  · simp only [pushedIds_append, hEvents, List.append_nil,
      hNextId]
    exact hService.lt_nextId

theorem step
    (hService : IdsFresh service)
    {op : LifeOp}
    (hFits : op.CounterFits service)
    (hFinds : op.FindsHighestId service)
    (hStep : service.step op = some next) :
    IdsFresh next := by
  cases op with
  | push fault payload priority =>
      rw [Service.step, Option.some.injEq] at hStep
      have hLt := UInt64.lt_add_one_of_ne hFits
      have hOld :
          ∀ id ∈ pushedIds service.history,
            id ≠ service.engine.inner.nextId := by
        intro id hId hEq
        have hKnown := hService.lt_nextId id hId
        rw [hEq] at hKnown
        exact UInt64.lt_irrefl _ hKnown
      rw [← hStep]
      cases hPush :
          (service.engine.push fault payload
            priority).1 with
      | error error =>
          constructor
          · simpa [System.eventIf] using hService.nodup
          · intro id hId
            simp only [System.eventIf, List.append_nil]
              at hId
            simp only [Engine.nextId_push]
            exact UInt64.lt_trans
              (hService.lt_nextId id hId) hLt
      | ok taken =>
          have hTaken := Engine.push_eq_ok hPush
          subst hTaken
          constructor
          · simp only [System.eventIf, pushedIds_append]
            rw [List.nodup_append]
            refine ⟨hService.nodup, by simp [pushedIds], ?_⟩
            intro id hId other hOther
            simp only [pushedIds, List.filterMap_cons,
              List.filterMap_nil, List.mem_singleton]
              at hOther
            rw [hOther]
            exact hOld id hId
          · intro id hId
            simp only [Engine.nextId_push]
            simp only [System.eventIf, pushedIds_append,
              List.mem_append] at hId
            rcases hId with hId | hId
            · exact UInt64.lt_trans
                (hService.lt_nextId id hId) hLt
            · simp only [pushedIds, List.filterMap_cons,
                List.filterMap_nil, List.mem_singleton]
                at hId
              rw [hId]
              exact hLt
  | popAndLease fault consumerId now leaseTtlSecs =>
      rw [Service.step, Option.some.injEq] at hStep
      rw [← hStep]
      apply hService.of_no_push
      · exact Engine.nextId_popAndLease _ _ _ _ _
      · unfold Service.deliveries
        split <;> rfl
  | ack fault id consumerId =>
      rw [Service.step, Option.some.injEq] at hStep
      rw [← hStep]
      apply hService.of_no_push
      · exact Engine.nextId_ack _ _ _ _
      · unfold System.eventIf
        split <;> rfl
  | nack fault id consumerId =>
      rw [Service.step, Option.some.injEq] at hStep
      rw [← hStep]
      apply hService.of_no_push
      · exact Engine.nextId_nack _ _ _ _
      · unfold System.eventIf
        split <;> rfl
  | compact =>
      rw [Service.step, Option.some.injEq] at hStep
      rw [← hStep]
      refine ⟨hService.nodup, ?_⟩
      simp only [Engine.nextId_compact]
      exact hService.lt_nextId
  | restart maxSegmentSize cacheCapacity now =>
      rw [Service.step, Service.restart] at hStep
      split at hStep
      · next engine hReopen =>
          rw [Option.some.injEq] at hStep
          have hNextId :=
            Engine.nextId_reopen service.engine.disk
              maxSegmentSize cacheCapacity now
          rw [hReopen] at hNextId
          rw [← hStep]
          refine ⟨hService.nodup, ?_⟩
          intro id hId
          rcases hFinds id hId with ⟨entry, hEntry, hLe⟩
          simp only at hNextId ⊢
          rw [hNextId]
          exact UInt64.lt_of_le_of_lt hLe
            (Replay.lt_nextId hFits entry hEntry)
      · simp at hStep

end IdsFresh

/-
  In every run whose restarts find the highest id on disk, no
  id is returned twice.
-/
theorem lifeRun_ids_fresh [Hasher]
    {maxSegmentSize : Option Nat}
    {cacheCapacity : Nat}
    {start : UInt64}
    {ops : List LifeOp}
    {service : Service}
    (hRun :
      Transition.Run Service.step
        (fun service op =>
          op.CounterFits service ∧
            op.FindsHighestId service)
        (Service.start maxSegmentSize cacheCapacity start)
        ops service) :
    IdsFresh service := by
  apply hRun.invariant
  · exact ⟨by simp [Service.start, pushedIds],
      by simp [Service.start, pushedIds]⟩
  · intro state next op hState hAllowed hStep
    exact hState.step hAllowed.1 hAllowed.2 hStep

end Nesso

------------------------------------------------------------
-- A Highest Id Kept and a Highest Id Lost
------------------------------------------------------------

namespace Nesso

/- Task 2 is acked, but its records are still on disk. -/
def highestIdAcked : List LifeOp :=
  [.push none [] 1, .push none [] 9,
    .popAndLease none 1 10 100, .ack none 2 1, .compact,
    .restart (some 80) 4 20, .push none [] 5]

set_option maxRecDepth 100000 in
theorem lifeRun_ids_fresh_highestAcked :
    ∃ service,
      Transition.Run Service.step
          (fun service op =>
            op.CounterFits service ∧
              op.FindsHighestId service)
          (Service.start (some 80) 4 0) highestIdAcked
          service ∧
        pushedIds service.history = [1, 2, 3] ∧
        IdsFresh service := by
  have hEnd :
      (Transition.execute
        (Transition.checkedStep Service.step (fun service op =>
          op.CounterFits service ∧
            op.FindsHighestId service))
        highestIdAcked
        (Service.start (some 80) 4 0)).any
          (fun service =>
            pushedIds service.history = [1, 2, 3]) =
        true := by
    decide +kernel
  rcases Transition.exists_run_of_checked
    (fun _ _ hOp => of_decide_eq_true hOp) hEnd with
    ⟨service, hRun, hIds⟩
  exact ⟨service, hRun, of_decide_eq_true hIds,
    lifeRun_ids_fresh hRun⟩

/-
  All records of task 2 are in the closed segment, which the
  compaction rewrites without them.
-/
def highestIdCompacted : List LifeOp :=
  [.push none [] 1, .push none [] 9,
    .popAndLease none 1 10 100, .ack none 2 1,
    .popAndLease none 1 10 100, .compact,
    .restart (some 80) 4 20, .push none [] 5]

set_option maxRecDepth 100000 in
theorem lifeRun_reuses_id :
    ∃ ops service,
      Transition.Run Service.step
          (fun service op =>
            op.Admissible service ∧ op.CounterFits service)
          (Service.start (some 80) 4 0) ops service ∧
        ¬ (pushedIds service.history).Nodup := by
  have hEnd :
      (Transition.execute
        (Transition.checkedStep Service.step (fun service op =>
          op.Admissible service ∧ op.CounterFits service))
        highestIdCompacted
        (Service.start (some 80) 4 0)).any
          (fun service =>
            pushedIds service.history = [1, 2, 2]) =
        true := by
    decide +kernel
  rcases Transition.exists_run_of_checked
    (fun _ _ hOp => of_decide_eq_true hOp) hEnd with
    ⟨service, hRun, hIds⟩
  refine ⟨highestIdCompacted, service, hRun, ?_⟩
  rw [of_decide_eq_true hIds]
  decide

end Nesso
