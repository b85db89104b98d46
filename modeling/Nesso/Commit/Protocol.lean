import Nesso.Storage.GroupCommit

/-
  The protocol invariant of group commit: one fsync at a
  time, one for each batch, and no caller left behind.

  Key definitions include:
    * `GroupCommit.Consistent`
    * `GroupCommit.Protocol`
    * `GroupCommitRun`

  The main theorem is:
    * `groupCommitRun_protocol`
-/

------------------------------------------------------------
-- Steps
------------------------------------------------------------

namespace Nesso

namespace GroupCommit

variable {φ : Type}

/- Everything that a step can do. -/
theorem step_cases
    {options : GroupCommitConfig}
    {group next : GroupCommit φ}
    {action : CommitStep φ}
    (hNext : group.step options action = some next) :
    (∃ file force,
      action = .call file force ∧
        next =
          { group with
            calls :=
              group.calls ++
                [{ file := file
                   myBatch := 0
                   phase :=
                    if force then .forcing
                    else .entering }] }) ∨
    (∃ position call,
      action = .forceFlush position ∧
        group.calls[position]? = some call ∧
        call.phase = .forcing ∧
        next =
          { group with
            state := { group.state with forceFlush := true }
            calls :=
              notifyAll
                (group.calls.set position
                  (call.enter .entering)) }) ∨
    (∃ position call arrival now,
      action = .join position arrival now ∧
        group.calls[position]? = some call ∧
        call.phase = .entering ∧
        next =
          (group.arrive position call arrival).turn options
            position
            { call with
              myBatch := group.state.collectingBatchId
              phase := .awake } now) ∨
    (∃ position call now,
      action = .resume position now ∧
        group.calls[position]? = some call ∧
        call.phase = .awake ∧
        next = group.turn options position call now) ∨
    (∃ position call,
      action = .wake position ∧
        group.calls[position]? = some call ∧
        (call.phase = .parkedTimed ∨
          call.phase = .parked) ∧
        next =
          { group with
            calls :=
              group.calls.set position
                (call.enter .awake) }) ∨
    (∃ position call result,
      action = .fsync position result ∧
        group.calls[position]? = some call ∧
        call.phase = .committing ∧
        next =
          { group with
            calls :=
              group.calls.set position
                (call.enter (.committed result))
            events :=
              group.events ++
                [.completed call.myBatch result] }) ∨
    (∃ position call result,
      action = .finish position ∧
        group.calls[position]? = some call ∧
        call.phase = .committed result ∧
        next =
          { group with
            state := group.state.finish call.myBatch result
            calls :=
              notifyAll
                (group.calls.set position
                  (call.enter (.returned result))) }) := by
  cases action with
  | call file force =>
      simp only [step, Option.some.injEq] at hNext
      exact .inl ⟨file, force, rfl, hNext.symm⟩
  | forceFlush position =>
      simp only [step] at hNext
      split at hNext
      · next call hCall =>
          split at hNext
          · next hPhase =>
              rw [Option.some.injEq] at hNext
              exact .inr (.inl ⟨position, call, rfl, hCall,
                hPhase, hNext.symm⟩)
          · simp at hNext
      · simp at hNext
  | join position arrival now =>
      simp only [step] at hNext
      split at hNext
      · next call hCall =>
          split at hNext
          · next hPhase =>
              rw [Option.some.injEq] at hNext
              exact .inr (.inr (.inl ⟨position, call, arrival,
                now, rfl, hCall, hPhase, hNext.symm⟩))
          · simp at hNext
      · simp at hNext
  | resume position now =>
      simp only [step] at hNext
      split at hNext
      · next call hCall =>
          split at hNext
          · next hPhase =>
              rw [Option.some.injEq] at hNext
              exact .inr (.inr (.inr (.inl ⟨position, call,
                now, rfl, hCall, hPhase, hNext.symm⟩)))
          · simp at hNext
      · simp at hNext
  | wake position =>
      simp only [step] at hNext
      split at hNext
      · next call hCall =>
          split at hNext
          · next hPhase =>
              rw [Option.some.injEq] at hNext
              exact .inr (.inr (.inr (.inr (.inl ⟨position,
                call, rfl, hCall, hPhase, hNext.symm⟩))))
          · simp at hNext
      · simp at hNext
  | fsync position result =>
      simp only [step] at hNext
      split at hNext
      · next call hCall =>
          split at hNext
          · next hPhase =>
              rw [Option.some.injEq] at hNext
              exact .inr (.inr (.inr (.inr (.inr (.inl
                ⟨position, call, result, rfl, hCall, hPhase,
                  hNext.symm⟩)))))
          · simp at hNext
      · simp at hNext
  | finish position =>
      simp only [step] at hNext
      split at hNext
      · next call hCall =>
          split at hNext
          · next result hPhase =>
              rw [Option.some.injEq] at hNext
              exact .inr (.inr (.inr (.inr (.inr (.inr
                ⟨position, call, result, rfl, hCall, hPhase,
                  hNext.symm⟩)))))
          · simp at hNext
      · simp at hNext

/- The call that has just entered is awake. -/
theorem getElem?_arrive
    {group : GroupCommit φ}
    {position : Nat}
    {call : SyncCall φ}
    (hCall : group.calls[position]? = some call)
    (now : Nat) :
    (group.arrive position call now).calls[position]? =
      some
        { call with
          myBatch := group.state.collectingBatchId
          phase := .awake } := by
  have hLt := (List.getElem?_eq_some_iff.mp hCall).1
  simp [arrive, notifyAll, hLt, SyncCall.notify]

end GroupCommit

end Nesso

------------------------------------------------------------
-- The Invariant
------------------------------------------------------------

namespace Nesso

/- A committer holds the right to fsync. -/
def SyncPhase.isCommitting : SyncPhase → Bool
| .committing | .committed _ => true
| _ => false

/- The batches whose fsync was started, in order. -/
def startedBatches (events : List CommitEvent) : List Nat :=
  events.filterMap (fun event =>
    match event with
    | .started batch => some batch
    | _ => none)

/- What the phase of a call says about its batch. -/
def SyncCall.Valid {φ : Type}
    (state : GroupCommitState)
    (call : SyncCall φ) : Prop :=
  match call.phase with
  | .forcing | .entering => call.myBatch = 0
  | .awake | .parkedTimed =>
      1 ≤ call.myBatch ∧
        call.myBatch ≤ state.collectingBatchId
  | .parked =>
      1 ≤ call.myBatch ∧
        call.myBatch ≤ state.collectingBatchId ∧
        state.fsyncInProgress = true
  | .committing | .committed _ =>
      call.myBatch = state.lastSyncedBatchId + 1 ∧
        state.fsyncInProgress = true
  | .returned _ =>
      1 ≤ call.myBatch ∧
        call.myBatch ≤ state.lastSyncedBatchId

namespace SyncCall

variable {φ : Type} {state : GroupCommitState}

@[simp] theorem myBatch_enter
    (call : SyncCall φ)
    (phase : SyncPhase) :
    (call.enter phase).myBatch = call.myBatch := rfl

@[simp] theorem phase_enter
    (call : SyncCall φ)
    (phase : SyncPhase) :
    (call.enter phase).phase = phase := rfl

@[simp] theorem myBatch_notify
    (call : SyncCall φ) :
    call.notify.myBatch = call.myBatch := by
  unfold notify
  split <;> simp [enter]

@[simp] theorem isCommitting_notify
    (call : SyncCall φ) :
    call.notify.phase.isCommitting =
      call.phase.isCommitting := by
  unfold notify
  split <;> simp_all [enter, SyncPhase.isCommitting]

theorem notify_phase_ne_parked
    (call : SyncCall φ) :
    call.notify.phase ≠ .parked := by
  unfold notify
  split
  · simp
  · simp
  · next hTimed hParked => exact hParked

theorem notify_eq_self
    {call : SyncCall φ}
    (hCommitting : call.phase.isCommitting = true) :
    call.notify = call := by
  unfold notify
  split <;> simp_all [SyncPhase.isCommitting]

theorem Valid.notify
    {call : SyncCall φ}
    (hValid : call.Valid state) :
    call.notify.Valid state := by
  unfold SyncCall.notify
  split
  · next hPhase =>
      simpa [Valid, enter, hPhase] using hValid
  · next hPhase =>
      simp only [Valid, hPhase] at hValid
      exact ⟨hValid.1, hValid.2.1⟩
  · exact hValid

end SyncCall

namespace GroupCommit

variable {φ : Type}

structure Consistent (group : GroupCommit φ) : Prop where
  collecting_eq :
    group.state.collectingBatchId =
      group.state.lastSyncedBatchId + 1 +
        if group.state.fsyncInProgress then 1 else 0
  committers :
    group.calls.countP (fun call =>
        call.phase.isCommitting) =
      if group.state.fsyncInProgress then 1 else 0
  waiters :
    group.state.waitersInCollecting =
      group.calls.countP (fun call =>
        call.myBatch = group.state.collectingBatchId)
  valid : ∀ call ∈ group.calls, call.Valid group.state
  started :
    startedBatches group.events =
      List.range' 1 (group.state.collectingBatchId - 1)
  joined :
    ∀ position call,
      group.calls[position]? = some call →
        call.myBatch ≠ 0 →
          .joined position call.myBatch ∈ group.events
  order :
    group.events.Pairwise (fun earlier later =>
      ∀ position batch,
        earlier = .started batch →
          later ≠ .joined position batch)

variable {group : GroupCommit φ}

theorem Consistent.new :
    (GroupCommit.new : GroupCommit φ).Consistent := by
  constructor <;>
    simp [GroupCommit.new, GroupCommitState.new,
      startedBatches]

/- A call moves on within its batch. -/
theorem Consistent.setCall
    (hGroup : group.Consistent)
    {position : Nat}
    {old new : SyncCall φ}
    (hOld : group.calls[position]? = some old)
    (hBatch : new.myBatch = old.myBatch)
    (hCommitting :
      new.phase.isCommitting = old.phase.isCommitting)
    (hValid : new.Valid group.state) :
    ({ group with
        calls := group.calls.set position new } :
      GroupCommit φ).Consistent := by
  have hCommitters :=
    Threads.countP_set_add
      (fun call : SyncCall φ => call.phase.isCommitting)
      hOld new
  have hWaiters :=
    Threads.countP_set_add
      (fun call : SyncCall φ =>
        call.myBatch = group.state.collectingBatchId)
      hOld new
  simp only [hCommitting, Nat.add_right_cancel_iff]
    at hCommitters
  simp only [hBatch, Nat.add_right_cancel_iff] at hWaiters
  constructor
  · exact hGroup.collecting_eq
  · simpa [hCommitters] using hGroup.committers
  · simpa [hWaiters] using hGroup.waiters
  · intro call hCall
    rcases Threads.mem_set_cases hCall with hNew | hMem
    · rw [hNew]
      exact hValid
    · exact hGroup.valid call hMem
  · exact hGroup.started
  · intro other call hCall hSome
    rcases Threads.getElem?_set_cases hCall with
      ⟨hEq, hNew⟩ | ⟨_, hKept⟩
    · rw [hEq, hNew, hBatch]
      apply hGroup.joined position old hOld
      rwa [hNew, hBatch] at hSome
    · exact hGroup.joined other call hKept hSome
  · exact hGroup.order

/- Waking calls up changes no batch. -/
theorem Consistent.notifyAll
    (hGroup : group.Consistent) :
    ({ group with
        calls := GroupCommit.notifyAll group.calls } :
      GroupCommit φ).Consistent := by
  constructor
  · exact hGroup.collecting_eq
  · simpa [GroupCommit.notifyAll, List.countP_map,
      Function.comp_def] using hGroup.committers
  · simpa [GroupCommit.notifyAll, List.countP_map,
      Function.comp_def] using hGroup.waiters
  · intro call hCall
    rcases List.mem_map.mp hCall with ⟨old, hOld, hEq⟩
    rw [← hEq]
    exact (hGroup.valid old hOld).notify
  · exact hGroup.started
  · intro position call hCall hSome
    simp only [GroupCommit.notifyAll, List.getElem?_map,
      Option.map_eq_some_iff] at hCall
    rcases hCall with ⟨old, hOld, hEq⟩
    rw [← hEq, SyncCall.myBatch_notify] at hSome ⊢
    exact hGroup.joined position old hOld hSome
  · exact hGroup.order

theorem startedBatches_append
    (left right : List CommitEvent) :
    startedBatches (left ++ right) =
      startedBatches left ++ startedBatches right := by
  simp [startedBatches]

/- No call is ahead of the collecting batch. -/
theorem Consistent.le_collecting
    (hGroup : group.Consistent)
    {call : SyncCall φ}
    (hCall : call ∈ group.calls) :
    call.myBatch ≤ group.state.collectingBatchId := by
  have hValid := hGroup.valid call hCall
  have hCollecting := hGroup.collecting_eq
  unfold SyncCall.Valid at hValid
  split at hValid <;> omega

/- Closing the batch: the call becomes its committer. -/
theorem Consistent.close
    (hGroup : group.Consistent)
    {position : Nat}
    {call : SyncCall φ}
    (hCall : group.calls[position]? = some call)
    (hAwake : call.phase = .awake)
    (hIdle : group.state.fsyncInProgress = false)
    (hNext :
      call.myBatch = group.state.lastSyncedBatchId + 1) :
    ({ state := group.state.close
       calls :=
        group.calls.set position (call.enter .committing)
       events := group.events ++ [.started call.myBatch] } :
      GroupCommit φ).Consistent := by
  have hMem := List.mem_of_getElem? hCall
  have hCollecting := hGroup.collecting_eq
  have hCommitters :=
    Threads.countP_set_add
      (fun call : SyncCall φ => call.phase.isCommitting)
      hCall (call.enter .committing)
  have hNone := hGroup.committers
  have hOld : call.phase.isCommitting = false := by
    simp [hAwake, SyncPhase.isCommitting]
  have hNew : SyncPhase.committing.isCommitting = true := rfl
  simp only [SyncCall.phase_enter, hOld, hNew,
    Bool.false_eq_true, if_false, if_true, Nat.add_zero]
    at hCommitters
  simp only [hIdle, Bool.false_eq_true, if_false,
    Nat.add_zero] at hCollecting hNone
  constructor
  · simp [GroupCommitState.close, hCollecting]
  · simp [GroupCommitState.close, hCommitters, hNone]
  · apply Eq.symm
    apply List.countP_eq_zero.mpr
    intro other hOther hDecide
    have hAhead :
        other.myBatch = group.state.collectingBatchId + 1 :=
      of_decide_eq_true hDecide
    rcases Threads.mem_set_cases hOther with hEq | hMem
    · rw [hEq, SyncCall.myBatch_enter] at hAhead
      omega
    · have hLe := hGroup.le_collecting hMem
      omega
  · intro other hOther
    rcases Threads.mem_set_cases hOther with hNew | hOld
    · simp [hNew, SyncCall.Valid, SyncCall.enter, hNext,
        GroupCommitState.close]
    · have hValid := hGroup.valid other hOld
      unfold SyncCall.Valid at hValid ⊢
      simp only [GroupCommitState.close]
      split <;> simp_all <;> omega
  · rw [startedBatches_append, hGroup.started]
    have hRange :
        List.range' 1
            (group.state.collectingBatchId - 1 + 1) = _ :=
      List.range'_1_concat
    have hSucc :
        group.state.collectingBatchId - 1 + 1 =
          group.state.collectingBatchId := by
      omega
    have hBatch :
        1 + (group.state.collectingBatchId - 1) =
          call.myBatch := by
      omega
    rw [hSucc, hBatch] at hRange
    simp [GroupCommitState.close, hRange, startedBatches]
  · intro other found hFound hSome
    apply List.mem_append_left
    rcases Threads.getElem?_set_cases hFound with
      ⟨hEq, hNew⟩ | ⟨_, hKept⟩
    · rw [hEq, hNew]
      apply hGroup.joined position call hCall
      rwa [hNew] at hSome
    · exact hGroup.joined other found hKept hSome
  · rw [List.pairwise_append]
    refine ⟨hGroup.order, by simp, ?_⟩
    intro earlier _ later hLater position batch _
    simp [List.mem_singleton.mp hLater]

/- One turn of the loop. -/
theorem Consistent.turn
    (hGroup : group.Consistent)
    (options : GroupCommitConfig)
    {position : Nat}
    {call : SyncCall φ}
    (hCall : group.calls[position]? = some call)
    (hAwake : call.phase = .awake)
    (now : Nat) :
    (group.turn options position call now).Consistent := by
  have hValid := hGroup.valid call (List.mem_of_getElem? hCall)
  simp only [SyncCall.Valid, hAwake] at hValid
  have hCollecting := hGroup.collecting_eq
  unfold GroupCommit.turn
  dsimp only
  split
  · next hSynced =>
      apply hGroup.setCall hCall
      · rfl
      · simp [SyncCall.enter, hAwake,
          SyncPhase.isCommitting]
      · exact ⟨hValid.1, hSynced⟩
  · next hAhead =>
      split
      · next hTurn =>
          split
          · exact hGroup.close hCall hAwake hTurn.1 hTurn.2
          · apply hGroup.setCall hCall
            · rfl
            · simp [SyncCall.enter, hAwake,
                SyncPhase.isCommitting]
            · exact hValid
      · next hNot =>
          apply hGroup.setCall hCall
          · rfl
          · simp [SyncCall.enter, hAwake,
              SyncPhase.isCommitting]
          · refine ⟨hValid.1, hValid.2, ?_⟩
            cases hBusy : group.state.fsyncInProgress with
            | true => rfl
            | false =>
                apply absurd ⟨hBusy, _⟩ hNot
                simp only [hBusy, Bool.false_eq_true,
                  if_false] at hCollecting
                omega

/- A call enters the collecting batch. -/
theorem Consistent.arrive
    (hGroup : group.Consistent)
    {position : Nat}
    {call : SyncCall φ}
    (hCall : group.calls[position]? = some call)
    (hEntering : call.phase = .entering)
    (now : Nat) :
    (group.arrive position call now).Consistent := by
  have hCollecting := hGroup.collecting_eq
  have hValid := hGroup.valid call (List.mem_of_getElem? hCall)
  simp only [SyncCall.Valid, hEntering] at hValid
  let entered : SyncCall φ :=
    { call with
      myBatch := group.state.collectingBatchId
      phase := .awake }
  have hCommitters :=
    Threads.countP_set_add
      (fun call : SyncCall φ => call.phase.isCommitting)
      hCall entered
  have hWaiters :=
    Threads.countP_set_add
      (fun call : SyncCall φ =>
        call.myBatch = group.state.collectingBatchId)
      hCall entered
  have hOld : call.phase.isCommitting = false := by
    simp [hEntering, SyncPhase.isCommitting]
  have hNew : entered.phase.isCommitting = false := rfl
  have hBatch :
      entered.myBatch = group.state.collectingBatchId := rfl
  have hPositive : ¬ 0 = group.state.collectingBatchId := by
    omega
  simp only [hOld, hNew, Bool.false_eq_true, if_false,
    Nat.add_zero] at hCommitters
  simp only [hValid, hBatch, hPositive, decide_false,
    decide_true, Bool.false_eq_true, if_false, if_true,
    Nat.add_zero] at hWaiters
  have hEntered :
      ({ state := group.state.arrive now
         calls := group.calls.set position entered
         events :=
          group.events ++
            [.joined position
              group.state.collectingBatchId] } :
        GroupCommit φ).Consistent := by
    constructor
    · exact hCollecting
    · exact hCommitters.trans hGroup.committers
    · simp only [GroupCommitState.arrive, hWaiters,
        hGroup.waiters]
    · intro other hOther
      rcases Threads.mem_set_cases hOther with hEq | hMem
      · rw [hEq]
        simp only [SyncCall.Valid, entered,
          GroupCommitState.arrive]
        omega
      · exact hGroup.valid other hMem
    · rw [startedBatches_append, hGroup.started]
      simp [startedBatches, GroupCommitState.arrive]
    · intro other found hFound hSome
      rcases Threads.getElem?_set_cases hFound with
        ⟨hEq, hFoundEq⟩ | ⟨_, hKept⟩
      · rw [hEq, hFoundEq, hBatch]
        simp
      · exact List.mem_append_left _
          (hGroup.joined other found hKept hSome)
    · rw [List.pairwise_append]
      refine ⟨hGroup.order, by simp, ?_⟩
      intro earlier hEarlier later hLater other batch hStarted
      rw [List.mem_singleton.mp hLater]
      -- Only earlier batches have been started.
      have hMem :
          batch ∈ startedBatches group.events := by
        rw [startedBatches, List.mem_filterMap]
        exact ⟨earlier, hEarlier, by rw [hStarted]⟩
      rw [hGroup.started, List.mem_range'_1] at hMem
      simp only [ne_eq, CommitEvent.joined.injEq, not_and]
      omega
  exact hEntered.notifyAll

/- The fsync ends; its committer goes for the lock. -/
theorem Consistent.fsync
    (hGroup : group.Consistent)
    {position : Nat}
    {call : SyncCall φ}
    (hCall : group.calls[position]? = some call)
    (hCommitting : call.phase = .committing)
    (result : SyncResult) :
    ({ group with
        calls :=
          group.calls.set position
            (call.enter (.committed result))
        events :=
          group.events ++
            [.completed call.myBatch result] } :
      GroupCommit φ).Consistent := by
  have hValid := hGroup.valid call (List.mem_of_getElem? hCall)
  simp only [SyncCall.Valid, hCommitting] at hValid
  have hMoved :=
    hGroup.setCall hCall
      (SyncCall.myBatch_enter call (.committed result))
      (by simp [hCommitting, SyncPhase.isCommitting])
      (by simpa [SyncCall.Valid] using hValid)
  constructor
  · exact hMoved.collecting_eq
  · exact hMoved.committers
  · exact hMoved.waiters
  · exact hMoved.valid
  · rw [startedBatches_append, hGroup.started]
    simp [startedBatches]
  · intro other found hFound hSome
    exact List.mem_append_left _
      (hMoved.joined other found hFound hSome)
  · rw [List.pairwise_append]
    refine ⟨hGroup.order, by simp, ?_⟩
    intro earlier _ later hLater other batch _
    simp [List.mem_singleton.mp hLater]

/- Only the committer is committing. -/
theorem Consistent.not_committing
    (hGroup : group.Consistent)
    {position other : Nat}
    {call found : SyncCall φ}
    (hCall : group.calls[position]? = some call)
    (hCommitting : call.phase.isCommitting = true)
    (hFound : group.calls[other]? = some found)
    (hNe : other ≠ position) :
    found.phase.isCommitting = false := by
  cases hBoth : found.phase.isCommitting with
  | false => rfl
  | true =>
      have hCount := hGroup.committers
      have hRemoved :=
        Threads.countP_set_add
          (fun call : SyncCall φ => call.phase.isCommitting)
          hCall { call with phase := .awake }
      have hKept :=
        Threads.getElem?_set_of_ne hNe hFound
          { call with phase := .awake }
      have hPositive :
          0 < (group.calls.set position
            { call with phase := .awake }).countP
              (fun call => call.phase.isCommitting) := by
        apply List.countP_pos_iff.mpr
        exact ⟨found, List.mem_of_getElem? hKept, hBoth⟩
      have hAwake : SyncPhase.awake.isCommitting = false :=
        rfl
      simp only [hCommitting, hAwake, Bool.false_eq_true,
        if_false, if_true] at hRemoved
      split at hCount <;> omega

/-
  The committer publishes the outcome of its batch; nobody
  may be left in the untimed wait.
-/
theorem Consistent.publish
    (hGroup : group.Consistent)
    {position : Nat}
    {call : SyncCall φ}
    {result : SyncResult}
    (hCall : group.calls[position]? = some call)
    (hCommitted : call.phase = .committed result)
    (hAwake : ∀ call ∈ group.calls, call.phase ≠ .parked) :
    ({ group with
        state := group.state.finish call.myBatch result
        calls :=
          group.calls.set position
            (call.enter (.returned result)) } :
      GroupCommit φ).Consistent := by
  have hValid := hGroup.valid call (List.mem_of_getElem? hCall)
  simp only [SyncCall.Valid, hCommitted] at hValid
  have hCollecting := hGroup.collecting_eq
  have hOne := hGroup.committers
  have hCommitting : call.phase.isCommitting = true := by
    simp [hCommitted, SyncPhase.isCommitting]
  have hReturned :
      (SyncPhase.returned result).isCommitting = false := rfl
  have hCommitters :=
    Threads.countP_set_add
      (fun call : SyncCall φ => call.phase.isCommitting)
      hCall (call.enter (.returned result))
  have hWaiters :=
    Threads.countP_set_add
      (fun call : SyncCall φ =>
        call.myBatch = group.state.collectingBatchId)
      hCall (call.enter (.returned result))
  simp only [SyncCall.phase_enter, hCommitting, hReturned,
    Bool.false_eq_true, if_false, if_true, Nat.add_zero]
    at hCommitters
  simp only [SyncCall.myBatch_enter] at hWaiters
  simp only [hValid.2, if_true] at hCollecting hOne
  have hLast :
      (group.state.finish call.myBatch
        result).lastSyncedBatchId = call.myBatch := rfl
  constructor
  · simp only [GroupCommitState.finish, Bool.false_eq_true,
      if_false]
    omega
  · simp only [GroupCommitState.finish, Bool.false_eq_true,
      if_false]
    omega
  · have hSame := Nat.add_right_cancel hWaiters
    exact hGroup.waiters.trans hSame.symm
  · intro other hOther
    rcases List.mem_iff_getElem?.mp hOther with
      ⟨place, hPlace⟩
    rcases Threads.getElem?_set_cases hPlace with
      ⟨_, hNew⟩ | ⟨hNe, hKept⟩
    · rw [hNew]
      simp only [SyncCall.Valid, SyncCall.phase_enter,
        SyncCall.myBatch_enter, hLast]
      omega
    · have hMem := List.mem_of_getElem? hKept
      have hIdle :=
        hGroup.not_committing hCall hCommitting hKept hNe
      have hUnparked := hAwake other hMem
      have hOld := hGroup.valid other hMem
      unfold SyncCall.Valid at hOld ⊢
      rw [hLast]
      cases hPhase : other.phase <;>
        simp_all [SyncPhase.isCommitting,
          GroupCommitState.finish]
      omega
  · exact hGroup.started
  · intro other found hFound hSome
    rcases Threads.getElem?_set_cases hFound with
      ⟨hEq, hNew⟩ | ⟨_, hKept⟩
    · rw [hEq, hNew]
      apply hGroup.joined position call hCall
      rwa [hNew] at hSome
    · exact hGroup.joined other found hKept hSome
  · exact hGroup.order

theorem Consistent.finish
    (hGroup : group.Consistent)
    {position : Nat}
    {call : SyncCall φ}
    {result : SyncResult}
    (hCall : group.calls[position]? = some call)
    (hCommitted : call.phase = .committed result) :
    ({ group with
        state := group.state.finish call.myBatch result
        calls :=
          GroupCommit.notifyAll
            (group.calls.set position
              (call.enter (.returned result))) } :
      GroupCommit φ).Consistent := by
  have hSelf : call.notify = call := by
    apply SyncCall.notify_eq_self
    simp [hCommitted, SyncPhase.isCommitting]
  have hReturned :
      (call.enter (.returned result)).notify =
        call.enter (.returned result) := rfl
  have hNotified :
      (GroupCommit.notifyAll group.calls)[position]? =
        some call := by
    simp [GroupCommit.notifyAll, hCall, hSelf]
  have hDone :=
    hGroup.notifyAll.publish hNotified hCommitted (by
      intro other hOther
      rcases List.mem_map.mp hOther with ⟨old, _, hEq⟩
      rw [← hEq]
      exact old.notify_phase_ne_parked)
  simpa [GroupCommit.notifyAll, hReturned] using hDone

/- A new call belongs to no batch yet. -/
theorem Consistent.addCall
    (hGroup : group.Consistent)
    {call : SyncCall φ}
    (hBatch : call.myBatch = 0)
    (hPhase :
      call.phase = .forcing ∨ call.phase = .entering) :
    ({ group with calls := group.calls ++ [call] } :
      GroupCommit φ).Consistent := by
  have hCollecting := hGroup.collecting_eq
  have hPositive : ¬ 0 = group.state.collectingBatchId := by
    omega
  have hIdle : call.phase.isCommitting = false := by
    rcases hPhase with hPhase | hPhase <;>
      simp [hPhase, SyncPhase.isCommitting]
  constructor
  · exact hCollecting
  · simpa [List.countP_append, hIdle] using hGroup.committers
  · simpa [List.countP_append, hBatch, hPositive]
      using hGroup.waiters
  · intro other hOther
    rcases List.mem_append.mp hOther with hOld | hNew
    · exact hGroup.valid other hOld
    · rw [List.mem_singleton.mp hNew]
      rcases hPhase with hPhase | hPhase <;>
        simp [SyncCall.Valid, hPhase, hBatch]
  · exact hGroup.started
  · intro position found hFound hSome
    rw [List.getElem?_append] at hFound
    split at hFound
    · exact hGroup.joined position found hFound hSome
    · have hMem := List.mem_of_getElem? hFound
      rw [List.mem_singleton.mp hMem, hBatch] at hSome
      exact (hSome rfl).elim
  · exact hGroup.order

/- Every step keeps the invariant. -/
theorem Consistent.step
    (hGroup : group.Consistent)
    {options : GroupCommitConfig}
    {action : CommitStep φ}
    {next : GroupCommit φ}
    (hNext : group.step options action = some next) :
    next.Consistent := by
  have hValid :
      ∀ {position : Nat} {call : SyncCall φ},
        group.calls[position]? = some call →
          call.Valid group.state := by
    intro position call hCall
    exact hGroup.valid call (List.mem_of_getElem? hCall)
  rcases step_cases hNext with
    ⟨file, force, _, hEq⟩ |
    ⟨position, call, _, hCall, hForcing, hEq⟩ |
    ⟨position, call, arrival, now, _, hCall, hEntering,
      hEq⟩ |
    ⟨position, call, now, _, hCall, hAwake, hEq⟩ |
    ⟨position, call, _, hCall, hParked, hEq⟩ |
    ⟨position, call, result, _, hCall, hCommitting, hEq⟩ |
    ⟨position, call, result, _, hCall, hCommitted, hEq⟩
  · rw [hEq]
    apply hGroup.addCall
    · rfl
    · cases force <;> simp
  · have hOld := hValid hCall
    have hMoved :=
      (hGroup.setCall hCall
        (SyncCall.myBatch_enter call .entering)
        (by simp [hForcing, SyncPhase.isCommitting])
        (by simpa [SyncCall.Valid, hForcing]
          using hOld)).notifyAll
    rw [hEq]
    exact ⟨hMoved.collecting_eq, hMoved.committers,
      hMoved.waiters, hMoved.valid, hMoved.started,
      hMoved.joined, hMoved.order⟩
  · rw [hEq]
    exact (hGroup.arrive hCall hEntering arrival).turn
      options (getElem?_arrive hCall arrival) rfl now
  · rw [hEq]
    exact hGroup.turn options hCall hAwake now
  · have hOld := hValid hCall
    rw [hEq]
    apply hGroup.setCall hCall
    · rfl
    · rcases hParked with hPhase | hPhase <;>
        simp [hPhase, SyncPhase.isCommitting]
    · rcases hParked with hPhase | hPhase
      · simpa [SyncCall.Valid, hPhase] using hOld
      · simp only [SyncCall.Valid, hPhase] at hOld
        exact ⟨hOld.1, hOld.2.1⟩
  · rw [hEq]
    exact hGroup.fsync hCall hCommitting result
  · rw [hEq]
    exact hGroup.finish hCall hCommitted

end GroupCommit

end Nesso

------------------------------------------------------------
-- Runs of Any Number of Callers
------------------------------------------------------------

namespace Nesso

variable {φ : Type}

/- Any interleaving of any calls. -/
abbrev GroupCommitRun
    (options : GroupCommitConfig) :
    List (CommitStep φ) → GroupCommit φ → Prop :=
  Transition.Run (GroupCommit.step options)
    (fun _ _ => True) GroupCommit.new

/- What the protocol promises of a state. -/
structure GroupCommit.Protocol
    (group : GroupCommit φ) : Prop where
  one_fsync :
    group.calls.countP (fun call =>
      call.phase = .committing) ≤ 1
  collecting_eq :
    group.state.collectingBatchId =
      group.state.lastSyncedBatchId + 1 +
        if group.state.fsyncInProgress then 1 else 0
  once_in_order :
    startedBatches group.events =
      List.range' 1 (group.state.collectingBatchId - 1)
  waiters_eq :
    group.state.waitersInCollecting =
      group.calls.countP (fun call =>
        call.myBatch = group.state.collectingBatchId)
  joined_before :
    ∀ position call,
      group.calls[position]? = some call →
        call.myBatch ≠ 0 →
          ∀ front back,
            group.events =
                front ++ .started call.myBatch :: back →
              .joined position call.myBatch ∈ front
  no_lost_wakeup :
    ∀ call ∈ group.calls, call.phase = .parked →
      group.state.fsyncInProgress = true

theorem GroupCommit.Consistent.protocol
    {group : GroupCommit φ}
    (hGroup : group.Consistent) :
    group.Protocol := by
  constructor
  · have hLe :
        group.calls.countP (fun call =>
            call.phase = .committing) ≤
          group.calls.countP (fun call =>
            call.phase.isCommitting) := by
      apply List.countP_mono_left
      intro call _ hCommitting
      have hPhase : call.phase = .committing :=
        of_decide_eq_true hCommitting
      simp [hPhase, SyncPhase.isCommitting]
    have hCount := hGroup.committers
    split at hCount <;> omega
  · exact hGroup.collecting_eq
  · exact hGroup.started
  · exact hGroup.waiters
  · intro position call hCall hSome front back hEvents
    have hMem := hGroup.joined position call hCall hSome
    have hOrder := hGroup.order
    rw [hEvents] at hMem hOrder
    rcases List.mem_append.mp hMem with hFront | hBack
    · exact hFront
    · rw [List.pairwise_append, List.pairwise_cons]
        at hOrder
      rcases List.mem_cons.mp hBack with hEq | hLater
      · simp at hEq
      · exact (hOrder.2.1.1 _ hLater position call.myBatch
          rfl rfl).elim
  · intro call hCall hParked
    have hValid := hGroup.valid call hCall
    simp only [SyncCall.Valid, hParked] at hValid
    exact hValid.2.2

/-
  In every state that any calls of `sync` and
  `force_flush_and_wait` reach, the protocol holds.
-/
theorem groupCommitRun_protocol
    {options : GroupCommitConfig}
    {actions : List (CommitStep φ)}
    {group : GroupCommit φ}
    (hRun : GroupCommitRun options actions group) :
    group.Protocol := by
  have hGroup : group.Consistent :=
    hRun.invariant GroupCommit.Consistent.new
      (fun hOld _ hNext => hOld.step hNext)
  exact hGroup.protocol

/-
  A call commits alone; a forced one arrives during the
  fsync, waits, and commits the next batch.
-/
def forcedDuringFsync : List (CommitStep Unit) :=
  [.call () false, .join 0 0 0, .call () true,
    .forceFlush 1, .join 1 5 5, .fsync 0 (.ok ()),
    .finish 0, .resume 1 6, .fsync 1 (.error .other),
    .finish 1]

theorem groupCommitRun_protocol_forced :
    ∃ group : GroupCommit Unit,
      GroupCommitRun .default forcedDuringFsync group ∧
        group.state.lastSyncedBatchId = 2 ∧
        group.Protocol := by
  have hEnd :
      (Transition.execute
        (GroupCommit.step GroupCommitConfig.default)
        forcedDuringFsync GroupCommit.new).any
          (fun group =>
            group.state.lastSyncedBatchId = 2) = true := by
    decide
  have hAllowed :
      ∀ _ : GroupCommit Unit, ∀ _ ∈ forcedDuringFsync,
        True := by
    simp
  rcases Transition.exists_run_of_execute hAllowed hEnd with
    ⟨group, hRun, hLast⟩
  exact ⟨group, hRun, of_decide_eq_true hLast,
    groupCommitRun_protocol hRun⟩

end Nesso
