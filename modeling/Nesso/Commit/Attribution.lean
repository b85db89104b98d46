import Nesso.Commit.Protocol

/-
  Which batch the result of a call belongs to.

  Followers learn the outcome of their batch from one shared
  field, which every later batch overwrites.

  Key definitions include:
    * `GroupCommit.Attributed`
    * `GroupCommit.SameOutcome`

  The main theorem is:
    * `groupCommitRun_attributes`
-/

------------------------------------------------------------
-- Outcomes of Batches
------------------------------------------------------------

namespace Nesso

/- What the phase of a call says about finished fsyncs. -/
def SyncCall.Attributed {φ : Type}
    (events : List CommitEvent)
    (call : SyncCall φ) : Prop :=
  match call.phase with
  | .committing =>
      ∀ result, .completed call.myBatch result ∉ events
  | .committed result =>
      .completed call.myBatch result ∈ events
  | .returned result =>
      result = .ok () ↔
        .completed call.myBatch (.ok ()) ∈ events
  | _ => True

namespace GroupCommit

variable {φ : Type}

/-
  Every fsync has one outcome, the shared field has the last
  one, and every result is that of the call's own batch.
-/
structure Attributed (group : GroupCommit φ) : Prop where
  bound :
    ∀ batch result,
      .completed batch result ∈ group.events →
        batch < group.state.collectingBatchId
  unique :
    ∀ batch left right,
      .completed batch left ∈ group.events →
        .completed batch right ∈ group.events →
          left = right
  last :
    group.state.lastSyncedBatchId ≠ 0 →
      .completed group.state.lastSyncedBatchId
        group.state.reported ∈ group.events
  calls :
    ∀ call ∈ group.calls, call.Attributed group.events

/-
  A caller whose batch is synced finds, as the last synced
  batch, one with the outcome of its own.
-/
def SameOutcome
    (group : GroupCommit φ)
    (action : CommitStep φ) : Prop :=
  match action with
  | .resume position _ =>
      ∀ call, group.calls[position]? = some call →
        call.myBatch ≤ group.state.lastSyncedBatchId →
          (.completed call.myBatch (.ok ()) ∈ group.events ↔
            .completed group.state.lastSyncedBatchId (.ok ())
              ∈ group.events)
  | _ => True

/- A test for this condition. -/
def sameOutcome
    (group : GroupCommit φ)
    (action : CommitStep φ) : Bool :=
  match action with
  | .resume position _ =>
      group.calls[position]?.all (fun call =>
        group.state.lastSyncedBatchId < call.myBatch ||
          decide
            (CommitEvent.completed call.myBatch (.ok ()) ∈
              group.events) =
            decide
              (CommitEvent.completed
                group.state.lastSyncedBatchId (.ok ()) ∈
                  group.events))
  | _ => true

variable {group : GroupCommit φ}

theorem Attributed.new :
    (GroupCommit.new : GroupCommit φ).Attributed := by
  constructor <;>
    simp [GroupCommit.new, GroupCommitState.new]

/- A call moves on. -/
theorem Attributed.setCall
    (hGroup : group.Attributed)
    (position : Nat)
    {new : SyncCall φ}
    (hNew : new.Attributed group.events) :
    ({ group with
        calls := group.calls.set position new } :
      GroupCommit φ).Attributed := by
  refine ⟨hGroup.bound, hGroup.unique, hGroup.last, ?_⟩
  intro call hCall
  rcases Threads.mem_set_cases hCall with hEq | hMem
  · rw [hEq]
    exact hNew
  · exact hGroup.calls call hMem

/- A change that is not an fsync. -/
theorem Attributed.of_not_completed
    (hGroup : group.Attributed)
    {next : GroupCommit φ}
    (hCompleted :
      ∀ batch result,
        .completed batch result ∈ next.events ↔
          .completed batch result ∈ group.events)
    (hCollecting :
      group.state.collectingBatchId ≤
        next.state.collectingBatchId)
    (hLast :
      next.state.lastSyncedBatchId =
        group.state.lastSyncedBatchId)
    (hError :
      next.state.lastError = group.state.lastError)
    (hCalls :
      ∀ call ∈ next.calls,
        call.Attributed group.events) :
    next.Attributed := by
  constructor
  · intro batch result hMem
    have hLt :=
      hGroup.bound batch result
        ((hCompleted batch result).mp hMem)
    omega
  · intro batch left right hLeft hRight
    exact hGroup.unique batch left right
      ((hCompleted batch left).mp hLeft)
      ((hCompleted batch right).mp hRight)
  · intro hSome
    rw [hLast] at hSome ⊢
    rw [hCompleted, GroupCommitState.reported, hError]
    exact hGroup.last hSome
  · intro call hCall
    have hOld := hCalls call hCall
    unfold SyncCall.Attributed at hOld ⊢
    cases hPhase : call.phase <;>
      simp_all

end GroupCommit

theorem SyncCall.Attributed.notify {φ : Type}
    {events : List CommitEvent}
    {call : SyncCall φ}
    (hCall : call.Attributed events) :
    call.notify.Attributed events := by
  unfold SyncCall.notify
  split
  · trivial
  · trivial
  · exact hCall

namespace GroupCommit

variable {φ : Type} {group : GroupCommit φ}

/- One turn of the loop, of a caller that is told right. -/
theorem Attributed.turn
    (hGroup : group.Attributed)
    (hConsistent : group.Consistent)
    (options : GroupCommitConfig)
    {position : Nat}
    {call : SyncCall φ}
    (hCall : group.calls[position]? = some call)
    (hAwake : call.phase = .awake)
    (hSame :
      call.myBatch ≤ group.state.lastSyncedBatchId →
        (.completed call.myBatch (.ok ()) ∈ group.events ↔
          .completed group.state.lastSyncedBatchId (.ok ())
            ∈ group.events))
    (now : Nat) :
    (group.turn options position call now).Attributed := by
  have hValid :=
    hConsistent.valid call (List.mem_of_getElem? hCall)
  simp only [SyncCall.Valid, hAwake] at hValid
  have hCollecting := hConsistent.collecting_eq
  unfold GroupCommit.turn
  dsimp only
  split
  · next hSynced =>
      apply hGroup.setCall
      have hLast := hGroup.last (by omega)
      simp only [SyncCall.Attributed, SyncCall.phase_enter,
        SyncCall.myBatch_enter, hSame hSynced]
      constructor
      · intro hReported
        rwa [hReported] at hLast
      · intro hOk
        exact hGroup.unique _ _ _ hLast hOk
  · split
    · next hTurn =>
        split
        · apply hGroup.of_not_completed
          · simp
          · simp [GroupCommitState.close]
          · rfl
          · rfl
          · intro other hOther
            rcases Threads.mem_set_cases hOther with
              hEq | hMem
            · rw [hEq]
              intro result hMem
              have hLt := hGroup.bound _ _ hMem
              simp only [hTurn.1, Bool.false_eq_true,
                if_false] at hCollecting
              simp only [SyncCall.myBatch_enter] at hLt
              omega
            · exact hGroup.calls other hMem
        · exact hGroup.setCall position trivial
    · exact hGroup.setCall position trivial

theorem Attributed.arrive
    (hGroup : group.Attributed)
    (position : Nat)
    (call : SyncCall φ)
    (now : Nat) :
    (group.arrive position call now).Attributed := by
  apply hGroup.of_not_completed
  · simp [GroupCommit.arrive]
  · simp [GroupCommit.arrive, GroupCommitState.arrive]
  · rfl
  · rfl
  · intro other hOther
    rcases List.mem_map.mp hOther with ⟨old, hOld, hEq⟩
    rw [← hEq]
    apply SyncCall.Attributed.notify
    rcases Threads.mem_set_cases hOld with hNew | hMem
    · rw [hNew]
      trivial
    · exact hGroup.calls old hMem

/- The fsync of the running batch has an outcome. -/
theorem Attributed.fsync
    (hGroup : group.Attributed)
    (hConsistent : group.Consistent)
    {position : Nat}
    {call : SyncCall φ}
    (hCall : group.calls[position]? = some call)
    (hCommitting : call.phase = .committing)
    (result : SyncResult) :
    ({ group with
        calls :=
          group.calls.set position
            (call.enter (.committed result))
        events :=
          group.events ++
            [.completed call.myBatch result] } :
      GroupCommit φ).Attributed := by
  have hMem := List.mem_of_getElem? hCall
  have hValid := hConsistent.valid call hMem
  have hFresh := hGroup.calls call hMem
  simp only [SyncCall.Valid, hCommitting] at hValid
  simp only [SyncCall.Attributed, hCommitting] at hFresh
  have hCollecting := hConsistent.collecting_eq
  simp only [hValid.2, if_true] at hCollecting
  have hRight : call.phase.isCommitting = true := by
    simp [hCommitting, SyncPhase.isCommitting]
  have hCompleted :
      ∀ batch found,
        CommitEvent.completed batch found ∈
            group.events ++
              [.completed call.myBatch result] ↔
          .completed batch found ∈ group.events ∨
            batch = call.myBatch ∧ found = result := by
    simp
  constructor
  · intro batch found hFound
    rcases (hCompleted batch found).mp hFound with
      hOld | ⟨hBatch, _⟩
    · exact hGroup.bound batch found hOld
    · simp only
      omega
  · intro batch left right hLeft hRight
    rcases (hCompleted batch left).mp hLeft with
      hOld | ⟨hBatch, hEq⟩
    · rcases (hCompleted batch right).mp hRight with
        hOther | ⟨hBatch, _⟩
      · exact hGroup.unique batch left right hOld hOther
      · rw [hBatch] at hOld
        exact (hFresh left hOld).elim
    · rcases (hCompleted batch right).mp hRight with
        hOther | ⟨_, hOtherEq⟩
      · rw [hBatch] at hOther
        exact (hFresh right hOther).elim
      · rw [hEq, hOtherEq]
  · intro hSome
    exact List.mem_append_left _ (hGroup.last hSome)
  · intro other hOther
    rcases List.mem_iff_getElem?.mp hOther with
      ⟨place, hPlace⟩
    rcases Threads.getElem?_set_cases hPlace with
      ⟨_, hNew⟩ | ⟨hNe, hKept⟩
    · simp [hNew, SyncCall.Attributed]
    · have hOld := List.mem_of_getElem? hKept
      have hIdle :=
        hConsistent.not_committing hCall hRight hKept hNe
      have hOtherValid := hConsistent.valid other hOld
      have hKnown := hGroup.calls other hOld
      unfold SyncCall.Attributed at hKnown ⊢
      unfold SyncCall.Valid at hOtherValid
      cases hPhase : other.phase with
      | returned told =>
          simp only [hPhase] at hKnown hOtherValid ⊢
          rw [hKnown, hCompleted]
          constructor
          · exact .inl
          · intro hEither
            rcases hEither with hOk | ⟨hBatch, _⟩
            · exact hOk
            · omega
      | committing =>
          simp [hPhase, SyncPhase.isCommitting] at hIdle
      | committed told =>
          simp [hPhase, SyncPhase.isCommitting] at hIdle
      | _ => trivial

/- The committer returns the outcome it publishes. -/
theorem Attributed.finish
    (hGroup : group.Attributed)
    {position : Nat}
    {call : SyncCall φ}
    {result : SyncResult}
    (hCall : group.calls[position]? = some call)
    (hCommitted : call.phase = .committed result) :
    ({ group with
        state := group.state.finish call.myBatch result
        calls :=
          GroupCommit.notifyAll
            (group.calls.set position
              (call.enter (.returned result))) } :
      GroupCommit φ).Attributed := by
  have hOutcome :=
    hGroup.calls call (List.mem_of_getElem? hCall)
  simp only [SyncCall.Attributed, hCommitted] at hOutcome
  have hReported :
      (group.state.finish call.myBatch result).reported =
        result := by
    unfold GroupCommitState.reported GroupCommitState.finish
    cases result <;> rfl
  refine ⟨hGroup.bound, hGroup.unique, ?_, ?_⟩
  · intro _
    simp only [hReported]
    exact hOutcome
  · intro other hOther
    rcases List.mem_map.mp hOther with ⟨old, hOld, hEq⟩
    rw [← hEq]
    apply SyncCall.Attributed.notify
    rcases Threads.mem_set_cases hOld with hNew | hMem
    · rw [hNew]
      simp only [SyncCall.Attributed, SyncCall.phase_enter,
        SyncCall.myBatch_enter]
      constructor
      · intro hOk
        rwa [hOk] at hOutcome
      · intro hOk
        exact hGroup.unique _ _ _ hOutcome hOk
    · exact hGroup.calls old hMem

/- Every step that meets the condition. -/
theorem Attributed.step
    (hGroup : group.Attributed)
    (hConsistent : group.Consistent)
    {options : GroupCommitConfig}
    {action : CommitStep φ}
    (hSame : group.SameOutcome action)
    {next : GroupCommit φ}
    (hNext : group.step options action = some next) :
    next.Attributed := by
  have hNotified :
      ∀ {position : Nat} {new : SyncCall φ},
        new.Attributed group.events →
          ∀ call ∈ notifyAll (group.calls.set position new),
            call.Attributed group.events := by
    intro position new hNew call hCall
    rcases List.mem_map.mp hCall with ⟨old, hOld, hEq⟩
    rw [← hEq]
    apply SyncCall.Attributed.notify
    rcases Threads.mem_set_cases hOld with hNewEq | hMem
    · rw [hNewEq]
      exact hNew
    · exact hGroup.calls old hMem
  rcases step_cases hNext with
    ⟨file, force, _, hEq⟩ |
    ⟨position, call, _, hCall, hForcing, hEq⟩ |
    ⟨position, call, arrival, now, _, hCall, hEntering,
      hEq⟩ |
    ⟨position, call, now, hAction, hCall, hAwake, hEq⟩ |
    ⟨position, call, _, hCall, hParked, hEq⟩ |
    ⟨position, call, result, _, hCall, hCommitting, hEq⟩ |
    ⟨position, call, result, _, hCall, hCommitted, hEq⟩
  · rw [hEq]
    refine ⟨hGroup.bound, hGroup.unique, hGroup.last, ?_⟩
    intro other hOther
    rcases List.mem_append.mp hOther with hOld | hNew
    · exact hGroup.calls other hOld
    · rw [List.mem_singleton.mp hNew]
      cases force <;> trivial
  · rw [hEq]
    exact ⟨hGroup.bound, hGroup.unique, hGroup.last,
      hNotified trivial⟩
  · rw [hEq]
    have hCollecting := hConsistent.collecting_eq
    apply (hGroup.arrive position call arrival).turn
      (hConsistent.arrive hCall hEntering arrival) options
      (getElem?_arrive hCall arrival) rfl
    intro hSynced
    simp only [GroupCommit.arrive, GroupCommitState.arrive]
      at hSynced
    omega
  · rw [hEq]
    rw [hAction] at hSame
    exact hGroup.turn hConsistent options hCall hAwake
      (hSame call hCall) now
  · rw [hEq]
    exact hGroup.setCall position trivial
  · rw [hEq]
    exact hGroup.fsync hConsistent hCall hCommitting result
  · rw [hEq]
    exact hGroup.finish hCall hCommitted

end GroupCommit

end Nesso

------------------------------------------------------------
-- Results of Calls
------------------------------------------------------------

namespace Nesso

variable {φ : Type}

/-
  In every run in which a caller of a synced batch finds the
  outcome of its own batch in the shared field, a call returns
  `Ok` exactly if the fsync of its batch succeeded.
-/
theorem groupCommitRun_attributes
    {options : GroupCommitConfig}
    {actions : List (CommitStep φ)}
    {group : GroupCommit φ}
    (hRun :
      Transition.Run (GroupCommit.step options)
        GroupCommit.SameOutcome GroupCommit.new actions
        group) :
    ∀ call ∈ group.calls, ∀ result,
      call.phase = .returned result →
        (result = .ok () ↔
          .completed call.myBatch (.ok ()) ∈
            group.events) := by
  have hBoth : group.Consistent ∧ group.Attributed := by
    induction hRun with
    | start => exact ⟨.new, .new⟩
    | step _ hSame hNext ih =>
        exact ⟨ih.1.step hNext, ih.2.step ih.1 hSame hNext⟩
  intro call hCall result hReturned
  have hCallBoth := hBoth.2.calls call hCall
  simpa only [SyncCall.Attributed, hReturned] using hCallBoth

/-
  Call 0 commits batch 1; calls 1 and 2 enter batch 2, which
  call 2 commits and whose fsync fails.  Before call 1 takes
  the lock again, call 3 commits batch 3.
-/
def overtakenFollower : List (CommitStep Unit) :=
  [.call () false, .join 0 0 0, .call () false,
    .join 1 1 1, .fsync 0 (.ok ()), .finish 0,
    .call () false, .join 2 2 2, .fsync 2 (.error .other),
    .finish 2, .call () false, .join 3 3 3,
    .fsync 3 (.ok ()), .finish 3, .resume 1 4]

/- Call 1 is told `Ok`, but the fsync of its batch failed. -/
theorem groupCommitRun_misattributes :
    ∃ group : GroupCommit Unit,
      GroupCommitRun .default overtakenFollower group ∧
        (∃ call ∈ group.calls,
          call.myBatch = 2 ∧ call.phase = .returned (.ok ()))
        ∧ .completed 2 (.error .other) ∈ group.events ∧
        .completed 2 (.ok ()) ∉ group.events := by
  have hEnd :
      (Transition.execute
        (GroupCommit.step GroupCommitConfig.default)
        overtakenFollower GroupCommit.new).any
          (fun group =>
            group.calls.any (fun call =>
              call.myBatch = 2 &&
                call.phase = .returned (.ok ())) &&
              CommitEvent.completed 2 (.error .other) ∈
                group.events &&
              CommitEvent.completed 2 (.ok ()) ∉
                group.events) = true := by
    decide
  have hAllowed :
      ∀ _ : GroupCommit Unit, ∀ _ ∈ overtakenFollower,
        True := by
    simp
  rcases Transition.exists_run_of_execute hAllowed hEnd with
    ⟨group, hRun, hState⟩
  refine ⟨group, hRun, ?_⟩
  simpa [and_assoc] using hState

/- Without call 3 in between call 1 is told right. -/
def promptFollower : List (CommitStep Unit) :=
  [.call () false, .join 0 0 0, .call () false,
    .join 1 1 1, .fsync 0 (.ok ()), .finish 0,
    .call () false, .join 2 2 2, .fsync 2 (.error .other),
    .finish 2, .resume 1 4]

theorem groupCommitRun_attributes_prompt :
    ∃ group : GroupCommit Unit,
      Transition.Run (GroupCommit.step .default)
          GroupCommit.SameOutcome GroupCommit.new
          promptFollower group ∧
        (∃ call ∈ group.calls,
          call.phase = .returned (.error .other)) ∧
        ∀ call ∈ group.calls, ∀ result,
          call.phase = .returned result →
            (result = .ok () ↔
              .completed call.myBatch (.ok ()) ∈
                group.events) := by
  have hSame :
      ∀ (group : GroupCommit Unit) action,
        group.sameOutcome action = true →
          group.SameOutcome action := by
    intro group action hChecked
    cases action with
    | resume position now =>
        intro call hCall hSynced
        simpa [GroupCommit.sameOutcome, hCall,
          Nat.not_lt.mpr hSynced] using hChecked
    | _ => trivial
  have hEnd :
      (Transition.execute
        (Transition.checkedStep
          (GroupCommit.step GroupCommitConfig.default)
          GroupCommit.sameOutcome)
        promptFollower GroupCommit.new).any
          (fun group =>
            group.calls.any (fun call =>
              call.phase = .returned (.error .other))) =
        true := by
    decide
  rcases Transition.exists_run_of_checked hSame hEnd with
    ⟨group, hRun, hTold⟩
  refine ⟨group, hRun, by simpa using hTold,
    groupCommitRun_attributes hRun⟩

end Nesso
