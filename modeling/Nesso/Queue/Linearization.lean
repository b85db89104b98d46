import Nesso.Queue.ConcurrentPops
import Nesso.Queue.EngineRefinement

/-
  Concurrent calls are linearizable.

  Clients, the expiration worker and a compaction take turns
  section by section, and payloads are read beside them.  A
  call takes effect in its section under the engine lock: a
  pop that comes back later returns what the abstract queue
  gave away in that section.

  Key definitions include:
    * `SharedAction`
    * `PopSystem.answer`
    * `PopSystem.Allows`
    * `PopCall.Agrees`
    * `PopSystem.Linearizes`

  The main theorems are:
    * `PopSystem.Linearizes.simulation`
    * `popRun_linearizable`
-/

------------------------------------------------------------
-- Shared Sections
------------------------------------------------------------

namespace Nesso

open PriorityBucketQueue (bucketOf)

/-
  One section of one thread.  The worker's second section
  names the tasks of its snapshot.
-/
inductive SharedAction where
| run (action : PopAction)
| processExpired (tasks : List ExpiredTask)
| status

/- What a section tells its caller: a pop may end later. -/
inductive SharedReply where
| now (reply : EngineReply)
| later

namespace SharedReply

def ofTask : TaskReply → SharedReply
| .taken (some _) => later
| reply => now (EngineReply.ofTask reply)

end SharedReply

namespace SharedAction

/- The call of the abstract queue that a section is. -/
def call : SharedAction → Option TaskCall
| run (.run (.push payload priority)) =>
    some (.push payload (bucketOf priority))
| run (.run (.ack id consumerId)) =>
    some (.ack id consumerId)
| run (.run (.nack id consumerId)) =>
    some (.nack id consumerId)
| run (.popLocked consumerId now leaseTtlSecs) =>
    some (.take consumerId (now + leaseTtlSecs))
| processExpired tasks =>
    some (.expire (tasks.map ExpiredTask.id))
| status => some .status
| _ => none

end SharedAction

namespace PopSystem

variable [Hasher]

def act
    (pop : PopSystem) : SharedAction → Option PopSystem
| .run action => pop.step action
| .processExpired _ => pop.step (.run .processExpired)
| .status => if pop.locked then none else some pop

/- A pop that has a task to read is answered later. -/
def reply
    (pop : PopSystem) : SharedAction → Option SharedReply
| .run (.run (.push payload priority)) =>
    some
      (.now
        (.pushed
          (pop.system.engine.push none payload
            priority).1))
| .run (.run (.ack id consumerId)) =>
    some
      (.now
        (.settled
          (pop.system.engine.ack none id consumerId).1))
| .run (.run (.nack id consumerId)) =>
    some
      (.now
        (.settled
          (pop.system.engine.nack none id consumerId).1))
| .run (.popLocked consumerId now leaseTtlSecs) =>
    match (pop.system.engine.popLocked none consumerId now
        leaseTtlSecs).1 with
    | .ok none => some (.now (.popped (.ok none)))
    | _ => some .later
| .status =>
    some
      (.now
        (.counts pop.system.engine.status.1
          pop.system.engine.status.2))
| _ => none

def answer
    (pop : PopSystem)
    (action : SharedAction) :
    Option SharedReply × PopSystem :=
  (pop.reply action, (pop.act action).getD pop)

/-
  The section is enabled, a rename keeps the payloads that
  are about to be read, nobody settles a task that the worker
  has collected, and the worker names what it has collected.
-/
def Allows
    (pop : PopSystem)
    (action : SharedAction) : Prop :=
  (pop.act action).isSome ∧
    match action with
    | .run (.run action) =>
        pop.KeepsReads (.run action) ∧
          Undisturbed pop.system action ∧
          action ≠ .processExpired
    | .run action => pop.KeepsReads action
    | .processExpired tasks =>
        pop.system.snapshot.map Snapshot.tasks = some tasks
    | .status => True

end PopSystem

/-
  A pop that has returned gives what the abstract queue gave
  away, or has failed for a task that has since ended.
-/
structure PopCall.Agrees
    (call : PopCall)
    (delivery : (UInt64 × Fin 256 × Nat) × Bytes) :
    Prop where
  card : call.task.card = delivery.1
  returned :
    ∀ result indexed,
      call.stage = .returned result indexed →
        EngineReply.popped (result.map some) =
            .ofTask (.taken (some delivery)) ∨
          (∃ error, result = .error error) ∧ indexed = false

end Nesso

------------------------------------------------------------
-- Promised Deliveries
------------------------------------------------------------

namespace Nesso

open PriorityBucketQueue (bucketOf)

/- A returned record is filled in from the task. -/
def PopCall.WellFormed (call : PopCall) : Prop :=
  ∀ record retries indexed,
    call.stage = .returned (.ok (record, retries)) indexed →
      record =
          ⟨call.task.id, .created, call.task.priority,
            record.payload⟩ ∧
        retries = call.task.retries

/- What a call will return, whenever that is. -/
structure PopCall.Promised
    (payloads : UInt64 → Option Bytes)
    (call : PopCall)
    (delivery : (UInt64 × Fin 256 × Nat) × Bytes) :
    Prop where
  card : call.task.card = delivery.1
  payload : payloads call.task.id = some delivery.2
  wellFormed : call.WellFormed

namespace PopCall

variable {payloads : UInt64 → Option Bytes}
variable {call next : PopCall}
variable {delivery : (UInt64 × Fin 256 × Nat) × Bytes}

theorem wellFormed_answer_error
    (call : PopCall)
    (inner : EngineState)
    (error : IoError) :
    (call.answer inner (.error error)).WellFormed := by
  intro record retries indexed hStage
  simp [answer] at hStage

theorem wellFormed_deliver
    (call : PopCall)
    (inner : EngineState)
    (payload : Bytes) :
    (call.deliver inner payload).WellFormed := by
  intro record retries indexed hStage
  simp only [deliver, answer, PopStage.returned.injEq,
    Except.ok.injEq, Prod.mk.injEq] at hStage
  rcases hStage with ⟨⟨rfl, rfl⟩, _⟩
  exact ⟨rfl, rfl⟩

theorem wellFormed_afterRead
    (call : PopCall)
    (inner : EngineState)
    (retry : Nat)
    (read : Except IoError (Option Record)) :
    (call.afterRead inner retry read).WellFormed := by
  rcases read with error | _ | record
  · rw [afterRead]
    split
    · intro record retries indexed hStage
      simp at hStage
    · exact wellFormed_answer_error call inner error
  · exact wellFormed_answer_error call inner _
  · exact wellFormed_deliver call inner record.userPayload

theorem wellFormed_afterLookUp
    (call : PopCall)
    (inner : EngineState)
    (retry : Nat) :
    (call.afterLookUp inner retry).WellFormed := by
  unfold afterLookUp
  split
  · intro record retries indexed hStage
    simp at hStage
  · exact wellFormed_answer_error call inner _

theorem task_afterRead
    (call : PopCall)
    (inner : EngineState)
    (retry : Nat)
    (read : Except IoError (Option Record)) :
    (call.afterRead inner retry read).task = call.task := by
  rcases read with error | _ | record
  · rw [afterRead]
    split <;> rfl
  · rfl
  · rfl

theorem task_afterLookUp
    (call : PopCall)
    (inner : EngineState)
    (retry : Nat) :
    (call.afterLookUp inner retry).task = call.task := by
  unfold afterLookUp
  split <;> rfl

namespace Promised

/- A call moves on for the same task. -/
theorem of_task_eq
    (hPromised : Promised payloads call delivery)
    (hTask : next.task = call.task)
    (hNext : next.WellFormed) :
    Promised payloads next delivery := by
  refine ⟨?_, ?_, hNext⟩
  · rw [hTask]
    exact hPromised.card
  · rw [hTask]
    exact hPromised.payload

/- Payloads that are known stay known. -/
theorem of_payloads
    (hPromised : Promised payloads call delivery)
    {later : UInt64 → Option Bytes}
    (hLater :
      ∀ id payload,
        payloads id = some payload →
          later id = some payload) :
    Promised later call delivery where
  card := hPromised.card
  payload := hLater _ _ hPromised.payload
  wellFormed := hPromised.wellFormed

/- A returned call keeps the promise. -/
theorem agrees
    (hPromised : Promised payloads call delivery)
    (hServed :
      ∀ result indexed,
        call.stage = .returned result indexed →
          Answers (payloads call.task.id) call.task result
            indexed) :
    call.Agrees delivery := by
  rcases delivery with ⟨⟨id, level, failures⟩, payload⟩
  refine ⟨hPromised.card, ?_⟩
  intro result indexed hStage
  have hAnswers := hServed result indexed hStage
  cases result with
  | ok found =>
      left
      rcases found with ⟨record, retries⟩
      rcases hPromised.wellFormed record retries indexed
        hStage with ⟨hRecord, hRetries⟩
      have hPayload :=
        (hAnswers.payload record retries rfl).2
      rw [hPromised.payload, Option.some.injEq] at hPayload
      have hCard := hPromised.card
      simp only [TaskRef.card, Prod.mk.injEq] at hCard
      rcases hCard with ⟨rfl, rfl, rfl⟩
      rw [hRecord, hRetries, ← hPayload]
      simp [EngineReply.ofTask, Except.map, bucketOf]
  | error error =>
      right
      refine ⟨⟨error, rfl⟩, ?_⟩
      cases indexed with
      | false => rfl
      | true =>
          rcases hAnswers.no_error rfl with ⟨_, _, hOk⟩
          simp at hOk

end Promised

end PopCall

/- One call of a list is replaced. -/
theorem forall₂_set
    {α β : Type}
    {R : α → β → Prop}
    {left : List α}
    {right : List β}
    (hRelated : List.Forall₂ R left right)
    {position : Nat}
    {old new : α}
    (hOld : left[position]? = some old)
    (hNew : ∀ other, R old other → R new other) :
    List.Forall₂ R (left.set position new) right := by
  induction hRelated generalizing position with
  | nil => simp at hOld
  | cons hHead hTail ih =>
      cases position with
      | zero =>
          simp only [List.getElem?_cons_zero,
            Option.some.injEq] at hOld
          rw [List.set_cons_zero]
          rw [hOld] at hHead
          exact .cons (hNew _ hHead) hTail
      | succ position =>
          rw [List.getElem?_cons_succ] at hOld
          exact .cons hHead (ih hOld)

end Nesso

------------------------------------------------------------
-- Linearized States
------------------------------------------------------------

namespace Nesso

/- Nothing that the tasks depend on has changed. -/
structure System.Frames (system next : System) : Prop where
  nextId_eq :
    next.engine.inner.nextId = system.engine.inner.nextId
  readyQueue_eq :
    next.engine.inner.readyQueue =
      system.engine.inner.readyQueue
  leased_eq :
    next.engine.inner.leased = system.engine.inner.leased
  dataIndex_iff :
    ∀ id,
      id ∈ next.engine.inner.dataIndex ↔
        id ∈ system.engine.inner.dataIndex
  snapshot_eq : next.snapshot = system.snapshot
  history_eq : next.history = system.history

namespace System

variable {system next : System}

/- The maps are those of the same engine state. -/
theorem frames_of_inner_eq
    (hInner : next.engine.inner = system.engine.inner)
    (hSnapshot : next.snapshot = system.snapshot)
    (hHistory : next.history = system.history) :
    system.Frames next where
  nextId_eq := by rw [hInner]
  readyQueue_eq := by rw [hInner]
  leased_eq := by rw [hInner]
  dataIndex_iff := by
    intro id
    rw [hInner]
  snapshot_eq := hSnapshot
  history_eq := hHistory

theorem frames_remap
    {engine : Engine}
    (hInner :
      ∃ closedSegments newOffsets,
        engine.inner =
          system.engine.inner.remap closedSegments
            newOffsets)
    (compaction : CompactionStage) :
    system.Frames
      { system with
        engine := engine
        compaction := compaction } := by
  rcases hInner with ⟨closedSegments, newOffsets, hInner⟩
  constructor
  · simp only [hInner, EngineState.remap_eq]
  · simp only [hInner, EngineState.remap_eq]
  · simp only [hInner, EngineState.remap_eq]
  · intro id
    simp only [hInner]
    exact EngineState.mem_dataIndex_remap _ _ _ id
  · rfl
  · rfl

theorem frames_compactPhase2
    (hPhase : system.compactPhase2 = some next) :
    system.Frames next := by
  rcases compactPhase2_cases hPhase with
    ⟨closedSegments, newOffsets, _, rfl⟩
  simp only [Engine.compactPhase2]
  split
  · exact frames_of_inner_eq rfl rfl rfl
  · exact frames_remap ⟨closedSegments, newOffsets, rfl⟩ _

namespace Frames

theorem mirrors
    (hFrames : system.Frames next)
    {queue : TaskQueue}
    (hMirrors : system.engine.inner.Mirrors queue) :
    next.engine.inner.Mirrors queue :=
  hMirrors.of_fields_eq hFrames.nextId_eq
    hFrames.readyQueue_eq hFrames.leased_eq

theorem conserves
    (hFrames : system.Frames next)
    (hSystem : system.Conserves) :
    next.Conserves := by
  unfold Conserves
  rw [hFrames.history_eq]
  exact hSystem.of_places_eq hFrames.nextId_eq
    hFrames.readyQueue_eq hFrames.leased_eq
    hFrames.dataIndex_iff

theorem workerValid
    (hFrames : system.Frames next)
    (hValid : system.WorkerValid) :
    next.WorkerValid := by
  intro snapshot hSnapshot
  rw [hFrames.snapshot_eq] at hSnapshot
  rw [hFrames.leased_eq, hFrames.history_eq]
  exact hValid snapshot hSnapshot

end Frames

end System

namespace PopSystem

variable [Hasher]
variable {pop next : PopSystem}

/- A read changes the handle cache and one call. -/
theorem readAt_cases
    {position : Nat}
    (hRead : pop.readAt position = some next) :
    ∃ call loc retry reader read,
      pop.calls[position]? = some call ∧
        call.stage = .reading loc retry ∧
        next =
          { pop with
            system :=
              { pop.system with
                engine :=
                  { pop.system.engine with
                    reader := reader } }
            calls :=
              pop.calls.set position
                (call.afterRead pop.system.engine.inner
                  retry read) } := by
  unfold PopSystem.readAt at hRead
  split at hRead
  · next call hCall =>
      split at hRead
      · next loc retry hStage =>
          rw [Option.some.injEq] at hRead
          exact ⟨call, loc, retry, _, _, hCall, hStage,
            hRead.symm⟩
      · simp at hRead
  · simp at hRead

omit [Hasher] in
theorem lookUp_cases
    {position : Nat}
    (hLookUp : pop.lookUp position = some next) :
    ∃ call retry,
      pop.calls[position]? = some call ∧
        next =
          { pop with
            calls :=
              pop.calls.set position
                (call.afterLookUp pop.system.engine.inner
                  retry) } := by
  unfold PopSystem.lookUp at hLookUp
  split at hLookUp
  · next call hCall =>
      split at hLookUp
      · next retry hStage =>
          rw [Option.some.injEq] at hLookUp
          exact ⟨call, retry, hCall, hLookUp.symm⟩
      · simp at hLookUp
  · simp at hLookUp

omit [Hasher] in
theorem rename_frames
    (hRename : pop.rename = some next) :
    pop.system.Frames next.system ∧
      next.calls = pop.calls := by
  unfold PopSystem.rename at hRename
  split at hRename
  · dsimp only at hRename
    split at hRename
    · rw [Option.some.injEq] at hRename
      rw [← hRename]
      exact ⟨System.frames_of_inner_eq rfl rfl rfl, rfl⟩
    · rcases Option.map_eq_some_iff.mp hRename with
        ⟨system, hPhase, rfl⟩
      exact ⟨System.frames_compactPhase2 hPhase, rfl⟩
  · simp at hRename

omit [Hasher] in
theorem unlink_frames
    (hUnlink : pop.unlink = some next) :
    pop.system.Frames next.system ∧
      next.calls = pop.calls := by
  unfold PopSystem.unlink at hUnlink
  split at hUnlink
  · rw [Option.some.injEq] at hUnlink
    rw [← hUnlink]
    exact ⟨System.frames_of_inner_eq rfl rfl rfl, rfl⟩
  · simp at hUnlink

omit [Hasher] in
theorem clearCache_frames
    (hClear : pop.clearCache = some next) :
    pop.system.Frames next.system ∧
      next.calls = pop.calls := by
  unfold PopSystem.clearCache at hClear
  split at hClear
  · next closedSegments newOffsets _ _ =>
      rw [Option.some.injEq] at hClear
      rw [← hClear]
      exact ⟨System.frames_remap
        ⟨closedSegments, newOffsets, rfl⟩ _, rfl⟩
  · simp at hClear

/-
  The maps mirror a queue that has given the replies, and the
  calls are promised what it has given away.
-/
structure Linearizes
    (pop : PopSystem)
    (queue : TaskQueue)
    (replies : List TaskReply) : Prop where
  sound : pop.Sound
  conserves : pop.system.Conserves
  worker : pop.system.WorkerValid
  mirrors : pop.system.engine.inner.Mirrors queue
  carries : queue.Carries (lastPayload pop.system.history)
  promised :
    List.Forall₂
      (PopCall.Promised (lastPayload pop.system.history))
      pop.calls
      (replies.filterMap WorkQueue.Reply.delivery?)

end PopSystem

end Nesso

------------------------------------------------------------
-- Sections as Calls
------------------------------------------------------------

namespace Nesso

open PriorityBucketQueue (bucketOf)

namespace TaskQueue

/- Only a pop delivers a task. -/
theorem delivery_serve
    (queue : TaskQueue)
    {call : TaskCall}
    (hCall :
      ∀ consumer deadline, call ≠ .take consumer deadline)
    {reply : TaskReply}
    (hReply : (queue.serve call).1 = some reply) :
    reply.delivery? = none := by
  have hSettle :
      ∀ id consumer rest,
        (queue.settle id consumer rest).1.delivery? =
          none := by
    intro id consumer rest
    unfold WorkQueue.settle
    split
    · rfl
    · split
      · rfl
      · split <;> rfl
  unfold TaskQueue.serve at hReply
  cases call with
  | push payload level =>
      simp only [WorkQueue.serve, WorkQueue.answered,
        Option.some.injEq] at hReply
      rw [← hReply]
      rfl
  | take consumer deadline =>
      exact (hCall consumer deadline rfl).elim
  | ack id consumer =>
      simp only [WorkQueue.serve, WorkQueue.answered,
        Option.some.injEq] at hReply
      rw [← hReply]
      exact hSettle id consumer _
  | nack id consumer =>
      simp only [WorkQueue.serve, WorkQueue.answered,
        Option.some.injEq] at hReply
      rw [← hReply]
      exact hSettle id consumer _
  | expire ids => simp [WorkQueue.serve] at hReply
  | status =>
      simp only [WorkQueue.serve, Option.some.injEq]
        at hReply
      rw [← hReply]
      rfl
  | restart now => simp [WorkQueue.serve] at hReply

/- The other calls are answered at once. -/
theorem view_serve
    (queue : TaskQueue)
    (call : TaskCall)
    (hCall :
      ∀ consumer deadline,
        call ≠ .take consumer deadline) :
    (queue.serve call).1.map SharedReply.ofTask =
        (queue.respond call).1.map SharedReply.now ∧
      (queue.serve call).1.toList.filterMap
          WorkQueue.Reply.delivery? = [] := by
  rw [respond]
  cases hReply : (queue.serve call).1 with
  | none => simp
  | some reply =>
      have hNone := delivery_serve queue hCall hReply
      refine ⟨?_, by simp [hNone]⟩
      cases reply with
      | taken task =>
          cases task with
          | none => simp [SharedReply.ofTask]
          | some task =>
              simp [WorkQueue.Reply.delivery?] at hNone
      | _ => simp [SharedReply.ofTask]

end TaskQueue

namespace PopSystem

variable [Hasher]
variable {pop next : PopSystem} {system : System}
variable {queue nextQueue : TaskQueue}
variable {replies nextReplies : List TaskReply}

theorem Sound.step
    (hSound : pop.Sound)
    {action : PopAction}
    (hKeeps : pop.KeepsReads action)
    (hStep : pop.step action = some next) :
    next.Sound := by
  rcases hSound with
    ⟨hSteady, hNone⟩ |
      ⟨before, closed, offsets, names, hSwap, hNames⟩
  · exact hSteady.step hNone hKeeps hStep
  · exact hSwap.step hNames hStep

/- Without the lock no compaction is in the middle. -/
theorem Sound.steady
    (hSound : pop.Sound)
    (hFree : ¬ pop.locked) :
    pop.Steady ∧ pop.unlinks = none := by
  rcases hSound with
    hSteady | ⟨before, closed, offsets, names, _, hNames⟩
  · exact hSteady
  · simp [locked, hNames] at hFree

theorem step_run_cases
    {action : Action}
    (hStep : pop.step (.run action) = some next) :
    ¬ pop.locked ∧ action.isWhole = true ∧
      ∃ system,
        pop.system.step action = some system ∧
          next = { pop with system := system } := by
  simp only [PopSystem.step] at hStep
  split at hStep
  · simp at hStep
  · next hFree =>
      rcases Option.map_eq_some_iff.mp hStep with
        ⟨system, hSystem, rfl⟩
      rw [not_or, not_not] at hFree
      exact ⟨hFree.1, hFree.2, system, hSystem, rfl⟩

namespace Linearizes

/- Steps that the tasks do not depend on. -/
theorem frame
    (hLinear : pop.Linearizes queue replies)
    (hSound : next.Sound)
    (hFrames : pop.system.Frames next.system)
    (hPromised :
      List.Forall₂
        (PopCall.Promised (lastPayload pop.system.history))
        next.calls
        (replies.filterMap WorkQueue.Reply.delivery?)) :
    next.Linearizes queue replies where
  sound := hSound
  conserves := hFrames.conserves hLinear.conserves
  worker := hFrames.workerValid hLinear.worker
  mirrors := hFrames.mirrors hLinear.mirrors
  carries := by
    rw [hFrames.history_eq]
    exact hLinear.carries
  promised := by
    rw [hFrames.history_eq]
    exact hPromised

/- A whole section, whatever it does to the queue. -/
theorem run
    (hLinear : pop.Linearizes queue replies)
    (hFree : ¬ pop.locked)
    {action : Action}
    (hWhole : action.isWhole = true)
    (hKeeps : pop.KeepsReads (.run action))
    (hUndisturbed : Undisturbed pop.system action)
    (hStep : pop.system.step action = some system)
    (hMirrors : system.engine.inner.Mirrors nextQueue)
    (hCarries :
      nextQueue.Carries (lastPayload system.history))
    (hDeliveries :
      nextReplies.filterMap WorkQueue.Reply.delivery? =
        replies.filterMap WorkQueue.Reply.delivery?) :
    ({ pop with system := system } : PopSystem).Linearizes
      nextQueue nextReplies := by
  rcases hLinear.sound.steady hFree with ⟨hSteady, hNone⟩
  constructor
  · exact .inl ⟨hSteady.run hWhole hKeeps hStep, hNone⟩
  · by_cases hProcess : action = .processExpired
    · subst hProcess
      exact System.conserves_processExpired
        hLinear.conserves hLinear.worker hStep
    · exact System.conserves_step hLinear.conserves hProcess
        hStep
  · exact System.workerValid_step hLinear.conserves
      hLinear.worker hUndisturbed hStep
  · exact hMirrors
  · exact hCarries
  · rw [hDeliveries]
    have hAdvances := hSteady.system.advances hWhole hStep
    refine hLinear.promised.imp ?_
    intro call delivery hPromised
    apply hPromised.of_payloads
    intro id payload hPayload
    rw [hAdvances.pushed
      (hSteady.system.pushed_known id payload hPayload)]
    exact hPayload

end Linearizes

end PopSystem

end Nesso

------------------------------------------------------------
-- Pops
------------------------------------------------------------

namespace Nesso

open PriorityBucketQueue (bucketOf)

namespace PopSystem

variable [Hasher]
variable {pop : PopSystem}
variable {queue : TaskQueue} {replies : List TaskReply}

/- The lease is granted whether or not the data is known. -/
theorem popLocked_some
    {engine : Engine}
    {task : TaskRef}
    {rest : ReadyQueue}
    (hPop :
      engine.inner.readyQueue.pop = some (task, rest))
    (consumerId : UInt32)
    (now leaseTtlSecs : UInt64) :
    let out :=
      engine.popLocked none consumerId now leaseTtlSecs
    let granted :=
      Change.apply engine.inner engine.inner.wal.nextLoc
        (.grant task rest consumerId (now + leaseTtlSecs))
    out.1 ≠ .ok none ∧
      out.2.inner.nextId = granted.nextId ∧
      out.2.inner.readyQueue = granted.readyQueue ∧
      out.2.inner.leased = granted.leased := by
  simp only [Engine.popLocked_none, hPop]
  split
  · exact ⟨by simp, rfl, rfl, rfl⟩
  · exact ⟨by simp, rfl, rfl, rfl⟩

omit [Hasher] in
/- A locked section leaves one call for its task. -/
theorem ofTicket_promised
    {payloads : UInt64 → Option Bytes}
    {task : TaskRef}
    {item : TaskItem}
    (hCard : item.card = task.card)
    (hPayload : payloads item.id = some item.payload)
    (inner : EngineState)
    {ticket : Except IoError (Option PopTicket)}
    (hTicket : ticket ≠ .ok none) :
    List.Forall₂ (PopCall.Promised payloads)
      (PopCall.ofTicket task inner ticket)
      [(item.card, item.payload)] := by
  have hId : item.id = task.id := congrArg Prod.fst hCard
  rw [hId] at hPayload
  have hOne :
      ∀ call : PopCall,
        call.task = task → call.WellFormed →
          List.Forall₂ (PopCall.Promised payloads) [call]
            [(item.card, item.payload)] := by
    intro call hTask hFormed
    refine .cons ⟨?_, ?_, hFormed⟩ .nil
    · rw [hTask]
      exact hCard.symm
    · rw [hTask]
      exact hPayload
  rcases ticket with error | _ | ticket
  · exact hOne _ rfl
      (PopCall.wellFormed_answer_error _ inner error)
  · exact (hTicket rfl).elim
  · rw [PopCall.ofTicket]
    split
    · next payload _ =>
        exact hOne _ rfl
          (PopCall.wellFormed_deliver _ inner payload)
    · apply hOne _ rfl
      intro record retries indexed hStage
      simp at hStage

theorem Linearizes.popLocked
    (hLinear : pop.Linearizes queue replies)
    (hFree : ¬ pop.locked)
    (consumerId : UInt32)
    (now leaseTtlSecs : UInt64) :
    let called :=
      queue.serve (.take consumerId (now + leaseTtlSecs))
    pop.reply (.run (.popLocked consumerId now
        leaseTtlSecs)) =
        called.1.map SharedReply.ofTask ∧
      (pop.popLocked consumerId now
        leaseTtlSecs).Linearizes called.2
          (replies ++ called.1.toList) := by
  intro called
  rcases hLinear.sound.steady hFree with ⟨hSteady, hNone⟩
  have hStep :
      pop.system.step
          (.popLocked consumerId now leaseTtlSecs) =
        some
          (pop.system.popLocked consumerId now
            leaseTtlSecs) := rfl
  have hHistory :
      lastPayload
          (pop.system.popLocked consumerId now
            leaseTtlSecs).history =
        lastPayload pop.system.history :=
    lastPayload_append_of_not_pushed _
      (System.pushOf_grantEvents _)
  have hCarries :
      called.2.Carries (lastPayload pop.system.history) :=
    hLinear.carries.serve _ (by simp)
  have hBuild :
      ∀ calls,
        (pop.popLocked consumerId now leaseTtlSecs).calls =
            pop.calls ++ calls →
          List.Forall₂
            (PopCall.Promised
              (lastPayload pop.system.history))
            calls
            (called.1.toList.filterMap
              WorkQueue.Reply.delivery?) →
          (pop.system.popLocked consumerId now
            leaseTtlSecs).engine.inner.Mirrors called.2 →
          (pop.popLocked consumerId now
            leaseTtlSecs).Linearizes called.2
              (replies ++ called.1.toList) := by
    intro calls hCalls hPromised hMirrors
    constructor
    · exact .inl
        ⟨hSteady.popLocked consumerId now leaseTtlSecs,
          hNone⟩
    · exact System.conserves_step hLinear.conserves
        (by simp) hStep
    · have hUndisturbed :
          Undisturbed pop.system
            (.popLocked consumerId now leaseTtlSecs) :=
        trivial
      exact System.workerValid_step hLinear.conserves
        hLinear.worker hUndisturbed hStep
    · exact hMirrors
    · change called.2.Carries
        (lastPayload
          (pop.system.popLocked consumerId now
            leaseTtlSecs).history)
      rw [hHistory]
      exact hCarries
    · change List.Forall₂
        (PopCall.Promised
          (lastPayload
            (pop.system.popLocked consumerId now
              leaseTtlSecs).history)) _ _
      rw [hHistory, hCalls, List.filterMap_append]
      exact List.rel_append hLinear.promised hPromised
  cases hPop : pop.system.engine.inner.readyQueue.pop with
  | none =>
      have hServe : called = (some (.taken none), queue) :=
        hLinear.mirrors.serve_take_of_empty hPop consumerId
          (now + leaseTtlSecs)
      constructor
      · rw [hServe]
        simp [PopSystem.reply, Engine.popLocked_none, hPop,
          SharedReply.ofTask, EngineReply.ofTask]
      · apply hBuild []
        · simp [PopSystem.popLocked, hPop]
        · rw [hServe]
          exact .nil
        · rw [hServe]
          simp only [System.popLocked,
            Engine.popLocked_none, hPop]
          exact hLinear.mirrors
  | some popped =>
      rcases popped with ⟨task, rest⟩
      rcases popLocked_some hPop consumerId now leaseTtlSecs
        with ⟨hTicket, hNextId, hReady, hLeased⟩
      rcases hLinear.mirrors.grant hPop consumerId
        (now + leaseTtlSecs)
        pop.system.engine.inner.wal.nextLoc with
        ⟨item, hItem, hCard, hServe, hGranted⟩
      have hCalled :
          called =
            (some (.taken (some (item.card, item.payload))),
              _) := hServe
      constructor
      · rw [hCalled]
        simp only [PopSystem.reply]
        rfl
      · apply hBuild
        · simp only [PopSystem.popLocked, hPop]
          rfl
        · rw [hCalled]
          exact ofTicket_promised hCard
            (hLinear.carries item hItem) _ hTicket
        · rw [hCalled]
          exact hGranted.of_fields_eq hNextId hReady hLeased

end PopSystem

end Nesso

------------------------------------------------------------
-- Simulation
------------------------------------------------------------

namespace Nesso

open PriorityBucketQueue (bucketOf)

namespace PopSystem

variable [Hasher]
variable {pop next : PopSystem} {system : System}
variable {queue : TaskQueue} {replies : List TaskReply}

/- The abstract queue with a record of its replies. -/
def ledger :
    TaskQueue × List TaskReply → TaskCall →
      Option SharedReply × (TaskQueue × List TaskReply) :=
  Refinement.recorded TaskQueue.serve SharedReply.ofTask

/- A section that is answered at once. -/
theorem Linearizes.settled
    (hLinear : pop.Linearizes queue replies)
    (hFree : ¬ pop.locked)
    {action : Action}
    (hWhole : action.isWhole = true)
    (hKeeps : pop.KeepsReads (.run action))
    (hUndisturbed : Undisturbed pop.system action)
    (hStep : pop.system.step action = some system)
    (call : TaskCall)
    (hCall :
      ∀ consumer deadline, call ≠ .take consumer deadline)
    (hMirrors :
      system.engine.inner.Mirrors (queue.serve call).2)
    (hCarries :
      (queue.serve call).2.Carries
        (lastPayload system.history)) :
    (ledger (queue, replies) call).1 =
        (queue.respond call).1.map SharedReply.now ∧
      ({ pop with system := system } :
        PopSystem).Linearizes
        (ledger (queue, replies) call).2.1
        (ledger (queue, replies) call).2.2 := by
  rcases queue.view_serve call hCall with ⟨hReply, hNothing⟩
  refine ⟨hReply, ?_⟩
  apply hLinear.run hFree hWhole hKeeps hUndisturbed hStep
    hMirrors hCarries
  simp only [ledger, Refinement.recorded,
    List.filterMap_append, hNothing, List.append_nil]

omit [Hasher] in
/- Events that push nothing leave the payloads alone. -/
theorem lastPayload_eventIf
    {ε α : Type}
    (history : List Event)
    (result : Except ε α)
    {event : α → Event}
    (hEvent :
      ∀ value id, Event.pushOf id (event value) = none) :
    lastPayload
        (history ++ System.eventIf result event) =
      lastPayload history :=
  lastPayload_append_of_not_pushed _
    (System.pushOf_eventIf hEvent)

theorem Linearizes.push
    (hLinear : pop.Linearizes queue replies)
    {payload : Bytes}
    {priority : UInt8}
    (hKeeps :
      pop.KeepsReads (.run (.push payload priority)))
    (hStep :
      pop.step (.run (.push payload priority)) =
        some next) :
    let called := .push payload (bucketOf priority)
    pop.reply (.run (.run (.push payload priority))) =
        (ledger (queue, replies) called).1 ∧
      next.Linearizes (ledger (queue, replies) called).2.1
        (ledger (queue, replies) called).2.2 := by
  intro called
  rcases step_run_cases hStep with
    ⟨hFree, hWhole, system, hSystem, rfl⟩
  rcases System.push_cases hSystem with ⟨hLeft, hNext⟩
  rcases hLinear.mirrors.push hLeft payload priority with
    ⟨hReply, hMirrors⟩
  have hCarries :
      (queue.serve called).2.Carries
        (lastPayload system.history) := by
    rw [hNext, lastPayload_append_pushed]
    exact hLinear.mirrors.carries_push hLinear.carries
      payload (bucketOf priority)
  have hEngine :
      system.engine =
        (pop.system.engine.push none payload
          priority).2 := by
    rw [hNext, Engine.push_none]
  have hSettled :=
    hLinear.settled hFree hWhole hKeeps trivial hSystem
      called (by simp [called])
      (by rw [hEngine]; exact hMirrors) hCarries
  refine ⟨?_, hSettled.2⟩
  rw [hSettled.1]
  simp only [PopSystem.reply, hReply]
  rfl

theorem Linearizes.ack
    (hLinear : pop.Linearizes queue replies)
    {id : UInt64}
    {consumerId : UInt32}
    (hUndisturbed :
      Undisturbed pop.system (.ack id consumerId))
    (hStep :
      pop.step (.run (.ack id consumerId)) = some next) :
    let called := .ack id consumerId
    pop.reply (.run (.run (.ack id consumerId))) =
        (ledger (queue, replies) called).1 ∧
      next.Linearizes (ledger (queue, replies) called).2.1
        (ledger (queue, replies) called).2.2 := by
  intro called
  rcases step_run_cases hStep with
    ⟨hFree, hWhole, system, hSystem, rfl⟩
  have hAcked :
      pop.system.ack id consumerId = system :=
    Option.some.inj hSystem
  rcases hLinear.mirrors.ack id consumerId with
    ⟨hReply, hMirrors⟩
  have hCarries :
      (queue.serve called).2.Carries
        (lastPayload system.history) := by
    rw [← hAcked, System.ack,
      lastPayload_eventIf _ _ (fun _ _ => rfl)]
    exact hLinear.carries.serve _ (by simp [called])
  have hSettled :=
    hLinear.settled hFree hWhole trivial hUndisturbed
      hSystem called (by simp [called])
      (by rw [← hAcked]; exact hMirrors) hCarries
  refine ⟨?_, hSettled.2⟩
  rw [hSettled.1, hReply]
  rfl

theorem Linearizes.nack
    (hLinear : pop.Linearizes queue replies)
    {id : UInt64}
    {consumerId : UInt32}
    (hUndisturbed :
      Undisturbed pop.system (.nack id consumerId))
    (hStep :
      pop.step (.run (.nack id consumerId)) = some next) :
    let called := .nack id consumerId
    pop.reply (.run (.run (.nack id consumerId))) =
        (ledger (queue, replies) called).1 ∧
      next.Linearizes (ledger (queue, replies) called).2.1
        (ledger (queue, replies) called).2.2 := by
  intro called
  rcases step_run_cases hStep with
    ⟨hFree, hWhole, system, hSystem, rfl⟩
  have hNacked :
      pop.system.nack id consumerId = system :=
    Option.some.inj hSystem
  rcases hLinear.mirrors.nack id consumerId with
    ⟨hReply, hMirrors⟩
  have hCarries :
      (queue.serve called).2.Carries
        (lastPayload system.history) := by
    rw [← hNacked, System.nack,
      lastPayload_eventIf _ _ (fun _ _ => rfl)]
    exact hLinear.carries.serve _ (by simp [called])
  have hSettled :=
    hLinear.settled hFree hWhole trivial hUndisturbed
      hSystem called (by simp [called])
      (by rw [← hNacked]; exact hMirrors) hCarries
  refine ⟨?_, hSettled.2⟩
  rw [hSettled.1, hReply]
  rfl

/- The worker's second section, on leases still in force. -/
theorem Linearizes.processExpired
    (hLinear : pop.Linearizes queue replies)
    {tasks : List ExpiredTask}
    (hTasks :
      pop.system.snapshot.map Snapshot.tasks = some tasks)
    (hStep :
      pop.step (.run .processExpired) = some next) :
    let called := .expire (tasks.map ExpiredTask.id)
    pop.reply (.processExpired tasks) =
        (ledger (queue, replies) called).1 ∧
      next.Linearizes (ledger (queue, replies) called).2.1
        (ledger (queue, replies) called).2.2 := by
  intro called
  rcases step_run_cases hStep with
    ⟨hFree, hWhole, system, hSystem, rfl⟩
  rcases Option.map_eq_some_iff.mp hTasks with
    ⟨snapshot, hSnapshot, rfl⟩
  rcases System.processExpired_cases hSystem with
    ⟨found, hFound, hNext⟩
  rw [hSnapshot, Option.some.injEq] at hFound
  subst hFound
  have hValid := hLinear.worker snapshot hSnapshot
  have hMirrors :
      system.engine.inner.Mirrors
        (queue.serve called).2 := by
    have hRelated :=
      Engine.expireAll_related
        (R := fun engine queue =>
          engine.inner.Mirrors queue)
        (by
          intro engine abstract id lease hState hLease
          rcases hState.perform_failure hLease .expired with
            ⟨item, _, _, hHeld, hLookup, _, hAfter⟩
          exact ⟨item, hHeld, hLookup, hAfter⟩)
        hLinear.mirrors hValid.nodup
        (by
          intro task hTask
          rcases hValid.held task hTask with
            ⟨lease, hLease, _, _, _, hFields⟩
          exact ⟨lease, hLease, hFields⟩)
    rw [hNext]
    exact hRelated
  have hCarries :
      (queue.serve called).2.Carries
        (lastPayload system.history) := by
    have hEvents :
        ∀ event ∈
            snapshot.tasks.map (fun task =>
              Event.expired task.id),
          ∀ id, Event.pushOf id event = none := by
      intro event hEvent id
      rcases List.mem_map.mp hEvent with ⟨task, _, rfl⟩
      rfl
    rw [hNext, lastPayload_append_of_not_pushed _ hEvents]
    exact hLinear.carries.serve _ (by simp [called])
  have hSettled :=
    hLinear.settled hFree hWhole trivial trivial hSystem
      called (by simp [called]) hMirrors hCarries
  exact ⟨hSettled.1.symm, hSettled.2⟩

theorem Linearizes.status
    (hLinear : pop.Linearizes queue replies) :
    pop.reply .status =
        (ledger (queue, replies) .status).1 ∧
      pop.Linearizes (ledger (queue, replies) .status).2.1
        (ledger (queue, replies) .status).2.2 := by
  have hStatus :=
    hLinear.mirrors.status hLinear.conserves.ready_nodup
  rcases queue.view_serve .status (by simp) with
    ⟨hReply, hNothing⟩
  constructor
  · refine Eq.trans ?_ hReply.symm
    rw [hStatus]
    rfl
  · refine ⟨hLinear.sound, hLinear.conserves,
      hLinear.worker, hLinear.mirrors, hLinear.carries, ?_⟩
    simp only [ledger, Refinement.recorded,
      List.filterMap_append, hNothing, List.append_nil]
    exact hLinear.promised

/- Maintenance is not a call of the queue. -/
theorem Linearizes.maintain
    (hLinear : pop.Linearizes queue replies)
    {action : Action}
    (hKeeps : pop.KeepsReads (.run action))
    (hUndisturbed : Undisturbed pop.system action)
    (hProcess : action ≠ .processExpired)
    (hCall : SharedAction.call (.run (.run action)) = none)
    (hStep : pop.step (.run action) = some next) :
    next.Linearizes queue replies := by
  rcases step_run_cases hStep with
    ⟨hFree, hWhole, system, hSystem, rfl⟩
  have hKept :
      system.engine.inner.Mirrors queue ∧
        system.history = pop.system.history := by
    have hMirrors := hLinear.mirrors
    cases action with
    | compactPlan =>
        rcases System.compactPlan_cases hSystem with
          rfl | ⟨_, _, rfl⟩
        · exact ⟨hMirrors, rfl⟩
        · exact ⟨hMirrors, rfl⟩
    | compactPhase1 =>
        rcases System.compactPhase1_cases hSystem with
          ⟨_, _, rfl⟩
        exact ⟨hMirrors, rfl⟩
    | snapshotExpired now tasks =>
        rcases System.snapshotExpired_cases hSystem with
          ⟨_, _, rfl⟩
        exact ⟨hMirrors, rfl⟩
    | clearPayloadCache =>
        rw [System.step, Option.some.injEq] at hSystem
        rw [← hSystem]
        exact ⟨hMirrors.of_fields_eq rfl rfl rfl, rfl⟩
    | processExpired => exact (hProcess rfl).elim
    | popLocked consumerId now leaseTtlSecs =>
        simp [Action.isWhole] at hWhole
    | popRead ticket => simp [Action.isWhole] at hWhole
    | compactPhase2 => simp [Action.isWhole] at hWhole
    | _ => simp [SharedAction.call] at hCall
  apply hLinear.run hFree hWhole hKeeps hUndisturbed hSystem
    hKept.1 _ rfl
  rw [hKept.2]
  exact hLinear.carries

/- The sections of a read and of a swap. -/
theorem Linearizes.beside
    (hLinear : pop.Linearizes queue replies)
    {action : PopAction}
    (hKeeps : pop.KeepsReads action)
    (hRun : ∀ whole, action ≠ .run whole)
    (hCall : SharedAction.call (.run action) = none)
    (hStep : pop.step action = some next) :
    next.Linearizes queue replies := by
  have hSound := hLinear.sound.step hKeeps hStep
  cases action with
  | run whole => exact (hRun whole rfl).elim
  | popLocked consumerId now leaseTtlSecs =>
      simp [SharedAction.call] at hCall
  | readAt position =>
      rcases readAt_cases hStep with
        ⟨call, loc, retry, reader, read, hCalled, _, rfl⟩
      refine hLinear.frame hSound
        (System.frames_of_inner_eq rfl rfl rfl) ?_
      apply forall₂_set hLinear.promised hCalled
      intro delivery hPromised
      exact hPromised.of_task_eq
        (call.task_afterRead _ retry read)
        (call.wellFormed_afterRead _ retry read)
  | lookUp position =>
      simp only [PopSystem.step] at hStep
      split at hStep
      · simp at hStep
      · rcases lookUp_cases hStep with
          ⟨call, retry, hCalled, rfl⟩
        refine hLinear.frame hSound
          (System.frames_of_inner_eq rfl rfl rfl) ?_
        apply forall₂_set hLinear.promised hCalled
        intro delivery hPromised
        exact hPromised.of_task_eq
          (call.task_afterLookUp _ retry)
          (call.wellFormed_afterLookUp _ retry)
  | rename =>
      simp only [PopSystem.step] at hStep
      split at hStep
      · simp at hStep
      · rcases rename_frames hStep with ⟨hFrames, hCalls⟩
        refine hLinear.frame hSound hFrames ?_
        rw [hCalls]
        exact hLinear.promised
  | unlink =>
      rcases unlink_frames hStep with ⟨hFrames, hCalls⟩
      refine hLinear.frame hSound hFrames ?_
      rw [hCalls]
      exact hLinear.promised
  | clearCache =>
      rcases clearCache_frames hStep with ⟨hFrames, hCalls⟩
      refine hLinear.frame hSound hFrames ?_
      rw [hCalls]
      exact hLinear.promised

/- Only calls of the queue are answered. -/
theorem reply_of_call_eq_none
    (pop : PopSystem)
    {action : SharedAction}
    (hCall : action.call = none) :
    pop.reply action = none := by
  cases action with
  | run action =>
      cases action with
      | run whole =>
          cases whole with
          | push payload priority =>
              simp [SharedAction.call] at hCall
          | ack id consumerId =>
              simp [SharedAction.call] at hCall
          | nack id consumerId =>
              simp [SharedAction.call] at hCall
          | _ => rfl
      | popLocked consumerId now leaseTtlSecs =>
          simp [SharedAction.call] at hCall
      | _ => rfl
  | processExpired tasks => rfl
  | status => simp [SharedAction.call] at hCall

/- Every section is a call of the queue, or nothing. -/
theorem Linearizes.simulation :
    Refinement.Simulation PopSystem.answer ledger
      SharedAction.call PopSystem.Allows
      (fun pop abstract =>
        pop.Linearizes abstract.1 abstract.2) := by
  constructor
  · rintro pop ⟨queue, replies⟩ action called hLinear
      ⟨hEnabled, hAllowed⟩ hCall
    rcases Option.isSome_iff_exists.mp hEnabled with
      ⟨next, hNext⟩
    simp only [PopSystem.answer, hNext, Option.getD_some]
    cases action with
    | run action =>
        cases action with
        | run action =>
            rcases hAllowed with ⟨hKeeps, hUndisturbed, _⟩
            cases action with
            | push payload priority =>
                rw [← Option.some.inj hCall]
                exact hLinear.push hKeeps hNext
            | ack id consumerId =>
                rw [← Option.some.inj hCall]
                exact hLinear.ack hUndisturbed hNext
            | nack id consumerId =>
                rw [← Option.some.inj hCall]
                exact hLinear.nack hUndisturbed hNext
            | _ => simp [SharedAction.call] at hCall
        | popLocked consumerId now leaseTtlSecs =>
            rw [← Option.some.inj hCall]
            simp only [PopSystem.act, PopSystem.step]
              at hNext
            split at hNext
            · simp at hNext
            · next hFree =>
                rw [← Option.some.inj hNext]
                exact hLinear.popLocked hFree consumerId now
                  leaseTtlSecs
        | _ => simp [SharedAction.call] at hCall
    | processExpired tasks =>
        rw [← Option.some.inj hCall]
        exact hLinear.processExpired hAllowed hNext
    | status =>
        rw [← Option.some.inj hCall]
        simp only [PopSystem.act] at hNext
        split at hNext
        · simp at hNext
        · rw [← Option.some.inj hNext]
          exact hLinear.status
  · rintro pop ⟨queue, replies⟩ action hLinear
      ⟨hEnabled, hAllowed⟩ hCall
    rcases Option.isSome_iff_exists.mp hEnabled with
      ⟨next, hNext⟩
    simp only [PopSystem.answer, hNext, Option.getD_some]
    refine ⟨pop.reply_of_call_eq_none hCall, ?_⟩
    cases action with
    | run action =>
        cases action with
        | run whole =>
            exact hLinear.maintain hAllowed.1 hAllowed.2.1
              hAllowed.2.2 hCall hNext
        | _ =>
            exact hLinear.beside hAllowed (by simp) hCall
              hNext
    | processExpired tasks =>
        simp [SharedAction.call] at hCall
    | status => simp [SharedAction.call] at hCall

theorem linearizes_start
    (maxSegmentSize : Option Nat)
    (cacheCapacity : Nat)
    (now : UInt64) :
    (start maxSegmentSize cacheCapacity now).Linearizes
      .empty [] where
  sound :=
    .inl
      ⟨steady_start maxSegmentSize cacheCapacity now, rfl⟩
  conserves :=
    System.conserves_start maxSegmentSize cacheCapacity now
  worker := by
    intro snapshot hSnapshot
    simp [start, System.start] at hSnapshot
  mirrors := by
    rcases Engine.implements_fresh maxSegmentSize
      cacheCapacity now with ⟨_, _, hRealizes⟩
    exact hRealizes.mirrors
  carries := by simp [TaskQueue.Carries, TaskQueue.empty]
  promised := .nil

/- The calls that have returned are the promised ones. -/
theorem Linearizes.agrees
    (hLinear : pop.Linearizes queue replies) :
    List.Forall₂ PopCall.Agrees pop.calls
      (replies.filterMap WorkQueue.Reply.delivery?) := by
  have hServed := hLinear.sound.served
  refine List.Forall₂.imp ?_
    ((List.forall₂_and_left pop.calls _).mpr
      ⟨fun call hCall => hCall, hLinear.promised⟩)
  rintro call delivery ⟨hCall, hPromised⟩
  exact hPromised.agrees (hServed call hCall)

end PopSystem

end Nesso

------------------------------------------------------------
-- Linearizability
------------------------------------------------------------

namespace Nesso

/-
  However sections, reads and a compaction interleave, what
  the callers are told is what the abstract queue answers
  when it is given the calls in the order of their sections
  under the engine lock.
-/
theorem popRun_linearizable [Hasher]
    {maxSegmentSize : Option Nat}
    {cacheCapacity : Nat}
    {start : UInt64}
    {actions : List SharedAction}
    (hAdmits :
      Refinement.Admits PopSystem.answer PopSystem.Allows
        (.start maxSegmentSize cacheCapacity start)
        actions) :
    let replies :=
      Refinement.answers TaskQueue.serve .empty
        (actions.filterMap SharedAction.call)
    Refinement.answers PopSystem.answer
        (.start maxSegmentSize cacheCapacity start)
        actions =
        replies.map SharedReply.ofTask ∧
      List.Forall₂ PopCall.Agrees
        (Refinement.final PopSystem.answer
          (.start maxSegmentSize cacheCapacity start)
          actions).calls
        (replies.filterMap WorkQueue.Reply.delivery?) := by
  intro replies
  have hSimulation :=
    PopSystem.Linearizes.simulation
  have hStart :=
    PopSystem.linearizes_start maxSegmentSize cacheCapacity
      start
  constructor
  · calc
      Refinement.answers PopSystem.answer
          (.start maxSegmentSize cacheCapacity start)
          actions =
          Refinement.answers PopSystem.ledger (.empty, [])
            (actions.filterMap SharedAction.call) :=
        hSimulation.answers_eq hStart hAdmits
      _ = replies.map SharedReply.ofTask :=
        Refinement.answers_recorded _ _ _ _
  · have hFinal :
        (Refinement.final PopSystem.answer
          (.start maxSegmentSize cacheCapacity start)
          actions).Linearizes
          (Refinement.final PopSystem.ledger (.empty, [])
            (actions.filterMap SharedAction.call)).1
          (Refinement.final PopSystem.ledger (.empty, [])
            (actions.filterMap SharedAction.call)).2 :=
      hSimulation.related_final hStart hAdmits
    simp only [PopSystem.ledger, Refinement.final_recorded]
      at hFinal
    exact hFinal.agrees

/- The condition on a section as a test. -/
def PopSystem.allows [Hasher]
    (pop : PopSystem)
    (action : SharedAction) : Bool :=
  (pop.act action).isSome &&
    match action with
    | .run (.run (.ack id consumerId))
    | .run (.run (.nack id consumerId)) =>
        pop.system.snapshot.all (fun snapshot =>
          pop.system.engine.inner.leased[id]?.all
            (fun lease =>
              decide
                (id ∈ snapshot.tasks.map ExpiredTask.id →
                  lease.consumerId ≠ consumerId)))
    | .run (.run .processExpired) => false
    | .run action => pop.keepsReads action
    | .processExpired tasks =>
        decide
          (pop.system.snapshot.map Snapshot.tasks =
            some tasks)
    | .status => true

theorem PopSystem.allows_of_test [Hasher]
    (pop : PopSystem)
    (action : SharedAction)
    (hTest : pop.allows action = true) :
    pop.Allows action := by
  unfold allows at hTest
  rw [Bool.and_eq_true] at hTest
  refine ⟨hTest.1, ?_⟩
  have hUndisturbed :
      ∀ (id : UInt64) (consumerId : UInt32),
        pop.system.snapshot.all (fun snapshot =>
            pop.system.engine.inner.leased[id]?.all
              (fun lease =>
                decide
                  (id ∈
                      snapshot.tasks.map ExpiredTask.id →
                    lease.consumerId ≠ consumerId))) =
            true →
          Undisturbed pop.system (.ack id consumerId) := by
    intro id consumerId hAll snapshot hSnapshot hMem lease
      hLease
    simp only [hSnapshot, hLease, Option.all_some,
      decide_eq_true_eq] at hAll
    exact hAll hMem
  cases action with
  | run action =>
      cases action with
      | run whole =>
          cases whole with
          | ack id consumerId =>
              exact ⟨trivial,
                hUndisturbed id consumerId hTest.2,
                by simp⟩
          | nack id consumerId =>
              exact ⟨trivial,
                hUndisturbed id consumerId hTest.2,
                by simp⟩
          | processExpired => simp at hTest
          | _ =>
              exact ⟨keepsReads_of_test pop _ hTest.2,
                trivial, by simp⟩
      | _ => exact keepsReads_of_test pop _ hTest.2
  | processExpired tasks => exact of_decide_eq_true hTest.2
  | status => trivial

/-
  Two pops read beside a compaction and an expiry; task 2 is
  given away again before its first reader comes back.
-/
def readBesideExpiry : List SharedAction :=
  [.run (.run (.push [1] 5)), .run (.run (.push [2] 5)),
    .run (.run (.push [3] 5)),
    .run (.popLocked 7 10 100), .run (.popLocked 7 10 20),
    .run (.run (.snapshotExpired 40 [⟨2, 5, 0⟩])),
    .run (.run .compactPlan), .run (.run .compactPhase1),
    .run .rename, .run .unlink, .run (.readAt 1),
    .run .unlink, .run .unlink, .run .unlink, .run .unlink,
    .run .clearCache, .processExpired [⟨2, 5, 0⟩],
    .run (.popLocked 8 50 100), .run (.popLocked 9 50 100),
    .run (.run (.ack 1 7)), .run (.lookUp 1),
    .run (.readAt 1), .run (.readAt 0), .status]

set_option maxRecDepth 100000 in
theorem popRun_linearizable_readBesideExpiry :
    let replies :=
      Refinement.answers TaskQueue.serve .empty
        (readBesideExpiry.filterMap SharedAction.call)
    Refinement.answers PopSystem.answer
        (.start (some 20) 1 0) readBesideExpiry =
        replies.map SharedReply.ofTask ∧
      List.Forall₂ PopCall.Agrees
        (Refinement.final PopSystem.answer
          (.start (some 20) 1 0) readBesideExpiry).calls
        (replies.filterMap WorkQueue.Reply.delivery?) := by
  have hTests :
      Refinement.Admits PopSystem.answer
        (fun pop action => pop.allows action = true)
        (.start (some 20) 1 0) readBesideExpiry := by
    decide +kernel
  exact popRun_linearizable
    (hTests.imp PopSystem.allows_of_test)

end Nesso
