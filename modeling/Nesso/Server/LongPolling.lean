import Nesso.Library.Threads
import Nesso.Library.Transition
import Nesso.Queue.System
import Nesso.Storage.Checksum

/-
  Long polling (`pop_handler` and the producers that wake it,
  `server.rs`).

  A request creates its `notified` future, pops, and awaits
  the future if it found nothing.  `notify_one` wakes a
  registered request or stores the one permit there is; a
  future registers, or takes the permit, when first polled.

  Key definitions include:
    * `LongPoll`
    * `PollAction`
    * `LongPoll.step`
    * `LongPoll.lostWakeup`
    * `PollAction.KeepsWakeup`
    * `LongPoll.Covered`

  The main theorems are:
    * `LongPoll.Guarded.step`
    * `pollRun_no_lost_wakeup`
    * `coalesced_permits_lose_wakeup`
-/

------------------------------------------------------------
-- Enqueued Tasks
------------------------------------------------------------

namespace Nesso

namespace Engine

variable [Hasher]

/- Whether a failed delivery put the task back. -/
def requeued : Except IoError Bool → Bool
| .ok again => again
| .error _ => false

/- How often `nack` is about to call `on_task_ready`. -/
def nackCallbacks
    (fault : Option AppendFault)
    (id : UInt64)
    (consumerId : UInt32)
    (engine : Engine) : Nat :=
  match engine.inner.leased[id]? with
  | none => 0
  | some lease =>
      if lease.consumerId ≠ consumerId then
        0
      else
        (requeued
          (engine.processTaskFailure fault id lease.priority
            lease.retries .nacked).1).toNat

/- `re_enqueued_count` of the expiration worker. -/
def reEnqueuedCount
    (engine : Engine) :
    List (Option AppendFault × ExpiredTask) → Nat
| [] => 0
| task :: tasks =>
    (requeued
        (engine.processTaskFailure task.1 task.2.id
          task.2.priority task.2.retries .expired).1).toNat +
      (engine.expireTask task.1 task.2).reEnqueuedCount
        tasks

end Engine

end Nesso

------------------------------------------------------------
-- Requests and Producers
------------------------------------------------------------

namespace Nesso

/-
  Where a pop request is: its future is created and the pop
  is to come, the pop found nothing, the future is registered
  as a waiter, or it was notified.
-/
inductive PollPhase where
| popping
| foundNothing
| parked
| woken
| finished
deriving DecidableEq, Repr

/- A request without `wait_secs` has no deadline. -/
structure PollRequest where
  deadline : Option Nat
  phase : PollPhase
deriving DecidableEq, Repr

def PollRequest.beforeDeadline
    (now : Nat)
    (request : PollRequest) : Bool :=
  request.deadline.any (fun deadline => now < deadline)

/-
  A caller that has enqueued its tasks: the calls of
  `on_task_ready` still to come, and whether `push_handler`
  or `nack_handler` calls `notify_one` once more after them.
-/
structure Producer where
  callbacks : Nat
  handler : Bool
deriving DecidableEq, Repr

/- One queue, its `Notify`, and everyone who uses it. -/
structure LongPoll where
  engine : Engine
  permit : Bool
  requests : List PollRequest
  producers : List Producer
  now : Nat
  shuttingDown : Bool

/-
  `await` is the first poll of `select!`.  `leave` is a
  request that ends there: its deadline has come, the server
  shuts down, or the client is gone.  `dropHandler` is a push
  or a nack whose sync failed or whose client is gone.
-/
inductive PollAction where
| request (waitSecs : Nat)
| pop (position : Nat) (fault : Option AppendFault)
    (consumerId : UInt32) (now leaseTtlSecs : UInt64)
| await (position : Nat)
| retry (position : Nat)
| leave (position waiter : Nat)
| push (fault : Option AppendFault) (payload : Bytes)
    (priority : UInt8)
| ack (fault : Option AppendFault) (id : UInt64)
    (consumerId : UInt32)
| nack (fault : Option AppendFault) (id : UInt64)
    (consumerId : UInt32)
| expire (tasks : List (Option AppendFault × ExpiredTask))
| callback (position waiter : Nat)
| notifyHandler (position waiter : Nat)
| dropHandler (position : Nat)
| compact
| tick
| shutdown

namespace LongPoll

/- A queue that was just opened. -/
def start (engine : Engine) : LongPoll where
  engine := engine
  permit := false
  requests := []
  producers := []
  now := 0
  shuttingDown := false

def setPhase
    (poll : LongPoll)
    (position : Nat)
    (request : PollRequest)
    (phase : PollPhase) : LongPoll :=
  { poll with
    requests :=
      poll.requests.set position
        { request with phase := phase } }

/- `Notify::notify_one`; any registered waiter may be woken. -/
def notifyOne
    (poll : LongPoll)
    (waiter : Nat) : Option LongPoll :=
  if poll.requests.any
      (fun request => request.phase = .parked) then
    match poll.requests[waiter]? with
    | none => none
    | some request =>
        if request.phase = .parked then
          some (poll.setPhase waiter request .woken)
        else
          none
  else
    some { poll with permit := true }

/- The top of the loop: create the future, or give up. -/
def beginTurn
    (poll : LongPoll)
    (position : Nat)
    (request : PollRequest) : LongPoll :=
  poll.setPhase position request
    (if poll.shuttingDown then .finished else .popping)

/- The deadline check, and the first poll of `select!`. -/
def awaitNotified
    (poll : LongPoll)
    (position : Nat)
    (request : PollRequest) : LongPoll :=
  if request.beforeDeadline poll.now then
    if poll.permit then
      { poll with permit := false }.beginTurn position request
    else
      poll.setPhase position request .parked
  else
    poll.setPhase position request .finished

/- A notified future that is dropped passes it on. -/
def leaveSelect
    (poll : LongPoll)
    (position waiter : Nat)
    (request : PollRequest) : Option LongPoll :=
  match request.phase with
  | .foundNothing | .parked =>
      some (poll.setPhase position request .finished)
  | .woken =>
      (poll.setPhase position request .finished).notifyOne
        waiter
  | .popping | .finished => none

/- A caller with `callbacks` calls of `on_task_ready` to make. -/
def enqueued
    (poll : LongPoll)
    (engine : Engine)
    (callbacks : Nat)
    (handler : Bool) : LongPoll :=
  { poll with
    engine := engine
    producers := poll.producers ++ [⟨callbacks, handler⟩] }

/- The request at a position, if it is in this phase. -/
def requestIn
    (poll : LongPoll)
    (position : Nat)
    (phase : PollPhase) : Option PollRequest :=
  poll.requests[position]?.filter
    (fun request => request.phase = phase)

variable [Hasher]

/- `pop_and_lease` under the engine lock. -/
def attemptPop
    (poll : LongPoll)
    (position : Nat)
    (request : PollRequest)
    (popped : Except IoError (Option PopTicket) × Engine) :
    LongPoll :=
  { poll with engine := popped.2 }.setPhase position request
    (match popped.1 with
    | .ok none => .foundNothing
    | _ => .finished)

def step (poll : LongPoll) : PollAction → Option LongPoll
| .request waitSecs =>
    some
      (if poll.shuttingDown then
        poll
      else
        { poll with
          requests :=
            poll.requests ++
              [⟨if 0 < waitSecs then
                  some (poll.now + waitSecs)
                else
                  none, .popping⟩] })
| .pop position fault consumerId now leaseTtlSecs =>
    (poll.requestIn position .popping).map (fun request =>
      poll.attemptPop position request
        (poll.engine.popLocked fault consumerId now
          leaseTtlSecs))
| .await position =>
    (poll.requestIn position .foundNothing).map
      (poll.awaitNotified position)
| .retry position =>
    (poll.requestIn position .woken).map
      (poll.beginTurn position)
| .leave position waiter =>
    poll.requests[position]?.bind
      (poll.leaveSelect position waiter)
| .push fault payload priority =>
    let pushed := poll.engine.push fault payload priority
    match pushed.1 with
    | .ok _ => some (poll.enqueued pushed.2 1 true)
    | .error _ => some { poll with engine := pushed.2 }
| .ack fault id consumerId =>
    some
      { poll with
        engine := (poll.engine.ack fault id consumerId).2 }
| .nack fault id consumerId =>
    let nacked := poll.engine.nack fault id consumerId
    -- The handler notifies for a dead-lettered task, too.
    some
      (poll.enqueued nacked.2
        (poll.engine.nackCallbacks fault id consumerId)
        nacked.1.isOk)
| .expire tasks =>
    some
      (poll.enqueued (poll.engine.processExpired tasks)
        (poll.engine.reEnqueuedCount tasks) false)
| .callback position waiter =>
    match poll.producers[position]? with
    | some ⟨callbacks + 1, handler⟩ =>
        { poll with
          producers :=
            poll.producers.set position
              ⟨callbacks, handler⟩ }.notifyOne waiter
    | _ => none
| .notifyHandler position waiter =>
    match poll.producers[position]? with
    | some ⟨0, true⟩ =>
        { poll with
          producers :=
            poll.producers.set position
              ⟨0, false⟩ }.notifyOne waiter
    | _ => none
| .dropHandler position =>
    match poll.producers[position]? with
    | some ⟨callbacks, _⟩ =>
        some
          { poll with
            producers :=
              poll.producers.set position
                ⟨callbacks, false⟩ }
    | none => none
| .compact => some { poll with engine := poll.engine.compact.2 }
| .tick => some { poll with now := poll.now + 1 }
| .shutdown => some { poll with shuttingDown := true }

end LongPoll

end Nesso

------------------------------------------------------------
-- Lost Wake-Ups
------------------------------------------------------------

namespace Nesso

/- The request has a future that it has not awaited yet. -/
def PollRequest.busy (request : PollRequest) : Bool :=
  request.phase = .popping ∨
    request.phase = .foundNothing ∨
    request.phase = .woken

/- The request is about to pop. -/
def PollRequest.trying (request : PollRequest) : Bool :=
  request.phase = .popping ∨ request.phase = .woken

/- The request found nothing and is about to wait. -/
def PollRequest.awaiting
    (now : Nat)
    (request : PollRequest) : Bool :=
  request.phase = .foundNothing ∧
    request.beforeDeadline now

def PollRequest.isParked (request : PollRequest) : Bool :=
  request.phase = .parked

/- The producer has not made all its notifications. -/
def Producer.notifying (producer : Producer) : Bool :=
  0 < producer.callbacks ∨ producer.handler

namespace LongPoll

/- Something that can still wake or serve a request. -/
def inFlight (poll : LongPoll) : Bool :=
  poll.permit ∨
    poll.requests.any PollRequest.busy ∨
    poll.producers.any Producer.notifying

/-
  A task is ready, a request waits for one before its
  deadline, and nothing will bring them together.
-/
def lostWakeup (poll : LongPoll) : Bool :=
  poll.shuttingDown = false ∧
    poll.requests.any (fun request =>
      request.isParked ∧ request.beforeDeadline poll.now) ∧
    poll.engine.inner.readyQueue.tasks ≠ [] ∧
    poll.inFlight = false

def ready (poll : LongPoll) : Nat :=
  poll.engine.inner.readyQueue.tasks.length

def permits (poll : LongPoll) : Nat :=
  poll.permit.toNat

def tries (poll : LongPoll) : Nat :=
  poll.requests.countP PollRequest.trying

def awaits (poll : LongPoll) : Nat :=
  poll.requests.countP (PollRequest.awaiting poll.now)

def waiters (poll : LongPoll) : Nat :=
  poll.requests.countP PollRequest.isParked

def callbacks (poll : LongPoll) : Nat :=
  (poll.producers.map Producer.callbacks).sum

/-
  A notification that finds the permit stored is not needed:
  at most one request is about to wait, or there are no more
  ready tasks than requests about to pop and notifications
  to come, the permit counted in place of this one.
-/
def Spare (poll : LongPoll) : Prop :=
  poll.permit = true →
    poll.awaits ≤ 1 ∨
      poll.ready ≤ poll.tries + poll.callbacks

instance (poll : LongPoll) : Decidable poll.Spare :=
  inferInstanceAs (Decidable (_ → _))

end LongPoll

/- No notification that is needed finds the permit stored. -/
def PollAction.KeepsWakeup
    (poll : LongPoll) : PollAction → Prop
| .callback _ _ => poll.Spare
| .leave position _ =>
    poll.requestIn position .woken ≠ none → poll.Spare
| _ => True

end Nesso

------------------------------------------------------------
-- The Length of the Ready Queue
------------------------------------------------------------

namespace Nesso

namespace Engine

variable [Hasher]
variable {engine : Engine}

theorem readyQueue_of_append
    {fault : Option AppendFault}
    {record : Record}
    {result : Except IoError Loc}
    {next : Engine}
    (hAppend :
      engine.appendRecord fault record = (result, next)) :
    next.inner.readyQueue = engine.inner.readyQueue := by
  have hNext : next = (engine.appendRecord fault record).2 := by
    rw [hAppend]
  rw [hNext]
  rfl

/- Popping from an empty queue changes nothing. -/
theorem popLocked_of_empty
    (hPop : engine.inner.readyQueue.pop = none)
    (fault : Option AppendFault)
    (consumerId : UInt32)
    (now leaseTtlSecs : UInt64) :
    engine.popLocked fault consumerId now leaseTtlSecs =
      (.ok none, engine) := by
  simp only [popLocked, hPop]

/- A task that was popped is gone, and is not overlooked. -/
theorem popLocked_of_ready
    {task : TaskRef}
    {rest : ReadyQueue}
    (hPop : engine.inner.readyQueue.pop = some (task, rest))
    (fault : Option AppendFault)
    (consumerId : UInt32)
    (now leaseTtlSecs : UInt64) :
    (engine.popLocked fault consumerId now
        leaseTtlSecs).2.inner.readyQueue = rest ∧
      (engine.popLocked fault consumerId now
        leaseTtlSecs).1 ≠ .ok none := by
  simp only [popLocked, hPop]
  split
  · next hAppend =>
      exact ⟨readyQueue_of_append hAppend, by simp⟩
  · next hAppend =>
      have hReady := readyQueue_of_append hAppend
      split
      · exact ⟨hReady, by simp⟩
      · exact ⟨hReady, by simp⟩

theorem length_ready_push
    (engine : Engine)
    (fault : Option AppendFault)
    (payload : Bytes)
    (priority : UInt8) :
    (engine.push fault payload
        priority).2.inner.readyQueue.tasks.length =
      engine.inner.readyQueue.tasks.length +
        (engine.push fault payload
          priority).1.toOption.isSome.toNat := by
  unfold push
  dsimp only
  split
  · next hAppend =>
      rw [readyQueue_of_append hAppend]
      rfl
  · next hAppend =>
      have hReady := readyQueue_of_append hAppend
      dsimp only at hReady ⊢
      rw [← hReady]
      exact (ReadyQueue.tasks_push_perm _ _).length_eq

theorem readyQueue_ack
    (fault : Option AppendFault)
    (id : UInt64)
    (consumerId : UInt32) :
    (engine.ack fault id consumerId).2.inner.readyQueue =
      engine.inner.readyQueue := by
  unfold ack
  split
  · rfl
  · split
    · rfl
    · split
      · next hAppend => exact readyQueue_of_append hAppend
      · next loc next hAppend =>
          have hReady := readyQueue_of_append hAppend
          exact hReady

/- A failed delivery adds the task that it puts back. -/
theorem length_ready_failure
    (fault : Option AppendFault)
    (id : UInt64)
    (priority retries : UInt8)
    (failureType : OpType) :
    (engine.processTaskFailure fault id priority retries
        failureType).2.inner.readyQueue.tasks.length =
      engine.inner.readyQueue.tasks.length +
        (requeued
          (engine.processTaskFailure fault id priority
            retries failureType).1).toNat := by
  unfold processTaskFailure
  dsimp only
  generalize (if maxRetries ≤ retries + 1 then
    OpType.deadLettered else failureType) = op
  split
  · next hAppend =>
      rw [readyQueue_of_append hAppend]
      rfl
  · next hAppend =>
      rw [← readyQueue_of_append hAppend]
      split
      · rfl
      · exact (ReadyQueue.tasks_push_perm _ _).length_eq

theorem length_ready_nack
    (fault : Option AppendFault)
    (id : UInt64)
    (consumerId : UInt32) :
    (engine.nack fault id
        consumerId).2.inner.readyQueue.tasks.length =
      engine.inner.readyQueue.tasks.length +
        engine.nackCallbacks fault id consumerId := by
  unfold nack nackCallbacks
  cases engine.inner.leased[id]? with
  | none => rfl
  | some lease =>
      by_cases hConsumer : lease.consumerId ≠ consumerId
      · simp only [if_pos hConsumer]
        rfl
      · simp only [if_neg hConsumer]
        exact length_ready_failure _ _ _ _ _

/- The worker counts every task that it puts back. -/
theorem length_ready_processExpired
    (tasks : List (Option AppendFault × ExpiredTask)) :
    (engine.processExpired
        tasks).inner.readyQueue.tasks.length =
      engine.inner.readyQueue.tasks.length +
        engine.reEnqueuedCount tasks := by
  induction tasks generalizing engine with
  | nil => rfl
  | cons task tasks ih =>
      have hRest :
          engine.processExpired (task :: tasks) =
            (engine.expireTask task.1
              task.2).processExpired tasks := rfl
      have hFirst :
          (engine.expireTask task.1
              task.2).inner.readyQueue.tasks.length =
            engine.inner.readyQueue.tasks.length +
              (requeued
                (engine.processTaskFailure task.1 task.2.id
                  task.2.priority task.2.retries
                  .expired).1).toNat :=
        length_ready_failure _ _ _ _ _
      rw [hRest, ih, hFirst, reEnqueuedCount, Nat.add_assoc]

omit [Hasher] in
theorem readyQueue_compactPhase2
    (closedSegments : List Nat)
    (newOffsets : Std.ExtTreeMap UInt64 Nat) :
    (engine.compactPhase2 closedSegments
        newOffsets).2.inner.readyQueue =
      engine.inner.readyQueue := by
  unfold compactPhase2
  dsimp only
  split
  · rfl
  · rw [EngineState.remap_eq]

theorem readyQueue_compact :
    engine.compact.2.inner.readyQueue =
      engine.inner.readyQueue := by
  unfold compact
  split
  · rfl
  · next closedSegments _ =>
      have hPhase1 :
          (engine.compactPhase1
              closedSegments).2.inner.readyQueue =
            engine.inner.readyQueue := rfl
      split
      · next hOut =>
          rw [hOut] at hPhase1
          exact hPhase1
      · next hOut =>
          rw [hOut] at hPhase1
          rw [readyQueue_compactPhase2]
          exact hPhase1

end Engine

end Nesso

------------------------------------------------------------
-- Counting Requests and Notifications
------------------------------------------------------------

namespace Nesso

namespace LongPoll

variable {poll next : LongPoll}
variable {position : Nat} {request : PollRequest}

theorem requestIn_eq_some
    {phase : PollPhase}
    (hRequest :
      poll.requestIn position phase = some request) :
    poll.requests[position]? = some request ∧
      request.phase = phase := by
  rw [requestIn, Option.filter_eq_some_iff] at hRequest
  exact ⟨hRequest.1, of_decide_eq_true hRequest.2⟩

theorem permits_le (poll : LongPoll) : poll.permits ≤ 1 :=
  Bool.toNat_le poll.permit

theorem permits_pos_iff :
    0 < poll.permits ↔ poll.permit = true := by
  rw [permits]
  cases poll.permit <;> simp

/- A request that changes its phase changes the counts. -/
theorem counts_setPhase
    (hRequest : poll.requests[position]? = some request)
    (phase : PollPhase) :
    (poll.setPhase position request phase).tries +
          (if request.trying then 1 else 0) =
        poll.tries +
          (if { request with phase := phase }.trying then 1
          else 0) ∧
      (poll.setPhase position request phase).awaits +
          (if request.awaiting poll.now then 1 else 0) =
        poll.awaits +
          (if { request with phase := phase }.awaiting
              poll.now then 1
          else 0) ∧
      (poll.setPhase position request phase).waiters +
          (if request.isParked then 1 else 0) =
        poll.waiters +
          (if { request with phase := phase }.isParked then 1
          else 0) :=
  ⟨Threads.countP_set_add _ hRequest _,
    Threads.countP_set_add _ hRequest _,
    Threads.countP_set_add _ hRequest _⟩

theorem any_parked_iff :
    poll.requests.any
        (fun request => request.phase = .parked) = true ↔
      0 < poll.waiters := by
  rw [waiters, List.countP_pos_iff, List.any_eq_true]
  rfl

/-
  `notify_one` makes a waiter try again, or leaves a permit
  behind.
-/
theorem counts_notifyOne
    {waiter : Nat}
    (hNext : poll.notifyOne waiter = some next) :
    next.ready = poll.ready ∧
      next.awaits = poll.awaits ∧
      next.callbacks = poll.callbacks ∧
      next.shuttingDown = poll.shuttingDown ∧
      (next.permits = poll.permits ∧
          next.waiters + 1 = poll.waiters ∧
          next.tries = poll.tries + 1 ∨
        poll.waiters = 0 ∧ next.permits = 1 ∧
          next.waiters = 0 ∧ next.tries = poll.tries) := by
  unfold notifyOne at hNext
  split at hNext
  · split at hNext
    · simp at hNext
    · next request hRequest =>
        split at hNext
        · next hParked =>
            rw [Option.some.injEq] at hNext
            rcases counts_setPhase hRequest .woken with
              ⟨hTries, hAwaits, hWaiters⟩
            simp [PollRequest.trying, PollRequest.awaiting,
              PollRequest.isParked, hParked, hNext]
              at hTries hAwaits hWaiters
            refine ⟨hNext ▸ rfl, hAwaits, hNext ▸ rfl,
              hNext ▸ rfl, .inl ⟨hNext ▸ rfl, ?_, ?_⟩⟩
            · omega
            · omega
        · simp at hNext
  · next hNone =>
      rw [any_parked_iff, Nat.not_lt, Nat.le_zero] at hNone
      rw [Option.some.injEq] at hNext
      rw [← hNext]
      exact ⟨rfl, rfl, rfl, rfl, .inr
        ⟨hNone, rfl, hNone, rfl⟩⟩

theorem shuttingDown_leaveSelect
    {waiter : Nat}
    (hNext :
      poll.leaveSelect position waiter request =
        some next) :
    next.shuttingDown = poll.shuttingDown := by
  unfold leaveSelect at hNext
  split at hNext
  · rw [← Option.some.inj hNext]
    rfl
  · rw [← Option.some.inj hNext]
    rfl
  · exact (counts_notifyOne hNext).2.2.2.1
  · simp at hNext
  · simp at hNext

end LongPoll

end Nesso

------------------------------------------------------------
-- Every Ready Task Is Covered
------------------------------------------------------------

namespace Nesso

namespace LongPoll

/-
  A permit is stored only while nobody is registered.  As
  long as some request will have to wait, every ready task is
  covered by the permit, a request about to pop, or a
  notification to come.
-/
structure Covered (poll : LongPoll) : Prop where
  exclusive : 0 < poll.permits → poll.waiters = 0
  enough :
    poll.permits < poll.waiters + poll.awaits →
      poll.ready ≤
        poll.permits + poll.tries + poll.callbacks

/- A server that shuts down ends all requests. -/
def Guarded (poll : LongPoll) : Prop :=
  poll.shuttingDown = false → poll.Covered

namespace Covered

variable {poll next : LongPoll}
variable {position : Nat} {request : PollRequest}

/- A notification makes up for one that is missing. -/
theorem of_notifyOne
    {waiter : Nat}
    (hExclusive : 0 < poll.permits → poll.waiters = 0)
    (hEnough :
      poll.permits < poll.waiters + poll.awaits →
        poll.ready ≤
          poll.permits + poll.tries + poll.callbacks + 1)
    (hSpare :
      0 < poll.permits →
        poll.awaits ≤ 1 ∨
          poll.ready ≤
            poll.permits + poll.tries + poll.callbacks)
    (hNext : poll.notifyOne waiter = some next) :
    next.Covered := by
  have hPermits := poll.permits_le
  rcases counts_notifyOne hNext with
    ⟨hReady, hAwaits, hCallbacks, _,
      ⟨hSame, hWaiters, hTries⟩ |
      ⟨hNone, hOne, hWaiters, hTries⟩⟩
  · constructor
    · omega
    · omega
  · constructor
    · omega
    · omega

/- Steps that keep the permit and lose no cover. -/
theorem of_counts
    (hPoll : poll.Covered)
    (hPermits : next.permits = poll.permits)
    (hWaiters : next.waiters ≤ poll.waiters)
    (hWaiting :
      next.waiters + next.awaits ≤
        poll.waiters + poll.awaits)
    (hCover :
      next.ready + poll.tries + poll.callbacks ≤
        poll.ready + next.tries + next.callbacks) :
    next.Covered := by
  have hExclusive := hPoll.exclusive
  have hEnough := hPoll.enough
  constructor
  · omega
  · omega

/- A request that ends without having been notified. -/
theorem finish
    (hPoll : poll.Covered)
    (hRequest : poll.requests[position]? = some request)
    (hTrying : request.trying = false) :
    (poll.setPhase position request .finished).Covered := by
  rcases counts_setPhase hRequest .finished with
    ⟨hTries, hAwaits, hWaiters⟩
  simp only [PollRequest.trying, PollRequest.isParked,
    PollRequest.awaiting] at hTries hAwaits hWaiters hTrying
  refine hPoll.of_counts rfl ?_ ?_ ?_
  · simp at hWaiters
    omega
  · simp at hWaiters hAwaits
    omega
  · have hSame :
        (poll.setPhase position request .finished).tries =
          poll.tries := by
      simpa [hTrying] using hTries
    rw [hSame]
    exact Nat.le_refl _

/- A request that is about to pop again. -/
theorem beginTurn
    (hPoll : poll.Covered)
    (hRequest :
      poll.requestIn position .woken = some request)
    (hRunning : poll.shuttingDown = false) :
    (poll.beginTurn position request).Covered := by
  rcases requestIn_eq_some hRequest with ⟨hRequest, hWoken⟩
  rw [LongPoll.beginTurn, hRunning]
  rcases counts_setPhase hRequest .popping with
    ⟨hTries, hAwaits, hWaiters⟩
  simp [PollRequest.trying, PollRequest.awaiting,
    PollRequest.isParked, hWoken]
    at hTries hAwaits hWaiters
  refine hPoll.of_counts rfl ?_ ?_ ?_
  · exact Nat.le_of_eq hWaiters
  · exact Nat.le_of_eq
      (congrArg₂ (· + ·) hWaiters hAwaits)
  · exact Nat.le_of_eq
      (congrArg (poll.ready + · + poll.callbacks)
        hTries.symm)

/- The pop takes a task, or there was none. -/
theorem attemptPop [Hasher]
    (hPoll : poll.Covered)
    (hRequest :
      poll.requestIn position .popping = some request)
    (fault : Option AppendFault)
    (consumerId : UInt32)
    (now leaseTtlSecs : UInt64) :
    (poll.attemptPop position request
      (poll.engine.popLocked fault consumerId now
        leaseTtlSecs)).Covered := by
  rcases requestIn_eq_some hRequest with ⟨hRequest, hPopping⟩
  have hExclusive := hPoll.exclusive
  have hEnough := hPoll.enough
  cases hPop : poll.engine.inner.readyQueue.pop with
  | none =>
      rw [Engine.popLocked_of_empty hPop]
      rcases counts_setPhase hRequest .foundNothing with
        ⟨_, _, hWaiters⟩
      simp [PollRequest.isParked, hPopping] at hWaiters
      have hReady : poll.ready = 0 := by
        rw [ready, ReadyQueue.tasks_eq_nil_of_pop hPop]
        rfl
      constructor
      · intro hPermits
        exact hWaiters.trans (hExclusive hPermits)
      · intro _
        exact hReady.trans_le (Nat.zero_le _)
  | some popped =>
      rcases popped with ⟨task, rest⟩
      rcases Engine.popLocked_of_ready hPop fault consumerId
        now leaseTtlSecs with ⟨hRest, hFound⟩
      generalize poll.engine.popLocked fault consumerId now
        leaseTtlSecs = popped at hRest hFound
      have hPhase :
          poll.attemptPop position request popped =
            { poll with engine := popped.2 }.setPhase
              position request .finished := by
        unfold LongPoll.attemptPop
        split
        · next hNone => exact (hFound hNone).elim
        · rfl
      rw [hPhase]
      have hReady :
          popped.2.inner.readyQueue.tasks.length + 1 =
            poll.ready := by
        rw [hRest]
        exact (ReadyQueue.tasks_pop_perm hPop).length_eq.symm
      rcases counts_setPhase hRequest .finished with
        ⟨hTries, hAwaits, hWaiters⟩
      simp [PollRequest.trying, PollRequest.awaiting,
        PollRequest.isParked, hPopping]
        at hTries hAwaits hWaiters
      refine hPoll.of_counts rfl (Nat.le_of_eq hWaiters)
        (Nat.le_of_eq (congrArg₂ (· + ·) hWaiters hAwaits))
        ?_
      change popped.2.inner.readyQueue.tasks.length +
          poll.tries + poll.callbacks ≤
        poll.ready +
          (poll.setPhase position request .finished).tries +
          poll.callbacks
      omega

/- A request that awaits takes the permit or registers. -/
theorem awaitNotified
    (hPoll : poll.Covered)
    (hRequest :
      poll.requestIn position .foundNothing = some request)
    (hRunning : poll.shuttingDown = false) :
    (poll.awaitNotified position request).Covered := by
  rcases requestIn_eq_some hRequest with ⟨hRequest, hFound⟩
  have hExclusive := hPoll.exclusive
  have hEnough := hPoll.enough
  unfold LongPoll.awaitNotified
  split
  · next hDeadline =>
      split
      · next hPermit =>
          rw [LongPoll.beginTurn, hRunning]
          rcases counts_setPhase hRequest .popping with
            ⟨hTries, hAwaits, hWaiters⟩
          simp [PollRequest.trying, PollRequest.awaiting,
            PollRequest.isParked, hFound, hDeadline]
            at hTries hAwaits hWaiters
          have hOne : poll.permits = 1 := by
            simp [permits, hPermit]
          constructor
          · intro hNone
            simp [permits, setPhase] at hNone
          · change 0 <
                (poll.setPhase position request
                    .popping).waiters +
                  (poll.setPhase position request
                    .popping).awaits →
              poll.ready ≤
                0 +
                  (poll.setPhase position request
                    .popping).tries + poll.callbacks
            omega
      · next hPermit =>
          rcases counts_setPhase hRequest .parked with
            ⟨hTries, hAwaits, hWaiters⟩
          simp [PollRequest.trying, PollRequest.awaiting,
            PollRequest.isParked, hFound, hDeadline]
            at hTries hAwaits hWaiters
          have hNone : poll.permits = 0 := by
            simp [permits, hPermit]
          constructor
          · change 0 < poll.permits → _
            omega
          · change poll.permits < _ →
              poll.ready ≤
                poll.permits +
                  (poll.setPhase position request
                    .parked).tries + poll.callbacks
            omega
  · apply hPoll.finish hRequest
    simp [PollRequest.trying, hFound]

/- A request that leaves passes its notification on. -/
theorem leaveSelect
    {waiter : Nat}
    (hPoll : poll.Covered)
    (hRequest : poll.requests[position]? = some request)
    (hSpare :
      poll.requestIn position .woken ≠ none → poll.Spare)
    (hNext :
      poll.leaveSelect position waiter request =
        some next) :
    next.Covered := by
  unfold LongPoll.leaveSelect at hNext
  split at hNext
  · next hPhase =>
      rw [← Option.some.inj hNext]
      exact hPoll.finish hRequest
        (by simp [PollRequest.trying, hPhase])
  · next hPhase =>
      rw [← Option.some.inj hNext]
      exact hPoll.finish hRequest
        (by simp [PollRequest.trying, hPhase])
  · next hWoken =>
      have hSpare : poll.Spare := by
        apply hSpare
        simp [requestIn, hRequest, hWoken]
      rcases counts_setPhase hRequest .finished with
        ⟨hTries, hAwaits, hWaiters⟩
      simp [PollRequest.trying, PollRequest.awaiting,
        PollRequest.isParked, hWoken]
        at hTries hAwaits hWaiters
      have hExclusive := hPoll.exclusive
      have hEnough := hPoll.enough
      have hPermits := poll.permits_le
      apply of_notifyOne _ _ _ hNext
      · intro hPermit
        exact hWaiters.trans (hExclusive hPermit)
      · change poll.permits < _ →
          poll.ready ≤
            poll.permits +
              (poll.setPhase position request
                .finished).tries + poll.callbacks + 1
        omega
      · intro hPermit
        have hStored : poll.permit = true :=
          permits_pos_iff.mp hPermit
        have hOne : poll.permits = 1 := by
          simp [permits, hStored]
        refine (hSpare hStored).imp ?_ ?_
        · intro hFew
          exact hAwaits.trans_le hFew
        · change _ →
            poll.ready ≤
              poll.permits +
                (poll.setPhase position request
                  .finished).tries + poll.callbacks
          omega
  · simp at hNext
  · simp at hNext

/- Callers that will call back once for every task. -/
theorem enqueued
    (hPoll : poll.Covered)
    {engine : Engine}
    {callbacks : Nat}
    (hReady :
      engine.inner.readyQueue.tasks.length =
        poll.engine.inner.readyQueue.tasks.length +
          callbacks)
    (handler : Bool) :
    (poll.enqueued engine callbacks handler).Covered := by
  refine hPoll.of_counts rfl (Nat.le_refl _)
    (Nat.le_refl _) ?_
  have hCallbacks :
      (poll.enqueued engine callbacks handler).callbacks =
        poll.callbacks + callbacks := by
    simp [LongPoll.enqueued, LongPoll.callbacks]
  rw [hCallbacks]
  change engine.inner.readyQueue.tasks.length + poll.tries +
      poll.callbacks ≤
    poll.engine.inner.readyQueue.tasks.length + poll.tries +
      (poll.callbacks + callbacks)
  omega

/- A change of the engine that leaves the ready queue. -/
theorem of_engine
    (hPoll : poll.Covered)
    {engine : Engine}
    (hReady :
      engine.inner.readyQueue =
        poll.engine.inner.readyQueue) :
    Covered { poll with engine := engine } := by
  refine hPoll.of_counts rfl (Nat.le_refl _)
    (Nat.le_refl _) ?_
  rw [ready, hReady]
  exact Nat.le_refl _

/- The next call of `on_task_ready`. -/
theorem callback
    {waiter callbacks : Nat}
    {handler : Bool}
    (hPoll : poll.Covered)
    (hSpare : poll.Spare)
    (hProducer :
      poll.producers[position]? =
        some ⟨callbacks + 1, handler⟩)
    (hNext :
      { poll with
        producers :=
          poll.producers.set position
            ⟨callbacks, handler⟩ }.notifyOne waiter =
        some next) :
    next.Covered := by
  have hExclusive := hPoll.exclusive
  have hEnough := hPoll.enough
  have hPermits := poll.permits_le
  have hCallbacks :
      LongPoll.callbacks
          { poll with
            producers :=
              poll.producers.set position
                ⟨callbacks, handler⟩ } + 1 =
        poll.callbacks := by
    have hSum :=
      Threads.sum_map_set_add Producer.callbacks hProducer
        ⟨callbacks, handler⟩
    simp only at hSum
    simp only [LongPoll.callbacks]
    omega
  apply of_notifyOne _ _ _ hNext
  · exact hExclusive
  · change poll.permits < poll.waiters + poll.awaits →
      poll.ready ≤ poll.permits + poll.tries + _ + 1
    omega
  · intro hPermit
    have hStored : poll.permit = true :=
      permits_pos_iff.mp hPermit
    have hOne : poll.permits = 1 := by
      simp [permits, hStored]
    refine (hSpare hStored).imp id ?_
    change _ → poll.ready ≤ poll.permits + poll.tries + _
    omega

/- A producer that changes nothing but its handler. -/
theorem setHandler
    {callbacks : Nat}
    {handler : Bool}
    (hPoll : poll.Covered)
    (hProducer :
      poll.producers[position]? = some ⟨callbacks, handler⟩)
    (other : Bool) :
    Covered
      { poll with
        producers :=
          poll.producers.set position
            ⟨callbacks, other⟩ } := by
  have hSum :=
    Threads.sum_map_set_add Producer.callbacks hProducer
      ⟨callbacks, other⟩
  simp only at hSum
  refine hPoll.of_counts rfl (Nat.le_refl _)
    (Nat.le_refl _) ?_
  change poll.ready + poll.tries + poll.callbacks ≤
    poll.ready + poll.tries +
      ((poll.producers.set position
        ⟨callbacks, other⟩).map Producer.callbacks).sum
  rw [LongPoll.callbacks]
  omega

/- A notification more than there are tasks. -/
theorem notifyOne
    {waiter : Nat}
    (hPoll : poll.Covered)
    (hNext : poll.notifyOne waiter = some next) :
    next.Covered := by
  have hEnough := hPoll.enough
  have hPermits := poll.permits_le
  apply of_notifyOne hPoll.exclusive _ _ hNext
  · omega
  · omega

theorem tick
    (hPoll : poll.Covered) :
    Covered { poll with now := poll.now + 1 } := by
  have hAwaits :
      LongPoll.awaits { poll with now := poll.now + 1 } ≤
        poll.awaits := by
    apply List.countP_mono_left
    intro request _ hAwaiting
    simp only [PollRequest.awaiting,
      PollRequest.beforeDeadline, Bool.decide_and,
      Bool.and_eq_true, decide_eq_true_eq,
      Option.any_eq_true] at hAwaiting ⊢
    rcases hAwaiting with
      ⟨hFound, deadline, hDeadline, hBefore⟩
    exact ⟨hFound, deadline, hDeadline,
      Nat.lt_of_succ_lt hBefore⟩
  exact hPoll.of_counts rfl (Nat.le_refl _)
    (Nat.add_le_add_left hAwaits _) (Nat.le_refl _)

end Covered

/- Every step keeps the ready tasks covered. -/
theorem Guarded.step [Hasher]
    {poll next : LongPoll}
    (hPoll : poll.Guarded)
    {action : PollAction}
    (hAction : action.KeepsWakeup poll)
    (hNext : poll.step action = some next) :
    next.Guarded := by
  intro hRunning
  cases action with
  | request waitSecs =>
      rw [LongPoll.step, Option.some.injEq] at hNext
      rw [← hNext] at hRunning ⊢
      split
      · next hDown =>
          rw [if_pos hDown] at hRunning
          exact hPoll hRunning
      · next hUp =>
          rw [if_neg hUp] at hRunning
          refine (hPoll hRunning).of_counts rfl ?_ ?_ ?_
          · simp [waiters, PollRequest.isParked]
          · simp [waiters, awaits, PollRequest.isParked,
              PollRequest.awaiting]
          · simp [ready, tries, LongPoll.callbacks]
  | pop position fault consumerId now leaseTtlSecs =>
      rw [LongPoll.step, Option.map_eq_some_iff] at hNext
      rcases hNext with ⟨request, hRequest, hNext⟩
      rw [← hNext] at hRunning ⊢
      exact (hPoll hRunning).attemptPop hRequest fault
        consumerId now leaseTtlSecs
  | await position =>
      rw [LongPoll.step, Option.map_eq_some_iff] at hNext
      rcases hNext with ⟨request, hRequest, hNext⟩
      have hUp : poll.shuttingDown = false := by
        rw [← hNext] at hRunning
        unfold LongPoll.awaitNotified at hRunning
        split at hRunning
        · split at hRunning <;> exact hRunning
        · exact hRunning
      rw [← hNext]
      exact (hPoll hUp).awaitNotified hRequest hUp
  | retry position =>
      rw [LongPoll.step, Option.map_eq_some_iff] at hNext
      rcases hNext with ⟨request, hRequest, hNext⟩
      rw [← hNext] at hRunning ⊢
      exact (hPoll hRunning).beginTurn hRequest hRunning
  | leave position waiter =>
      rw [LongPoll.step, Option.bind_eq_some_iff] at hNext
      rcases hNext with ⟨request, hRequest, hNext⟩
      have hUp : poll.shuttingDown = false := by
        rw [← hRunning]
        exact (shuttingDown_leaveSelect hNext).symm
      exact (hPoll hUp).leaveSelect hRequest hAction hNext
  | push fault payload priority =>
      have hLength :=
        poll.engine.length_ready_push fault payload priority
      simp only [LongPoll.step] at hNext
      split at hNext
      · next hOk =>
          rw [Option.some.injEq] at hNext
          rw [← hNext] at hRunning ⊢
          rw [hOk] at hLength
          exact (hPoll hRunning).enqueued hLength true
      · next hError =>
          rw [Option.some.injEq] at hNext
          rw [← hNext] at hRunning ⊢
          rw [hError] at hLength
          refine (hPoll hRunning).of_counts rfl
            (Nat.le_refl _) (Nat.le_refl _) ?_
          rw [ready, hLength]
          exact Nat.le_refl _
  | ack fault id consumerId =>
      rw [LongPoll.step, Option.some.injEq] at hNext
      rw [← hNext] at hRunning ⊢
      exact (hPoll hRunning).of_engine
        (Engine.readyQueue_ack fault id consumerId)
  | nack fault id consumerId =>
      rw [LongPoll.step, Option.some.injEq] at hNext
      rw [← hNext] at hRunning ⊢
      exact (hPoll hRunning).enqueued
        (Engine.length_ready_nack fault id consumerId) _
  | expire tasks =>
      rw [LongPoll.step, Option.some.injEq] at hNext
      rw [← hNext] at hRunning ⊢
      exact (hPoll hRunning).enqueued
        (Engine.length_ready_processExpired tasks) false
  | callback position waiter =>
      simp only [LongPoll.step] at hNext
      split at hNext
      · next hProducer =>
          have hUp : poll.shuttingDown = false :=
            (counts_notifyOne hNext).2.2.2.1.symm.trans
              hRunning
          exact (hPoll hUp).callback hAction hProducer hNext
      · simp at hNext
  | notifyHandler position waiter =>
      simp only [LongPoll.step] at hNext
      split at hNext
      · next hProducer =>
          have hUp : poll.shuttingDown = false :=
            (counts_notifyOne hNext).2.2.2.1.symm.trans
              hRunning
          exact ((hPoll hUp).setHandler hProducer
            false).notifyOne hNext
      · simp at hNext
  | dropHandler position =>
      simp only [LongPoll.step] at hNext
      split at hNext
      · next hProducer =>
          rw [Option.some.injEq] at hNext
          rw [← hNext] at hRunning ⊢
          exact (hPoll hRunning).setHandler hProducer false
      · simp at hNext
  | compact =>
      rw [LongPoll.step, Option.some.injEq] at hNext
      rw [← hNext] at hRunning ⊢
      exact (hPoll hRunning).of_engine
        Engine.readyQueue_compact
  | tick =>
      rw [LongPoll.step, Option.some.injEq] at hNext
      rw [← hNext] at hRunning ⊢
      exact (hPoll hRunning).tick
  | shutdown =>
      rw [LongPoll.step, Option.some.injEq] at hNext
      rw [← hNext] at hRunning
      simp at hRunning

/- Covered tasks are not overlooked. -/
theorem Guarded.lostWakeup_eq_false
    {poll : LongPoll}
    (hPoll : poll.Guarded) :
    poll.lostWakeup = false := by
  by_contra hLost
  rw [Bool.not_eq_false] at hLost
  rcases of_decide_eq_true hLost with
    ⟨hRunning, hParked, hTasks, hNothing⟩
  have hFlight := of_decide_eq_false hNothing
  rw [not_or, not_or, List.any_eq_true, List.any_eq_true]
    at hFlight
  rcases hFlight with ⟨hPermit, hBusy, hNotifying⟩
  rcases List.any_eq_true.mp hParked with
    ⟨request, hRequest, hWaits⟩
  have hWaiters : 0 < poll.waiters :=
    List.countP_pos_iff.mpr
      ⟨request, hRequest, (of_decide_eq_true hWaits).1⟩
  have hPermits : poll.permits = 0 := by
    simp [permits, hPermit]
  have hTries : poll.tries = 0 := by
    rw [tries, List.countP_eq_zero]
    intro request hRequest hTrying
    apply hBusy
    refine ⟨request, hRequest, ?_⟩
    rw [PollRequest.busy, decide_eq_true_eq]
    rcases of_decide_eq_true hTrying with hPop | hWoken
    · exact .inl hPop
    · exact .inr (.inr hWoken)
  have hCallbacks : poll.callbacks = 0 := by
    rw [callbacks, List.sum_eq_zero_iff]
    intro count hCount
    rcases List.mem_map.mp hCount with
      ⟨producer, hProducer, rfl⟩
    by_contra hSome
    apply hNotifying
    refine ⟨producer, hProducer, ?_⟩
    rw [Producer.notifying, decide_eq_true_eq]
    exact .inl (Nat.pos_of_ne_zero hSome)
  have hEnough := (hPoll hRunning).enough
  have hReady : poll.ready = 0 := by
    omega
  exact hTasks (List.length_eq_zero_iff.mp hReady)

end LongPoll

/-
  If no notification that is needed finds the permit stored,
  no wake-up is lost.
-/
theorem pollRun_no_lost_wakeup [Hasher]
    {engine : Engine}
    {actions : List PollAction}
    {poll : LongPoll}
    (hRun :
      Transition.Run LongPoll.step
        (fun poll action => action.KeepsWakeup poll)
        (LongPoll.start engine) actions poll) :
    poll.lostWakeup = false := by
  have hGuarded : poll.Guarded := by
    apply hRun.invariant
    · intro _
      constructor
      · intro _
        rfl
      · simp [LongPoll.start, LongPoll.waiters,
          LongPoll.awaits]
    · intro poll next action hPoll hAction hNext
      exact hPoll.step hAction hNext
  exact hGuarded.lostWakeup_eq_false

end Nesso

------------------------------------------------------------
-- Two Consumers and Two Producers
------------------------------------------------------------

namespace Nesso

instance
    (poll : LongPoll)
    (action : PollAction) :
    Decidable (action.KeepsWakeup poll) :=
  match action with
  | .callback .. => inferInstanceAs (Decidable (_ → _))
  | .leave .. => inferInstanceAs (Decidable (_ → _))
  | .request .. => isTrue trivial
  | .pop .. => isTrue trivial
  | .await .. => isTrue trivial
  | .retry .. => isTrue trivial
  | .push .. => isTrue trivial
  | .ack .. => isTrue trivial
  | .nack .. => isTrue trivial
  | .expire .. => isTrue trivial
  | .notifyHandler .. => isTrue trivial
  | .dropHandler .. => isTrue trivial
  | .compact => isTrue trivial
  | .tick => isTrue trivial
  | .shutdown => isTrue trivial

/- A queue in a directory that was just created. -/
def emptyPoll : LongPoll :=
  LongPoll.start (Engine.reopen FileSystem.empty none 4 0).2

/- The second push finds the first request waiting. -/
def wokenConsumers : List PollAction :=
  [.request 30, .request 30,
    .pop 0 none 1 0 10, .pop 1 none 2 0 10,
    .push none [1] 0, .callback 0 0,
    .await 0, .await 1, .push none [2] 0,
    .callback 1 1, .notifyHandler 0 0, .retry 1,
    .notifyHandler 1 0, .pop 0 none 1 0 10]

set_option maxRecDepth 100000 in
theorem pollRun_no_lost_wakeup_wokenConsumers :
    ∃ poll,
      Transition.Run LongPoll.step
          (fun poll action => action.KeepsWakeup poll)
          emptyPoll wokenConsumers poll ∧
        poll.ready = 1 ∧ poll.lostWakeup = false := by
  have hEnd :
      (Transition.execute
        (Transition.checkedStep LongPoll.step
          (fun poll action => action.KeepsWakeup poll))
        wokenConsumers emptyPoll).any
          (fun poll => poll.ready = 1) = true := by
    decide +kernel
  rcases Transition.exists_run_of_checked
    (fun _ _ hAction => of_decide_eq_true hAction) hEnd with
    ⟨poll, hRun, hReady⟩
  exact ⟨poll, hRun, of_decide_eq_true hReady,
    pollRun_no_lost_wakeup hRun⟩

/-
  Four notifications leave one permit: the request that takes
  it pops one of the two tasks, the other request waits.
-/
def coalescedPermits : List PollAction :=
  [.request 30, .request 30,
    .pop 0 none 1 0 10, .pop 1 none 2 0 10,
    .push none [1] 0, .callback 0 0, .notifyHandler 0 0,
    .push none [2] 0, .callback 1 0, .notifyHandler 1 0,
    .await 0, .await 1, .pop 0 none 1 0 10]

set_option maxRecDepth 100000 in
theorem coalesced_permits_lose_wakeup :
    ∃ poll,
      Transition.Run LongPoll.step (fun _ _ => True)
          emptyPoll coalescedPermits poll ∧
        poll.lostWakeup = true := by
  apply Transition.exists_run_of_execute
  · simp
  · decide +kernel

end Nesso
