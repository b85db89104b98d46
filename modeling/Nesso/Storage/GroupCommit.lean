import Nesso.Library.Threads
import Nesso.Library.Transition
import Nesso.Storage.Wal

/-
  Group commit (`storage/group_commit.rs`).

  Callers of `sync` share one mutex and one condition
  variable.  A step of the model is a section between two
  points where a caller takes or releases the mutex, so any
  interleaving of the callers is a list of steps.  Batch
  numbers are natural numbers: no run executes the 2^64
  fsyncs at which the 64-bit counters would overflow.

  Key definitions include:
    * `GroupCommitState`
    * `SyncPhase`
    * `GroupCommit.turn`
    * `GroupCommit.step`
-/

------------------------------------------------------------
-- The Shared State
------------------------------------------------------------

namespace Nesso

/- Times and durations in nanoseconds. -/
structure GroupCommitConfig where
  batchWindow : Nat
  maxBatchSize : Nat
  idleCommitThreshold : Nat

def GroupCommitConfig.default : GroupCommitConfig where
  batchWindow := 2000000
  maxBatchSize := 64
  idleCommitThreshold := 0

structure GroupCommitState where
  collectingBatchId : Nat
  lastSyncedBatchId : Nat
  waitersInCollecting : Nat
  fsyncInProgress : Bool
  batchStartTime : Option Nat
  lastArrivalTime : Option Nat
  lastError : Option ErrorKind
  forceFlush : Bool
deriving DecidableEq

/- What `perform_sync` returns, up to the error's text. -/
abbrev SyncResult :=
  Except ErrorKind Unit

namespace GroupCommitState

def new : GroupCommitState where
  collectingBatchId := 1
  lastSyncedBatchId := 0
  waitersInCollecting := 0
  fsyncInProgress := false
  batchStartTime := none
  lastArrivalTime := none
  lastError := none
  forceFlush := false

/- A caller enters the collecting batch. -/
def arrive
    (state : GroupCommitState)
    (now : Nat) : GroupCommitState :=
  { state with
    waitersInCollecting := state.waitersInCollecting + 1
    batchStartTime :=
      some (state.batchStartTime.getD now)
    lastArrivalTime := some now }

/- `duration_since`, or zero when there is no instant. -/
def elapsed
    (now : Nat)
    (since : Option Nat) : Nat :=
  match since with
  | none => 0
  | some start => now - start

/- Whether the collecting batch is to be closed now. -/
def closes
    (options : GroupCommitConfig)
    (state : GroupCommitState)
    (now : Nat) : Bool :=
  options.maxBatchSize ≤ state.waitersInCollecting ||
    options.batchWindow ≤
      elapsed now state.batchStartTime ||
    options.idleCommitThreshold ≤
      elapsed now state.lastArrivalTime ||
    state.forceFlush

/- Close the batch: its committer starts the fsync. -/
def close (state : GroupCommitState) : GroupCommitState :=
  { state with
    fsyncInProgress := true
    collectingBatchId := state.collectingBatchId + 1
    waitersInCollecting := 0
    batchStartTime := none
    lastArrivalTime := none }

/- Record the outcome of a batch. -/
def finish
    (state : GroupCommitState)
    (batch : Nat)
    (result : SyncResult) : GroupCommitState :=
  { state with
    fsyncInProgress := false
    lastSyncedBatchId := batch
    lastError :=
      match result with
      | .ok () => none
      | .error kind => some kind }

/- What a caller of a synced batch is told. -/
def reported (state : GroupCommitState) : SyncResult :=
  match state.lastError with
  | none => .ok ()
  | some kind => .error kind

end GroupCommitState

end Nesso

------------------------------------------------------------
-- Callers
------------------------------------------------------------

namespace Nesso

/-
  Where a call is: before the force flag is set, before the
  first lock, about to take the lock again, in one of the two
  waits, in the fsync, after it, or done.
-/
inductive SyncPhase where
| forcing
| entering
| awake
| parkedTimed
| parked
| committing
| committed (result : SyncResult)
| returned (result : SyncResult)
deriving DecidableEq

/- A call of `sync` on a file; batch 0 is no batch yet. -/
structure SyncCall (φ : Type) where
  file : φ
  myBatch : Nat
  phase : SyncPhase

/- What happened, for statements about whole runs. -/
inductive CommitEvent where
| joined (call batch : Nat)
| started (batch : Nat)
| completed (batch : Nat) (result : SyncResult)
deriving DecidableEq

structure GroupCommit (φ : Type) where
  state : GroupCommitState
  calls : List (SyncCall φ)
  events : List CommitEvent

/-
  The steps: a new call, the two lock sections before the
  loop, one turn of the loop, the end of a wait by timeout or
  spuriously, the end of the fsync, and the last section.
-/
inductive CommitStep (φ : Type) where
| call (file : φ) (force : Bool)
| forceFlush (position : Nat)
| join (position arrival now : Nat)
| resume (position now : Nat)
| wake (position : Nat)
| fsync (position : Nat) (result : SyncResult)
| finish (position : Nat)

namespace SyncCall

variable {φ : Type}

def enter
    (call : SyncCall φ)
    (phase : SyncPhase) : SyncCall φ :=
  { call with phase := phase }

/- A notified waiter goes for the lock again. -/
def notify (call : SyncCall φ) : SyncCall φ :=
  match call.phase with
  | .parkedTimed | .parked => call.enter .awake
  | _ => call

end SyncCall

namespace GroupCommit

variable {φ : Type}

def new : GroupCommit φ where
  state := .new
  calls := []
  events := []

/- `notify_all`. -/
def notifyAll
    (calls : List (SyncCall φ)) : List (SyncCall φ) :=
  calls.map SyncCall.notify

/- One turn of the loop, with the lock held. -/
def turn
    (options : GroupCommitConfig)
    (group : GroupCommit φ)
    (position : Nat)
    (call : SyncCall φ)
    (now : Nat) : GroupCommit φ :=
  let state := group.state
  if call.myBatch ≤ state.lastSyncedBatchId then
    { group with
      calls :=
        group.calls.set position
          (call.enter (.returned state.reported)) }
  else if
      state.fsyncInProgress = false ∧
        call.myBatch = state.lastSyncedBatchId + 1 then
    if state.closes options now then
      { state := state.close
        calls :=
          group.calls.set position (call.enter .committing)
        events := group.events ++ [.started call.myBatch] }
    else
      { group with
        calls :=
          group.calls.set position (call.enter .parkedTimed) }
  else
    { group with
      calls := group.calls.set position (call.enter .parked) }

/- Enter the collecting batch and wake everybody. -/
def arrive
    (group : GroupCommit φ)
    (position : Nat)
    (call : SyncCall φ)
    (now : Nat) : GroupCommit φ where
  state := group.state.arrive now
  calls :=
    notifyAll
      (group.calls.set position
        { call with
          myBatch := group.state.collectingBatchId
          phase := .awake })
  events :=
    group.events ++
      [.joined position group.state.collectingBatchId]

def step
    (options : GroupCommitConfig)
    (group : GroupCommit φ) :
    CommitStep φ → Option (GroupCommit φ)
| .call file force =>
    some
      { group with
        calls :=
          group.calls ++
            [{ file := file
               myBatch := 0
               phase :=
                if force then .forcing else .entering }] }
| .forceFlush position =>
    match group.calls[position]? with
    | some call =>
        if call.phase = .forcing then
          some
            { group with
              state := { group.state with forceFlush := true }
              calls :=
                notifyAll
                  (group.calls.set position
                    (call.enter .entering)) }
        else none
    | none => none
| .join position arrival now =>
    match group.calls[position]? with
    | some call =>
        if call.phase = .entering then
          -- The first turn follows with the lock still held.
          some
            ((group.arrive position call arrival).turn
              options position
              { call with
                myBatch := group.state.collectingBatchId
                phase := .awake } now)
        else none
    | none => none
| .resume position now =>
    match group.calls[position]? with
    | some call =>
        if call.phase = .awake then
          some (group.turn options position call now)
        else none
    | none => none
| .wake position =>
    match group.calls[position]? with
    | some call =>
        if call.phase = .parkedTimed ∨
            call.phase = .parked then
          some
            { group with
              calls :=
                group.calls.set position (call.enter .awake) }
        else none
    | none => none
| .fsync position result =>
    match group.calls[position]? with
    | some call =>
        if call.phase = .committing then
          some
            { group with
              calls :=
                group.calls.set position
                  (call.enter (.committed result))
              events :=
                group.events ++
                  [.completed call.myBatch result] }
        else none
    | none => none
| .finish position =>
    match group.calls[position]? with
    | some call =>
        match call.phase with
        | .committed result =>
            some
              { group with
                state :=
                  group.state.finish call.myBatch result
                calls :=
                  notifyAll
                    (group.calls.set position
                      (call.enter (.returned result))) }
        | _ => none
    | none => none

end GroupCommit

end Nesso
