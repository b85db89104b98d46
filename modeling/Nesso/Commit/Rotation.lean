import Nesso.Commit.Protocol
import Nesso.Recovery.FailedCalls
import Nesso.Storage.Checksum

/-
  Confirmations across rotations (`Engine::sync`).

  A client appends its record, takes the handle of the file
  that is active then, and joins a batch; the committer of
  the batch fsyncs its own handle only.  A rotation fsyncs
  the file that it closes.  The clock counts steps.

  Key definitions include:
    * `CommitSystem`
    * `CommitAction`
    * `CommitSystem.step`
    * `CommitSystem.Durable`
    * `CommitSystem.Confirmed`
    * `CommitAction.CoversBatch`
    * `CommitSystem.Tracked`

  The main theorems are:
    * `CommitSystem.Tracked.step`
    * `commitRun_confirmed`
    * `rotated_batch_confirms_unsynced_record`
-/

------------------------------------------------------------
-- Clients, Files and Batches
------------------------------------------------------------

namespace Nesso

instance
    (engine : Engine)
    (call : EngineCall) :
    Decidable (call.Appends engine) :=
  match call with
  | .push _ _ => isTrue trivial
  | .popAndLease _ _ _ =>
      inferInstanceAs (Decidable (_ ≠ none))
  | .ack id consumerId | .nack id consumerId =>
      decidable_of_iff
        (engine.inner.leased[id]?.any
          (fun lease => lease.consumerId = consumerId) = true)
        (by simp [EngineCall.Appends, Option.any_eq_true])

/- A client's record: its file, and when it was written. -/
structure Written where
  file : Nat
  time : Nat
deriving DecidableEq

/- The handle that `Engine::sync` captured, and for whom. -/
structure SyncTicket where
  file : Nat
  record : Option Written
deriving DecidableEq

/- An fsync that has completed, and when it was started. -/
structure Fsync where
  file : Nat
  started : Nat
deriving DecidableEq

structure CommitSystem where
  engine : Engine
  group : GroupCommit SyncTicket
  written : List Written
  fsyncs : List Fsync
  fsyncStart : Nat
  clock : Nat

/-
  A client's call, one turn of the expiration worker, the
  lock section of `Engine::sync` or, with `force`, of
  `force_flush_group_commit`, and the steps inside a commit.
  A caller of `sync` is known by the record that it wrote.
-/
inductive CommitAction where
| call (fault : Option AppendFault) (call : EngineCall)
| expire (fault : Option AppendFault) (task : ExpiredTask)
| sync (record : Option Nat) (force : Bool)
| commit (step : CommitStep SyncTicket)

namespace CommitSystem

def start (engine : Engine) : CommitSystem where
  engine := engine
  group := .new
  written := []
  fsyncs := []
  fsyncStart := 0
  clock := 0

/- The fsync of a rotation, which counts the segment up. -/
def rotationSync
    (system : CommitSystem)
    (next : Engine) : List Fsync :=
  if next.inner.wal.activeSegmentId =
      system.engine.inner.wal.activeSegmentId then
    []
  else
    [⟨system.engine.inner.wal.activeFile, system.clock⟩]

/- A call under the engine lock. -/
def advance
    (system : CommitSystem)
    (next : Engine)
    (record : List Written) : CommitSystem :=
  { system with
    engine := next
    written := system.written ++ record
    fsyncs := system.fsyncs ++ system.rotationSync next
    clock := system.clock + 1 }

/- The fsync that a step of a commit completes. -/
def completedSync
    (system : CommitSystem) :
    CommitStep SyncTicket → List Fsync
| .fsync position (.ok ()) =>
    match system.group.calls[position]? with
    | some call => [⟨call.file.file, system.fsyncStart⟩]
    | none => []
| _ => []

/- A batch that is closed starts its fsync. -/
def commitStep
    (system : CommitSystem)
    (step : CommitStep SyncTicket)
    (group : GroupCommit SyncTicket) : CommitSystem :=
  { system with
    group := group
    fsyncs := system.fsyncs ++ system.completedSync step
    fsyncStart :=
      if group.state.collectingBatchId =
          system.group.state.collectingBatchId then
        system.fsyncStart
      else
        system.clock
    clock := system.clock + 1 }

/- The records of a client that names one. -/
def ticketRecord
    (system : CommitSystem) :
    Option Nat → Option (Option Written)
| none => some none
| some position => (system.written[position]?).map some

variable [Hasher]

def step
    (options : GroupCommitConfig)
    (system : CommitSystem) :
    CommitAction → Option CommitSystem
| .call fault call =>
    let out := call.run fault system.engine
    -- The record is in the file that is active afterwards.
    let record : List Written :=
      if call.Appends system.engine ∧
          out.1.toOption.isSome then
        [⟨out.2.inner.wal.activeFile, system.clock⟩]
      else
        []
    some (system.advance out.2 record)
| .expire fault task =>
    some
      (system.advance (system.engine.expireTask fault task)
        [])
| .sync record force =>
    match system.ticketRecord record with
    | none => none
    | some record =>
        let step : CommitStep SyncTicket :=
          .call
            ⟨system.engine.inner.wal.activeFile, record⟩
            force
        (system.group.step options step).map
          (system.commitStep step)
| .commit step =>
    match step with
    | .call _ _ => none
    | step =>
        (system.group.step options step).map
          (system.commitStep step)

end CommitSystem

end Nesso

------------------------------------------------------------
-- Confirmed Records
------------------------------------------------------------

namespace Nesso

namespace CommitSystem

/- An fsync of the record's file that came after it. -/
def Durable
    (system : CommitSystem)
    (record : Written) : Prop :=
  ∃ fsync ∈ system.fsyncs,
    fsync.file = record.file ∧ record.time < fsync.started

/- Every record whose client was told Ok is durable. -/
def Confirmed (system : CommitSystem) : Prop :=
  ∀ call ∈ system.group.calls,
    call.phase = .returned (.ok ()) →
      ∀ record, call.file.record = some record →
        system.Durable record

end CommitSystem

namespace CommitAction

/- Every fsync succeeds. -/
def FsyncSucceeds : CommitAction → Prop
| .call fault _ | .expire fault _ =>
    fault ≠ some .rotateSync
| .commit (.fsync _ result) => result = .ok ()
| _ => True

/-
  When a committer publishes its batch, no record of the
  batch lies in the file that is still active while the
  committer has synced another one.
-/
def CoversBatch
    (system : CommitSystem) : CommitAction → Prop
| .commit (.finish position) =>
    ∀ committer, system.group.calls[position]? =
        some committer →
      ∀ call ∈ system.group.calls,
        call.myBatch = committer.myBatch →
          ∀ record, call.file.record = some record →
            record.file =
                system.engine.inner.wal.activeFile →
              committer.file.file = record.file
| _ => True

end CommitAction

end Nesso

------------------------------------------------------------
-- Records and Files
------------------------------------------------------------

namespace Nesso

namespace Engine

variable [Hasher]
variable {engine next : Engine}

/- The active file changes by a rotation only. -/
theorem AppendsTo.activeFile_eq
    (hAppends : engine.AppendsTo next)
    (hSegment :
      next.inner.wal.activeSegmentId =
        engine.inner.wal.activeSegmentId) :
    next.inner.wal.activeFile =
      engine.inner.wal.activeFile := by
  rcases hAppends with ⟨_, hWal⟩ | ⟨fault, record, hAppend⟩
  · rw [hWal]
  · have hWal := congrArg Prod.snd hAppend
    dsimp only at hWal
    rw [hWal] at hSegment ⊢
    unfold Wal.append Wal.rotateIfFull Wal.rotate
      Wal.writeFrame at hSegment ⊢
    grind

theorem appendsTo_run
    (engine : Engine)
    (fault : Option AppendFault)
    (call : EngineCall) :
    engine.AppendsTo (call.run fault engine).2 := by
  cases call with
  | push payload priority =>
      exact engine.appendsTo_push fault payload priority
  | popAndLease consumerId now leaseTtlSecs =>
      exact engine.appendsTo_popAndLease fault consumerId now
        leaseTtlSecs
  | ack id consumerId =>
      exact engine.appendsTo_ack fault id consumerId
  | nack id consumerId =>
      exact engine.appendsTo_nack fault id consumerId

end Engine

end Nesso

------------------------------------------------------------
-- Calls within Their Batches
------------------------------------------------------------

namespace Nesso

/-
  What a call was: it keeps its ticket, and its batch unless
  it enters the collecting one, and has completed no fsync.
-/
structure SyncCall.Follows {φ : Type}
    (collecting : Nat)
    (old call : SyncCall φ) : Prop where
  file_eq : call.file = old.file
  batch :
    call.myBatch = old.myBatch ∨ call.myBatch = collecting
  committed :
    ∀ result,
      call.phase = .committed result →
        old.phase = .committed result

namespace SyncCall

variable {φ : Type}

theorem file_notify (call : SyncCall φ) :
    call.notify.file = call.file := by
  unfold notify
  split <;> rfl

theorem committed_of_notify
    {call : SyncCall φ}
    {result : SyncResult}
    (hPhase : call.notify.phase = .committed result) :
    call.phase = .committed result := by
  unfold notify at hPhase
  split at hPhase
  · simp at hPhase
  · simp at hPhase
  · exact hPhase

end SyncCall

namespace GroupCommit

variable {φ : Type} {group : GroupCommit φ}

/- Every call after a step was there before. -/
def Follows (group next : GroupCommit φ) : Prop :=
  ∀ call ∈ next.calls,
    ∃ old ∈ group.calls,
      SyncCall.Follows group.state.collectingBatchId old call

theorem follows_refl
    (call : SyncCall φ)
    (collecting : Nat) :
    SyncCall.Follows collecting call call :=
  ⟨rfl, .inl rfl, fun _ hPhase => hPhase⟩

theorem follows_set
    {position : Nat}
    {old new : SyncCall φ}
    (hOld : group.calls[position]? = some old)
    {next : GroupCommit φ}
    (hCalls : next.calls = group.calls.set position new)
    (hNew :
      SyncCall.Follows group.state.collectingBatchId old
        new) :
    group.Follows next := by
  intro call hCall
  rw [hCalls] at hCall
  rcases Threads.mem_set_cases hCall with hEq | hMem
  · rw [hEq]
    exact ⟨old, List.mem_of_getElem? hOld, hNew⟩
  · exact ⟨call, hMem, follows_refl call _⟩

theorem Follows.notifyAll
    {middle next : GroupCommit φ}
    (hFollows : group.Follows middle)
    (hCalls :
      next.calls = GroupCommit.notifyAll middle.calls) :
    group.Follows next := by
  intro call hCall
  rw [hCalls] at hCall
  rcases List.mem_map.mp hCall with ⟨found, hFound, hEq⟩
  rcases hFollows found hFound with ⟨old, hOld, hSame⟩
  refine ⟨old, hOld, ?_⟩
  rw [← hEq]
  refine ⟨?_, ?_, ?_⟩
  · rw [SyncCall.file_notify]
    exact hSame.file_eq
  · rw [SyncCall.myBatch_notify]
    exact hSame.batch
  · intro result hPhase
    exact hSame.committed result
      (SyncCall.committed_of_notify hPhase)

theorem Follows.trans
    {middle next : GroupCommit φ}
    (hFirst : group.Follows middle)
    (hCollecting :
      middle.state.collectingBatchId =
        group.state.collectingBatchId)
    (hSecond : middle.Follows next) :
    group.Follows next := by
  intro call hCall
  rcases hSecond call hCall with ⟨found, hFound, hLater⟩
  rcases hFirst found hFound with ⟨old, hOld, hEarlier⟩
  refine ⟨old, hOld, hLater.file_eq.trans hEarlier.file_eq,
    ?_, ?_⟩
  · rcases hLater.batch with hSame | hEntered
    · rw [hSame]
      exact hEarlier.batch
    · exact .inr (hEntered.trans hCollecting)
  · intro result hPhase
    exact hEarlier.committed result
      (hLater.committed result hPhase)

/- A turn of the loop changes one call's phase. -/
theorem follows_turn
    (options : GroupCommitConfig)
    {position : Nat}
    {call : SyncCall φ}
    (hCall : group.calls[position]? = some call)
    (now : Nat) :
    group.Follows (group.turn options position call now) := by
  unfold turn
  dsimp only
  split
  · exact follows_set hCall rfl ⟨rfl, .inl rfl, by simp⟩
  · split
    · split
      · exact follows_set hCall rfl ⟨rfl, .inl rfl, by simp⟩
      · exact follows_set hCall rfl ⟨rfl, .inl rfl, by simp⟩
    · exact follows_set hCall rfl ⟨rfl, .inl rfl, by simp⟩

theorem follows_arrive
    {position : Nat}
    {call : SyncCall φ}
    (hCall : group.calls[position]? = some call)
    (now : Nat) :
    group.Follows (group.arrive position call now) := by
  have hEntered :
      group.Follows
        { group with
          calls :=
            group.calls.set position
              { call with
                myBatch := group.state.collectingBatchId
                phase := .awake } } :=
    follows_set hCall rfl ⟨rfl, .inr rfl, by simp⟩
  exact hEntered.notifyAll rfl

/- A turn closes the collecting batch or keeps the state. -/
theorem state_turn
    (group : GroupCommit φ)
    (options : GroupCommitConfig)
    (position : Nat)
    (call : SyncCall φ)
    (now : Nat) :
    (group.turn options position call now).state =
        group.state ∨
      group.state.fsyncInProgress = false ∧
        (group.turn options position call now).state =
          group.state.close := by
  unfold turn
  dsimp only
  split
  · exact .inl rfl
  · split
    · next hTurn =>
        split
        · exact .inr ⟨hTurn.1, rfl⟩
        · exact .inl rfl
    · exact .inl rfl

end GroupCommit

end Nesso

------------------------------------------------------------
-- The Invariant
------------------------------------------------------------

namespace Nesso

namespace CommitSystem

/-
  A record lies in the active file or is durable; the records
  of the batch in its fsync were written before that fsync;
  the records of earlier batches are durable.
-/
structure Tracked (system : CommitSystem) : Prop where
  group : system.group.Consistent
  written :
    ∀ record ∈ system.written,
      record.time < system.clock ∧
        (record.file =
            system.engine.inner.wal.activeFile ∨
          system.Durable record)
  tickets :
    ∀ call ∈ system.group.calls,
      ∀ record, call.file.record = some record →
        record ∈ system.written
  running :
    system.group.state.fsyncInProgress = true →
      ∀ call ∈ system.group.calls,
        call.myBatch =
            system.group.state.lastSyncedBatchId + 1 →
          ∀ record, call.file.record = some record →
            record.time < system.fsyncStart
  completed :
    ∀ call ∈ system.group.calls,
      ∀ result, call.phase = .committed result →
        ⟨call.file.file, system.fsyncStart⟩ ∈
          system.fsyncs
  synced :
    ∀ call ∈ system.group.calls,
      1 ≤ call.myBatch →
        call.myBatch ≤
            system.group.state.lastSyncedBatchId →
          ∀ record, call.file.record = some record →
            system.Durable record

variable {system next : CommitSystem}

theorem Durable.of_subset
    {record : Written}
    (hDurable : system.Durable record)
    (hFsyncs : system.fsyncs ⊆ next.fsyncs) :
    next.Durable record := by
  rcases hDurable with ⟨fsync, hFsync, hFile, hTime⟩
  exact ⟨fsync, hFsyncs hFsync, hFile, hTime⟩

theorem Tracked.start
    (engine : Engine) :
    (CommitSystem.start engine).Tracked := by
  constructor
  · exact GroupCommit.Consistent.new
  · simp [CommitSystem.start]
  · simp [CommitSystem.start, GroupCommit.new]
  · simp [CommitSystem.start, GroupCommit.new]
  · simp [CommitSystem.start, GroupCommit.new]
  · simp [CommitSystem.start, GroupCommit.new]

/- A call under the engine lock, with any rotation. -/
theorem Tracked.advance [Hasher]
    (hSystem : system.Tracked)
    {engine : Engine}
    (hAppends : system.engine.AppendsTo engine)
    {records : List Written}
    (hRecords :
      ∀ record ∈ records,
        record =
          ⟨engine.inner.wal.activeFile, system.clock⟩) :
    (system.advance engine records).Tracked := by
  have hFsyncs :
      system.fsyncs ⊆
        (system.advance engine records).fsyncs :=
    List.subset_append_left _ _
  constructor
  · exact hSystem.group
  · intro record hRecord
    rcases List.mem_append.mp hRecord with hOld | hNew
    · rcases hSystem.written record hOld with
        ⟨hTime, hActive | hDurable⟩
      · refine ⟨Nat.lt_succ_of_lt hTime, ?_⟩
        by_cases hSegment :
            engine.inner.wal.activeSegmentId =
              system.engine.inner.wal.activeSegmentId
        · exact .inl (hActive.trans
            (hAppends.activeFile_eq hSegment).symm)
        · -- The rotation synced the file after the write.
          refine .inr ⟨⟨system.engine.inner.wal.activeFile,
            system.clock⟩, ?_, hActive.symm, hTime⟩
          simp [CommitSystem.advance, rotationSync, hSegment]
      · exact ⟨Nat.lt_succ_of_lt hTime,
          .inr (hDurable.of_subset hFsyncs)⟩
    · rw [hRecords record hNew]
      exact ⟨Nat.lt_succ_self _, .inl rfl⟩
  · intro call hCall record hRecord
    exact List.mem_append_left _
      (hSystem.tickets call hCall record hRecord)
  · exact hSystem.running
  · intro call hCall result hPhase
    exact hFsyncs (hSystem.completed call hCall result hPhase)
  · intro call hCall hOne hLe record hRecord
    exact (hSystem.synced call hCall hOne hLe record
      hRecord).of_subset hFsyncs

/- What steps of a commit leave of the records. -/
theorem Tracked.written_commitStep
    (hSystem : system.Tracked)
    (step : CommitStep SyncTicket)
    (group : GroupCommit SyncTicket) :
    ∀ record ∈ (system.commitStep step group).written,
      record.time < (system.commitStep step group).clock ∧
        (record.file =
            (system.commitStep step
              group).engine.inner.wal.activeFile ∨
          (system.commitStep step group).Durable record) := by
  intro record hRecord
  rcases hSystem.written record hRecord with
    ⟨hTime, hActive | hDurable⟩
  · exact ⟨Nat.lt_succ_of_lt hTime, .inl hActive⟩
  · exact ⟨Nat.lt_succ_of_lt hTime,
      .inr (hDurable.of_subset
        (List.subset_append_left _ _))⟩

theorem Tracked.tickets_follow
    (hSystem : system.Tracked)
    {group : GroupCommit SyncTicket}
    (hCalls : system.group.Follows group) :
    ∀ call ∈ group.calls,
      ∀ record, call.file.record = some record →
        record ∈ system.written := by
  intro call hCall record hRecord
  rcases hCalls call hCall with ⟨old, hOld, hFollows⟩
  rw [hFollows.file_eq] at hRecord
  exact hSystem.tickets old hOld record hRecord

/- No batch is synced anew. -/
theorem Tracked.synced_follow
    (hSystem : system.Tracked)
    {step : CommitStep SyncTicket}
    {group : GroupCommit SyncTicket}
    (hCalls : system.group.Follows group)
    (hSynced :
      group.state.lastSyncedBatchId =
        system.group.state.lastSyncedBatchId) :
    ∀ call ∈ group.calls,
      1 ≤ call.myBatch →
        call.myBatch ≤ group.state.lastSyncedBatchId →
          ∀ record, call.file.record = some record →
            (system.commitStep step group).Durable
              record := by
  intro call hCall hOne hLe record hRecord
  rcases hCalls call hCall with ⟨old, hOld, hFollows⟩
  rw [hFollows.file_eq] at hRecord
  have hSameBatch := hFollows.batch
  have hBatches := hSystem.group.collecting_eq
  have hBatch : call.myBatch = old.myBatch := by
    omega
  rw [hBatch] at hOne hLe
  rw [hSynced] at hLe
  exact (hSystem.synced old hOld hOne hLe record
    hRecord).of_subset (List.subset_append_left _ _)

/-
  Steps that move calls on within their batch, complete no
  fsync and start none.
-/
theorem Tracked.of_follows
    (hSystem : system.Tracked)
    {step : CommitStep SyncTicket}
    {group : GroupCommit SyncTicket}
    (hGroup : group.Consistent)
    (hCollecting :
      group.state.collectingBatchId =
        system.group.state.collectingBatchId)
    (hSynced :
      group.state.lastSyncedBatchId =
        system.group.state.lastSyncedBatchId)
    (hCalls : system.group.Follows group) :
    (system.commitStep step group).Tracked := by
  have hFsyncs :
      system.fsyncs ⊆
        (system.commitStep step group).fsyncs :=
    List.subset_append_left _ _
  have hSame :
      (system.commitStep step group).fsyncStart =
        system.fsyncStart := by
    simp [CommitSystem.commitStep, hCollecting]
  have hBatches := hGroup.collecting_eq
  have hOldBatches := hSystem.group.collecting_eq
  constructor
  · exact hGroup
  · exact hSystem.written_commitStep step group
  · exact hSystem.tickets_follow hCalls
  · intro hProgress call hCall hBatch record hRecord
    rcases hCalls call hCall with ⟨old, hOld, hFollows⟩
    rw [hFollows.file_eq] at hRecord
    have hSameBatch := hFollows.batch
    simp only [CommitSystem.commitStep] at hProgress hBatch
    rw [if_pos hProgress] at hBatches
    rw [hSame]
    refine hSystem.running ?_ old hOld ?_ record hRecord
    · by_contra hIdle
      rw [if_neg hIdle] at hOldBatches
      omega
    · omega
  · intro call hCall result hPhase
    rcases hCalls call hCall with ⟨old, hOld, hFollows⟩
    rw [hSame, hFollows.file_eq]
    exact hFsyncs (hSystem.completed old hOld result
      (hFollows.committed result hPhase))
  · exact hSystem.synced_follow hCalls hSynced

/- The collecting batch is closed; its fsync starts. -/
theorem Tracked.of_close
    (hSystem : system.Tracked)
    {step : CommitStep SyncTicket}
    {group : GroupCommit SyncTicket}
    (hGroup : group.Consistent)
    (hIdle : system.group.state.fsyncInProgress = false)
    (hCollecting :
      group.state.collectingBatchId =
        system.group.state.collectingBatchId + 1)
    (hSynced :
      group.state.lastSyncedBatchId =
        system.group.state.lastSyncedBatchId)
    (hCalls : system.group.Follows group) :
    (system.commitStep step group).Tracked := by
  have hStart :
      (system.commitStep step group).fsyncStart =
        system.clock := by
    simp [CommitSystem.commitStep, hCollecting]
  constructor
  · exact hGroup
  · exact hSystem.written_commitStep step group
  · exact hSystem.tickets_follow hCalls
  · intro _ call hCall _ record hRecord
    rw [hStart]
    exact (hSystem.written record
      (hSystem.tickets_follow hCalls call hCall record
        hRecord)).1
  · intro call hCall result hPhase
    rcases hCalls call hCall with ⟨old, hOld, hFollows⟩
    have hOldPhase := hFollows.committed result hPhase
    have hNone := hSystem.group.committers
    rw [hIdle, if_neg (by simp), List.countP_eq_zero] at hNone
    apply (hNone old hOld _).elim
    simp [hOldPhase, SyncPhase.isCommitting]
  · exact hSystem.synced_follow hCalls hSynced

/- One turn of the loop, by a call that may have arrived. -/
theorem Tracked.of_turn
    (hSystem : system.Tracked)
    {step : CommitStep SyncTicket}
    {group next : GroupCommit SyncTicket}
    (hNext : next.Consistent)
    (hState :
      group.state.collectingBatchId =
          system.group.state.collectingBatchId ∧
        group.state.lastSyncedBatchId =
          system.group.state.lastSyncedBatchId ∧
        group.state.fsyncInProgress =
          system.group.state.fsyncInProgress)
    (hTurn :
      next.state = group.state ∨
        group.state.fsyncInProgress = false ∧
          next.state = group.state.close)
    (hCalls : system.group.Follows next) :
    (system.commitStep step next).Tracked := by
  rcases hState with ⟨hCollecting, hSynced, hProgress⟩
  rcases hTurn with hSame | ⟨hIdle, hClose⟩
  · rw [← hSame] at hCollecting hSynced
    exact hSystem.of_follows hNext hCollecting hSynced hCalls
  · apply hSystem.of_close hNext _ _ _ hCalls
    · exact hProgress.symm.trans hIdle
    · rw [hClose]
      exact congrArg (· + 1) hCollecting
    · rw [hClose]
      exact hSynced

/- A caller of `Engine::sync`, about to join a batch. -/
theorem Tracked.newCall
    (hSystem : system.Tracked)
    {options : GroupCommitConfig}
    {file : Nat}
    {record : Option Written}
    {force : Bool}
    (hRecord :
      ∀ found, record = some found → found ∈ system.written)
    {group : GroupCommit SyncTicket}
    (hGroup :
      system.group.step options (.call ⟨file, record⟩ force) =
        some group) :
    (system.commitStep (.call ⟨file, record⟩ force)
      group).Tracked := by
  have hConsistent := hSystem.group.step hGroup
  have hFsyncs :
      (system.commitStep (.call ⟨file, record⟩ force)
        group).fsyncs = system.fsyncs := by
    simp [CommitSystem.commitStep, completedSync]
  simp only [GroupCommit.step, Option.some.injEq] at hGroup
  have hCalls :
      ∀ call ∈ group.calls,
        call ∈ system.group.calls ∨
          call.file = ⟨file, record⟩ ∧ call.myBatch = 0 ∧
            ∀ result, call.phase ≠ .committed result := by
    intro call hCall
    rw [← hGroup] at hCall
    rcases List.mem_append.mp hCall with hOld | hNew
    · exact .inl hOld
    · rw [List.mem_singleton.mp hNew]
      refine .inr ⟨rfl, rfl, ?_⟩
      intro result
      cases force <;> simp
  have hState : group.state = system.group.state := by
    rw [← hGroup]
  have hStart :
      (system.commitStep (.call ⟨file, record⟩ force)
        group).fsyncStart = system.fsyncStart := by
    simp [CommitSystem.commitStep, hState]
  constructor
  · exact hConsistent
  · exact hSystem.written_commitStep _ group
  · intro call hCall found hFound
    rcases hCalls call hCall with hOld | ⟨hFile, _⟩
    · exact hSystem.tickets call hOld found hFound
    · rw [hFile] at hFound
      exact hRecord found hFound
  · intro hProgress call hCall hBatch found hFound
    simp only [CommitSystem.commitStep, hState]
      at hProgress hBatch
    rw [hStart]
    rcases hCalls call hCall with hOld | ⟨_, hZero, _⟩
    · exact hSystem.running hProgress call hOld hBatch found
        hFound
    · omega
  · intro call hCall result hPhase
    rw [hStart, hFsyncs]
    rcases hCalls call hCall with hOld | ⟨_, _, hNot⟩
    · exact hSystem.completed call hOld result hPhase
    · exact (hNot result hPhase).elim
  · intro call hCall hOne hLe found hFound
    simp only [CommitSystem.commitStep, hState] at hLe
    rcases hCalls call hCall with hOld | ⟨_, hZero, _⟩
    · exact (hSystem.synced call hOld hOne hLe found
        hFound).of_subset (List.subset_append_left _ _)
    · omega

/- The fsync of a batch completes. -/
theorem Tracked.fsync
    (hSystem : system.Tracked)
    {position : Nat}
    {committer : SyncCall SyncTicket}
    (hCommitter :
      system.group.calls[position]? = some committer)
    {group : GroupCommit SyncTicket}
    (hConsistent : group.Consistent)
    (hGroup :
      group =
        { system.group with
          calls :=
            system.group.calls.set position
              (committer.enter (.committed (.ok ())))
          events :=
            system.group.events ++
              [.completed committer.myBatch (.ok ())] }) :
    (system.commitStep (.fsync position (.ok ()))
      group).Tracked := by
  have hState : group.state = system.group.state := by
    rw [hGroup]
  have hStart :
      (system.commitStep (.fsync position (.ok ()))
        group).fsyncStart = system.fsyncStart := by
    simp [CommitSystem.commitStep, hState]
  have hFsyncs :
      (system.commitStep (.fsync position (.ok ()))
        group).fsyncs =
        system.fsyncs ++
          [⟨committer.file.file, system.fsyncStart⟩] := by
    simp [CommitSystem.commitStep, completedSync,
      hCommitter]
  have hCalls :
      ∀ call ∈ group.calls,
        call = committer.enter (.committed (.ok ())) ∨
          call ∈ system.group.calls := by
    intro call hCall
    rw [hGroup] at hCall
    exact Threads.mem_set_cases hCall
  have hMem := List.mem_of_getElem? hCommitter
  constructor
  · exact hConsistent
  · exact hSystem.written_commitStep _ group
  · intro call hCall record hRecord
    rcases hCalls call hCall with hNew | hOld
    · rw [hNew] at hRecord
      exact hSystem.tickets committer hMem record hRecord
    · exact hSystem.tickets call hOld record hRecord
  · intro hProgress call hCall hBatch record hRecord
    simp only [CommitSystem.commitStep, hState]
      at hProgress hBatch
    rw [hStart]
    rcases hCalls call hCall with hNew | hOld
    · rw [hNew] at hBatch hRecord
      exact hSystem.running hProgress committer hMem hBatch
        record hRecord
    · exact hSystem.running hProgress call hOld hBatch
        record hRecord
  · intro call hCall result hPhase
    rw [hStart, hFsyncs]
    rcases hCalls call hCall with hNew | hOld
    · rw [hNew]
      simp [SyncCall.enter]
    · exact List.mem_append_left _
        (hSystem.completed call hOld result hPhase)
  · intro call hCall hOne hLe record hRecord
    simp only [CommitSystem.commitStep, hState] at hLe
    rcases hCalls call hCall with hNew | hOld
    · rw [hNew] at hOne hLe hRecord
      exact (hSystem.synced committer hMem hOne hLe record
        hRecord).of_subset (List.subset_append_left _ _)
    · exact (hSystem.synced call hOld hOne hLe record
        hRecord).of_subset (List.subset_append_left _ _)

/- The records of a batch that is about to be published. -/
theorem Tracked.durable_of_committed
    (hSystem : system.Tracked)
    {position : Nat}
    (hCovers :
      (CommitAction.commit (.finish position)).CoversBatch
        system)
    {committer call : SyncCall SyncTicket}
    (hCommitter :
      system.group.calls[position]? = some committer)
    {result : SyncResult}
    (hCommitted : committer.phase = .committed result)
    (hCall : call ∈ system.group.calls)
    (hBatch : call.myBatch = committer.myBatch)
    {record : Written}
    (hRecord : call.file.record = some record) :
    system.Durable record := by
  have hMem := List.mem_of_getElem? hCommitter
  have hWritten := hSystem.tickets call hCall record hRecord
  have hValid := hSystem.group.valid committer hMem
  simp only [SyncCall.Valid, hCommitted] at hValid
  rcases (hSystem.written record hWritten).2 with
    hActive | hDurable
  · have hFile :=
      hCovers committer hCommitter call hCall hBatch record
        hRecord hActive
    refine ⟨⟨committer.file.file, system.fsyncStart⟩,
      hSystem.completed committer hMem result hCommitted,
      hFile, ?_⟩
    exact hSystem.running hValid.2 call hCall
      (hBatch.trans hValid.1) record hRecord
  · exact hDurable

/- The committer publishes its batch. -/
theorem Tracked.finish
    (hSystem : system.Tracked)
    {position : Nat}
    (hCovers :
      (CommitAction.commit (.finish position)).CoversBatch
        system)
    {committer : SyncCall SyncTicket}
    (hCommitter :
      system.group.calls[position]? = some committer)
    {result : SyncResult}
    (hCommitted : committer.phase = .committed result)
    {group : GroupCommit SyncTicket}
    (hConsistent : group.Consistent)
    (hGroup :
      group =
        { system.group with
          state :=
            system.group.state.finish committer.myBatch
              result
          calls :=
            GroupCommit.notifyAll
              (system.group.calls.set position
                (committer.enter (.returned result))) }) :
    (system.commitStep (.finish position) group).Tracked := by
  have hMem := List.mem_of_getElem? hCommitter
  have hValid := hSystem.group.valid committer hMem
  simp only [SyncCall.Valid, hCommitted] at hValid
  have hCalls : system.group.Follows group := by
    have hReturned :
        system.group.Follows
          { system.group with
            calls :=
              system.group.calls.set position
                (committer.enter (.returned result)) } :=
      GroupCommit.follows_set hCommitter rfl
        ⟨rfl, .inl rfl, by simp⟩
    exact hReturned.notifyAll (by rw [hGroup])
  have hProgress : group.state.fsyncInProgress = false := by
    rw [hGroup]
    rfl
  have hSynced :
      group.state.lastSyncedBatchId = committer.myBatch := by
    rw [hGroup]
    rfl
  have hCollecting :
      group.state.collectingBatchId =
        system.group.state.collectingBatchId := by
    rw [hGroup]
    rfl
  have hBatches := hConsistent.collecting_eq
  rw [hProgress, if_neg (by simp)] at hBatches
  have hFsyncs :
      system.fsyncs ⊆
        (system.commitStep (.finish position)
          group).fsyncs :=
    List.subset_append_left _ _
  constructor
  · exact hConsistent
  · exact hSystem.written_commitStep _ group
  · exact hSystem.tickets_follow hCalls
  · intro hRunning
    simp only [CommitSystem.commitStep, hProgress]
      at hRunning
    simp at hRunning
  · intro call hCall other hPhase
    have hNone := hConsistent.committers
    rw [hProgress, if_neg (by simp), List.countP_eq_zero]
      at hNone
    apply (hNone call hCall _).elim
    simp [hPhase, SyncPhase.isCommitting]
  · intro call hCall hOne hLe record hRecord
    rcases hCalls call hCall with ⟨old, hOld, hFollows⟩
    rw [hFollows.file_eq] at hRecord
    simp only [CommitSystem.commitStep] at hLe
    have hBatch := hFollows.batch
    have hSame : call.myBatch = old.myBatch := by
      omega
    by_cases hEarlier :
        old.myBatch ≤
          system.group.state.lastSyncedBatchId
    · exact (hSystem.synced old hOld (by omega) hEarlier
        record hRecord).of_subset hFsyncs
    · have hOwn : old.myBatch = committer.myBatch := by
        omega
      exact (hSystem.durable_of_committed hCovers hCommitter
        hCommitted hOld hOwn hRecord).of_subset hFsyncs

/- The steps inside a commit. -/
theorem Tracked.commit
    {options : GroupCommitConfig}
    (hSystem : system.Tracked)
    {step : CommitStep SyncTicket}
    (hSucceeds : (CommitAction.commit step).FsyncSucceeds)
    (hCovers :
      (CommitAction.commit step).CoversBatch system)
    (hNew : ∀ file force, step ≠ .call file force)
    {group : GroupCommit SyncTicket}
    (hStep : system.group.step options step = some group) :
    (system.commitStep step group).Tracked := by
  have hConsistent := hSystem.group.step hStep
  rcases GroupCommit.step_cases hStep with
    ⟨file, force, hCall, _⟩ |
    ⟨position, call, rfl, hCall, _, hGroup⟩ |
    ⟨position, call, arrival, now, rfl, hCall, _, hGroup⟩ |
    ⟨position, call, now, rfl, hCall, _, hGroup⟩ |
    ⟨position, call, rfl, hCall, _, hGroup⟩ |
    ⟨position, call, result, rfl, hCall, _, hGroup⟩ |
    ⟨position, call, result, rfl, hCall, hPhase, hGroup⟩
  · exact (hNew file force hCall).elim
  · have hEntering :
        system.group.Follows
          { system.group with
            calls :=
              system.group.calls.set position
                (call.enter .entering) } :=
      GroupCommit.follows_set hCall rfl
        ⟨rfl, .inl rfl, by simp⟩
    refine hSystem.of_follows hConsistent ?_ ?_
      (hEntering.notifyAll (by rw [hGroup]))
    · rw [hGroup]
    · rw [hGroup]
  · have hArrived :=
      GroupCommit.follows_arrive hCall arrival
    have hEntered :=
      GroupCommit.getElem?_arrive hCall arrival
    rw [hGroup] at hConsistent ⊢
    have hTurn :=
      (system.group.arrive position call arrival).state_turn
        options position
        { call with
          myBatch := system.group.state.collectingBatchId
          phase := .awake } now
    refine hSystem.of_turn hConsistent ?_ hTurn
      (hArrived.trans rfl
        (GroupCommit.follows_turn options hEntered now))
    exact ⟨rfl, rfl, rfl⟩
  · rw [hGroup] at hConsistent ⊢
    exact hSystem.of_turn hConsistent ⟨rfl, rfl, rfl⟩
      (system.group.state_turn options position call now)
      (GroupCommit.follows_turn options hCall now)
  · rw [hGroup] at hConsistent ⊢
    exact hSystem.of_follows hConsistent rfl rfl
      (GroupCommit.follows_set hCall rfl
        ⟨rfl, .inl rfl, by simp⟩)
  · have hOk : result = .ok () := hSucceeds
    subst hOk
    exact hSystem.fsync hCall hConsistent hGroup
  · exact hSystem.finish hCovers hCall hPhase hConsistent
      hGroup

/- Every step keeps the records tracked. -/
theorem Tracked.step [Hasher]
    {options : GroupCommitConfig}
    (hSystem : system.Tracked)
    {action : CommitAction}
    (hSucceeds : action.FsyncSucceeds)
    (hCovers : action.CoversBatch system)
    (hNext : system.step options action = some next) :
    next.Tracked := by
  cases action with
  | call fault call =>
      simp only [CommitSystem.step, Option.some.injEq]
        at hNext
      rw [← hNext]
      apply hSystem.advance
        (system.engine.appendsTo_run fault call)
      intro record hRecord
      split at hRecord
      · exact List.mem_singleton.mp hRecord
      · simp at hRecord
  | expire fault task =>
      simp only [CommitSystem.step, Option.some.injEq]
        at hNext
      rw [← hNext]
      exact hSystem.advance
        (system.engine.appendsTo_processTaskFailure fault
          task.id task.priority task.retries .expired)
        (by simp)
  | sync record force =>
      simp only [CommitSystem.step] at hNext
      split at hNext
      · simp at hNext
      · next found hFound =>
          rcases Option.map_eq_some_iff.mp hNext with
            ⟨group, hGroup, hEq⟩
          rw [← hEq]
          apply hSystem.newCall _ hGroup
          rintro written rfl
          cases record with
          | none => simp [ticketRecord] at hFound
          | some position =>
              simp only [ticketRecord,
                Option.map_eq_some_iff,
                Option.some.injEq] at hFound
              rcases hFound with ⟨old, hOld, rfl⟩
              exact List.mem_of_getElem? hOld
  | commit step =>
      simp only [CommitSystem.step] at hNext
      split at hNext
      · simp at hNext
      · next hNew =>
          rcases Option.map_eq_some_iff.mp hNext with
            ⟨group, hGroup, hEq⟩
          rw [← hEq]
          exact hSystem.commit hSucceeds hCovers
            (fun file force hCall => hNew file force hCall)
            hGroup

/- A caller that was told Ok is in a synced batch. -/
theorem Tracked.confirmed
    (hSystem : system.Tracked) :
    system.Confirmed := by
  intro call hCall hReturned record hRecord
  have hValid := hSystem.group.valid call hCall
  simp only [SyncCall.Valid, hReturned] at hValid
  exact hSystem.synced call hCall hValid.1 hValid.2 record
    hRecord

end CommitSystem

end Nesso

------------------------------------------------------------
-- Runs of Clients
------------------------------------------------------------

namespace Nesso

/-
  In every run whose committers cover their batches, whoever
  is told Ok has a durable record.
-/
theorem commitRun_confirmed [Hasher]
    {options : GroupCommitConfig}
    {engine : Engine}
    {actions : List CommitAction}
    {system : CommitSystem}
    (hRun :
      Transition.Run (CommitSystem.step options)
        (fun system action =>
          action.FsyncSucceeds ∧ action.CoversBatch system)
        (CommitSystem.start engine) actions system) :
    system.Confirmed := by
  have hSystem : system.Tracked := by
    apply hRun.invariant
    · exact CommitSystem.Tracked.start engine
    · intro system next action hSystem hAction hNext
      exact hSystem.step hAction.1 hAction.2 hNext
  exact hSystem.confirmed

end Nesso

------------------------------------------------------------
-- Two Files in One Batch
------------------------------------------------------------

namespace Nesso

instance
    (system : CommitSystem)
    (record : Written) :
    Decidable (system.Durable record) :=
  inferInstanceAs (Decidable (∃ fsync ∈ _, _))

instance
    (action : CommitAction) :
    Decidable action.FsyncSucceeds :=
  match action with
  | .call .. => inferInstanceAs (Decidable (_ ≠ _))
  | .expire .. => inferInstanceAs (Decidable (_ ≠ _))
  | .sync .. => isTrue trivial
  | .commit (.call ..) => isTrue trivial
  | .commit (.forceFlush ..) => isTrue trivial
  | .commit (.join ..) => isTrue trivial
  | .commit (.resume ..) => isTrue trivial
  | .commit (.wake ..) => isTrue trivial
  | .commit (.fsync ..) => inferInstanceAs (Decidable (_ = _))
  | .commit (.finish ..) => isTrue trivial

/- The condition on a batch, as a test. -/
def CommitAction.coversBatch
    (system : CommitSystem) : CommitAction → Bool
| .commit (.finish position) =>
    system.group.calls[position]?.all (fun committer =>
      system.group.calls.all (fun call =>
        call.myBatch ≠ committer.myBatch ||
          call.file.record.all (fun record =>
            record.file ≠
                system.engine.inner.wal.activeFile ||
              committer.file.file = record.file)))
| _ => true

theorem CommitAction.coversBatch_of_test
    {system : CommitSystem}
    {action : CommitAction}
    (hTest : action.coversBatch system = true) :
    action.CoversBatch system := by
  unfold coversBatch at hTest
  split at hTest
  · intro committer hCommitter call hCall hBatch record
      hRecord hActive
    rw [hCommitter] at hTest
    have hAll := List.all_eq_true.mp hTest call hCall
    simpa [hBatch, hRecord, hActive] using hAll
  · next hOther =>
      unfold CoversBatch
      split
      · exact (hOther _ rfl).elim
      · trivial

/- Whether some client was told Ok without an fsync. -/
def CommitSystem.confirmsUnsynced
    (system : CommitSystem) : Bool :=
  system.group.calls.any (fun call =>
    call.phase = .returned (.ok ()) ∧
      call.file.record.any (fun record =>
        ¬ system.Durable record))

theorem CommitSystem.not_confirmed_of_test
    {system : CommitSystem}
    (hTest : system.confirmsUnsynced = true) :
    ¬ system.Confirmed := by
  intro hConfirmed
  rcases List.any_eq_true.mp hTest with ⟨call, hCall, hBoth⟩
  rcases of_decide_eq_true hBoth with ⟨hReturned, hUnsynced⟩
  rcases (Option.any_eq_true _ _).mp hUnsynced with
    ⟨record, hRecord, hNot⟩
  exact of_decide_eq_true hNot
    (hConfirmed call hCall hReturned record hRecord)

/- An engine whose segments hold two small records. -/
def smallSegments : Engine :=
  (Engine.reopen FileSystem.empty (some 30) 4 0).2

/-
  The records of clients 0 and 1 are in the first file.  The
  push of client 2 rotates, and its record is in the second.
-/
def rotatedClients : List CommitAction :=
  [.call none (.push [1] 0), .sync (some 0) false,
    .call none (.push [2] 0), .sync (some 1) false,
    .call none (.push [3] 0), .sync (some 2) false,
    .commit (.join 0 0 0), .commit (.join 1 0 0),
    .commit (.join 2 0 0), .commit (.fsync 0 (.ok ())),
    .commit (.finish 0)]

/- Client 2 commits the batch with the second file. -/
def newestCommits : List CommitAction :=
  rotatedClients ++
    [.commit (.resume 2 1), .commit (.fsync 2 (.ok ())),
      .commit (.finish 2), .commit (.resume 1 1)]

/- Client 1 commits the batch with the first file. -/
def oldestCommits : List CommitAction :=
  rotatedClients ++
    [.commit (.resume 1 1), .commit (.fsync 1 (.ok ())),
      .commit (.finish 1), .commit (.resume 2 1)]

set_option maxRecDepth 100000 in
theorem commitRun_confirmed_newestCommits :
    ∃ system,
      Transition.Run (CommitSystem.step .default)
          (fun system action =>
            action.FsyncSucceeds ∧
              action.CoversBatch system)
          (CommitSystem.start smallSegments) newestCommits
          system ∧
        system.group.state.lastSyncedBatchId = 2 ∧
        system.Confirmed := by
  have hEnd :
      (Transition.execute
        (Transition.checkedStep (CommitSystem.step .default)
          (fun system action =>
            action.FsyncSucceeds ∧
              action.coversBatch system))
        newestCommits (CommitSystem.start smallSegments)).any
          (fun system =>
            system.group.state.lastSyncedBatchId = 2) =
        true := by
    decide +kernel
  rcases Transition.exists_run_of_checked
    (fun _ _ hAction =>
      (of_decide_eq_true hAction).imp_right
        CommitAction.coversBatch_of_test) hEnd with
    ⟨system, hRun, hLast⟩
  exact ⟨system, hRun, of_decide_eq_true hLast,
    commitRun_confirmed hRun⟩

set_option maxRecDepth 100000 in
theorem rotated_batch_confirms_unsynced_record :
    ∃ system,
      Transition.Run (CommitSystem.step .default)
          (fun _ action => action.FsyncSucceeds)
          (CommitSystem.start smallSegments) oldestCommits
          system ∧
        ¬ system.Confirmed := by
  have hEnd :
      (Transition.execute
        (Transition.checkedStep (CommitSystem.step .default)
          (fun _ action => action.FsyncSucceeds))
        oldestCommits (CommitSystem.start smallSegments)).any
          CommitSystem.confirmsUnsynced = true := by
    decide +kernel
  rcases Transition.exists_run_of_checked
    (fun _ _ hAction => of_decide_eq_true hAction) hEnd with
    ⟨system, hRun, hUnsynced⟩
  exact ⟨system, hRun,
    CommitSystem.not_confirmed_of_test hUnsynced⟩

end Nesso
