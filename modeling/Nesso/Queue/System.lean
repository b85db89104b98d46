import Nesso.Library.Transition
import Nesso.Queue.Conservation
import Nesso.Recovery.Recover

/-
  The engine shared by clients, the expiration worker and a
  compaction, as a transition system over critical sections.

  Key definitions include:
    * `System`
    * `Action`
    * `System.step`
    * `System.start`

  What one section can do is said once:
    * `System.push_cases`
    * `System.compactPhase1_cases`
    * `System.compactPhase2_cases`
    * `System.processExpired_cases`
-/

------------------------------------------------------------
-- The System
------------------------------------------------------------

namespace Nesso

/- How far the compaction under `compaction_lock` has come. -/
inductive CompactionStage where
| idle
| planned (closedSegments : List Nat)
| written (closedSegments : List Nat)
    (newOffsets : Std.ExtTreeMap UInt64 Nat)

/-
  The worker between its two sections: the expired tasks it
  collected.  The other fields remember the time and state of
  the first section and are not known to the program.
-/
structure Snapshot where
  tasks : List ExpiredTask
  now : UInt64
  leased : Std.ExtTreeMap UInt64 LeaseInfo
  history : List Event

/- `history` is not known to the program either. -/
structure System where
  engine : Engine
  compaction : CompactionStage
  snapshot : Option Snapshot
  history : List Event

/-
  One critical section of one thread.  Reading a payload is
  not under the engine lock and may happen for any ticket at
  any time.
-/
inductive Action where
| push (payload : Bytes) (priority : UInt8)
| popLocked (consumerId : UInt32)
    (now leaseTtlSecs : UInt64)
| popRead (ticket : PopTicket)
| ack (id : UInt64) (consumerId : UInt32)
| nack (id : UInt64) (consumerId : UInt32)
| compactPlan
| compactPhase1
| compactPhase2
| snapshotExpired (now : UInt64) (tasks : List ExpiredTask)
| processExpired
| clearPayloadCache

namespace System

variable [Hasher]

/- Record an event when an operation succeeded. -/
def eventIf
    {ε α : Type}
    (result : Except ε α)
    (event : α → Event) : List Event :=
  match result with
  | .ok value => [event value]
  | .error _ => []

/- The lease that a pop grants, if any task is ready. -/
def grantEvents (engine : Engine) : List Event :=
  match engine.inner.readyQueue.pop with
  | some (task, _) => [.leased task.id]
  | none => []

/- A push; the id counter never gets to overflow. -/
def push
    (system : System)
    (payload : Bytes)
    (priority : UInt8) : Option System :=
  if system.engine.inner.nextId =
      UInt64.ofNat (2 ^ 64 - 1) then
    none
  else
    let out := system.engine.push none payload priority
    some
      { system with
        engine := out.2
        history :=
          system.history ++
            eventIf out.1 (fun id =>
              .pushed id priority payload) }

/- The locked section of a pop. -/
def popLocked
    (system : System)
    (consumerId : UInt32)
    (now leaseTtlSecs : UInt64) : System :=
  { system with
    engine :=
      (system.engine.popLocked none consumerId now
        leaseTtlSecs).2
    history :=
      system.history ++ grantEvents system.engine }

def ack
    (system : System)
    (id : UInt64)
    (consumerId : UInt32) : System :=
  let out := system.engine.ack none id consumerId
  { system with
    engine := out.2
    history :=
      system.history ++
        eventIf out.1 (fun _ => .acked id) }

def nack
    (system : System)
    (id : UInt64)
    (consumerId : UInt32) : System :=
  let out := system.engine.nack none id consumerId
  { system with
    engine := out.2
    history :=
      system.history ++
        eventIf out.1 (fun _ => .nacked id) }

/- Only one compaction holds `compaction_lock`. -/
def compactPlan (system : System) : Option System :=
  match system.compaction with
  | .idle =>
      match system.engine.compactPlan with
      | none => some system
      | some closedSegments =>
          some
            { system with
              compaction := .planned closedSegments }
  | _ => none

def compactPhase1 (system : System) : Option System :=
  match system.compaction with
  | .planned closedSegments =>
      let out := system.engine.compactPhase1 closedSegments
      some
        { system with
          engine := out.2
          compaction :=
            match out.1 with
            | .ok newOffsets =>
                .written closedSegments newOffsets
            | .error _ => .idle }
  | _ => none

def compactPhase2 (system : System) : Option System :=
  match system.compaction with
  | .written closedSegments newOffsets =>
      some
        { system with
          engine :=
            (system.engine.compactPhase2 closedSegments
              newOffsets).2
          compaction := .idle }
  | _ => none

/-
  The worker's first section; a hash map lists the leases in
  any order.
-/
def snapshotExpired
    (system : System)
    (now : UInt64)
    (tasks : List ExpiredTask) : Option System :=
  match system.snapshot with
  | none =>
      if tasks.Perm (system.engine.expiredTasks now) then
        some
          { system with
            snapshot :=
              some
                { tasks := tasks
                  now := now
                  leased := system.engine.inner.leased
                  history := system.history } }
      else
        none
  | some _ => none

/- The worker's second section. -/
def processExpired (system : System) : Option System :=
  match system.snapshot with
  | some snapshot =>
      some
        { system with
          engine :=
            system.engine.processExpired
              (snapshot.tasks.map (fun task =>
                (none, task)))
          snapshot := none
          history :=
            system.history ++
              snapshot.tasks.map (fun task =>
                .expired task.id) }
  | none => none

def step
    (system : System) : Action → Option System
| .push payload priority => system.push payload priority
| .popLocked consumerId now leaseTtlSecs =>
    some (system.popLocked consumerId now leaseTtlSecs)
| .popRead ticket =>
    some
      { system with
        engine := (system.engine.popRead ticket).2 }
| .ack id consumerId => some (system.ack id consumerId)
| .nack id consumerId => some (system.nack id consumerId)
| .compactPlan => system.compactPlan
| .compactPhase1 => system.compactPhase1
| .compactPhase2 => system.compactPhase2
| .snapshotExpired now tasks =>
    system.snapshotExpired now tasks
| .processExpired => system.processExpired
| .clearPayloadCache =>
    some
      { system with
        engine := system.engine.clearPayloadCache }

/- An engine opened on an empty directory. -/
def start
    (maxSegmentSize : Option Nat)
    (cacheCapacity : Nat)
    (now : UInt64) : System where
  engine :=
    (Engine.reopen FileSystem.empty maxSegmentSize
      cacheCapacity now).2
  compaction := .idle
  snapshot := none
  history := []

end System

end Nesso

------------------------------------------------------------
-- What a Section Can Do
------------------------------------------------------------

namespace Nesso

namespace System

variable [Hasher]
variable {system next : System}

theorem push_cases
    {payload : Bytes}
    {priority : UInt8}
    (hPush : system.push payload priority = some next) :
    system.engine.inner.IdsLeft ∧
      next =
        { system with
          engine :=
            system.engine.perform (.add priority payload)
          history :=
            system.history ++
              [.pushed system.engine.inner.nextId priority
                payload] } := by
  unfold push at hPush
  split at hPush
  · simp at hPush
  · next hLeft =>
      rw [Option.some.injEq, Engine.push_none] at hPush
      exact ⟨hLeft, hPush.symm⟩

omit [Hasher] in
theorem compactPlan_cases
    (hPlan : system.compactPlan = some next) :
    next = system ∨
      ∃ closedSegments,
        system.engine.compactPlan = some closedSegments ∧
          next =
            { system with
              compaction := .planned closedSegments } := by
  unfold compactPlan at hPlan
  split at hPlan
  · split at hPlan
    · rw [Option.some.injEq] at hPlan
      exact .inl hPlan.symm
    · next closedSegments hClosed =>
        rw [Option.some.injEq] at hPlan
        exact .inr ⟨closedSegments, hClosed, hPlan.symm⟩
  · simp at hPlan

theorem compactPhase1_cases
    (hPhase : system.compactPhase1 = some next) :
    ∃ closedSegments,
      system.compaction = .planned closedSegments ∧
        next =
          { system with
            engine :=
              (system.engine.compactPhase1
                closedSegments).2
            compaction :=
              match (system.engine.compactPhase1
                  closedSegments).1 with
              | .ok newOffsets =>
                  .written closedSegments newOffsets
              | .error _ => .idle } := by
  unfold compactPhase1 at hPhase
  split at hPhase
  · next closedSegments hPlanned =>
      rw [Option.some.injEq] at hPhase
      exact ⟨closedSegments, hPlanned, hPhase.symm⟩
  · simp at hPhase

omit [Hasher] in
theorem compactPhase2_cases
    (hPhase : system.compactPhase2 = some next) :
    ∃ closedSegments newOffsets,
      system.compaction =
          .written closedSegments newOffsets ∧
        next =
          { system with
            engine :=
              (system.engine.compactPhase2 closedSegments
                newOffsets).2
            compaction := .idle } := by
  unfold compactPhase2 at hPhase
  split at hPhase
  · next closedSegments newOffsets hWritten =>
      rw [Option.some.injEq] at hPhase
      exact ⟨closedSegments, newOffsets, hWritten,
        hPhase.symm⟩
  · simp at hPhase

omit [Hasher] in
theorem snapshotExpired_cases
    {now : UInt64}
    {tasks : List ExpiredTask}
    (hSnapshot :
      system.snapshotExpired now tasks = some next) :
    system.snapshot = none ∧
      tasks.Perm (system.engine.expiredTasks now) ∧
      next =
        { system with
          snapshot :=
            some
              { tasks := tasks
                now := now
                leased := system.engine.inner.leased
                history := system.history } } := by
  unfold snapshotExpired at hSnapshot
  split at hSnapshot
  · next hNone =>
      split at hSnapshot
      · next hPerm =>
          rw [Option.some.injEq] at hSnapshot
          exact ⟨hNone, hPerm, hSnapshot.symm⟩
      · simp at hSnapshot
  · simp at hSnapshot

theorem processExpired_cases
    (hProcess : system.processExpired = some next) :
    ∃ snapshot,
      system.snapshot = some snapshot ∧
        next =
          { system with
            engine :=
              system.engine.processExpired
                (snapshot.tasks.map (fun task =>
                  (none, task)))
            snapshot := none
            history :=
              system.history ++
                snapshot.tasks.map (fun task =>
                  .expired task.id) } := by
  unfold processExpired at hProcess
  split at hProcess
  · next snapshot hSnapshot =>
      rw [Option.some.injEq] at hProcess
      exact ⟨snapshot, hSnapshot, hProcess.symm⟩
  · simp at hProcess

end System

end Nesso

------------------------------------------------------------
-- Expired Leases
------------------------------------------------------------

namespace Nesso

/- The worker collects exactly the expired leases. -/
theorem mem_expiredTasks_iff
    {engine : Engine}
    {now : UInt64}
    {task : ExpiredTask} :
    task ∈ engine.expiredTasks now ↔
      ∃ lease,
        engine.inner.leased[task.id]? = some lease ∧
          lease.expireTimestamp ≤ now ∧
          task =
            ⟨task.id, lease.priority, lease.retries⟩ := by
  rw [Engine.expiredTasks, List.mem_filterMap]
  constructor
  · rintro ⟨⟨id, lease⟩, hMem, hTask⟩
    rw [Std.ExtTreeMap.mem_toList_iff_getElem?_eq_some]
      at hMem
    split at hTask
    · next hExpired =>
        rw [Option.some.injEq] at hTask
        subst hTask
        exact ⟨lease, hMem, hExpired, rfl⟩
    · simp at hTask
  · rintro ⟨lease, hLease, hExpired, hTask⟩
    refine ⟨(task.id, lease), ?_, ?_⟩
    · exact
        Std.ExtTreeMap.mem_toList_iff_getElem?_eq_some.mpr
          hLease
    · simp only [if_pos hExpired, Option.some.injEq]
      exact hTask.symm

end Nesso

------------------------------------------------------------
-- Index Remapping
------------------------------------------------------------

namespace Nesso

/- Where a location moves when its segment is compacted. -/
def remapLoc
    (closedSegments : List Nat)
    (newOffset : Option Nat)
    (loc : Loc) : Loc :=
  if (ofLex loc).1 ∈ closedSegments then
    match newOffset with
    | some offset => toLex (1, offset)
    | none => loc
  else
    loc

theorem remapLoc_of_mem
    {closedSegments : List Nat}
    {loc : Loc}
    (hClosed : (ofLex loc).1 ∈ closedSegments)
    (offset : Nat) :
    remapLoc closedSegments (some offset) loc =
      toLex (1, offset) := by
  unfold remapLoc
  rw [if_pos hClosed]

theorem remapLoc_of_not_mem
    {closedSegments : List Nat}
    {loc : Loc}
    (hKept : (ofLex loc).1 ∉ closedSegments)
    (newOffset : Option Nat) :
    remapLoc closedSegments newOffset loc = loc := by
  unfold remapLoc
  rw [if_neg hKept]

theorem getElem?_remapEntry
    (closedSegments : List Nat)
    (index : Std.ExtTreeMap UInt64 Loc)
    (moved id : UInt64)
    (offset : Nat) :
    (remapEntry closedSegments index moved offset)[id]? =
      if moved = id then
        index[id]?.map
          (remapLoc closedSegments (some offset))
      else index[id]? := by
  unfold remapEntry remapLoc
  by_cases hId : moved = id
  · subst hId
    rw [if_pos rfl]
    cases hLoc : index[moved]? with
    | none => simp [hLoc]
    | some loc =>
        by_cases hClosed : (ofLex loc).1 ∈ closedSegments
        · simp [hClosed]
        · simp [hClosed, hLoc]
  · rw [if_neg hId]
    split
    · split
      · rw [Std.ExtTreeMap.getElem?_insert]
        simp [hId]
      · rfl
    · rfl

theorem remapLoc_none
    (closedSegments : List Nat)
    (loc : Loc) :
    remapLoc closedSegments none loc = loc := by
  unfold remapLoc
  split <;> rfl

/- Each entry moves at most once. -/
theorem getElem?_foldl_remapEntry
    (closedSegments : List Nat)
    {offsets : List (UInt64 × Nat)}
    (hNodup : (offsets.map Prod.fst).Nodup)
    (index : Std.ExtTreeMap UInt64 Loc)
    (id : UInt64) :
    (offsets.foldl
        (fun index entry =>
          remapEntry closedSegments index entry.1 entry.2)
        index)[id]? =
      index[id]?.map
        (remapLoc closedSegments
          ((KeyedLog.latest Prod.fst offsets id).map
            Prod.snd)) := by
  induction offsets generalizing index with
  | nil =>
      cases hLoc : index[id]? <;>
        simp [hLoc, remapLoc_none]
  | cons entry offsets ih =>
      rw [List.map_cons, List.nodup_cons] at hNodup
      rw [List.foldl_cons, ih hNodup.2,
        getElem?_remapEntry, KeyedLog.latest_cons]
      by_cases hId : entry.1 = id
      · have hNone :
            KeyedLog.latest Prod.fst offsets id = none := by
          rw [KeyedLog.latest_eq_none_iff]
          intro other hOther hEq
          apply hNodup.1
          rw [hId, ← hEq]
          exact List.mem_map_of_mem hOther
        cases hLoc : index[id]? <;>
          simp [hId, hNone, remapLoc_none]
      · simp [hId]

namespace EngineState

/- Remapping changes the two indexes only. -/
theorem remap_eq
    (inner : EngineState)
    (closedSegments : List Nat)
    (newOffsets : Std.ExtTreeMap UInt64 Nat) :
    inner.remap closedSegments newOffsets =
      { inner with
        dataIndex :=
          newOffsets.toList.foldl
            (fun index entry =>
              remapEntry closedSegments index
                entry.1 entry.2) inner.dataIndex
        index :=
          newOffsets.toList.foldl
            (fun index entry =>
              remapEntry closedSegments index
                entry.1 entry.2) inner.index } := by
  unfold remap
  generalize newOffsets.toList = offsets
  induction offsets generalizing inner with
  | nil => rfl
  | cons entry offsets ih =>
      rw [List.foldl_cons, ih]
      rfl

theorem toList_keys_nodup
    (newOffsets : Std.ExtTreeMap UInt64 Nat) :
    (newOffsets.toList.map Prod.fst).Nodup := by
  rw [Std.ExtTreeMap.map_fst_toList_eq_keys]
  exact Std.ExtTreeMap.nodup_keys

/- The offset list of a map holds each key's offset. -/
theorem latest_toList
    (newOffsets : Std.ExtTreeMap UInt64 Nat)
    (id : UInt64) :
    (KeyedLog.latest Prod.fst newOffsets.toList id).map
        Prod.snd = newOffsets[id]? := by
  ext offset
  rw [Option.map_eq_some_iff]
  constructor
  · rintro ⟨entry, hEntry, rfl⟩
    have hMem := KeyedLog.latest_mem hEntry
    rw [← hMem.2]
    exact
      Std.ExtTreeMap.mem_toList_iff_getElem?_eq_some.mp
        hMem.1
  · intro hOffset
    refine ⟨(id, offset), ?_, rfl⟩
    rw [KeyedLog.latest_eq_some_iff_of_nodup
      (toList_keys_nodup newOffsets)]
    exact
      ⟨Std.ExtTreeMap.mem_toList_iff_getElem?_eq_some.mpr
        hOffset, rfl⟩

/- A remapped data location, task by task. -/
theorem getElem?_dataIndex_remap
    (inner : EngineState)
    (closedSegments : List Nat)
    (newOffsets : Std.ExtTreeMap UInt64 Nat)
    (id : UInt64) :
    (inner.remap closedSegments newOffsets).dataIndex[id]? =
      inner.dataIndex[id]?.map
        (remapLoc closedSegments newOffsets[id]?) := by
  rw [remap_eq]
  simp only
  rw [getElem?_foldl_remapEntry closedSegments
    (toList_keys_nodup newOffsets), latest_toList]

theorem getElem?_index_remap
    (inner : EngineState)
    (closedSegments : List Nat)
    (newOffsets : Std.ExtTreeMap UInt64 Nat)
    (id : UInt64) :
    (inner.remap closedSegments newOffsets).index[id]? =
      inner.index[id]?.map
        (remapLoc closedSegments newOffsets[id]?) := by
  rw [remap_eq]
  simp only
  rw [getElem?_foldl_remapEntry closedSegments
    (toList_keys_nodup newOffsets), latest_toList]

theorem mem_dataIndex_remap
    (inner : EngineState)
    (closedSegments : List Nat)
    (newOffsets : Std.ExtTreeMap UInt64 Nat)
    (id : UInt64) :
    id ∈ (inner.remap closedSegments newOffsets).dataIndex ↔
      id ∈ inner.dataIndex := by
  rw [← Std.ExtTreeMap.isSome_getElem?_iff_mem,
    getElem?_dataIndex_remap, Option.isSome_map,
    Std.ExtTreeMap.isSome_getElem?_iff_mem]

end EngineState

end Nesso

------------------------------------------------------------
-- Conservation Along Runs
------------------------------------------------------------

namespace Nesso

namespace System

variable [Hasher]
variable {system next : System}

/- Every task of the system is accounted for. -/
def Conserves (system : System) : Prop :=
  Conserved system.engine.inner system.history

theorem conserves_start
    (maxSegmentSize : Option Nat)
    (cacheCapacity : Nat)
    (now : UInt64) :
    (start maxSegmentSize cacheCapacity now).Conserves := by
  rcases Engine.reopen_empty_spec maxSegmentSize
    cacheCapacity now with ⟨next, hNext, _, _, _, _, hInner⟩
  rcases hInner.empty with ⟨hReady, hLeased, hData, _⟩
  simp only [Conserves, start, hNext]
  exact conserved_nil hReady hLeased hData

omit [Hasher] in
theorem conserved_caches
    {engine : Engine}
    {history : List Event}
    (hInner : Conserved engine.inner history)
    (wal : Wal)
    (payloadCache : PayloadCache) :
    Conserved
      { engine.inner with
        wal := wal
        payloadCache := payloadCache } history :=
  hInner.of_places_eq rfl rfl rfl (fun _ => Iff.rfl)

/- A change of the engine is a change of its maps. -/
theorem conserved_perform
    {engine : Engine}
    {change : Change}
    {history : List Event}
    (hInner :
      ∀ loc,
        Conserved (change.apply engine.inner loc)
          history) :
    Conserved (engine.perform change).inner history :=
  (hInner engine.inner.wal.nextLoc).of_places_eq
    rfl rfl rfl (fun _ => Iff.rfl)

/- Every section but the worker's second one. -/
theorem conserves_step
    (hSystem : system.Conserves)
    {action : Action}
    (hAction : action ≠ .processExpired)
    (hStep : system.step action = some next) :
    next.Conserves := by
  cases action with
  | push payload priority =>
      rcases push_cases hStep with ⟨hLeft, rfl⟩
      exact conserved_perform
        (hSystem.add hLeft priority payload)
  | popLocked consumerId now leaseTtlSecs =>
      rw [step, Option.some.injEq] at hStep
      rw [← hStep, Conserves]
      simp only [popLocked, Engine.popLocked_none,
        grantEvents]
      cases hPop :
          system.engine.inner.readyQueue.pop with
      | none => simpa [Conserves] using hSystem
      | some popped =>
          rcases popped with ⟨task, rest⟩
          have hGranted :=
            conserved_perform
              (hSystem.grant hPop consumerId
                (now + leaseTtlSecs))
          simp only
          split
          · exact hGranted
          · exact conserved_caches hGranted _ _
  | popRead ticket =>
      rw [step, Option.some.injEq] at hStep
      rw [← hStep, Conserves]
      simp only [Engine.inner_popRead]
      exact hSystem
  | ack id consumerId =>
      rw [step, Option.some.injEq] at hStep
      rw [← hStep, Conserves]
      simp only [ack, Engine.ack_none]
      cases hLease : system.engine.inner.leased[id]? with
      | none => simpa [eventIf, Conserves] using hSystem
      | some lease =>
          simp only
          split
          · apply conserved_perform
            apply hSystem.finish hLease rfl rfl
            · left
              simp
            · simp
          · simpa [eventIf, Conserves] using hSystem
  | nack id consumerId =>
      rw [step, Option.some.injEq] at hStep
      rw [← hStep, Conserves]
      simp only [nack, Engine.nack_none]
      cases hLease : system.engine.inner.leased[id]? with
      | none => simpa [eventIf, Conserves] using hSystem
      | some lease =>
          simp only
          split
          · apply conserved_perform
            exact hSystem.failure hLease (.inl rfl) _
          · simpa [eventIf, Conserves] using hSystem
  | compactPlan =>
      rcases compactPlan_cases hStep with rfl | ⟨_, _, rfl⟩
      · exact hSystem
      · exact hSystem
  | compactPhase1 =>
      rcases compactPhase1_cases hStep with ⟨_, _, rfl⟩
      exact hSystem
  | compactPhase2 =>
      rcases compactPhase2_cases hStep with ⟨_, _, _, rfl⟩
      simp only [Conserves, Engine.compactPhase2]
      split
      · exact hSystem
      · apply hSystem.of_places_eq
        · rw [EngineState.remap_eq]
        · rw [EngineState.remap_eq]
        · rw [EngineState.remap_eq]
        · intro id
          exact EngineState.mem_dataIndex_remap _ _ _ id
  | snapshotExpired now tasks =>
      rcases snapshotExpired_cases hStep with ⟨_, _, rfl⟩
      exact hSystem
  | processExpired => exact (hAction rfl).elim
  | clearPayloadCache =>
      rw [step, Option.some.injEq] at hStep
      rw [← hStep, Conserves]
      exact conserved_caches hSystem _ _

end System

end Nesso
