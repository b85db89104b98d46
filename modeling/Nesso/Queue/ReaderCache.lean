import Nesso.Library.RecentlyUsed
import Nesso.Log.Compaction
import Nesso.Queue.System
import Nesso.Storage.Checksum

/-
  The handle cache of `WalReader` under appends, rotations
  and compactions.

  A compaction writes its temporary segment and plan, takes
  the engine lock, renames, unlinks, and clears the cache.
  Reads take no engine lock and may come between any two of
  these steps.

  Key definitions include:
    * `ReaderStage`
    * `ReaderSystem`
    * `ReaderAction`
    * `ReaderSystem.Transparent`
    * `ReaderSystem.Sound`

  The main theorems are:
    * `WalReader.Coherent.readAt_eq_new`
    * `ReaderSystem.Sound.step`
    * `readerRun_transparent`
-/

------------------------------------------------------------
-- Reads and Compactions
------------------------------------------------------------

namespace Nesso

/-
  Where a compaction is: writing its files without the lock,
  writing the plan again under the lock, or renamed and
  unlinking; with the disk steps still to come.
-/
inductive ReaderStage where
| idle
| writing (steps : List DiskStep)
    (closedSegments : List Nat)
    (newOffsets : Std.ExtTreeMap UInt64 Nat)
| preparing (steps : List DiskStep)
    (closedSegments : List Nat)
    (newOffsets : Std.ExtTreeMap UInt64 Nat)
| renamed (steps : List DiskStep)
    (closedSegments : List Nat)
    (newOffsets : Std.ExtTreeMap UInt64 Nat)

/- Whether the engine lock is held by the compaction. -/
def ReaderStage.locked : ReaderStage → Bool
| .idle | .writing _ _ _ => false
| .preparing _ _ _ | .renamed _ _ _ => true

/- Between the rename and `clear_cache`. -/
def ReaderStage.swapping : ReaderStage → Bool
| .renamed _ _ _ => true
| _ => false

/- `uses` are the segments read so far, the last one last. -/
structure ReaderSystem where
  engine : Engine
  stage : ReaderStage
  uses : List Nat

inductive ReaderAction where
| readAt (segmentId offset : Nat)
| append (fault : Option AppendFault) (record : Record)
| compactStart
| compactStep
| compactLock
| compactRename (fails : Nat → Bool)
| compactEnd

/- The unlinks of phase 2; those that fail are ignored. -/
def Wal.unlinkSteps
    (fails : Nat → Bool)
    (closedSegments : List Nat) : List DiskStep :=
  (closedSegments.filter (fun segmentId =>
      1 < segmentId ∧ ¬ fails segmentId)).map
        (fun segmentId => .remove (.wal segmentId)) ++
    [.remove .compactionPlan, .remove .compactionSwap]

/- The plan is written only if phase 1 has not left one. -/
def Wal.prepareSteps
    (disk : Disk)
    (closedSegments : List Nat) : List DiskStep :=
  if disk.contains .compactionPlan then []
  else planSteps closedSegments

/- Together they are the steps of phase 2. -/
theorem Wal.phase2StepsFailing_eq
    (fails : Nat → Bool)
    (disk : Disk)
    (closedSegments : List Nat) :
    phase2StepsFailing fails disk closedSegments =
      prepareSteps disk closedSegments ++
        .rename .compacting (.wal 1) ::
          unlinkSteps fails closedSegments := rfl

namespace ReaderSystem

/- Any directory and state, with a new reader. -/
def start (engine : Engine) : ReaderSystem where
  engine := { engine with reader := .new }
  stage := .idle
  uses := []

def onDisk
    (system : ReaderSystem)
    (disk : Disk)
    (stage : ReaderStage) : ReaderSystem :=
  { system with
    engine := { system.engine with disk := disk }
    stage := stage }

variable [Hasher]

def readAt
    (system : ReaderSystem)
    (segmentId offset : Nat) : ReaderSystem :=
  { system with
    engine :=
      { system.engine with
        reader :=
          (system.engine.reader.readAt system.engine.disk
            segmentId offset).2 }
    uses :=
      if (system.engine.reader.openHandle
          system.engine.disk segmentId).isSome then
        system.uses ++ [segmentId]
      else
        system.uses }

/- Plan a compaction and read the closed segments. -/
def compactStart
    (system : ReaderSystem) : ReaderSystem :=
  match system.engine.compactPlan with
  | none => system
  | some closedSegments =>
      match Wal.collectClosed system.engine.disk .empty
          closedSegments with
      | .error _ => system
      | .ok maps =>
          { system with
            stage :=
              .writing
                (Wal.phase1Steps closedSegments
                  maps.survivors)
                closedSegments
                (Wal.newOffsets maps.survivors) }

/- The next disk step of the compaction. -/
def compactStep
    (system : ReaderSystem) : Option ReaderSystem :=
  match system.stage with
  | .writing (step :: steps) closedSegments newOffsets =>
      some (system.onDisk (step.exec system.engine.disk)
        (.writing steps closedSegments newOffsets))
  | .preparing (step :: steps) closedSegments newOffsets =>
      some (system.onDisk (step.exec system.engine.disk)
        (.preparing steps closedSegments newOffsets))
  | .renamed (step :: steps) closedSegments newOffsets =>
      some (system.onDisk (step.exec system.engine.disk)
        (.renamed steps closedSegments newOffsets))
  | _ => none

/- Phase 2 takes the engine lock. -/
def compactLock
    (system : ReaderSystem) : Option ReaderSystem :=
  match system.stage with
  | .writing [] closedSegments newOffsets =>
      some
        { system with
          stage :=
            .preparing
              (Wal.prepareSteps system.engine.disk
                closedSegments)
              closedSegments newOffsets }
  | _ => none

/- The rename; if it fails, the compaction has failed. -/
def compactRename
    (system : ReaderSystem)
    (fails : Nat → Bool) : Option ReaderSystem :=
  match system.stage with
  | .preparing [] closedSegments newOffsets =>
      if system.engine.disk.contains .compacting then
        some (system.onDisk
          (system.engine.disk.rename .compacting (.wal 1))
          (.renamed (Wal.unlinkSteps fails closedSegments)
            closedSegments newOffsets))
      else
        some { system with stage := .idle }
  | _ => none

/- Remap the indexes and clear the cache. -/
def compactEnd
    (system : ReaderSystem) : Option ReaderSystem :=
  match system.stage with
  | .renamed [] closedSegments newOffsets =>
      some
        { system with
          engine :=
            { disk := system.engine.disk
              inner :=
                system.engine.inner.remap closedSegments
                  newOffsets
              reader := system.engine.reader.clearCache }
          stage := .idle }
  | _ => none

def step
    (system : ReaderSystem) :
    ReaderAction → Option ReaderSystem
| .readAt segmentId offset =>
    some (system.readAt segmentId offset)
| .append fault record =>
    if system.stage.locked then
      none
    else
      some
        { system with
          engine :=
            (system.engine.appendRecord fault record).2 }
| .compactStart =>
    match system.stage with
    | .idle => some system.compactStart
    | _ => none
| .compactStep => system.compactStep
| .compactLock => system.compactLock
| .compactRename fails => system.compactRename fails
| .compactEnd => system.compactEnd

/-
  At most `MAX_LRU_CACHE_SIZE` handles of different segments,
  the least recently used first; and reads that find what a
  new reader finds.
-/
structure Transparent (system : ReaderSystem) : Prop where
  recent :
    RecentlyUsed maxLruCacheSize system.uses
      (system.engine.reader.readCache.map Prod.fst)
  fresh :
    system.stage.swapping = false →
      ∀ segmentId offset,
        (system.engine.reader.readAt system.engine.disk
            segmentId offset).1 =
          (WalReader.new.readAt system.engine.disk segmentId
            offset).1

end ReaderSystem

end Nesso

------------------------------------------------------------
-- One Read
------------------------------------------------------------

namespace Nesso

namespace WalReader

variable {reader : WalReader} {disk : Disk}

/- A reader has handles of existing files only. -/
theorem Coherent.find_eq_none
    (hCoherent : reader.Coherent disk)
    {segmentId : Nat}
    (hLookup : disk.lookup (.wal segmentId) = none) :
    reader.readCache.find? (·.1 = segmentId) = none := by
  rw [List.find?_eq_none]
  intro entry hEntry hSegment
  have hFound := hCoherent entry hEntry
  rw [of_decide_eq_true hSegment, hLookup] at hFound
  simp at hFound

/- A coherent reader reads like a new one. -/
theorem Coherent.readAt_eq_new [Hasher]
    (hCoherent : reader.Coherent disk)
    (segmentId offset : Nat) :
    (reader.readAt disk segmentId offset).1 =
      (new.readAt disk segmentId offset).1 := by
  cases hLookup : disk.lookup (.wal segmentId) with
  | none =>
      have hOld : reader.openHandle disk segmentId = none := by
        simp only [openHandle, hLookup,
          hCoherent.find_eq_none hLookup]
      have hNew : new.openHandle disk segmentId = none := by
        simp only [openHandle, hLookup,
          (coherent_new disk).find_eq_none hLookup]
      simp only [WalReader.readAt, hOld, hNew]
  | some inode =>
      rcases hCoherent.openHandle_eq hLookup with
        ⟨next, hOld⟩
      rcases (coherent_new disk).openHandle_eq hLookup with
        ⟨opened, hNew⟩
      simp only [WalReader.readAt, hOld, hNew]

/- Opening a handle is a use of its segment. -/
theorem recentlyUsed_openHandle
    {uses : List Nat}
    (hRecent :
      RecentlyUsed maxLruCacheSize uses
        (reader.readCache.map Prod.fst))
    {segmentId inode : Nat}
    {next : WalReader}
    (hOpen :
      reader.openHandle disk segmentId =
        some (inode, next)) :
    RecentlyUsed maxLruCacheSize (uses ++ [segmentId])
      (next.readCache.map Prod.fst) := by
  unfold openHandle at hOpen
  cases hFind :
      reader.readCache.find? (·.1 = segmentId) with
  | some entry =>
      simp only [hFind, Option.some.injEq, Prod.mk.injEq]
        at hOpen
      have hSegment : entry.1 = segmentId := by
        simpa using List.find?_some hFind
      have hMem :
          segmentId ∈ reader.readCache.map Prod.fst :=
        List.mem_map.mpr ⟨entry,
          List.mem_of_find?_eq_some hFind, hSegment⟩
      rw [← hOpen.2, List.map_append, List.map_singleton,
        RecentlyUsed.map_erase_of_find hFind, hSegment]
      exact hRecent.hit hMem
  | none =>
      have hNew :
          segmentId ∉ reader.readCache.map Prod.fst := by
        intro hMem
        rcases List.mem_map.mp hMem with
          ⟨entry, hEntry, hSegment⟩
        exact List.find?_eq_none.mp hFind entry hEntry
          (decide_eq_true hSegment)
      cases hLookup : disk.lookup (.wal segmentId) with
      | none => simp [hFind, hLookup] at hOpen
      | some found =>
          simp only [hFind, hLookup, Option.some.injEq,
            Prod.mk.injEq] at hOpen
          have hMiss := hRecent.miss hNew (by decide)
          rw [List.length_map] at hMiss
          rw [← hOpen.2, List.map_append, List.map_singleton]
          split at hMiss
          · next hFull =>
              rw [if_pos hFull, List.map_drop]
              exact hMiss
          · next hRoom =>
              rw [if_neg hRoom]
              exact hMiss

end WalReader

/- An append unlinks and replaces no file. -/
theorem Wal.lookup_append_of_lookup [Hasher]
    {fault : Option AppendFault}
    {disk : Disk}
    {wal : Wal}
    {record : Record}
    {name : FileName}
    {inode : Nat}
    (hLookup : disk.lookup name = some inode) :
    (append fault disk wal record).2.1.lookup name =
      some inode := by
  have hRotated :
      (rotateIfFull fault disk wal).2.1.lookup name =
        some inode := by
    unfold rotateIfFull
    split
    · unfold rotate
      split
      · exact hLookup
      · split
        · exact hLookup
        · exact FileSystem.lookup_create_of_lookup hLookup _
    · exact hLookup
  unfold append
  split
  · next hFull =>
      rw [hFull] at hRotated
      exact hRotated
  · next hFull =>
      rw [hFull] at hRotated
      unfold writeFrame
      split
      · simpa using hRotated
      · simpa using hRotated

end Nesso

------------------------------------------------------------
-- Steps That Leave the Segments Alone
------------------------------------------------------------

namespace Nesso

/- Every target is no segment. -/
def DiskStep.Harmless (step : DiskStep) : Prop :=
  ∀ name ∈ step.targets, name.segmentId? = none

theorem DiskStep.Harmless.lookup_exec
    {step : DiskStep}
    (hHarmless : step.Harmless)
    (disk : Disk)
    (segmentId : Nat) :
    (step.exec disk).lookup (.wal segmentId) =
      disk.lookup (.wal segmentId) := by
  apply FileSystem.lookup_exec_of_not_target
  intro hTarget
  have hNone := hHarmless _ hTarget
  simp [FileName.segmentId?] at hNone

namespace Wal

theorem harmless_planSteps
    {closedSegments : List Nat}
    {step : DiskStep}
    (hStep : step ∈ planSteps closedSegments) :
    step.Harmless := by
  intro name hName
  rw [mem_planSteps_targets hStep hName]
  rfl

theorem harmless_prepareSteps
    {disk : Disk}
    {closedSegments : List Nat}
    {step : DiskStep}
    (hStep : step ∈ prepareSteps disk closedSegments) :
    step.Harmless := by
  unfold prepareSteps at hStep
  split at hStep
  · simp at hStep
  · exact harmless_planSteps hStep

theorem harmless_phase1Steps [Hasher]
    {closedSegments : List Nat}
    {records : List Record}
    {step : DiskStep}
    (hStep : step ∈ phase1Steps closedSegments records) :
    step.Harmless := by
  simp only [phase1Steps, List.mem_cons, List.mem_append,
    List.mem_map] at hStep
  rcases hStep with rfl | ⟨record, _, rfl⟩ | rfl | hPlan
  · simp [DiskStep.Harmless, FileSystem.Step.targets,
      FileName.segmentId?]
  · simp [DiskStep.Harmless, FileSystem.Step.targets,
      FileName.segmentId?]
  · simp [DiskStep.Harmless, FileSystem.Step.targets]
  · exact harmless_planSteps hPlan

end Wal

/- The steps that a compaction takes before its rename. -/
def ReaderStage.beforeRename : ReaderStage → List DiskStep
| .writing steps _ _ | .preparing steps _ _ => steps
| .idle | .renamed _ _ _ => []

namespace WalReader

variable {reader : WalReader} {disk : Disk}

/- Coherence only depends on where the segments are. -/
theorem Coherent.of_lookup
    (hCoherent : reader.Coherent disk)
    {next : Disk}
    (hLookup :
      ∀ {segmentId inode},
        disk.lookup (.wal segmentId) = some inode →
          next.lookup (.wal segmentId) = some inode) :
    reader.Coherent next := by
  intro entry hEntry
  exact hLookup (hCoherent entry hEntry)

end WalReader

end Nesso

------------------------------------------------------------
-- Runs
------------------------------------------------------------

namespace Nesso

namespace ReaderSystem

/-
  The order of use; and, outside the time between a rename
  and `clear_cache`, every handle is the current file of its
  segment.
-/
structure Sound (system : ReaderSystem) : Prop where
  recent :
    RecentlyUsed maxLruCacheSize system.uses
      (system.engine.reader.readCache.map Prod.fst)
  coherent :
    system.stage.swapping = false →
      system.engine.reader.Coherent system.engine.disk
  harmless :
    ∀ step ∈ system.stage.beforeRename, step.Harmless

theorem Sound.start
    (engine : Engine) :
    (ReaderSystem.start engine).Sound where
  recent := .empty _ _
  coherent := by
    intro _
    exact WalReader.coherent_new _
  harmless := by
    intro step hStep
    simp [ReaderSystem.start, ReaderStage.beforeRename]
      at hStep

variable [Hasher]
variable {system next : ReaderSystem}

theorem Sound.transparent
    (hSound : system.Sound) :
    system.Transparent where
  recent := hSound.recent
  fresh := by
    intro hStage segmentId offset
    exact (hSound.coherent hStage).readAt_eq_new segmentId
      offset

theorem Sound.readAt
    (hSound : system.Sound)
    (segmentId offset : Nat) :
    (system.readAt segmentId offset).Sound where
  recent := by
    unfold ReaderSystem.readAt
    cases hOpen :
        system.engine.reader.openHandle system.engine.disk
          segmentId with
    | none =>
        simpa [WalReader.readAt, hOpen] using hSound.recent
    | some opened =>
        have hUsed :=
          WalReader.recentlyUsed_openHandle hSound.recent
            hOpen
        simpa [WalReader.readAt, hOpen] using hUsed
  coherent := by
    intro hStage
    exact (hSound.coherent hStage).readAt segmentId offset
  harmless := hSound.harmless

theorem Sound.append
    (hSound : system.Sound)
    (fault : Option AppendFault)
    (record : Record) :
    Sound
      { system with
        engine :=
          (system.engine.appendRecord fault record).2 } where
  recent := hSound.recent
  coherent := by
    intro hStage
    apply (hSound.coherent hStage).of_lookup
    exact Wal.lookup_append_of_lookup
  harmless := hSound.harmless

theorem Sound.compactStart
    (hSound : system.Sound)
    (hIdle : system.stage = .idle) :
    system.compactStart.Sound := by
  have hCoherent := hSound.coherent (by simp [hIdle,
    ReaderStage.swapping])
  unfold ReaderSystem.compactStart
  split
  · exact hSound
  · split
    · exact hSound
    · refine ⟨hSound.recent, fun _ => hCoherent, ?_⟩
      intro step hStep
      exact Wal.harmless_phase1Steps hStep

omit [Hasher] in
/- A step before the rename moves no segment. -/
theorem Sound.harmlessStep
    (hSound : system.Sound)
    {step : DiskStep}
    {stage : ReaderStage}
    (hSwapping : system.stage.swapping = false)
    (hSteps :
      system.stage.beforeRename =
        step :: stage.beforeRename) :
    (system.onDisk (step.exec system.engine.disk)
      stage).Sound where
  recent := hSound.recent
  coherent := by
    intro _
    have hHarmless : step.Harmless := by
      apply hSound.harmless
      simp [hSteps]
    apply (hSound.coherent hSwapping).of_lookup
    intro segmentId inode hLookup
    exact (hHarmless.lookup_exec _ _).trans hLookup
  harmless := by
    intro other hOther
    apply hSound.harmless
    rw [hSteps]
    exact List.mem_cons_of_mem _ hOther

omit [Hasher] in
theorem Sound.compactStep
    (hSound : system.Sound)
    (hStep : system.compactStep = some next) :
    next.Sound := by
  unfold ReaderSystem.compactStep at hStep
  split at hStep
  · next step steps closedSegments newOffsets hStage =>
      rw [Option.some.injEq] at hStep
      rw [← hStep]
      exact hSound.harmlessStep (by simp [hStage,
        ReaderStage.swapping]) (by simp [hStage,
        ReaderStage.beforeRename])
  · next step steps closedSegments newOffsets hStage =>
      rw [Option.some.injEq] at hStep
      rw [← hStep]
      exact hSound.harmlessStep (by simp [hStage,
        ReaderStage.swapping]) (by simp [hStage,
        ReaderStage.beforeRename])
  · next step steps closedSegments newOffsets hStage =>
      rw [Option.some.injEq] at hStep
      rw [← hStep]
      refine ⟨hSound.recent, ?_, ?_⟩
      · intro hOutside
        simp [onDisk, ReaderStage.swapping] at hOutside
      · intro step hStep
        simp [onDisk, ReaderStage.beforeRename] at hStep
  · simp at hStep

omit [Hasher] in
theorem Sound.compactLock
    (hSound : system.Sound)
    (hStep : system.compactLock = some next) :
    next.Sound := by
  unfold ReaderSystem.compactLock at hStep
  split at hStep
  · next closedSegments newOffsets hStage =>
      rw [Option.some.injEq] at hStep
      rw [← hStep]
      refine ⟨hSound.recent, ?_, ?_⟩
      · intro _
        apply hSound.coherent
        simp [hStage, ReaderStage.swapping]
      · intro step hStep
        exact Wal.harmless_prepareSteps hStep
  · simp at hStep

omit [Hasher] in
theorem Sound.compactRename
    (hSound : system.Sound)
    {fails : Nat → Bool}
    (hStep : system.compactRename fails = some next) :
    next.Sound := by
  unfold ReaderSystem.compactRename at hStep
  split at hStep
  · next closedSegments newOffsets hStage =>
      split at hStep
      · rw [Option.some.injEq] at hStep
        rw [← hStep]
        refine ⟨hSound.recent, ?_, ?_⟩
        · intro hOutside
          simp [onDisk, ReaderStage.swapping] at hOutside
        · intro step hStep
          simp [onDisk, ReaderStage.beforeRename] at hStep
      · rw [Option.some.injEq] at hStep
        rw [← hStep]
        refine ⟨hSound.recent, ?_, ?_⟩
        · intro _
          apply hSound.coherent
          simp [hStage, ReaderStage.swapping]
        · intro step hStep
          simp [ReaderStage.beforeRename] at hStep
  · simp at hStep

omit [Hasher] in
/- Clearing the cache makes it coherent again. -/
theorem sound_compactEnd
    (hStep : system.compactEnd = some next) :
    next.Sound := by
  unfold ReaderSystem.compactEnd at hStep
  split at hStep
  · rw [Option.some.injEq] at hStep
    rw [← hStep]
    refine ⟨?_, ?_, ?_⟩
    · exact .empty _ _
    · intro _ entry hEntry
      simp [WalReader.clearCache] at hEntry
    · intro step hStep
      simp [ReaderStage.beforeRename] at hStep
  · simp at hStep

theorem Sound.step
    (hSound : system.Sound)
    {action : ReaderAction}
    (hStep : system.step action = some next) :
    next.Sound := by
  cases action with
  | readAt segmentId offset =>
      rw [ReaderSystem.step, Option.some.injEq] at hStep
      rw [← hStep]
      exact hSound.readAt segmentId offset
  | append fault record =>
      simp only [ReaderSystem.step] at hStep
      split at hStep
      · simp at hStep
      · rw [Option.some.injEq] at hStep
        rw [← hStep]
        exact hSound.append fault record
  | compactStart =>
      simp only [ReaderSystem.step] at hStep
      split at hStep
      · next hIdle =>
          rw [Option.some.injEq] at hStep
          rw [← hStep]
          exact hSound.compactStart hIdle
      · simp at hStep
  | compactStep => exact hSound.compactStep hStep
  | compactLock => exact hSound.compactLock hStep
  | compactRename fails => exact hSound.compactRename hStep
  | compactEnd => exact sound_compactEnd hStep

end ReaderSystem

/-
  The handle cache is transparent in every run, from any
  directory.
-/
theorem readerRun_transparent [Hasher]
    {engine : Engine}
    {actions : List ReaderAction}
    {system : ReaderSystem}
    (hRun :
      Transition.Run ReaderSystem.step (fun _ _ => True)
        (.start engine) actions system) :
    system.Transparent := by
  have hSound : system.Sound := by
    apply hRun.invariant
    · exact .start engine
    · intro state next action hSound _ hStep
      exact hSound.step hStep
  exact hSound.transparent

/-
  Segments 1 and 2 are read, and then compacted; the handle
  of the unlinked segment 2 is read once more.
-/
def readsAroundCompaction : List ReaderAction :=
  [.append none ⟨1, .created, 5, [7]⟩,
    .append none ⟨2, .created, 5, [8]⟩,
    .append none ⟨3, .created, 5, [9]⟩,
    .readAt 1 0, .readAt 2 0, .compactStart,
    .compactStep, .compactStep, .compactStep, .compactStep,
    .compactStep, .compactStep, .compactStep,
    .compactLock, .compactRename (fun _ => false),
    .compactStep, .readAt 2 0, .compactStep, .compactStep,
    .compactEnd, .readAt 2 0, .readAt 1 20]

def oneRecordSegments : Engine :=
  (Engine.reopen FileSystem.empty (some 20) 4 0).2

set_option maxRecDepth 100000 in
theorem readerRun_transparent_unlinked :
    ∃ system,
      Transition.Run ReaderSystem.step (fun _ _ => True)
          (.start oneRecordSegments) readsAroundCompaction
          system ∧
        system.uses = [1, 2, 2, 1] ∧
        system.engine.reader.readCache.map Prod.fst =
          [1] ∧
        system.engine.disk.read (.wal 2) = none ∧
        system.Transparent := by
  have hEnd :
      (Transition.execute ReaderSystem.step
        readsAroundCompaction (.start oneRecordSegments)).any
          (fun system =>
            decide (system.uses = [1, 2, 2, 1]) &&
              decide
                (system.engine.reader.readCache.map
                  Prod.fst = [1]) &&
              decide
                (system.engine.disk.read (.wal 2) =
                  none)) = true := by
    decide +kernel
  rcases Transition.exists_run_of_execute
    (fun (_ : ReaderSystem) (_ : ReaderAction) _ => trivial)
    hEnd with ⟨system, hRun, hChecks⟩
  simp only [Bool.and_eq_true, decide_eq_true_eq] at hChecks
  rcases hChecks with ⟨⟨hUses, hKeys⟩, hUnlinked⟩
  exact ⟨system, hRun, hUses, hKeys, hUnlinked,
    readerRun_transparent hRun⟩

end Nesso
