import Nesso.Log.CompactionCrashes
import Nesso.Storage.Checksum

/-
  Openings that are interrupted while they clean up after a
  crashed compaction, any number of times.

  Key definitions include:
    * `Wal.interruptOpens`
    * `Wal.Exposes`
    * `Wal.NeverExposes`

  The main theorem is:
    * `Wal.open_restartable_iff`
-/

------------------------------------------------------------
-- Restarting the Cleanup
------------------------------------------------------------

namespace Nesso

namespace Wal

variable [Hasher]

/- A run of openings that all stop somewhere. -/
def interruptOpens
    (disk : Disk)
    (counts : List Nat) : Disk :=
  counts.foldl interruptOpen disk

/-
  The opening stops after it removed the temporary segment
  and before it removes a plan that names a segment.
-/
def Exposes
    (disk : Disk)
    (count : Nat) : Prop :=
  count = 1 ∧ disk.contains .compacting = true ∧
    disk.contains .compactionPlan = true ∧
    ∃ segmentId ∈ obsoleteSegments disk .compactionPlan,
      disk.contains (.wal segmentId) = true

instance
    (disk : Disk)
    (count : Nat) :
    Decidable (Exposes disk count) :=
  inferInstanceAs (Decidable (_ ∧ _ ∧ _ ∧ _))

/- No opening of the run stops at that point. -/
def NeverExposes : Disk → List Nat → Prop
| _, [] => True
| disk, count :: counts =>
    ¬ Exposes disk count ∧
      NeverExposes (interruptOpen disk count) counts

/- A plan without temporary segment names this segment. -/
structure Doomed
    (segmentId : Nat)
    (left : Disk) : Prop where
  above : 1 < segmentId
  no_temp : left.read .compacting = none
  no_swap : left.read .compactionSwap = none
  named :
    left.read (.wal segmentId) = none ∨
      left.contains .compactionPlan = true ∧
        segmentId ∈ obsoleteSegments left .compactionPlan

variable {left : Disk} {segmentId : Nat}

omit [Hasher] in
/- The active segment exists, or is segment 1. -/
theorem lastSegmentId_mem
    (disk : Disk)
    (hAbove : 1 < lastSegmentId disk) :
    lastSegmentId disk ∈ disk.segmentIds := by
  rcases List.eq_nil_or_concat disk.segmentIds with
    hNil | ⟨front, last, hIds⟩
  · simp [lastSegmentId, hNil] at hAbove
  · rw [List.concat_eq_append] at hIds
    by_cases hOne : 1 ≤ last
    · simp [lastSegmentId_eq hIds hOne, hIds]
    · have hZero : last = 0 := by omega
      have hSorted := Disk.segmentIds_pairwise_lt disk
      rw [hIds, List.pairwise_append] at hSorted
      have hFront : front = [] := by
        apply List.eq_nil_iff_forall_not_mem.mpr
        intro other hOther
        have hLt := hSorted.2.2 other hOther last (by simp)
        omega
      simp [lastSegmentId, hIds, hFront, hZero] at hAbove

omit [Hasher] in
theorem Doomed.read_sweep
    (hDoomed : Doomed segmentId left) :
    (sweep left).read (.wal segmentId) = none := by
  rw [Wal.read_sweep hDoomed.no_swap]
  split
  · rfl
  · next hKept =>
      rcases hDoomed.named with hNone | ⟨hPlan, hNamed⟩
      · exact hNone
      · apply absurd _ hKept
        apply wal_mem_removedNames_iff.mpr
        simp [hPlan, hNamed, Disk.contains_eq,
          hDoomed.no_temp]

/- Opening the active segment revives no other file. -/
theorem Doomed.not_target
    (hDoomed : Doomed segmentId left)
    {step : DiskStep}
    (hStep : step ∈ activateSteps (sweep left))
    {name : FileName}
    (hName :
      name = .wal segmentId ∨ name.segmentId? = none) :
    name ∉ step.targets := by
  have hLast :
      segmentId ≠ lastSegmentId (sweep left) := by
    intro hEq
    have hMem :=
      lastSegmentId_mem (sweep left)
        (hEq ▸ hDoomed.above)
    rw [← hEq, Disk.mem_segmentIds_iff,
      hDoomed.read_sweep] at hMem
    simp at hMem
  have hTargets :
      ∀ target ∈ step.targets,
        target = .wal (lastSegmentId (sweep left)) := by
    intro target hTarget
    unfold activateSteps at hStep
    simp only [List.mem_cons] at hStep
    rcases hStep with hEq | hStep
    · simpa [hEq, FileSystem.Step.targets] using hTarget
    · split at hStep
      · simp only [List.mem_cons, List.not_mem_nil,
          or_false] at hStep
        rcases hStep with hEq | hEq
        · simpa [hEq, FileSystem.Step.targets] using hTarget
        · simp [hEq, FileSystem.Step.targets] at hTarget
      · simp at hStep
  intro hTarget
  have hEq := hTargets name hTarget
  rcases hName with hWal | hNone
  · rw [hWal, FileName.wal.injEq] at hEq
    exact hLast hEq
  · rw [hEq] at hNone
    simp [FileName.segmentId?] at hNone

theorem Doomed.read_interruptOpen
    (hDoomed : Doomed segmentId left)
    (count : Nat)
    {name : FileName}
    (hName :
      name = .wal segmentId ∨ name.segmentId? = none) :
    (Wal.interruptOpen left count).read name =
      if name ∈ (removedNames left).take count then none
      else left.read name := by
  rw [Wal.interruptOpen, openSteps_eq hDoomed.no_swap,
    List.take_append, FileSystem.execAll_append,
    FileSystem.read_execAll_of_not_target, ← List.map_take,
    FileSystem.read_execAll_removes]
  intro step hStep
  exact hDoomed.not_target (List.mem_of_mem_take hStep)
    hName

/- No interruption saves a doomed segment. -/
theorem Doomed.interruptOpen
    (hDoomed : Doomed segmentId left)
    (count : Nat) :
    Doomed segmentId (Wal.interruptOpen left count) := by
  have hWal :=
    hDoomed.read_interruptOpen count (.inl rfl)
  have hPlanRead :
      (Wal.interruptOpen left count).read .compactionPlan =
        _ :=
    hDoomed.read_interruptOpen count (.inr rfl)
  constructor
  · exact hDoomed.above
  · rw [hDoomed.read_interruptOpen count (.inr rfl),
      hDoomed.no_temp]
    simp
  · rw [hDoomed.read_interruptOpen count (.inr rfl),
      hDoomed.no_swap]
    simp
  · rcases hDoomed.named with hNone | ⟨hPlan, hNamed⟩
    · left
      rw [hWal, hNone]
      simp
    · have hNames :
          removedNames left =
            (obsoleteSegments left .compactionPlan).map
                .wal ++ [.compactionPlan] := by
        simp [removedNames, hPlan, Disk.contains_eq left
          .compacting, hDoomed.no_temp]
      by_cases hCount :
          count ≤
            (obsoleteSegments left .compactionPlan).length
      · right
        have hKept :
            FileName.compactionPlan ∉
              (removedNames left).take count := by
          rw [hNames, List.take_append_of_le_length
            (by simpa using hCount)]
          intro hMem
          have hName := List.mem_of_mem_take hMem
          simp at hName
        rw [if_neg hKept] at hPlanRead
        refine ⟨?_, ?_⟩
        · rw [Disk.contains_eq, hPlanRead,
            ← Disk.contains_eq]
          exact hPlan
        · simpa [obsoleteSegments, hPlanRead] using hNamed
      · left
        rw [hWal, if_pos]
        rw [List.take_of_length_le (by
          rw [hNames, List.length_append, List.length_map,
            List.length_singleton]
          omega), hNames]
        simp [hNamed]

theorem Doomed.interruptOpens
    (hDoomed : Doomed segmentId left)
    (counts : List Nat) :
    Doomed segmentId (Wal.interruptOpens left counts) := by
  induction counts generalizing left with
  | nil => exact hDoomed
  | cons count counts ih =>
      exact ih (hDoomed.interruptOpen count)

theorem Doomed.not_mem_open
    (hDoomed : Doomed segmentId left)
    (maxSegmentSize : Option Nat) :
    segmentId ∉
      (Wal.open left maxSegmentSize).1.segmentIds := by
  have hSteps :
      (Wal.open left maxSegmentSize).1 =
        (sweep left).execAll
          (activateSteps (sweep left)) := by
    simp only [Wal.open, openSteps, sweep,
      FileSystem.execAll_append]
  rw [Disk.mem_segmentIds_iff, hSteps,
    FileSystem.read_execAll_of_not_target _ (fun step hStep =>
      hDoomed.not_target hStep (.inl rfl)),
    hDoomed.read_sweep]
  simp

/- Stopping at the wrong point dooms a segment. -/
theorem Intact.doomed
    {disk : Disk}
    (hSettled : disk.Settled)
    (hIntact : Intact disk left)
    {count : Nat}
    (hExposes : Exposes left count) :
    ∃ segmentId ∈ left.segmentIds,
      Doomed segmentId (Wal.interruptOpen left count) := by
  rcases hExposes with
    ⟨hCount, hTemp, hPlan, segmentId, hObsolete, hPresent⟩
  have hSwept : (sweep left).Settled :=
    hSettled.of_read_eq (hIntact.read_sweep hSettled.clean)
  have hNames :
      removedNames left =
        [.compacting, .compactionPlan] := by
    simp [removedNames, hPlan, hTemp]
  have hRead :
      ∀ name,
        (Wal.interruptOpen left count).read name =
          if name = .compacting then none
          else left.read name := by
    intro name
    rw [Wal.read_interruptOpen hIntact.no_swap hSwept,
      hNames, hCount]
    simp
  have hAbove : 1 < segmentId := by
    unfold obsoleteSegments at hObsolete
    split at hObsolete
    · simpa using (List.mem_filter.mp hObsolete).2
    · simp at hObsolete
  refine ⟨segmentId, ?_, hAbove, ?_, ?_, .inr ⟨?_, ?_⟩⟩
  · rw [Disk.contains_eq, Option.isSome_iff_exists]
      at hPresent
    exact Disk.mem_segmentIds_iff.mpr hPresent
  · simp [hRead]
  · simp [hRead, hIntact.no_swap]
  · rw [Disk.contains_eq] at hPlan ⊢
    simpa [hRead] using hPlan
  · simpa [obsoleteSegments, hRead] using hObsolete

variable {disk target : Disk} {ids rest : List Nat}

/- Restarts before the swap. -/
theorem Intact.restartable_iff
    (hSettled : disk.Settled)
    (hIntact : Intact disk left)
    (counts : List Nat)
    (maxSegmentSize : Option Nat) :
    (Wal.entries
          (Wal.open (Wal.interruptOpens left counts)
            maxSegmentSize).1 = Wal.entries disk ∧
        ∀ segmentId ∈ disk.segmentIds,
          segmentId ∈
            (Wal.open (Wal.interruptOpens left counts)
              maxSegmentSize).1.segmentIds) ↔
      NeverExposes left counts := by
  induction counts generalizing left with
  | nil =>
      have hRead :=
        hIntact.read_open hSettled maxSegmentSize
      have hSegments :
          ∀ segmentId,
            (Wal.open left maxSegmentSize).1.read
                (.wal segmentId) =
              disk.read (.wal segmentId) := by
        intro segmentId
        exact hRead _
      simp [Wal.interruptOpens, NeverExposes,
        Wal.entries_congr hSegments,
        Disk.segmentIds_congr hSegments]
  | cons count counts ih =>
      by_cases hExposes : Exposes left count
      · rcases hIntact.doomed hSettled hExposes with
          ⟨segmentId, hMem, hDoomed⟩
        have hGone :=
          (hDoomed.interruptOpens counts).not_mem_open
            maxSegmentSize
        rw [Disk.segmentIds_congr hIntact.segments] at hMem
        constructor
        · intro hKept
          exact (hGone (hKept.2 segmentId hMem)).elim
        · intro hNever
          exact (hNever.1 hExposes).elim
      · have hNext :
            Intact disk (Wal.interruptOpen left count) := by
          apply hIntact.interruptOpen hSettled
          intro hCount hTemp hPlan segmentId hObsolete
          cases hPresent :
              left.contains (.wal segmentId) with
          | false => rfl
          | true =>
              exact (hExposes ⟨hCount, hTemp, hPlan,
                segmentId, hObsolete, hPresent⟩).elim
        have hIff := ih hNext
        simpa [NeverExposes, hExposes, Wal.interruptOpens]
          using hIff

/- Restarts after the swap. -/
theorem Swapped.interruptOpens
    (hSome : ids ≠ [])
    (hTarget : CompactsTo disk ids rest target)
    (hSwapped : Swapped ids target left)
    (counts : List Nat) :
    Swapped ids target (Wal.interruptOpens left counts) ∧
      NeverExposes left counts := by
  induction counts generalizing left with
  | nil => exact ⟨hSwapped, trivial⟩
  | cons count counts ih =>
      have hNext :=
        ih (hSwapped.interruptOpen hSome hTarget count)
      refine ⟨hNext.1, ?_, hNext.2⟩
      intro hExposes
      have hTemp := hExposes.2.1
      simp [Disk.contains_eq, hSwapped.no_temp] at hTemp

/-
  After any crash of a compaction and any interrupted
  openings, an opening yields what an opening right after
  the crash would have, and deletes no segment before the
  swap, exactly if no opening stopped between removing the
  temporary segment and a plan that names a segment.
-/
theorem open_restartable_iff
    (hSettled : disk.Settled)
    (hIds : disk.segmentIds = ids ++ rest)
    (hSome : ids ≠ [])
    (hRest : rest ≠ [])
    (hCrash :
      FileSystem.CrashesTo disk (compactionSteps disk ids)
        left)
    (counts : List Nat)
    (maxSegmentSize : Option Nat) :
    ((iterAll
            (Wal.open (interruptOpens left counts)
              maxSegmentSize).1).2 =
          (iterAll (Wal.open left maxSegmentSize).1).2 ∧
        (FileSystem.CrashesTo disk
            (phase1Steps ids
              (compacted (recordsIn disk ids))) left →
          ∀ segmentId ∈ left.segmentIds,
            segmentId ∈
              (Wal.open (interruptOpens left counts)
                maxSegmentSize).1.segmentIds)) ↔
      NeverExposes left counts := by
  rcases exists_compactsTo hSettled hIds hSome hRest with
    ⟨target, hTarget⟩
  by_cases hBefore :
      FileSystem.CrashesTo disk
        (phase1Steps ids (compacted (recordsIn disk ids)))
        left
  · have hIntact :=
      intact_of_phase1 hSettled.clean hBefore
    have hEntries :
        Wal.entries (Wal.open left maxSegmentSize).1 =
          Wal.entries disk :=
      Wal.entries_congr (fun _ =>
        hIntact.read_open hSettled maxSegmentSize _)
    have hIff :=
      hIntact.restartable_iff hSettled counts maxSegmentSize
    simpa [iterAll, hEntries, hBefore,
      Disk.segmentIds_congr hIntact.segments] using hIff
  · rcases intact_or_swapped hSettled hIds hTarget hCrash
      with hPhase1 | hSwapped
    · exact (hBefore hPhase1).elim
    · have hRun :=
        hSwapped.interruptOpens hSome hTarget counts
      have hEntries :
          Wal.entries
              (Wal.open (interruptOpens left counts)
                maxSegmentSize).1 =
            Wal.entries (Wal.open left maxSegmentSize).1 := by
        apply Wal.entries_congr
        intro segmentId
        rw [hRun.1.read_open hSome hTarget,
          hSwapped.read_open hSome hTarget]
      simp [iterAll, hEntries, hBefore, hRun.2]

end Wal

end Nesso

namespace Nesso

/- Two closed segments and an empty active one. -/
def twoClosedSegments : List Segment :=
  [(1, [⟨1, .created, 5, []⟩]),
    (2, [⟨2, .created, 5, []⟩]), (3, [])]

/- The directory after phase 1, before the swap. -/
def plannedDisk : Disk :=
  FileSystem.execAll (Disk.ofSegments twoClosedSegments)
    ((Wal.compactionSteps
      (Disk.ofSegments twoClosedSegments) [1, 2]).take 7)

theorem segmentsOn_twoClosedSegments :
    SegmentsOn (Disk.ofSegments twoClosedSegments)
      twoClosedSegments := by
  apply SegmentsOn.ofSegments
  · decide
  · decide
  · decide

set_option maxRecDepth 100000 in
/-
  One opening stops after its first unlink; the next one
  takes the compaction for finished and deletes segment 2.
-/
theorem Wal.open_deletes_closed_segment :
    FileSystem.CrashesTo (Disk.ofSegments twoClosedSegments)
        (Wal.compactionSteps
          (Disk.ofSegments twoClosedSegments) [1, 2])
        plannedDisk ∧
      (Wal.iterAll
        (Wal.open plannedDisk none).1).2.length = 2 ∧
      (Wal.iterAll
        (Wal.open (Wal.interruptOpens plannedDisk [1])
          none).1).2.length = 1 ∧
      (Wal.open (Wal.interruptOpens plannedDisk [1])
        none).1.segmentIds = [1, 3] := by
  refine ⟨.take _ _ 7, by decide +kernel,
    by decide +kernel, by decide +kernel⟩

/- Stopping after both unlinks does no harm. -/
theorem Wal.open_restartable_iff_twoClosed :
    (((Wal.iterAll
            (Wal.open (Wal.interruptOpens plannedDisk [0, 2])
              none).1).2 =
          (Wal.iterAll (Wal.open plannedDisk none).1).2 ∧
        (FileSystem.CrashesTo
            (Disk.ofSegments twoClosedSegments)
            (Wal.phase1Steps [1, 2]
              (compacted
                (Wal.recordsIn
                  (Disk.ofSegments twoClosedSegments)
                  [1, 2]))) plannedDisk →
          ∀ segmentId ∈ plannedDisk.segmentIds,
            segmentId ∈
              (Wal.open
                (Wal.interruptOpens plannedDisk [0, 2])
                none).1.segmentIds)) ↔
      Wal.NeverExposes plannedDisk [0, 2]) ∧
      Wal.NeverExposes plannedDisk [0, 2] := by
  have hSettled :=
    segmentsOn_twoClosedSegments.settled (by decide)
      (Disk.clean_ofSegments _)
  have hIds :
      (Disk.ofSegments twoClosedSegments).segmentIds =
        [1, 2] ++ [3] :=
    segmentsOn_twoClosedSegments.segmentIds_eq
  have hCrash :
      FileSystem.CrashesTo
        (Disk.ofSegments twoClosedSegments)
        (Wal.compactionSteps
          (Disk.ofSegments twoClosedSegments) [1, 2])
        plannedDisk :=
    .take _ _ 7
  refine ⟨Wal.open_restartable_iff hSettled hIds (by simp)
    (by simp) hCrash [0, 2] none, ?_⟩
  simp [Wal.NeverExposes, Wal.Exposes]

end Nesso
