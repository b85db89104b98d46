import Nesso.Log.SegmentedLog

/-
  What opening a directory without compaction leftovers does:
  the active segment loses its torn tail, and everything else
  stays as it is.

  Key definitions include:
    * `Disk.Clean`
    * `Disk.ofSegments`

  The opening theorems are:
    * `Wal.read_open`
    * `Wal.tracks_open_torn`
    * `Wal.tracks_open`
    * `Wal.tracks_open_empty`
-/

------------------------------------------------------------
-- Clean Directories
------------------------------------------------------------

namespace Nesso

/- No file of a compaction is left in the directory. -/
def Disk.Clean (disk : Disk) : Prop :=
  ∀ name, FileName.segmentId? name = none →
    disk.read name = none

namespace Disk

/- A file is present when it can be read. -/
theorem contains_eq
    (disk : Disk)
    (name : FileName) :
    disk.contains name = (disk.read name).isSome := by
  rw [contains, FileSystem.read, Option.isSome_map]

theorem Clean.contains_eq_false
    {disk : Disk}
    (hClean : disk.Clean)
    {name : FileName}
    (hName : FileName.segmentId? name = none) :
    disk.contains name = false := by
  rw [contains_eq, hClean name hName]
  rfl

theorem Extends.clean
    {disk next : Disk}
    (hExtends : disk.Extends next)
    (hClean : disk.Clean) :
    next.Clean := by
  intro name hName
  rw [hExtends.read_other hName]
  exact hClean name hName

end Disk

section OfSegments

variable [Hasher]

/- A directory in which exactly the given segments exist. -/
def Disk.ofSegments : List Segment → Disk
| [] => FileSystem.empty
| segment :: segments =>
    FileSystem.execAll (Disk.ofSegments segments)
      [.createTruncate (.wal segment.1),
        .write (.wal segment.1) (encodeRecords segment.2)]

theorem Disk.read_ofSegments_cons
    (segment : Segment)
    (segments : List Segment)
    (name : FileName) :
    (Disk.ofSegments (segment :: segments)).read name =
      if name = .wal segment.1 then
        some (encodeRecords segment.2)
      else (Disk.ofSegments segments).read name := by
  simp only [Disk.ofSegments, FileSystem.execAll,
    List.foldl_cons, List.foldl_nil]
  rw [FileSystem.read_exec_write,
    FileSystem.read_exec_createTruncate,
    FileSystem.read_exec_createTruncate]
  by_cases hName : name = .wal segment.1
  · simp [hName]
  · simp [hName]

theorem Disk.clean_ofSegments
    (segments : List Segment) :
    (Disk.ofSegments segments).Clean := by
  intro name hName
  induction segments with
  | nil => exact FileSystem.read_empty name
  | cons segment segments ih =>
      rw [Disk.read_ofSegments_cons, if_neg]
      · exact ih
      · rintro rfl
        simp [FileName.segmentId?] at hName

theorem SegmentsOn.ofSegments
    {segments : List Segment}
    (hSorted :
      segments.Pairwise
        (fun left right => left.1 < right.1))
    (hOne : ∀ segment ∈ segments, 1 ≤ segment.1)
    (hFits :
      ∀ segment ∈ segments,
        ∀ record ∈ segment.2, record.Fits) :
    SegmentsOn (Disk.ofSegments segments) segments := by
  refine ⟨hSorted, hOne, hFits, ?_⟩
  intro segmentId content
  clear hOne hFits
  induction segments with
  | nil => simp [Disk.ofSegments, FileSystem.read_empty]
  | cons segment segments ih =>
      rw [List.pairwise_cons] at hSorted
      rw [Disk.read_ofSegments_cons]
      simp only [FileName.wal.injEq]
      by_cases hId : segmentId = segment.1
      · rw [if_pos hId, Option.some.injEq]
        constructor
        · rintro rfl
          exact ⟨segment.2, by simp [hId], rfl⟩
        · rintro ⟨records, hMem, rfl⟩
          rcases List.mem_cons.mp hMem with hHead | hTail
          · rw [← hHead]
          · have hLt := hSorted.1 _ hTail
            simp only at hLt
            omega
      · rw [if_neg hId, ih hSorted.2]
        constructor
        · rintro ⟨records, hMem, hContent⟩
          exact ⟨records, List.mem_cons_of_mem _ hMem,
            hContent⟩
        · rintro ⟨records, hMem, hContent⟩
          rcases List.mem_cons.mp hMem with hHead | hTail
          · rw [← hHead] at hId
            exact (hId rfl).elim
          · exact ⟨records, hTail, hContent⟩

end OfSegments

/- The maximum of a list is found by folding from zero. -/
theorem foldl_max_eq
    {numbers : List Nat}
    {bound : Nat}
    (hMem : bound ∈ numbers)
    (hLe : ∀ number ∈ numbers, number ≤ bound) :
    numbers.foldl max 0 = bound := by
  have hFold :
      ∀ (numbers : List Nat) (start : Nat),
        start ≤ numbers.foldl max start ∧
          (∀ number ∈ numbers,
            number ≤ numbers.foldl max start) ∧
          ∀ bound, start ≤ bound →
            (∀ number ∈ numbers, number ≤ bound) →
              numbers.foldl max start ≤ bound := by
    intro numbers
    induction numbers with
    | nil => intro start; simp
    | cons head numbers ih =>
        intro start
        rcases ih (max start head) with
          ⟨hStart, hEach, hBound⟩
        refine ⟨?_, ?_, ?_⟩
        · exact le_trans (le_max_left _ _) hStart
        · intro number hNumber
          rcases List.mem_cons.mp hNumber with rfl | hTail
          · exact le_trans (le_max_right _ _) hStart
          · exact hEach number hTail
        · intro bound hLe hAll
          apply hBound
          · exact max_le hLe (hAll head (by simp))
          · intro number hNumber
            exact hAll number (by simp [hNumber])
  rcases hFold numbers 0 with ⟨_, hEach, hBound⟩
  exact le_antisymm (hBound bound (Nat.zero_le _) hLe)
    (hEach bound hMem)

end Nesso

------------------------------------------------------------
-- Opening a Clean Directory
------------------------------------------------------------

namespace Nesso

namespace Wal

variable [Hasher]
variable {disk : Disk}

omit [Hasher] in
theorem cleanupSteps_of_clean
    (hClean : disk.Clean) :
    cleanupSteps disk = [] := by
  have hPlan : disk.contains .compactionPlan = false :=
    hClean.contains_eq_false rfl
  have hSwap : disk.contains .compactionSwap = false :=
    hClean.contains_eq_false rfl
  simp [cleanupSteps, activePlan, hPlan, hSwap]

omit [Hasher] in
theorem sweepSteps_of_clean
    (hClean : disk.Clean) :
    sweepSteps disk = [] := by
  have hTemp : disk.contains .compacting = false :=
    hClean.contains_eq_false rfl
  simp [sweepSteps, hTemp]

omit [Hasher] in
theorem sweep_of_clean
    (hClean : disk.Clean) :
    sweep disk = disk := by
  simp [sweep, cleanupSteps_of_clean hClean,
    sweepSteps_of_clean hClean]

/- The active segment is cut to its valid frames. -/
theorem read_activate
    (disk : Disk)
    (name : FileName) :
    (disk.execAll (activateSteps disk)).read name =
      if name = .wal (lastSegmentId disk) then
        some (((disk.read
          (.wal (lastSegmentId disk))).getD []).take
            (validOffset disk))
      else disk.read name := by
  unfold activateSteps
  dsimp only
  split
  · simp only [FileSystem.execAll_cons,
      FileSystem.execAll_nil]
    change (FileSystem.Step.exec _
      (.truncate (.wal (lastSegmentId disk))
        (validOffset disk))).read name = _
    rw [FileSystem.read_exec_truncate]
    simp only [FileSystem.Step.exec, FileSystem.read_create,
      if_true]
    by_cases hName : name = .wal (lastSegmentId disk)
    · simp [hName]
    · simp [hName]
  · next hValid =>
      simp only [FileSystem.execAll_cons,
        FileSystem.execAll_nil, FileSystem.Step.exec,
        FileSystem.read_create]
      rw [List.take_of_length_le (by omega)]

/- Opening only touches the active segment. -/
theorem read_open
    (hClean : disk.Clean)
    (maxSegmentSize : Option Nat)
    (name : FileName) :
    (Wal.open disk maxSegmentSize).1.read name =
      if name = .wal (lastSegmentId disk) then
        some (((disk.read
          (.wal (lastSegmentId disk))).getD []).take
            (validOffset disk))
      else disk.read name := by
  have hSteps : openSteps disk = activateSteps disk := by
    simp [openSteps, cleanupSteps_of_clean hClean,
      sweepSteps_of_clean hClean, sweep_of_clean hClean]
  simp only [Wal.open, hSteps]
  exact read_activate disk name

/-
  Opening a log whose active segment was cut at any byte
  keeps exactly the complete records.
-/
theorem tracks_open_torn
    {log : SegmentedLog}
    {size : Nat}
    {intact : Disk}
    (hSegments : SegmentsOn intact log.segments)
    (hClean : intact.Clean)
    (hCut :
      ∀ name,
        disk.read name =
          if name = .wal log.activeId then
            some ((encodeRecords log.active).take size)
          else intact.read name)
    (maxSegmentSize : Option Nat) :
    (Wal.open disk maxSegmentSize).2.Tracks
        (Wal.open disk maxSegmentSize).1
        { log with
          active :=
            Framing.complete Record.encode size
              log.active } ∧
      (Wal.open disk maxSegmentSize).1.Clean ∧
      (Wal.open disk maxSegmentSize).2.maxSegmentSize =
        maxSegmentSize.getD defaultMaxSegmentSize := by
  have hDiskClean : disk.Clean := by
    intro name hName
    rw [hCut, if_neg]
    · exact hClean name hName
    · rintro rfl
      simp [FileName.segmentId?] at hName
  have hActiveMem :
      (log.activeId, log.active) ∈ log.segments := by
    simp [SegmentedLog.segments]
  have hFits : ∀ record ∈ log.active, record.Fits :=
    hSegments.fits _ hActiveMem
  have hIds :
      disk.segmentIds = log.segments.map Prod.fst := by
    rw [← hSegments.segmentIds_eq]
    apply Disk.segmentIds_eq_of_mem_iff
      (Disk.segmentIds_pairwise_lt intact)
    intro segmentId
    rw [Disk.mem_segmentIds_iff, hCut]
    by_cases hActive : segmentId = log.activeId
    · subst hActive
      simp [hSegments.read_of_mem hActiveMem]
    · simp [hActive]
  have hLast : lastSegmentId disk = log.activeId := by
    have hMax :
        disk.segmentIds.foldl max 0 = log.activeId := by
      apply foldl_max_eq
      · rw [hIds]
        exact List.mem_map.mpr ⟨_, hActiveMem, rfl⟩
      · intro segmentId hMem
        rw [hIds] at hMem
        rcases List.mem_map.mp hMem with
          ⟨segment, hSegment, rfl⟩
        exact hSegments.le_activeId hSegment
    have hOne : 1 ≤ log.activeId :=
      hSegments.one_le _ hActiveMem
    simp only [lastSegmentId, hMax]
    rw [if_neg (by omega)]
  rcases frameCodec.take_encodeAll_eq hFits size with
    ⟨torn, hTake, hTorn⟩
  change frameParser.parse torn = none at hTorn
  have hCompleteFits :
      ∀ record ∈
        Framing.complete Record.encode size log.active,
          record.Fits := by
    intro record hRecord
    exact hFits record
      ((Framing.complete_prefix _ _ _).subset hRecord)
  have hContent :
      disk.read (.wal log.activeId) =
        some (encodeRecords
          (Framing.complete Record.encode size log.active)
            ++ torn) := by
    rw [hCut, if_pos rfl]
    exact congrArg some hTake
  have hValid :
      validOffset disk =
        (encodeRecords
          (Framing.complete Record.encode size
            log.active)).length := by
    rw [validOffset, hLast, hContent, Option.getD_some,
      validLength_encodeRecords_append hCompleteFits,
      Framing.validLength_eq_zero hTorn, Nat.add_zero]
  have hRead :
      ∀ name,
        (Wal.open disk maxSegmentSize).1.read name =
          if name = .wal log.activeId then
            some (encodeRecords
              (Framing.complete Record.encode size
                log.active))
          else intact.read name := by
    intro name
    rw [read_open hDiskClean, hLast, hContent, hValid,
      Option.getD_some, List.take_left]
    by_cases hName : name = .wal log.activeId
    · simp [hName]
    · rw [if_neg hName, if_neg hName, hCut, if_neg hName]
  refine ⟨?_, ?_, rfl⟩
  · constructor
    · exact hSegments.replaceActive hCompleteFits hRead
    · exact (by rw [sweep_of_clean hDiskClean, hLast] :
        lastSegmentId (sweep disk) = log.activeId)
    · -- The handle is looked up after the last step.
      have hPresent := hRead (.wal log.activeId)
      rw [if_pos rfl] at hPresent
      rcases FileSystem.read_eq_some_iff.mp hPresent with
        ⟨inode, hLookup, _⟩
      have hFile :
          (Wal.open disk maxSegmentSize).2.activeFile =
            ((Wal.open disk maxSegmentSize).1.lookup
              (.wal (lastSegmentId (sweep disk)))).getD
                0 := rfl
      rw [hFile, sweep_of_clean hDiskClean, hLast, hLookup]
      rfl
    · exact (by rw [sweep_of_clean hDiskClean, hValid] :
        validOffset (sweep disk) = _)
  · intro name hName
    rw [hRead, if_neg]
    · exact hClean name hName
    · rintro rfl
      simp [FileName.segmentId?] at hName

/- Opening an undamaged directory keeps its whole log. -/
theorem tracks_open
    {log : SegmentedLog}
    (hSegments : SegmentsOn disk log.segments)
    (hClean : disk.Clean)
    (maxSegmentSize : Option Nat) :
    (Wal.open disk maxSegmentSize).2.Tracks
        (Wal.open disk maxSegmentSize).1 log ∧
      (Wal.open disk maxSegmentSize).1.Clean ∧
      (Wal.open disk maxSegmentSize).2.maxSegmentSize =
        maxSegmentSize.getD defaultMaxSegmentSize := by
  have hActive :
      disk.read (.wal log.activeId) =
        some (encodeRecords log.active) :=
    hSegments.read_of_mem (by simp [SegmentedLog.segments])
  have hWhole :
      Framing.complete Record.encode
          (encodeRecords log.active).length log.active =
        log.active :=
    (Framing.complete_prefix _ _ _).eq_of_length_le
      (Framing.prefix_complete_of_length_le
        (List.prefix_refl _) (le_refl _)).length_le
  have hCut :
      ∀ name,
        disk.read name =
          if name = .wal log.activeId then
            some ((encodeRecords log.active).take
              (encodeRecords log.active).length)
          else disk.read name := by
    intro name
    by_cases hName : name = .wal log.activeId
    · simp [hName, hActive]
    · simp [hName]
  have hOpen :=
    tracks_open_torn hSegments hClean hCut maxSegmentSize
  rwa [hWhole] at hOpen

/- Opening an empty directory starts segment 1. -/
theorem tracks_open_empty
    (maxSegmentSize : Option Nat) :
    (Wal.open FileSystem.empty maxSegmentSize).2.Tracks
        (Wal.open FileSystem.empty maxSegmentSize).1
        { closed := [], activeId := 1, active := [] } ∧
      (Wal.open FileSystem.empty
        maxSegmentSize).1.Clean ∧
      (Wal.open FileSystem.empty
          maxSegmentSize).2.maxSegmentSize =
        maxSegmentSize.getD defaultMaxSegmentSize := by
  have hClean : Disk.Clean FileSystem.empty := by
    intro name _
    exact FileSystem.read_empty name
  have hLast : lastSegmentId FileSystem.empty = 1 := rfl
  have hValid : validOffset FileSystem.empty = 0 := by
    rw [validOffset, FileSystem.read_empty]
    exact Framing.validLength_eq_zero
      (Framing.Parser.parse_nil _)
  have hRead :
      ∀ name,
        (Wal.open FileSystem.empty maxSegmentSize).1.read
            name =
          if name = .wal 1 then some []
          else none := by
    intro name
    rw [read_open hClean, hLast, hValid,
      FileSystem.read_empty, FileSystem.read_empty]
    simp
  have hFile :
      (Wal.open FileSystem.empty
          maxSegmentSize).2.activeFile =
        ((Wal.open FileSystem.empty
          maxSegmentSize).1.lookup (.wal 1)).getD 0 := rfl
  refine ⟨?_, ?_, rfl⟩
  · constructor
    · constructor
      · simp [SegmentedLog.segments]
      · simp [SegmentedLog.segments]
      · simp [SegmentedLog.segments]
      · intro segmentId content
        simp only [hRead, SegmentedLog.segments,
          FileName.wal.injEq]
        by_cases hOne : segmentId = 1
        · simp [hOne, encodeRecords, eq_comm]
        · simp [hOne]
    · rfl
    · have hPresent := hRead (.wal 1)
      rw [if_pos rfl] at hPresent
      rcases FileSystem.read_eq_some_iff.mp hPresent with
        ⟨inode, hLookup, _⟩
      rw [hFile, hLookup]
      rfl
    · exact (by rw [sweep_of_clean hClean, hValid] :
        validOffset (sweep FileSystem.empty) = _)
  · intro name hName
    rw [hRead, if_neg]
    rintro rfl
    simp [FileName.segmentId?] at hName

end Wal

end Nesso
