import Nesso.Log.Payloads

/-
  Opening and compacting any directory, whatever its segments
  contain, and also when unlinking old segments fails.

  Key definitions include:
    * `Disk.Settled`
    * `Wal.entriesIn`
    * `Wal.leftover`
    * `Wal.compactSegments`

  The main theorems are:
    * `Disk.Settled.read_open`
    * `Wal.compaction_failing_spec`
    * `Wal.compactSegments_spec`
-/

------------------------------------------------------------
-- Settled Directories
------------------------------------------------------------

namespace Nesso

variable [Hasher]

/-
  What an open queue keeps its directory in: no compaction
  files, and an active segment of whole frames.
-/
structure Disk.Settled (disk : Disk) : Prop where
  clean : disk.Clean
  some_segment : disk.segmentIds ≠ []
  one_le : ∀ segmentId ∈ disk.segmentIds, 1 ≤ segmentId
  whole :
    ∀ content,
      disk.read (.wal (Wal.lastSegmentId disk)) =
          some content →
        Framing.validLength frameParser content =
          content.length

namespace Wal

omit [Hasher] in
/- The active segment is the last one. -/
theorem lastSegmentId_eq
    {disk : Disk}
    {front : List Nat}
    {last : Nat}
    (hIds : disk.segmentIds = front ++ [last])
    (hOne : 1 ≤ last) :
    lastSegmentId disk = last := by
  have hSorted := Disk.segmentIds_pairwise_lt disk
  rw [hIds, List.pairwise_append] at hSorted
  have hMax : disk.segmentIds.foldl max 0 = last := by
    apply foldl_max_eq
    · simp [hIds]
    · intro segmentId hMem
      simp only [hIds, List.mem_append,
        List.mem_singleton] at hMem
      rcases hMem with hFront | hLast
      · exact le_of_lt
          (hSorted.2.2 segmentId hFront last (by simp))
      · exact le_of_eq hLast
  have hNe : last ≠ 0 := by omega
  simp [lastSegmentId, hMax, hNe]

/- The records of some of the segments, with locations. -/
def entriesIn
    (disk : Disk)
    (ids : List Nat) : List (Loc × Record) :=
  ids.flatMap (fun segmentId =>
    segmentEntries segmentId
      ((disk.read (.wal segmentId)).getD []))

theorem map_snd_entriesIn
    (disk : Disk)
    (ids : List Nat) :
    (entriesIn disk ids).map Prod.snd =
      recordsIn disk ids := by
  simp [entriesIn, recordsIn, segmentEntries,
    List.map_flatMap, Function.comp_def]

theorem map_snd_entries
    (disk : Disk) :
    (Wal.entries disk).map Prod.snd =
      recordsIn disk disk.segmentIds :=
  map_snd_entriesIn disk disk.segmentIds

theorem recordsIn_append
    (disk : Disk)
    (left right : List Nat) :
    recordsIn disk (left ++ right) =
      recordsIn disk left ++ recordsIn disk right := by
  simp [recordsIn]

/- Equal files yield equal records. -/
theorem recordsIn_congr
    {disk next : Disk}
    {ids : List Nat}
    (hRead :
      ∀ segmentId ∈ ids,
        next.read (.wal segmentId) =
          disk.read (.wal segmentId)) :
    recordsIn next ids = recordsIn disk ids := by
  apply List.flatMap_congr
  intro segmentId hMem
  rw [hRead segmentId hMem]

/- Every yielded record is within the payload limit. -/
theorem fits_of_mem_recordsIn
    {disk : Disk}
    {ids : List Nat}
    {record : Record}
    (hRecord : record ∈ recordsIn disk ids) :
    record.Fits := by
  rcases List.mem_flatMap.mp hRecord with
    ⟨segmentId, _, hMem⟩
  rcases List.mem_map.mp hMem with ⟨entry, hEntry, hEq⟩
  rw [← hEq]
  exact fits_of_mem_segmentRecords hEntry

end Wal

/- A directory of well-formed segments is settled. -/
theorem SegmentsOn.settled
    {disk : Disk}
    {segments : List Segment}
    (hSegments : SegmentsOn disk segments)
    (hSome : segments ≠ [])
    (hClean : disk.Clean) :
    disk.Settled := by
  constructor
  · exact hClean
  · simpa [hSegments.segmentIds_eq] using hSome
  · intro segmentId hMem
    rw [hSegments.segmentIds_eq, List.mem_map] at hMem
    rcases hMem with ⟨segment, hSegment, hId⟩
    rw [← hId]
    exact hSegments.one_le segment hSegment
  · intro content hRead
    rcases (hSegments.read_iff _ _).mp hRead with
      ⟨records, hMem, hContent⟩
    have hEmpty :
        Framing.validLength frameParser [] = 0 :=
      Framing.validLength_eq_zero rfl
    have hLength :=
      validLength_encodeRecords_append
        (hSegments.fits _ hMem) []
    rw [List.append_nil, hEmpty] at hLength
    simpa [hContent] using hLength

/- The active segment of a settled directory exists. -/
theorem Disk.Settled.last_mem
    {disk : Disk}
    (hSettled : disk.Settled) :
    Wal.lastSegmentId disk ∈ disk.segmentIds := by
  rcases List.eq_nil_or_concat disk.segmentIds with
    hNil | ⟨front, last, hIds⟩
  · exact (hSettled.some_segment hNil).elim
  · rw [List.concat_eq_append] at hIds
    have hOne := hSettled.one_le last (by simp [hIds])
    simp [Wal.lastSegmentId_eq hIds hOne, hIds]

/- Opening a settled directory changes no file. -/
theorem Disk.Settled.read_open
    {disk : Disk}
    (hSettled : disk.Settled)
    (maxSegmentSize : Option Nat)
    (name : FileName) :
    (Wal.open disk maxSegmentSize).1.read name =
      disk.read name := by
  rw [Wal.read_open hSettled.clean]
  split
  · next hName =>
      rcases Disk.mem_segmentIds_iff.mp hSettled.last_mem
        with ⟨content, hRead⟩
      have hWhole := hSettled.whole content hRead
      simp [hName, hRead, Wal.validOffset, hWhole]
  · rfl

omit [Hasher] in
theorem Disk.segmentIds_congr
    {disk next : Disk}
    (hRead :
      ∀ segmentId,
        next.read (.wal segmentId) =
          disk.read (.wal segmentId)) :
    next.segmentIds = disk.segmentIds := by
  apply Disk.segmentIds_eq_of_mem_iff
    (Disk.segmentIds_pairwise_lt disk)
  intro segmentId
  rw [hRead, Disk.mem_segmentIds_iff]

/- Only the files matter. -/
theorem Disk.Settled.of_read_eq
    {disk next : Disk}
    (hSettled : disk.Settled)
    (hRead : ∀ name, next.read name = disk.read name) :
    next.Settled := by
  have hIds :=
    Disk.segmentIds_congr (fun segmentId =>
      hRead (.wal segmentId))
  constructor
  · intro name hName
    rw [hRead]
    exact hSettled.clean name hName
  · rw [hIds]
    exact hSettled.some_segment
  · rw [hIds]
    exact hSettled.one_le
  · intro content hContent
    apply hSettled.whole
    simpa only [Wal.lastSegmentId, hIds, hRead]
      using hContent

theorem Disk.Settled.entries_open
    {disk : Disk}
    (hSettled : disk.Settled)
    (maxSegmentSize : Option Nat) :
    Wal.entries (Wal.open disk maxSegmentSize).1 =
      Wal.entries disk :=
  Wal.entries_congr (fun _ =>
    hSettled.read_open maxSegmentSize _)

end Nesso

------------------------------------------------------------
-- Oversized Consolidated Records
------------------------------------------------------------

namespace Nesso

/- Consolidating readable records stays below 4 GiB. -/
theorem compacted_length_lt
    {records : List Record}
    (hFits : ∀ record ∈ records, record.Fits) :
    ∀ record ∈ compacted records,
      record.payload.length < 2 ^ 32 := by
  intro record hRecord
  rcases mem_compacted_iff.mp hRecord with
    ⟨id, last, hLast, hEq⟩
  have hMem :=
    (CompactionMaps.id_of_getElem?_latestRecords hLast).2.1
  have hUser :
      ∀ record ∈ records,
        record.userPayload.length ≤ maxPayloadSize := by
    intro other hOther
    have hOtherFits := hFits other hOther
    have hLe :
        other.userPayload.length ≤
          other.payload.length := by
      unfold Record.userPayload
      split <;> (try split) <;> simp
    exact le_trans hLe hOtherFits
  have hLastFits : last.payload.length ≤ maxPayloadSize :=
    hFits last hMem
  have hCollected :
      ∀ payload,
        (CompactionMaps.ofRecords
            records).createdPayloads[id]? = some payload →
          payload.length ≤ maxPayloadSize := by
    intro payload hPayload
    exact CompactionMaps.length_createdPayloads_le hUser
      hPayload
  have hBound :=
    (CompactionMaps.length_recordToWrite_le
      (hUser last hMem) hCollected).2
  simp only [maxPayloadSize] at hLastFits hBound
  rw [hEq]
  omega

/- What is read of a compacted segment. -/
theorem segmentRecords_compacted [Hasher]
    {records : List Record}
    (hFits : ∀ record ∈ records, record.Fits) :
    (segmentRecords
        (encodeRecords (compacted records))).map Prod.snd =
      (compacted records).takeWhile
        (fun record => record.Fits) := by
  rw [segmentRecords_encodeRecords_takeWhile
    (compacted_length_lt hFits)]
  exact Framing.map_snd_located _ _ _

end Nesso

------------------------------------------------------------
-- Compaction with Failing Unlinks
------------------------------------------------------------

namespace Nesso

namespace Wal

/- The obsolete segments that phase 2 failed to unlink. -/
def leftover
    (fails : Nat → Bool)
    (ids : List Nat) : List Nat :=
  ids.filter (fun segmentId =>
    1 < segmentId ∧ fails segmentId)

variable [Hasher]

omit [Hasher] in
theorem executeCompactionPhase2Failing_never
    (disk : Disk)
    (ids : List Nat) :
    executeCompactionPhase2Failing (fun _ => false) disk
        ids =
      executeCompactionPhase2 disk ids := by
  simp [executeCompactionPhase2Failing,
    executeCompactionPhase2, phase2StepsFailing,
    phase2Steps]

/-
  Both phases on any directory: segment 1 holds the compacted
  records, the segments that could not be unlinked are still
  there, and the later ones are untouched.
-/
theorem compaction_failing_spec
    {disk : Disk}
    {ids rest : List Nat}
    (hIds : disk.segmentIds = ids ++ rest)
    (hOne : ∀ segmentId ∈ disk.segmentIds, 1 ≤ segmentId)
    (hSome : ids ≠ [])
    (fails : Nat → Bool) :
    ∃ result written swapped,
      executeCompactionPhase1 disk ids =
          (.ok result, written) ∧
        executeCompactionPhase2Failing fails written ids =
          (.ok (), swapped) ∧
        swapped.Clean ∧
        swapped.segmentIds =
          1 :: (leftover fails ids ++ rest) ∧
        swapped.read (.wal 1) =
          some (encodeRecords
            (compacted (recordsIn disk ids))) ∧
        ∀ segmentId ∈ leftover fails ids ++ rest,
          swapped.read (.wal segmentId) =
            disk.read (.wal segmentId) := by
  have hSorted := Disk.segmentIds_pairwise_lt disk
  rw [hIds, List.pairwise_append] at hSorted
  have hPresent :
      ∀ segmentId ∈ ids,
        ∃ content,
          disk.read (.wal segmentId) = some content := by
    intro segmentId hMem
    apply Disk.mem_segmentIds_iff.mp
    simp [hIds, hMem]
  have hAbove : ∀ segmentId ∈ rest, 1 < segmentId := by
    intro segmentId hMem
    rcases List.exists_mem_of_ne_nil ids hSome with
      ⟨first, hFirst⟩
    have hLe := hOne first (by simp [hIds, hFirst])
    have hLt := hSorted.2.2 first hFirst segmentId hMem
    omega
  have hWritten :=
    read_phase1 disk ids (compacted (recordsIn disk ids))
  have hTemp := hWritten .compacting
  simp only [if_true] at hTemp
  have hSwapped := read_phase2Failing fails hTemp ids
  generalize hNext :
    disk.execAll
      (phase1Steps ids (compacted (recordsIn disk ids))) =
        written at hWritten hTemp hSwapped
  have hContains :
      Disk.contains written .compacting = true := by
    simp [Disk.contains_eq, hTemp]
  have hReadKept :
      ∀ segmentId ∈ leftover fails ids ++ rest,
        (written.execAll
            (phase2StepsFailing fails written ids)).read
              (.wal segmentId) =
          disk.read (.wal segmentId) := by
    intro segmentId hMem
    have hLt : 1 < segmentId := by
      rcases List.mem_append.mp hMem with hLeft | hRight
      · simp only [leftover, List.mem_filter,
          decide_eq_true_eq] at hLeft
        exact hLeft.2.1
      · exact hAbove segmentId hRight
    have hKept :
        FileName.wal segmentId ∉
          unlinkedNames
            (ids.filter (fun segmentId =>
              ¬ fails segmentId)) := by
      intro hUnlinked
      simp only [unlinkedNames, List.mem_append,
        List.mem_map, List.mem_filter, FileName.wal.injEq,
        exists_eq_right, List.mem_cons, reduceCtorEq,
        List.not_mem_nil, or_false] at hUnlinked
      rcases List.mem_append.mp hMem with hLeft | hRight
      · simp only [leftover, List.mem_filter,
          decide_eq_true_eq] at hLeft
        simp [hLeft.2.2] at hUnlinked
      · have hContra :=
          hSorted.2.2 segmentId hUnlinked.1.1 segmentId
            hRight
        exact lt_irrefl _ hContra
    rw [hSwapped, if_neg hKept,
      if_neg (by simp; omega), if_neg (by simp), hWritten,
      if_neg (by simp), if_neg (by simp)]
  have hReadOne :
      (written.execAll
          (phase2StepsFailing fails written ids)).read
            (.wal 1) =
        some (encodeRecords
          (compacted (recordsIn disk ids))) := by
    rw [hSwapped, if_neg (by simp [unlinkedNames]),
      if_pos rfl]
  refine ⟨_, written, _,
    by rw [executeCompactionPhase1_of_present hPresent,
      hNext],
    by rw [executeCompactionPhase2Failing,
      if_pos hContains], ?_, ?_, hReadOne, hReadKept⟩
  · intro name hName
    rw [hSwapped]
    cases name with
    | wal segmentId =>
        simp [FileName.segmentId?] at hName
    | _ => simp [unlinkedNames]
  · apply Disk.segmentIds_eq_of_mem_iff
    · rw [List.pairwise_cons, List.pairwise_append]
      refine ⟨?_, hSorted.1.filter _, hSorted.2.1, ?_⟩
      · intro segmentId hMem
        rcases List.mem_append.mp hMem with hLeft | hRight
        · simp only [leftover, List.mem_filter,
            decide_eq_true_eq] at hLeft
          exact hLeft.2.1
        · exact hAbove segmentId hRight
      · intro left hLeft right hRight
        exact hSorted.2.2 left
          (List.mem_of_mem_filter hLeft) right hRight
    · intro segmentId
      constructor
      · intro hRead
        rcases hRead with ⟨content, hRead⟩
        by_cases hFirst : segmentId = 1
        · simp [hFirst]
        · rw [hSwapped] at hRead
          split at hRead
          · simp at hRead
          · next hKept =>
              simp only [FileName.wal.injEq, hFirst,
                if_false, reduceCtorEq, hWritten] at hRead
              have hMem :=
                Disk.mem_segmentIds_iff.mpr ⟨content, hRead⟩
              have hLe := hOne segmentId hMem
              have hLt : 1 < segmentId := by omega
              rw [hIds, List.mem_append] at hMem
              rcases hMem with hLeft | hRight
              · have hFails : fails segmentId = true := by
                  cases hFails : fails segmentId with
                  | true => simp
                  | false =>
                      apply absurd _ hKept
                      simp [unlinkedNames, hLeft, hFails, hLt]
                simp [leftover, hLeft, hFails, hLt]
              · simp [hRight]
      · intro hMem
        rcases List.mem_cons.mp hMem with hFirst | hMem
        · exact ⟨_, hFirst ▸ hReadOne⟩
        · have hOld :
              segmentId ∈ disk.segmentIds := by
            rw [hIds]
            rcases List.mem_append.mp hMem with
              hLeft | hRight
            · exact List.mem_append_left _
                (List.mem_of_mem_filter hLeft)
            · exact List.mem_append_right _ hRight
          rw [hReadKept segmentId hMem]
          exact Disk.mem_segmentIds_iff.mp hOld

/- Both phases, where some of the unlinks fail. -/
def compactSegments
    (fails : Nat → Bool)
    (disk : Disk)
    (closedSegments : List Nat) :
    Except IoError Unit × Disk :=
  match executeCompactionPhase1 disk closedSegments with
  | (.error error, next) => (.error error, next)
  | (.ok _, written) =>
      executeCompactionPhase2Failing fails written
        closedSegments

/- The records before and after, by segments kept. -/
theorem compactSegments_spec
    {disk : Disk}
    (hSettled : disk.Settled)
    {ids front : List Nat}
    {last : Nat}
    (hIds : disk.segmentIds = ids ++ (front ++ [last]))
    (hSome : ids ≠ [])
    (fails : Nat → Bool) :
    ∃ swapped,
      compactSegments fails disk ids = (.ok (), swapped) ∧
        swapped.Settled ∧
        swapped.segmentIds =
          1 :: (leftover fails ids ++ front) ++ [last] ∧
        recordsIn swapped [1] =
          (compacted (recordsIn disk ids)).takeWhile
            (fun record => record.Fits) ∧
        ∀ kept : List Nat,
          (∀ segmentId ∈ kept,
            segmentId ∈
              leftover fails ids ++ (front ++ [last])) →
            recordsIn swapped kept =
              recordsIn disk kept := by
  rcases compaction_failing_spec hIds hSettled.one_le hSome
    fails with
    ⟨result, written, swapped, hPhase1, hPhase2, hClean,
      hSwappedIds, hReadOne, hReadKept⟩
  have hSorted := Disk.segmentIds_pairwise_lt disk
  have hLastOne : 1 ≤ last :=
    hSettled.one_le last (by simp [hIds])
  have hLast : lastSegmentId disk = last :=
    lastSegmentId_eq (by simp [hIds] :
      disk.segmentIds = (ids ++ front) ++ [last]) hLastOne
  have hSwappedLast : lastSegmentId swapped = last :=
    lastSegmentId_eq
      (by simp [hSwappedIds] :
        swapped.segmentIds =
          (1 :: (leftover fails ids ++ front)) ++ [last])
      hLastOne
  refine ⟨swapped, ?_, ?_, by simp [hSwappedIds], ?_, ?_⟩
  · simp only [compactSegments, hPhase1]
    exact hPhase2
  · constructor
    · exact hClean
    · simp [hSwappedIds]
    · intro segmentId hMem
      rw [hSwappedIds] at hMem
      rcases List.mem_cons.mp hMem with hFirst | hMem
      · omega
      · apply hSettled.one_le
        rw [hIds]
        rcases List.mem_append.mp hMem with hLeft | hRight
        · exact List.mem_append_left _
            (List.mem_of_mem_filter hLeft)
        · exact List.mem_append_right _ hRight
    · intro content hRead
      rw [hSwappedLast,
        hReadKept last (by simp), ← hLast] at hRead
      exact hSettled.whole content hRead
  · simp only [recordsIn, List.flatMap_cons,
      List.flatMap_nil, List.append_nil, hReadOne,
      Option.getD_some]
    exact segmentRecords_compacted
      (fun _ hRecord => fits_of_mem_recordsIn hRecord)
  · intro kept hKept
    apply recordsIn_congr
    intro segmentId hMem
    exact hReadKept segmentId (hKept segmentId hMem)

/- What a reopened queue holds after such a compaction. -/
theorem compactSegments_records
    {disk swapped : Disk}
    {ids rest : List Nat}
    {fails : Nat → Bool}
    (hIds :
      swapped.segmentIds = 1 :: (leftover fails ids ++ rest))
    (hOne :
      recordsIn swapped [1] =
        (compacted (recordsIn disk ids)).takeWhile
          (fun record => record.Fits))
    (hKept :
      recordsIn swapped (leftover fails ids ++ rest) =
        recordsIn disk (leftover fails ids ++ rest)) :
    recordsIn swapped swapped.segmentIds =
      (compacted (recordsIn disk ids)).takeWhile
          (fun record => record.Fits) ++
        recordsIn disk (leftover fails ids ++ rest) := by
  rw [hIds, ← List.singleton_append, recordsIn_append, hOne,
    hKept]

end Wal

end Nesso
