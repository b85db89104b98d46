import Nesso.Log.CompactionCrashes
import Nesso.Log.Generations
import Nesso.Storage.Checksum

/-
  When an interrupted compaction leaves the old records or
  the compacted ones, and nothing in between.

  Key definitions include:
    * `sinceFinished`
    * `carriedPayload`
    * `ConsolidationFits`

  The main theorem is:
    * `Wal.compaction_crash_atomic_iff`
-/

------------------------------------------------------------
-- The Payload That a Log Carries
------------------------------------------------------------

namespace Nesso

/- The records of a task since it was last finished. -/
def sinceFinished
    (records : List Record)
    (id : UInt64) : List Record :=
  (KeyedLog.history Record.id records id).rtakeWhile
    (fun record => !record.opType.isTerminal)

/-
  The user payload of a task: that of its last Created
  record, or else the first one that is embedded in a state.
-/
def carriedPayload
    (records : List Record)
    (id : UInt64) : Option Bytes :=
  (((sinceFinished records id).filter
      (fun record => record.opType = .created)).getLast?.map
        Record.payload).or
    ((sinceFinished records id).findSome? Record.embedded)

theorem sinceFinished_append_singleton
    (records : List Record)
    (record : Record)
    (id : UInt64) :
    sinceFinished (records ++ [record]) id =
      if record.id = id then
        if record.opType.isTerminal then []
        else sinceFinished records id ++ [record]
      else sinceFinished records id := by
  unfold sinceFinished
  rw [KeyedLog.history_append, KeyedLog.history_singleton]
  by_cases hId : record.id = id
  · simp only [hId, if_true]
    cases hOp : record.opType.isTerminal with
    | true =>
        rw [List.rtakeWhile_concat_neg _ _ _ (by simp [hOp])]
        simp
    | false =>
        rw [List.rtakeWhile_concat_pos _ _ _ (by simp [hOp])]
        simp
  · simp [hId]

/- Compaction collects the payload that the log carries. -/
theorem CompactionMaps.createdPayloads_eq_carriedPayload
    (records : List Record)
    (id : UInt64) :
    (ofRecords records).createdPayloads[id]? =
      carriedPayload records id := by
  induction records using List.reverseRecOn with
  | nil =>
      simp [ofRecords, empty, carriedPayload, sinceFinished]
  | append_singleton records record ih =>
      rw [ofRecords_append_singleton]
      by_cases hId : record.id = id
      · subst hId
        rw [createdPayloads_absorb_self, ih,
          carriedPayload, carriedPayload,
          sinceFinished_append_singleton, if_pos rfl]
        cases hTerminal : record.opType.isTerminal with
        | true => simp
        | false =>
            by_cases hCreated : record.opType = .created
            · simp [hCreated]
            · simp [hCreated, Option.or_assoc]
      · rw [getElem?_createdPayloads_absorb, if_neg hId, ih,
          carriedPayload, carriedPayload,
          sinceFinished_append_singleton, if_neg hId]

/- The state bytes in front of a consolidated payload. -/
def Record.metadataLength (record : Record) : Nat :=
  match record.opType with
  | .leased => min 13 record.payload.length
  | .nacked | .expired => 1
  | _ => 0

/-
  Every live task has room for its state in front of its
  payload.
-/
def ConsolidationFits (records : List Record) : Prop :=
  ∀ id record payload,
    KeyedLog.latest Record.id records id = some record →
      record.opType.isTerminal = false →
        record.opType ≠ .created →
          carriedPayload records id = some payload →
            record.metadataLength + payload.length ≤
              maxPayloadSize

theorem CompactionMaps.recordToWrite_fits_iff
    {maps : CompactionMaps}
    {id : UInt64}
    {record : Record}
    (hFits : record.Fits)
    (hLive : record.opType.isTerminal = false) :
    (maps.recordToWrite id record).Fits ↔
      (record.opType ≠ .created →
        ∀ payload, maps.createdPayloads[id]? = some payload →
          record.metadataLength + payload.length ≤
            maxPayloadSize) := by
  unfold recordToWrite
  by_cases hCreated : record.opType = .created
  · simp [hCreated, hFits]
  · cases hPayload : maps.createdPayloads[id]? with
    | none => simp [hCreated, hFits]
    | some payload =>
        cases hOp : record.opType with
        | leased =>
            simp [Record.Fits, Record.metadataLength, hOp]
        | nacked =>
            simp [Record.Fits, Record.metadataLength, hOp,
              Nat.add_comm]
        | expired =>
            simp [Record.Fits, Record.metadataLength, hOp,
              Nat.add_comm]
        | created => exact (hCreated hOp).elim
        | acked => simp [hOp, OpType.isTerminal] at hLive
        | deadLettered =>
            simp [hOp, OpType.isTerminal] at hLive

/- Exactly then every compacted record can be read. -/
theorem compacted_fits_iff
    {records : List Record}
    (hFits : ∀ record ∈ records, record.Fits) :
    (∀ record ∈ compacted records, record.Fits) ↔
      ConsolidationFits records := by
  have hSurvives :
      ∀ id record,
        (CompactionMaps.ofRecords
            records).latestRecords[id]? = some record ↔
          KeyedLog.latest Record.id records id =
              some record ∧
            record.opType.isTerminal = false := by
    intro id record
    rw [CompactionMaps.getElem?_latestRecords,
      Option.filter_eq_some_iff]
    simp
  constructor
  · intro hCompacted id record payload hLatest hLive
      hState hPayload
    have hMem := (KeyedLog.latest_mem hLatest).1
    have hWritten :=
      hCompacted _ (mem_compacted_iff.mpr
        ⟨id, record, (hSurvives id record).mpr
          ⟨hLatest, hLive⟩, rfl⟩)
    rw [← CompactionMaps.createdPayloads_eq_carriedPayload]
      at hPayload
    exact (CompactionMaps.recordToWrite_fits_iff
      (hFits record hMem) hLive).mp hWritten hState payload
        hPayload
  · intro hRoom record hRecord
    rcases mem_compacted_iff.mp hRecord with
      ⟨id, last, hLast, hEq⟩
    rcases (hSurvives id last).mp hLast with
      ⟨hLatest, hLive⟩
    have hMem := (KeyedLog.latest_mem hLatest).1
    rw [hEq, CompactionMaps.recordToWrite_fits_iff
      (hFits last hMem) hLive]
    intro hState payload hPayload
    rw [CompactionMaps.createdPayloads_eq_carriedPayload]
      at hPayload
    exact hRoom id last payload hLatest hLive hState
      hPayload

/-
  Reading only part of the compacted records never looks like
  reading the original ones.
-/
theorem fits_of_takeWhile_compacted_eq
    {records : List Record}
    (hEq :
      (compacted records).takeWhile
        (fun record => record.Fits) = records) :
    ∀ record ∈ compacted records, record.Fits := by
  intro record hRecord
  have hSelf :
      KeyedLog.latest Record.id (compacted records)
        record.id = some record :=
    (KeyedLog.latest_eq_some_iff_of_nodup
      (compacted_ids_nodup records)).mpr ⟨hRecord, rfl⟩
  have hFound := hSelf
  rw [latest_compacted] at hFound
  rcases Option.map_eq_some_iff.mp hFound with
    ⟨last, hLast, _⟩
  have hLatest := (Option.filter_eq_some_iff.mp hLast).1
  rcases KeyedLog.latest_mem hLatest with ⟨hMem, hId⟩
  rw [← hEq] at hMem
  have hSame :
      KeyedLog.latest Record.id (compacted records)
        record.id = some last :=
    (KeyedLog.latest_eq_some_iff_of_nodup
      (compacted_ids_nodup records)).mpr
        ⟨List.takeWhile_subset _ hMem, hId⟩
  rw [hSelf, Option.some.injEq] at hSame
  rw [hSame]
  simpa using List.mem_takeWhile_imp hMem

end Nesso

------------------------------------------------------------
-- Atomic Compaction
------------------------------------------------------------

namespace Nesso

namespace Wal

variable [Hasher]
variable {disk : Disk} {ids rest : List Nat}

/- A finished compaction reads as old or new records. -/
theorem CompactsTo.fits_of_atomic
    {target : Disk}
    (hTarget : CompactsTo disk ids rest target)
    {maxSegmentSize : Option Nat}
    (hOpen :
      (iterAll (Wal.open target
            maxSegmentSize).1).2.map Prod.snd =
          recordsIn disk ids ++ recordsIn disk rest ∨
        (iterAll (Wal.open target
            maxSegmentSize).1).2.map Prod.snd =
          compacted (recordsIn disk ids) ++
            recordsIn disk rest) :
    ∀ record ∈ compacted (recordsIn disk ids),
      record.Fits := by
  simp only [iterAll, hTarget.settled.entries_open,
    map_snd_entries, hTarget.records,
    List.append_left_inj] at hOpen
  rcases hOpen with hOld | hNew
  · exact fits_of_takeWhile_compacted_eq hOld
  · intro record hRecord
    have hAll := List.takeWhile_eq_self_iff.mp hNew
    simpa using hAll record hRecord

/-
  A crashed compaction of any directory reads as the old or
  as the new records after the next opening, and leaves no
  compaction file, exactly if every live task has room for
  its state in front of its payload.
-/
theorem compaction_crash_atomic_iff
    (hSettled : disk.Settled)
    (hIds : disk.segmentIds = ids ++ rest)
    (hSome : ids ≠ [])
    (hRest : rest ≠ [])
    (maxSegmentSize : Option Nat) :
    (∀ left,
        FileSystem.CrashesTo disk (compactionSteps disk ids)
            left →
          (Wal.open left maxSegmentSize).1.read
              .compacting = none ∧
            (Wal.open left maxSegmentSize).1.read
              .compactionPlan = none ∧
            ((iterAll (Wal.open left
                  maxSegmentSize).1).2.map Prod.snd =
                recordsIn disk ids ++ recordsIn disk rest ∨
              (iterAll (Wal.open left
                  maxSegmentSize).1).2.map Prod.snd =
                compacted (recordsIn disk ids) ++
                  recordsIn disk rest)) ↔
      ConsolidationFits (recordsIn disk ids) := by
  rcases exists_compactsTo hSettled hIds hSome hRest with
    ⟨target, hTarget⟩
  rw [← compacted_fits_iff
    (fun _ hRecord => fits_of_mem_recordsIn hRecord)]
  constructor
  · intro hAtomic
    have hFinished :=
      FileSystem.CrashesTo.finished disk
        (compactionSteps disk ids)
    rw [hTarget.executes] at hFinished
    exact hTarget.fits_of_atomic
      (hAtomic target hFinished).2.2
  · intro hFits left hCrash
    rcases intact_or_swapped hSettled hIds hTarget hCrash
      with hPhase1 | hSwapped
    · have hIntact :=
        intact_of_phase1 hSettled.clean hPhase1
      have hRead :=
        hIntact.read_open hSettled maxSegmentSize
      refine ⟨?_, ?_, .inl ?_⟩
      · rw [hRead]
        exact hSettled.clean _ rfl
      · rw [hRead]
        exact hSettled.clean _ rfl
      · rw [iterAll, entries_congr (fun _ => hRead _),
          map_snd_entries, hIds, recordsIn_append]
    · have hRead :=
        hSwapped.read_open hSome hTarget maxSegmentSize
      have hWhole :
          (compacted (recordsIn disk ids)).takeWhile
              (fun record => record.Fits) =
            compacted (recordsIn disk ids) := by
        apply List.takeWhile_eq_self_iff.mpr
        simpa using hFits
      refine ⟨?_, ?_, .inr ?_⟩
      · rw [hRead]
        exact hTarget.settled.clean _ rfl
      · rw [hRead]
        exact hTarget.settled.clean _ rfl
      · rw [iterAll, entries_congr (fun _ => hRead _),
          map_snd_entries, hTarget.records, hWhole]

end Wal

end Nesso

namespace Nesso

/- A leased task with the given payload, and a new segment. -/
def leasedTaskSegments (payload : Bytes) : List Segment :=
  [(1, [⟨1, .created, 5, payload⟩,
    ⟨1, .leased, 5, leasePayload 1 100 0⟩]), (2, [])]

theorem segmentsOn_leasedTaskSegments
    {payload : Bytes}
    (hLength : payload.length ≤ maxPayloadSize) :
    SegmentsOn (Disk.ofSegments (leasedTaskSegments payload))
      (leasedTaskSegments payload) := by
  apply SegmentsOn.ofSegments
  · simp [leasedTaskSegments]
  · simp [leasedTaskSegments]
  · intro segment hSegment record hRecord
    simp only [leasedTaskSegments, List.mem_cons,
      List.not_mem_nil, or_false] at hSegment
    rcases hSegment with hFirst | hSecond
    · simp only [hFirst, List.mem_cons, List.not_mem_nil,
        or_false] at hRecord
      rcases hRecord with hCreated | hLeased
      · simpa [hCreated, Record.Fits] using hLength
      · rw [hLeased]
        decide
    · simp [hSecond] at hRecord

theorem recordsIn_leasedTaskSegments
    {payload : Bytes}
    (hLength : payload.length ≤ maxPayloadSize) :
    Wal.recordsIn
        (Disk.ofSegments (leasedTaskSegments payload)) [1] =
      [⟨1, .created, 5, payload⟩,
        ⟨1, .leased, 5, leasePayload 1 100 0⟩] := by
  have hRecords :=
    Wal.recordsIn_eq (segmentsOn_leasedTaskSegments hLength)
      (fun segment (hSegment :
        segment ∈ (leasedTaskSegments payload).take 1) =>
          List.mem_of_mem_take hSegment)
  simpa [leasedTaskSegments] using hRecords

/- A payload of the full size leaves no room. -/
theorem not_consolidationFits_leasedTask
    {payload : Bytes}
    (hLength : payload.length = maxPayloadSize) :
    ¬ ConsolidationFits
      [⟨1, .created, 5, payload⟩,
        ⟨1, .leased, 5, leasePayload 1 100 0⟩] := by
  intro hRoom
  have hSum :=
    hRoom 1 ⟨1, .leased, 5, leasePayload 1 100 0⟩ payload
      (by simp [KeyedLog.latest, KeyedLog.history])
      (by decide) (by simp)
      (by simp [carriedPayload, sinceFinished,
        KeyedLog.history, List.rtakeWhile,
        OpType.isTerminal])
  have hState :
      (⟨1, .leased, 5, leasePayload 1 100 0⟩ :
        Record).metadataLength = 13 := by
    decide
  omega

/-
  The compacted record of a leased task with a full payload
  is longer than any reader accepts.
-/
theorem Wal.compaction_loses_full_payload :
    ∃ left,
      FileSystem.CrashesTo
          (Disk.ofSegments (leasedTaskSegments
            (List.replicate maxPayloadSize 0)))
          (Wal.compactionSteps
            (Disk.ofSegments (leasedTaskSegments
              (List.replicate maxPayloadSize 0))) [1])
          left ∧
        ¬ ((Wal.iterAll (Wal.open left none).1).2.map
                Prod.snd =
              Wal.recordsIn
                (Disk.ofSegments (leasedTaskSegments
                  (List.replicate maxPayloadSize 0))) [1] ++
                Wal.recordsIn
                  (Disk.ofSegments (leasedTaskSegments
                    (List.replicate maxPayloadSize 0)))
                  [2] ∨
            (Wal.iterAll (Wal.open left none).1).2.map
                Prod.snd =
              compacted
                (Wal.recordsIn
                  (Disk.ofSegments (leasedTaskSegments
                    (List.replicate maxPayloadSize 0)))
                  [1]) ++
                Wal.recordsIn
                  (Disk.ofSegments (leasedTaskSegments
                    (List.replicate maxPayloadSize 0)))
                  [2]) := by
  have hLength :
      (List.replicate maxPayloadSize (0 : UInt8)).length =
        maxPayloadSize :=
    List.length_replicate
  generalize List.replicate maxPayloadSize (0 : UInt8) =
    payload at hLength ⊢
  have hSegments :=
    segmentsOn_leasedTaskSegments (le_of_eq hLength)
  have hSettled :=
    hSegments.settled (by simp [leasedTaskSegments])
      (Disk.clean_ofSegments _)
  have hIds :
      (Disk.ofSegments
        (leasedTaskSegments payload)).segmentIds =
          [1] ++ [2] :=
    hSegments.segmentIds_eq
  rcases Wal.exists_compactsTo hSettled hIds (by simp)
    (by simp) with ⟨target, hTarget⟩
  have hFinished :=
    FileSystem.CrashesTo.finished
      (Disk.ofSegments (leasedTaskSegments payload))
      (Wal.compactionSteps
        (Disk.ofSegments (leasedTaskSegments payload)) [1])
  rw [hTarget.executes] at hFinished
  refine ⟨target, hFinished, ?_⟩
  intro hOpen
  have hFits := hTarget.fits_of_atomic hOpen
  rw [compacted_fits_iff (fun _ hRecord =>
    Wal.fits_of_mem_recordsIn hRecord),
    recordsIn_leasedTaskSegments (le_of_eq hLength)] at hFits
  exact not_consolidationFits_leasedTask hLength hFits

set_option maxRecDepth 100000 in
/- A short payload has room. -/
theorem Wal.compaction_crash_atomic_iff_short :
    ConsolidationFits
        (Wal.recordsIn
          (Disk.ofSegments (leasedTaskSegments [7])) [1]) ∧
      ∀ left,
        FileSystem.CrashesTo
            (Disk.ofSegments (leasedTaskSegments [7]))
            (Wal.compactionSteps
              (Disk.ofSegments (leasedTaskSegments [7]))
              [1]) left →
          (Wal.open left none).1.read .compacting = none ∧
            (Wal.open left none).1.read .compactionPlan =
              none ∧
            ((Wal.iterAll (Wal.open left none).1).2.map
                  Prod.snd =
                Wal.recordsIn
                    (Disk.ofSegments
                      (leasedTaskSegments [7])) [1] ++
                  Wal.recordsIn
                    (Disk.ofSegments
                      (leasedTaskSegments [7])) [2] ∨
              (Wal.iterAll (Wal.open left none).1).2.map
                  Prod.snd =
                compacted
                    (Wal.recordsIn
                      (Disk.ofSegments
                        (leasedTaskSegments [7])) [1]) ++
                  Wal.recordsIn
                    (Disk.ofSegments
                      (leasedTaskSegments [7])) [2]) := by
  have hSegments :=
    segmentsOn_leasedTaskSegments
      (by decide : ([7] : Bytes).length ≤ maxPayloadSize)
  have hSettled :=
    hSegments.settled (by simp [leasedTaskSegments])
      (Disk.clean_ofSegments _)
  have hIds :
      (Disk.ofSegments
        (leasedTaskSegments [7])).segmentIds = [1] ++ [2] :=
    hSegments.segmentIds_eq
  have hRoom :
      ConsolidationFits
        (Wal.recordsIn
          (Disk.ofSegments (leasedTaskSegments [7]))
          [1]) := by
    rw [← compacted_fits_iff (fun _ hRecord =>
      Wal.fits_of_mem_recordsIn hRecord),
      recordsIn_leasedTaskSegments (by decide)]
    decide +kernel
  exact ⟨hRoom,
    (Wal.compaction_crash_atomic_iff hSettled hIds (by simp)
      (by simp) none).mpr hRoom⟩

end Nesso
