import Nesso.Log.Compaction
import Nesso.Recovery.Recover
import Nesso.Storage.Checksum

/-
  Compaction does not change what recovery replays.

  Key definitions include:
    * `Replay.placeOf`

  The main theorem is:
    * `Engine.reopen_compacted`
-/

------------------------------------------------------------
-- Places in a Log
------------------------------------------------------------

namespace Nesso

namespace Replay

/- Where the records of a log leave a task. -/
def placeOf
    (place : Record → Place)
    (records : List Record)
    (id : UInt64) : Option Place :=
  (KeyedLog.latest Record.id records id).map place

theorem map_latest_entryId
    (place : Record → Place)
    (entries : List (Loc × Record))
    (id : UInt64) :
    (KeyedLog.latest entryId entries id).map
        (fun entry => place entry.2) =
      placeOf place (entries.map Prod.snd) id := by
  have hKey :
      (fun entry : Loc × Record => entry.2.id) =
        entryId := rfl
  rw [placeOf, KeyedLog.latest_map, hKey, Option.map_map]
  rfl

/- The ready tasks depend on the places only. -/
theorem mem_ready_iff_placeOf
    {place : Record → Place}
    (hPlace :
      ∀ record task, place record = .ready task →
        task.id = record.id)
    {entries : List (Loc × Record)}
    {task : TaskRef} :
    task ∈ ready place entries ↔
      placeOf place (entries.map Prod.snd) task.id =
        some (.ready task) := by
  rw [mem_ready_iff hPlace, ← map_latest_entryId,
    Option.map_eq_some_iff]

theorem lease_eq_some_iff_placeOf
    {place : Record → Place}
    {entries : List (Loc × Record)}
    {id : UInt64}
    {found : LeaseInfo} :
    lease place entries id = some found ↔
      placeOf place (entries.map Prod.snd) id =
        some (.leased found) := by
  rw [lease_eq_some_iff, ← map_latest_entryId,
    Option.map_eq_some_iff]

end Replay

/- The lease fields lie in the first 13 bytes. -/
theorem leaseOfRecord_take_append
    {record : Record}
    (hLong : 13 ≤ record.payload.length)
    (id : UInt64)
    (rest : Bytes) :
    EngineState.leaseOfRecord
        { record with
          id := id
          payload := record.payload.take 13 ++ rest } =
      EngineState.leaseOfRecord record := by
  have hSlice :
      ∀ first last, last ≤ 13 →
        slice (record.payload.take 13 ++ rest) first last =
          slice record.payload first last := by
    intro first last hLast
    rw [slice, slice, List.take_append_of_le_length (by
      rw [List.length_take]
      omega), List.take_take, min_eq_left hLast]
  have hRetries :
      (record.payload.take 13 ++ rest).getD 12 0 =
        record.payload.getD 12 0 := by
    rw [List.getD_append _ _ _ _ (by
      rw [List.length_take]
      omega), List.getD_eq_getElem?_getD,
      List.getD_eq_getElem?_getD,
      List.getElem?_take_of_lt (by omega)]
  simp only [EngineState.leaseOfRecord, hRetries,
    hSlice 0 4 (by omega), hSlice 4 12 (by omega)]

/- Metadata survives the rewriting of a payload. -/
theorem CompactionMaps.place_recordToWrite
    (maps : CompactionMaps)
    {id : UInt64}
    {record : Record}
    (hId : record.id = id)
    (hLong :
      record.opType = .leased →
        13 ≤ record.payload.length) :
    (maps.recordToWrite id record).place =
      record.place := by
  unfold recordToWrite
  split
  · rfl
  · split
    · rfl
    · next origPayload hOrig =>
        cases hOp : record.opType with
        | leased =>
            have hHeader := hLong hOp
            have hLength :
                13 ≤ (record.payload.take 13 ++
                  origPayload).length := by
              rw [List.length_append, List.length_take]
              omega
            have hLease :=
              leaseOfRecord_take_append hHeader id
                origPayload
            simp only [hOp] at hLease
            simp only [Record.place, hOp, if_pos hHeader,
              if_pos hLength, hLease]
        | nacked => simp [Record.place, hOp, hId]
        | expired => simp [Record.place, hOp, hId]
        | _ => rfl

theorem CompactionMaps.placeAt_recordToWrite
    (maps : CompactionMaps)
    (now : UInt64)
    {id : UInt64}
    {record : Record}
    (hId : record.id = id)
    (hLong :
      record.opType = .leased →
        13 ≤ record.payload.length) :
    (maps.recordToWrite id record).placeAt now =
      record.placeAt now := by
  have hFields := maps.recordToWrite_fields hId
  rw [Record.placeAt, Record.placeAt,
    maps.place_recordToWrite hId hLong, hFields.1,
    hFields.2.2, hId]

namespace Replay

theorem placeOf_append
    (place : Record → Place)
    (left right : List Record)
    (id : UInt64) :
    placeOf place (left ++ right) id =
      (placeOf place right id).or
        (placeOf place left id) := by
  rw [placeOf, KeyedLog.latest_append]
  cases hRight : KeyedLog.latest Record.id right id <;>
    simp [placeOf, hRight]

/- Compaction drops finished tasks and nothing else. -/
theorem placeOf_compacted
    {place : Record → Place}
    (hTerminal :
      ∀ record, place record = .terminal ↔
        record.opType.isTerminal = true)
    {closed : List Record}
    (hSame :
      ∀ record ∈ closed,
        place
            ((CompactionMaps.ofRecords closed).recordToWrite
              record.id record) =
          place record)
    (id : UInt64) :
    placeOf place (compacted closed) id =
      (placeOf place closed id).filter
        (fun place => place ≠ .terminal) := by
  rw [placeOf, latest_compacted, placeOf]
  cases hLatest : KeyedLog.latest Record.id closed id with
  | none => rfl
  | some record =>
      rcases KeyedLog.latest_mem hLatest with ⟨hMem, rfl⟩
      cases hOp : record.opType.isTerminal with
      | true =>
          simp [Option.filter, hOp,
            (hTerminal record).mpr hOp]
      | false =>
          have hPlace : place record ≠ .terminal := by
            rw [Ne, hTerminal, hOp]
            simp
          simp [Option.filter, hOp, hPlace,
            hSame record hMem]

/- The same tasks are live over the compacted records. -/
theorem placeOf_compacted_append_iff
    {place : Record → Place}
    (hTerminal :
      ∀ record, place record = .terminal ↔
        record.opType.isTerminal = true)
    {closed : List Record}
    (hSame :
      ∀ record ∈ closed,
        place
            ((CompactionMaps.ofRecords closed).recordToWrite
              record.id record) =
          place record)
    (later : List Record)
    (id : UInt64)
    {found : Place}
    (hLive : found ≠ .terminal) :
    placeOf place (compacted closed ++ later) id =
        some found ↔
      placeOf place (closed ++ later) id = some found := by
  rw [placeOf_append, placeOf_append,
    placeOf_compacted hTerminal hSame]
  cases placeOf place later id with
  | some other => simp
  | none =>
      simp only [Option.none_or, Option.filter_eq_some_iff,
        decide_eq_true_eq, and_iff_left_iff_imp]
      intro _
      exact hLive

/- The same at a given time. -/
theorem placeAt_compacted_append_iff
    (now : UInt64)
    {closed : List Record}
    (hLong :
      ∀ record ∈ closed, record.opType = .leased →
        13 ≤ record.payload.length)
    (later : List Record)
    (id : UInt64)
    {place : Place}
    (hLive : place ≠ .terminal) :
    placeOf (Record.placeAt now) (compacted closed ++ later)
        id = some place ↔
      placeOf (Record.placeAt now) (closed ++ later) id =
        some place :=
  placeOf_compacted_append_iff
    (Record.placeAt_eq_terminal_iff now)
    (fun record hRecord =>
      (CompactionMaps.ofRecords
        closed).placeAt_recordToWrite now rfl
          (hLong record hRecord)) later id hLive

end Replay

end Nesso

------------------------------------------------------------
-- Recovery over a Compacted Directory
------------------------------------------------------------

namespace Nesso

namespace Engine

variable [Hasher]

/-
  Opening the directory that both phases leave recovers the
  ready tasks and leases that the original would have.
-/
theorem reopen_compacted
    {disk : Disk}
    {closed later : List Segment}
    (hSegments : SegmentsOn disk (closed ++ later))
    (hClean : disk.Clean)
    (hClosed : closed ≠ [])
    (hLong :
      ∀ record ∈ closed.flatMap Prod.snd,
        record.opType = .leased →
          13 ≤ record.payload.length)
    (hFits :
      ∀ record ∈ compacted (closed.flatMap Prod.snd),
        record.Fits)
    (maxSegmentSize : Option Nat)
    (cacheCapacity : Nat)
    (now : UInt64) :
    ∃ offsets written swapped plain small,
      Wal.executeCompactionPhase1 disk
          (closed.map Prod.fst) = (.ok offsets, written) ∧
        Wal.executeCompactionPhase2 written
          (closed.map Prod.fst) = (.ok (), swapped) ∧
        Wal.entries swapped =
          entriesOf
            ((1, compacted (closed.flatMap Prod.snd)) ::
              later) ∧
        reopen disk maxSegmentSize cacheCapacity now =
          (.ok (), plain) ∧
        reopen swapped maxSegmentSize cacheCapacity now =
          (.ok (), small) ∧
        small.inner.leased = plain.inner.leased ∧
        ∀ priority,
          (small.inner.readyQueue.bucket priority).Perm
            (plain.inner.readyQueue.bucket priority) := by
  rcases Wal.executeCompactionPhase1_spec hSegments with
    ⟨written, hPhase1, hWritten, hTemp, _, _⟩
  rcases Wal.executeCompactionPhase2_spec hWritten hClosed
    hTemp hFits with
    ⟨swapped, hPhase2, hSwapped, hSwappedClean, _⟩
  rcases reopen_intact_spec hSegments (by simp [hClosed])
    hClean maxSegmentSize cacheCapacity now with
    ⟨_, plain, _, hPlain, _, _, _, _, hPlainInner⟩
  rcases reopen_intact_spec hSwapped (by simp)
    hSwappedClean maxSegmentSize cacheCapacity now with
    ⟨_, small, _, hSmall, _, _, _, _, hSmallInner⟩
  refine ⟨_, written, swapped, plain, small, hPhase1,
    hPhase2, hSwapped.entries_eq, hPlain, hSmall, ?_, ?_⟩
  · apply Std.ExtTreeMap.ext_getElem?
    intro id
    ext lease
    rw [hSmallInner.leased_eq, hPlainInner.leased_eq,
      Replay.lease_eq_some_iff_placeOf,
      Replay.lease_eq_some_iff_placeOf, map_snd_entriesOf,
      map_snd_entriesOf, List.flatMap_cons,
      List.flatMap_append]
    exact Replay.placeAt_compacted_append_iff now hLong _ id
      (by simp)
  · intro priority
    have hIds :
        ∀ record task, Record.placeAt now record =
          .ready task → task.id = record.id := by
      intro record task hPlace
      exact (Record.id_of_placeAt_eq_ready hPlace).1
    have hNodup :
        ∀ entries,
          ((Replay.ready (Record.placeAt now)
            entries).filter
              (fun task =>
                task.priority = priority)).Nodup := by
      intro entries
      exact (List.Nodup.of_map _
        (Replay.ready_ids_nodup hIds entries)).filter _
    rw [hSmallInner.bucket_eq, hPlainInner.bucket_eq]
    apply (List.perm_ext_iff_of_nodup (hNodup _)
      (hNodup _)).mpr
    intro task
    rw [List.mem_filter, List.mem_filter,
      Replay.mem_ready_iff_placeOf hIds,
      Replay.mem_ready_iff_placeOf hIds, map_snd_entriesOf,
      map_snd_entriesOf, List.flatMap_cons,
      List.flatMap_append,
      Replay.placeAt_compacted_append_iff now hLong _ _
        (by simp)]

end Engine

end Nesso

------------------------------------------------------------
-- A Compacted Directory
------------------------------------------------------------

namespace Nesso

/- Task 1 was nacked once, task 2 was acked. -/
def mixedSegment : Segment :=
  (1, [⟨1, .created, 5, [7, 8]⟩,
    ⟨1, .leased, 5, leasePayload 1 100 0⟩,
    ⟨1, .nacked, 5, [1]⟩,
    ⟨2, .created, 9, [9]⟩,
    ⟨2, .leased, 9, leasePayload 1 100 0⟩,
    ⟨2, .acked, 9, []⟩])

/- Task 3 is leased. -/
def leasedSegment : Segment :=
  (2, [⟨3, .created, 5, []⟩,
    ⟨3, .leased, 5, leasePayload 2 100 0⟩])

theorem reopen_compacted_mixed :
    ∃ offsets written swapped plain small,
      Wal.executeCompactionPhase1
          (Disk.ofSegments [mixedSegment, leasedSegment])
          [1] = (.ok offsets, written) ∧
        Wal.executeCompactionPhase2 written [1] =
          (.ok (), swapped) ∧
        Wal.entries swapped =
          entriesOf
            [(1, [⟨1, .nacked, 5, [1, 7, 8]⟩]),
              leasedSegment] ∧
        Engine.reopen
          (Disk.ofSegments [mixedSegment, leasedSegment])
          none 4 50 = (.ok (), plain) ∧
        Engine.reopen swapped none 4 50 = (.ok (), small) ∧
        small.inner.leased = plain.inner.leased ∧
        ∀ priority,
          (small.inner.readyQueue.bucket priority).Perm
            (plain.inner.readyQueue.bucket priority) := by
  have hSegments :
      SegmentsOn
        (Disk.ofSegments [mixedSegment, leasedSegment])
        ([mixedSegment] ++ [leasedSegment]) := by
    apply SegmentsOn.ofSegments
    · decide
    · decide
    · decide
  exact Engine.reopen_compacted hSegments
    (Disk.clean_ofSegments _) (by simp) (by decide)
    (by decide) none 4 50

end Nesso
