import Nesso.Log.CrashAtomicity

/-
  The segment that compaction writes.

  Key definitions include:
    * `Record.metadata`
    * `Compactable`
    * `CompactionOutput`

  The main theorems are:
    * `Wal.executeCompactionPhase1_output`
    * `Wal.compacted_readable_iff`
-/

------------------------------------------------------------
-- Live Tasks and Their Payloads
------------------------------------------------------------

namespace Nesso

/- The state in front of the user payload. -/
def Record.metadata (record : Record) : Bytes :=
  match record.opType with
  | .leased => record.payload.take 13
  | .nacked | .expired => record.payload.take 1
  | _ => []

/-
  The records of closed segments as the engine writes them:
  states have their metadata, and a task is created or taken
  over from an earlier compaction only by its first record.
-/
structure Compactable (records : List Record) : Prop where
  fits : ∀ record ∈ records, record.Fits
  leased :
    ∀ record ∈ records, record.opType = .leased →
      13 ≤ record.payload.length
  retried :
    ∀ record ∈ records,
      record.opType = .nacked ∨ record.opType = .expired →
        1 ≤ record.payload.length
  created_first :
    ∀ id first rest,
      sinceFinished records id = first :: rest →
        ∀ record ∈ rest, record.opType ≠ .created
  short :
    ∀ id first rest,
      sinceFinished records id = first :: rest →
        first.userPayload.length ≤ maxPayloadSize - 13

theorem mem_of_mem_sinceFinished
    {records : List Record}
    {id : UInt64}
    {record : Record}
    (hRecord : record ∈ sinceFinished records id) :
    record ∈ records ∧
      record.opType.isTerminal = false := by
  constructor
  · have hHistory :
        record ∈ KeyedLog.history Record.id records id :=
      (List.rtakeWhile_suffix _ _).subset hRecord
    exact (KeyedLog.mem_history_iff.mp hHistory).1
  · simpa using List.mem_rtakeWhile_imp hRecord

/- The latest record of a live task ends its history. -/
theorem sinceFinished_ne_nil
    {records : List Record}
    {id : UInt64}
    {last : Record}
    (hLatest :
      KeyedLog.latest Record.id records id = some last)
    (hLive : last.opType.isTerminal = false) :
    ∃ first rest,
      sinceFinished records id = first :: rest ∧
        (first :: rest).getLast? = some last := by
  rcases List.getLast?_eq_some_iff.mp hLatest with
    ⟨earlier, hHistory⟩
  have hSince :
      sinceFinished records id =
        earlier.rtakeWhile
            (fun record => !record.opType.isTerminal) ++
          [last] := by
    rw [sinceFinished, hHistory,
      List.rtakeWhile_concat_pos _ _ _ (by simp [hLive])]
  have hLast :
      (sinceFinished records id).getLast? = some last := by
    simp [hSince]
  rcases List.exists_cons_of_ne_nil
      (show sinceFinished records id ≠ [] by
        simp [hSince]) with
    ⟨first, rest, hFirst⟩
  rw [hFirst] at hLast
  exact ⟨first, rest, hFirst, hLast⟩

namespace Compactable

/- The first record carries the user payload. -/
theorem embedded_eq
    {records : List Record}
    (hRecords : Compactable records)
    {record : Record}
    (hMem : record ∈ records)
    (hLive : record.opType.isTerminal = false) :
    record.embedded = some record.userPayload := by
  unfold Record.embedded Record.userPayload
  cases hOp : record.opType with
  | created => rfl
  | leased => simp [hRecords.leased record hMem hOp]
  | nacked =>
      simp [hRecords.retried record hMem (.inl hOp)]
  | expired =>
      simp [hRecords.retried record hMem (.inr hOp)]
  | acked => simp [hOp, OpType.isTerminal] at hLive
  | deadLettered => simp [hOp, OpType.isTerminal] at hLive

theorem carriedPayload_eq
    {records : List Record}
    (hRecords : Compactable records)
    {id : UInt64}
    {first : Record}
    {rest : List Record}
    (hSince : sinceFinished records id = first :: rest) :
    carriedPayload records id = some first.userPayload := by
  have hFirst : first ∈ sinceFinished records id := by
    simp [hSince]
  rcases mem_of_mem_sinceFinished hFirst with
    ⟨hMem, hLive⟩
  have hRest :
      rest.filter (fun record => record.opType = .created) =
        [] := by
    simpa [List.filter_eq_nil_iff] using
      hRecords.created_first id first rest hSince
  have hEmbedded := hRecords.embedded_eq hMem hLive
  rw [carriedPayload, hSince, List.filter_cons, hRest]
  by_cases hCreated : first.opType = .created
  · simp [hCreated, Record.userPayload]
  · simp [hCreated, hEmbedded]

/- The written record of a live task. -/
theorem payload_recordToWrite
    {records : List Record}
    (hRecords : Compactable records)
    {id : UInt64}
    {last first : Record}
    {rest : List Record}
    (hLatest :
      KeyedLog.latest Record.id records id = some last)
    (hSince : sinceFinished records id = first :: rest)
    (hLast : (first :: rest).getLast? = some last) :
    ((CompactionMaps.ofRecords records).recordToWrite id
        last).payload =
      last.metadata ++ first.userPayload := by
  have hMem := (KeyedLog.latest_mem hLatest).1
  have hPayload :
      (CompactionMaps.ofRecords
          records).createdPayloads[id]? =
        some first.userPayload := by
    rw [CompactionMaps.createdPayloads_eq_carriedPayload]
    exact hRecords.carriedPayload_eq hSince
  unfold CompactionMaps.recordToWrite
  by_cases hCreated : last.opType = .created
  · have hOnly : last = first := by
      rcases List.eq_nil_or_concat' rest with
        hNil | ⟨front, final, hRest⟩
      · simpa [hNil, eq_comm] using hLast
      · rw [hRest, ← List.cons_append,
          List.getLast?_concat, Option.some.injEq] at hLast
        exact (hRecords.created_first id first rest hSince
          last (by simp [hRest, hLast]) hCreated).elim
    rw [if_pos hCreated, ← hOnly]
    simp [Record.metadata, Record.userPayload, hCreated]
  · rw [if_neg hCreated, hPayload]
    have hInside : last ∈ sinceFinished records id := by
      rw [hSince]
      exact List.mem_of_getLast? hLast
    have hLive := (mem_of_mem_sinceFinished hInside).2
    cases hOp : last.opType with
    | created => exact (hCreated hOp).elim
    | leased => simp [Record.metadata, hOp]
    | nacked =>
        have hPos := hRecords.retried last hMem (.inl hOp)
        rcases List.exists_cons_of_length_pos hPos with
          ⟨retries, tail, hBytes⟩
        simp [Record.metadata, hOp, hBytes]
    | expired =>
        have hPos := hRecords.retried last hMem (.inr hOp)
        rcases List.exists_cons_of_length_pos hPos with
          ⟨retries, tail, hBytes⟩
        simp [Record.metadata, hOp, hBytes]
    | acked => simp [hOp, OpType.isTerminal] at hLive
    | deadLettered => simp [hOp, OpType.isTerminal] at hLive

theorem consolidationFits
    {records : List Record}
    (hRecords : Compactable records) :
    ConsolidationFits records := by
  intro id last payload hLatest hLive _ hPayload
  rcases sinceFinished_ne_nil hLatest hLive with
    ⟨first, rest, hSince, _⟩
  rw [hRecords.carriedPayload_eq hSince,
    Option.some.injEq] at hPayload
  have hShort := hRecords.short id first rest hSince
  have hState : last.metadataLength ≤ 13 := by
    unfold Record.metadataLength
    split <;> omega
  rw [← hPayload]
  simp only [maxPayloadSize] at hShort ⊢
  omega

end Compactable

end Nesso

------------------------------------------------------------
-- The Compacted File
------------------------------------------------------------

namespace Nesso

/-
  What a compacted segment says about the records it was made
  of: one record for every live task, in increasing order of
  ids, with the state of the latest record in front of the
  payload of the first one, found at the recorded offset.
-/
structure CompactionOutput [Hasher]
    (records written : List Record)
    (newOffsets : Std.ExtTreeMap UInt64 Nat) : Prop where
  sorted : (written.map Record.id).Pairwise (· < ·)
  survives_iff :
    ∀ id, id ∈ written.map Record.id ↔
      ∃ last,
        KeyedLog.latest Record.id records id = some last ∧
          last.opType.isTerminal = false
  record_eq :
    ∀ record ∈ written,
      ∃ last first rest,
        KeyedLog.latest Record.id records record.id =
            some last ∧
          sinceFinished records record.id =
            first :: rest ∧
          record.opType = last.opType ∧
          record.priority = last.priority ∧
          record.payload =
            last.metadata ++ first.userPayload
  offset_iff :
    ∀ id offset,
      newOffsets[id]? = some offset ↔
        ∃ front record back,
          written = front ++ record :: back ∧
            record.id = id ∧
            offset = (encodeRecords front).length

theorem compacted_sorted
    (records : List Record) :
    ((compacted records).map Record.id).Pairwise
      (· < ·) := by
  rw [map_id_compacted]
  refine Std.ExtTreeMap.ordered_keys.imp ?_
  intro left right hLt
  exact Std.compare_eq_lt.mp hLt

/- The recorded offsets, in both directions. -/
theorem Wal.getElem?_newOffsets_iff [Hasher]
    {records : List Record}
    (hNodup : (records.map Record.id).Nodup)
    {id : UInt64}
    {offset : Nat} :
    (newOffsets records)[id]? = some offset ↔
      ∃ record,
        (offset, record) ∈
            Framing.located Record.encode 0 records ∧
          record.id = id := by
  constructor
  · intro hOffset
    change (KeyedLog.lastWriter
      (fun entry : Nat × Record => entry.2.id) Prod.fst
      (Framing.located Record.encode 0 records))[id]? =
        some offset at hOffset
    rw [KeyedLog.getElem?_lastWriter,
      Option.map_eq_some_iff] at hOffset
    rcases hOffset with ⟨entry, hLatest, rfl⟩
    rcases KeyedLog.latest_mem hLatest with ⟨hMem, hId⟩
    exact ⟨entry.2, hMem, hId⟩
  · rintro ⟨record, hMem, rfl⟩
    exact newOffsets_of_mem_located hNodup hMem

theorem compactionOutput_compacted [Hasher]
    {records : List Record}
    (hRecords : Compactable records) :
    CompactionOutput records (compacted records)
      (Wal.newOffsets (compacted records)) := by
  have hSurvives :
      ∀ id record,
        (CompactionMaps.ofRecords
            records).latestRecords[id]? = some record ↔
          KeyedLog.latest Record.id records id =
              some record ∧
            record.opType.isTerminal = false := by
    intro id record
    rw [CompactionMaps.getElem?_latestRecords,
      Option.filter_eq_some_iff]
    simp
  constructor
  · exact compacted_sorted records
  · intro id
    rw [map_id_compacted, Std.ExtTreeMap.mem_keys,
      Std.ExtTreeMap.mem_iff_isSome_getElem?,
      Option.isSome_iff_exists]
    exact exists_congr (hSurvives id)
  · intro record hRecord
    rcases mem_compacted_iff.mp hRecord with
      ⟨id, last, hLast, hWritten⟩
    rcases (hSurvives id last).mp hLast with
      ⟨hLatest, hLive⟩
    rcases CompactionMaps.recordToWrite_fields
        (CompactionMaps.ofRecords records)
        (KeyedLog.latest_mem hLatest).2 with
      ⟨hId, hOp, hPriority⟩
    rcases sinceFinished_ne_nil hLatest hLive with
      ⟨first, rest, hSince, hEnd⟩
    rw [← hWritten] at hId hOp hPriority
    subst hId
    refine ⟨last, first, rest, hLatest, hSince, hOp,
      hPriority, ?_⟩
    conv_lhs => rw [hWritten]
    exact hRecords.payload_recordToWrite hLatest hSince hEnd
  · intro id offset
    rw [Wal.getElem?_newOffsets_iff
      (compacted_ids_nodup records)]
    constructor
    · rintro ⟨record, hMem, hId⟩
      rcases Framing.mem_located_iff.mp hMem with
        ⟨front, back, hSplit, hOffset⟩
      refine ⟨front, record, back, hSplit, hId, ?_⟩
      rw [hOffset, Nat.zero_add]
      rfl
    · rintro ⟨front, record, back, hSplit, hId, hOffset⟩
      refine ⟨record, Framing.mem_located_iff.mpr
        ⟨front, back, hSplit, ?_⟩, hId⟩
      rw [hOffset, Nat.zero_add]
      rfl

end Nesso

------------------------------------------------------------
-- Phase 1
------------------------------------------------------------

namespace Nesso

namespace Wal

/-
  Phase 1 writes one record for every live task and nothing
  else, and says where each of them is.
-/
theorem executeCompactionPhase1_output [Hasher]
    {disk : Disk}
    {closed : List Segment}
    (hRead :
      ∀ segment ∈ closed,
        disk.read (.wal segment.1) =
          some (encodeRecords segment.2))
    (hRecords : Compactable (closed.flatMap Prod.snd)) :
    ∃ stats newOffsets next written,
      executeCompactionPhase1 disk (closed.map Prod.fst) =
          (.ok (stats, newOffsets), next) ∧
        next.read .compacting =
          some (encodeRecords written) ∧
        (segmentRecords (encodeRecords written)).map
            Prod.snd = written ∧
        stats.survivingRecords = written.length ∧
        CompactionOutput (closed.flatMap Prod.snd) written
          newOffsets := by
  have hIn :
      recordsIn disk (closed.map Prod.fst) =
        closed.flatMap Prod.snd := by
    simp only [recordsIn, List.flatMap_map]
    apply List.flatMap_congr
    intro segment hSegment
    have hFits :
        ∀ record ∈ segment.2, record.Fits := by
      intro record hRecord
      exact hRecords.fits record
        (List.mem_flatMap.mpr ⟨segment, hSegment, hRecord⟩)
    simp [hRead segment hSegment,
      segmentRecords_encodeRecords hFits]
  have hPresent :
      ∀ segmentId ∈ closed.map Prod.fst,
        ∃ content,
          disk.read (.wal segmentId) = some content := by
    intro segmentId hSegment
    rcases List.mem_map.mp hSegment with ⟨segment, hMem, rfl⟩
    exact ⟨_, hRead segment hMem⟩
  have hFits :=
    (compacted_fits_iff hRecords.fits).mpr
      hRecords.consolidationFits
  have hPhase1 :=
    executeCompactionPhase1_of_present hPresent
  rw [hIn] at hPhase1
  refine ⟨_, _, _, compacted (closed.flatMap Prod.snd),
    hPhase1, ?_, ?_, rfl,
    compactionOutput_compacted hRecords⟩
  · rw [read_phase1, if_pos rfl]
  · rw [segmentRecords_encodeRecords hFits,
      Framing.map_snd_located]

end Wal

/- A leased task, a finished one and one taken over. -/
def threeTaskSegments : List Segment :=
  [(1, [⟨3, .nacked, 7, [2, 65, 66]⟩,
      ⟨1, .created, 5, [67]⟩]),
    (2, [⟨2, .created, 5, []⟩,
      ⟨1, .leased, 5, leasePayload 1 100 0⟩,
      ⟨2, .acked, 5, []⟩])]

theorem sinceFinished_threeTaskSegments
    (id : UInt64) :
    sinceFinished
        (threeTaskSegments.flatMap Prod.snd) id =
      if id = 1 then
        [⟨1, .created, 5, [67]⟩,
          ⟨1, .leased, 5, leasePayload 1 100 0⟩]
      else if id = 3 then
        [⟨3, .nacked, 7, [2, 65, 66]⟩]
      else [] := by
  by_cases hOne : id = 1
  · subst hOne
    decide
  · by_cases hTwo : id = 2
    · subst hTwo
      decide
    · by_cases hThree : id = 3
      · subst hThree
        decide
      · simp [sinceFinished, threeTaskSegments,
          KeyedLog.history, hOne, hThree, Ne.symm hOne,
          Ne.symm hTwo, Ne.symm hThree]

theorem compactable_threeTaskSegments :
    Compactable (threeTaskSegments.flatMap Prod.snd) := by
  constructor
  · decide
  · decide
  · decide
  · intro id first rest hSince record hRecord
    rw [sinceFinished_threeTaskSegments] at hSince
    split at hSince
    · rcases List.cons.inj hSince with ⟨_, rfl⟩
      rw [List.mem_singleton] at hRecord
      simp [hRecord]
    · split at hSince
      · rcases List.cons.inj hSince with ⟨_, rfl⟩
        simp at hRecord
      · simp at hSince
  · intro id first rest hSince
    rw [sinceFinished_threeTaskSegments] at hSince
    split at hSince
    · rcases List.cons.inj hSince with ⟨rfl, _⟩
      decide
    · split at hSince
      · rcases List.cons.inj hSince with ⟨rfl, _⟩
        decide
      · simp at hSince

set_option maxRecDepth 100000 in
theorem Wal.executeCompactionPhase1_output_three_tasks :
    ∃ stats newOffsets next written,
      executeCompactionPhase1
          (Disk.ofSegments threeTaskSegments)
          (threeTaskSegments.map Prod.fst) =
          (.ok (stats, newOffsets), next) ∧
        next.read .compacting =
          some (encodeRecords written) ∧
        (segmentRecords (encodeRecords written)).map
            Prod.snd = written ∧
        stats.survivingRecords = written.length ∧
        CompactionOutput
          (threeTaskSegments.flatMap Prod.snd) written
          newOffsets :=
  executeCompactionPhase1_output
    (by decide +kernel) compactable_threeTaskSegments

end Nesso

------------------------------------------------------------
-- Readable Compacted Segments
------------------------------------------------------------

namespace Nesso

/- A record that is too long is written but not read. -/
theorem Record.decode_encode_ne_none_iff [Hasher]
    {record : Record}
    (hLength : record.payload.length < 2 ^ 32) :
    Record.decode record.encode ≠ none ↔ record.Fits := by
  constructor
  · intro hDecode
    rcases Option.ne_none_iff_exists'.mp hDecode with
      ⟨other, hOther⟩
    have hFrom := Record.decodedFrom_of_decode hOther
    have hPayloadLen := hFrom.payloadLen_eq
    have hSame :=
      Record.extractPayloadLen_encode_of_lt hLength []
    rw [List.append_nil, hPayloadLen] at hSame
    rw [Record.Fits, ← hSame]
    exact hFrom.fits
  · intro hFits
    rw [Record.decode_encode hFits]
    simp

/- Scanning yields every survivor only if all can be read. -/
theorem length_segmentRecords_compacted_iff [Hasher]
    {records : List Record}
    (hFits : ∀ record ∈ records, record.Fits) :
    (segmentRecords
          (encodeRecords (compacted records))).length =
        (compacted records).length ↔
      ∀ record ∈ compacted records, record.Fits := by
  rw [← List.length_map Prod.snd,
    segmentRecords_compacted hFits]
  constructor
  · intro hLength
    have hWhole :=
      (List.takeWhile_prefix _).eq_of_length hLength
    simpa [List.takeWhile_eq_self_iff] using hWhole
  · intro hCompacted
    have hWhole :
        (compacted records).takeWhile
            (fun record => decide record.Fits) =
          compacted records := by
      simpa [List.takeWhile_eq_self_iff] using hCompacted
    rw [hWhole]

namespace Wal

/-
  The compacted segment can be read back exactly when every
  live task has room for its state in front of its payload.
-/
theorem compacted_readable_iff [Hasher]
    {disk : Disk}
    {ids : List Nat}
    (hPresent :
      ∀ segmentId ∈ ids,
        ∃ content,
          disk.read (.wal segmentId) = some content) :
    ∃ stats newOffsets next,
      executeCompactionPhase1 disk ids =
          (.ok (stats, newOffsets), next) ∧
        next.read .compacting =
          some
            (encodeRecords
              (compacted (recordsIn disk ids))) ∧
        (((∀ record ∈ compacted (recordsIn disk ids),
              Record.decode record.encode ≠ none) ∧
            (segmentRecords
                (encodeRecords
                  (compacted
                    (recordsIn disk ids)))).length =
              stats.survivingRecords) ↔
          ConsolidationFits (recordsIn disk ids)) := by
  have hFits :
      ∀ record ∈ recordsIn disk ids, record.Fits :=
    fun _ hRecord => fits_of_mem_recordsIn hRecord
  refine ⟨_, _, _,
    executeCompactionPhase1_of_present hPresent, ?_, ?_⟩
  · rw [read_phase1, if_pos rfl]
  · rw [← compacted_fits_iff hFits,
      length_segmentRecords_compacted_iff hFits]
    constructor
    · exact fun hBoth => hBoth.2
    · intro hCompacted
      refine ⟨?_, hCompacted⟩
      intro record hRecord
      rw [Record.decode_encode (hCompacted record hRecord)]
      simp

theorem present_leasedTaskSegments
    (payload : Bytes) :
    ∀ segmentId ∈ [1],
      ∃ content,
        (Disk.ofSegments
            (leasedTaskSegments payload)).read
              (.wal segmentId) = some content := by
  intro segmentId hSegment
  rw [List.mem_singleton] at hSegment
  rw [hSegment, leasedTaskSegments,
    Disk.read_ofSegments_cons, if_pos rfl]
  exact ⟨_, rfl⟩

set_option maxRecDepth 100000 in
/- A leased task with a short payload can be read back. -/
theorem compacted_readable_iff_short :
    ConsolidationFits
        (recordsIn
          (Disk.ofSegments (leasedTaskSegments [7])) [1]) ∧
      ∃ stats newOffsets next,
        executeCompactionPhase1
            (Disk.ofSegments (leasedTaskSegments [7])) [1] =
          (.ok (stats, newOffsets), next) ∧
        next.read .compacting =
          some
            (encodeRecords
              (compacted
                (recordsIn
                  (Disk.ofSegments (leasedTaskSegments [7]))
                  [1]))) ∧
        (((∀ record ∈
                compacted
                  (recordsIn
                    (Disk.ofSegments
                      (leasedTaskSegments [7])) [1]),
              Record.decode record.encode ≠ none) ∧
            (segmentRecords
                (encodeRecords
                  (compacted
                    (recordsIn
                      (Disk.ofSegments
                        (leasedTaskSegments [7]))
                      [1])))).length =
              stats.survivingRecords) ↔
          ConsolidationFits
            (recordsIn
              (Disk.ofSegments (leasedTaskSegments [7]))
              [1])) := by
  refine ⟨?_,
    compacted_readable_iff (present_leasedTaskSegments [7])⟩
  rw [← compacted_fits_iff (fun _ hRecord =>
    fits_of_mem_recordsIn hRecord),
    recordsIn_leasedTaskSegments (by decide)]
  decide +kernel

/-
  A payload of the full size is consolidated into a record
  that no reader accepts.
-/
theorem compacted_full_payload_unreadable :
    ∃ stats newOffsets next,
      executeCompactionPhase1
          (Disk.ofSegments
            (leasedTaskSegments
              (List.replicate maxPayloadSize 0))) [1] =
          (.ok (stats, newOffsets), next) ∧
        ∃ written,
          next.read .compacting =
              some (encodeRecords written) ∧
            (∃ record ∈ written,
              Record.decode record.encode = none) ∧
            (segmentRecords (encodeRecords written)).length ≠
              stats.survivingRecords := by
  have hLength :
      (List.replicate maxPayloadSize (0 : UInt8)).length =
        maxPayloadSize :=
    List.length_replicate
  generalize List.replicate maxPayloadSize (0 : UInt8) =
    payload at hLength ⊢
  have hFits :
      ∀ record ∈
          recordsIn
            (Disk.ofSegments (leasedTaskSegments payload))
            [1],
        record.Fits :=
    fun _ hRecord => fits_of_mem_recordsIn hRecord
  have hLong :
      ¬ ∀ record ∈
          compacted
            (recordsIn
              (Disk.ofSegments (leasedTaskSegments payload))
              [1]),
        record.Fits := by
    rw [compacted_fits_iff hFits,
      recordsIn_leasedTaskSegments (le_of_eq hLength)]
    exact not_consolidationFits_leasedTask hLength
  refine ⟨_, _, _,
    executeCompactionPhase1_of_present
      (present_leasedTaskSegments payload),
    _, by rw [read_phase1, if_pos rfl], ?_, ?_⟩
  · push Not at hLong
    rcases hLong with ⟨record, hRecord, hTooLong⟩
    refine ⟨record, hRecord, ?_⟩
    by_contra hDecode
    exact hTooLong
      ((Record.decode_encode_ne_none_iff
        (compacted_length_lt hFits record hRecord)).mp
          hDecode)
  · intro hSame
    exact hLong
      ((length_segmentRecords_compacted_iff hFits).mp hSame)

end Wal

end Nesso
