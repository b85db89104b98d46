import Nesso.Log.Payloads
import Nesso.Storage.Checksum

/-
  Compacting compacted segments.  A consolidated record is
  read back as the latest state of its task together with the
  user payload that was collected for it, so that a second
  compaction finds what the first one knew.

  Key definitions include:
    * `Record.embedded`
    * `CompactionMaps.Rewrites`

  The main theorems are:
    * `compacted_compacted_append`
    * `Wal.compaction_generations_compose`
-/

------------------------------------------------------------
-- Payloads Read Back
------------------------------------------------------------

namespace Nesso

/- The user payload that compaction finds in a record. -/
def Record.embedded (record : Record) : Option Bytes :=
  match record.opType with
  | .created => some record.payload
  | .leased =>
      if 13 ≤ record.payload.length then
        some (record.payload.drop 13)
      else
        none
  | .nacked | .expired =>
      if 1 ≤ record.payload.length then
        some (record.payload.drop 1)
      else
        none
  | .acked | .deadLettered => none

namespace CompactionMaps

/- One record of a task, in terms of its own payload. -/
theorem createdPayloads_absorb_self
    (maps : CompactionMaps)
    (record : Record) :
    (maps.absorb record).createdPayloads[record.id]? =
      if record.opType.isTerminal then none
      else if record.opType = .created then
        some record.payload
      else
        maps.createdPayloads[record.id]?.or
          record.embedded := by
  rw [getElem?_createdPayloads_absorb]
  unfold Record.embedded
  cases record.opType <;> simp [OpType.isTerminal]

/-
  What the two maps know about a task agrees: a payload is
  collected only for a surviving task, it is the payload of a
  surviving Created record, and it is missing only if the
  surviving record has none.
-/
structure Collected
    (maps : CompactionMaps)
    (id : UInt64) : Prop where
  none_of_none :
    maps.latestRecords[id]? = none →
      maps.createdPayloads[id]? = none
  of_created :
    ∀ record,
      maps.latestRecords[id]? = some record →
        record.opType = .created →
          maps.createdPayloads[id]? = some record.payload
  embedded_eq_none :
    ∀ record,
      maps.latestRecords[id]? = some record →
        maps.createdPayloads[id]? = none →
          record.embedded = none

theorem Collected.absorb
    {maps : CompactionMaps}
    {id : UInt64}
    (hMaps : maps.Collected id)
    (record : Record) :
    (maps.absorb record).Collected id := by
  by_cases hId : record.id = id
  · subst hId
    have hPayload := maps.createdPayloads_absorb_self record
    have hLatest :
        (maps.absorb record).latestRecords[record.id]? =
          if record.opType.isTerminal then none
          else some record := by
      rw [latestRecords_absorb]
      split <;> simp
    cases hTerminal : record.opType.isTerminal with
    | true =>
        simp only [hTerminal, if_true] at hPayload hLatest
        constructor
        · intro _
          exact hPayload
        · simp [hLatest]
        · simp [hLatest]
    | false =>
        simp only [hTerminal, Bool.false_eq_true, if_false]
          at hPayload hLatest
        constructor
        · simp [hLatest]
        · intro found hFound hCreated
          have hEq : record = found := by
            simpa [hLatest] using hFound
          subst hEq
          simpa [hCreated] using hPayload
        · intro found hFound hNone
          have hEq : record = found := by
            simpa [hLatest] using hFound
          subst hEq
          by_cases hCreated : record.opType = .created
          · simp [hPayload, hCreated] at hNone
          · simp only [hPayload, hCreated, if_false,
              Option.or_eq_none_iff] at hNone
            exact hNone.2
  · have hPayload :
        (maps.absorb record).createdPayloads[id]? =
          maps.createdPayloads[id]? := by
      simp [getElem?_createdPayloads_absorb, hId]
    have hLatest :
        (maps.absorb record).latestRecords[id]? =
          maps.latestRecords[id]? := by
      rw [latestRecords_absorb]
      split <;> simp [Std.ExtTreeMap.getElem?_erase,
        Std.ExtTreeMap.getElem?_insert, hId]
    constructor
    · simpa [hPayload, hLatest] using hMaps.none_of_none
    · simpa [hPayload, hLatest] using hMaps.of_created
    · simpa [hPayload, hLatest] using
        hMaps.embedded_eq_none

theorem collected_ofRecords
    (records : List Record)
    (id : UInt64) :
    (ofRecords records).Collected id := by
  induction records using List.reverseRecOn with
  | nil =>
      constructor <;> simp [ofRecords, empty]
  | append_singleton records record ih =>
      rw [ofRecords_append_singleton]
      exact ih.absorb record

/- The consolidated record embeds the collected payload. -/
theorem Collected.embedded_recordToWrite
    {maps : CompactionMaps}
    {id : UInt64}
    (hMaps : maps.Collected id)
    {record : Record}
    (hRecord : maps.latestRecords[id]? = some record)
    (hLive : record.opType.isTerminal = false)
    (hLong :
      record.opType = .leased →
        13 ≤ record.payload.length) :
    (maps.recordToWrite id record).embedded =
      maps.createdPayloads[id]? := by
  unfold recordToWrite
  by_cases hCreated : record.opType = .created
  · simp [hCreated, Record.embedded,
      hMaps.of_created record hRecord hCreated]
  · simp only [hCreated, if_false]
    cases hPayload : maps.createdPayloads[id]? with
    | none =>
        exact hMaps.embedded_eq_none record hRecord hPayload
    | some payload =>
        cases hOp : record.opType with
        | created => exact (hCreated hOp).elim
        | leased =>
            have hHeader := hLong hOp
            have hTake :
                (record.payload.take 13).length = 13 := by
              simpa using hHeader
            simp [Record.embedded, List.drop_left' hTake,
              hTake]
        | nacked => simp [Record.embedded]
        | expired => simp [Record.embedded]
        | acked => simp [hOp, OpType.isTerminal] at hLive
        | deadLettered =>
            simp [hOp, OpType.isTerminal] at hLive

/- With one record a task, its own payload is collected. -/
theorem getElem?_createdPayloads_of_nodup
    {records : List Record}
    (hNodup : (records.map Record.id).Nodup)
    (id : UInt64) :
    (ofRecords records).createdPayloads[id]? =
      (KeyedLog.latest Record.id records id).bind
        Record.embedded := by
  induction records using List.reverseRecOn with
  | nil => simp [ofRecords, empty]
  | append_singleton records record ih =>
      simp only [List.map_append, List.map_singleton]
        at hNodup
      have hOld := ih hNodup.of_append_left
      rw [ofRecords_append_singleton,
        KeyedLog.latest_append_singleton]
      by_cases hId : record.id = id
      · subst hId
        have hNone :
            KeyedLog.latest Record.id records record.id =
              none := by
          apply KeyedLog.latest_eq_none_iff.mpr
          intro other hOther hEq
          have hDisjoint :=
            List.disjoint_of_nodup_append hNodup
          exact hDisjoint (List.mem_map_of_mem hOther)
            (by simp [hEq])
        rw [createdPayloads_absorb_self, hOld, hNone]
        cases hOp : record.opType <;>
          simp [OpType.isTerminal, Record.embedded, hOp]
      · simp [getElem?_createdPayloads_absorb, hId, hOld]

/- Reading compacted records collects the same payloads. -/
theorem createdPayloads_compacted
    {records : List Record}
    (hLong :
      ∀ record ∈ records, record.opType = .leased →
        13 ≤ record.payload.length) :
    (ofRecords (compacted records)).createdPayloads =
      (ofRecords records).createdPayloads := by
  apply Std.ExtTreeMap.ext_getElem?
  intro id
  have hMaps := collected_ofRecords records id
  rw [getElem?_createdPayloads_of_nodup
      (compacted_ids_nodup records), latest_compacted,
    ← getElem?_latestRecords]
  cases hLatest :
      (ofRecords records).latestRecords[id]? with
  | none => simp [hMaps.none_of_none hLatest]
  | some record =>
      rcases id_of_getElem?_latestRecords hLatest with
        ⟨_, hMem, hLive⟩
      exact hMaps.embedded_recordToWrite hLatest hLive
        (hLong record hMem)

end CompactionMaps

end Nesso

------------------------------------------------------------
-- Simulating a Single Compaction
------------------------------------------------------------

namespace Nesso

namespace CompactionMaps

/- The written record depends on the task's payload only. -/
theorem recordToWrite_congr
    {maps other : CompactionMaps}
    {id : UInt64}
    (hPayload :
      other.createdPayloads[id]? =
        maps.createdPayloads[id]?)
    (record : Record) :
    other.recordToWrite id record =
      maps.recordToWrite id record := by
  simp [recordToWrite, hPayload]

/- Consolidating a consolidated record changes nothing. -/
theorem recordToWrite_recordToWrite
    (maps : CompactionMaps)
    (id : UInt64)
    {record : Record}
    (hLong :
      record.opType = .leased →
        13 ≤ record.payload.length) :
    maps.recordToWrite id (maps.recordToWrite id record) =
      maps.recordToWrite id record := by
  by_cases hCreated : record.opType = .created
  · simp [recordToWrite, hCreated]
  · cases hPayload : maps.createdPayloads[id]? with
    | none => simp [recordToWrite, hPayload]
    | some payload =>
        cases hOp : record.opType with
        | leased =>
            have hHeader := hLong hOp
            simp [recordToWrite, hOp, hPayload, hHeader]
        | _ => simp [recordToWrite, hOp, hPayload]

/-
  Two compactions that have read the same payloads, where the
  second one may already have a task's consolidated record.
-/
structure Rewrites
    (maps other : CompactionMaps) : Prop where
  payloads_eq :
    other.createdPayloads = maps.createdPayloads
  latest_or :
    ∀ id,
      other.latestRecords[id]? = maps.latestRecords[id]? ∨
        ∃ record,
          maps.latestRecords[id]? = some record ∧
            other.latestRecords[id]? =
              some (maps.recordToWrite id record) ∧
            (record.opType = .leased →
              13 ≤ record.payload.length)

/- A compacted segment rewrites what it was made of. -/
theorem rewrites_compacted
    {records : List Record}
    (hLong :
      ∀ record ∈ records, record.opType = .leased →
        13 ≤ record.payload.length) :
    (ofRecords records).Rewrites
      (ofRecords (compacted records)) := by
  refine ⟨createdPayloads_compacted hLong, ?_⟩
  intro id
  have hCompacted :=
    getElem?_latestRecords (compacted records) id
  rw [latest_compacted, ← getElem?_latestRecords]
    at hCompacted
  cases hLatest :
      (ofRecords records).latestRecords[id]? with
  | none =>
      left
      simpa [hLatest] using hCompacted
  | some record =>
      right
      rcases id_of_getElem?_latestRecords hLatest with
        ⟨hId, hMem, hLive⟩
      have hFields :=
        (ofRecords records).recordToWrite_fields hId
      refine ⟨record, rfl, ?_, hLong record hMem⟩
      simpa [hLatest, Option.filter, hFields.2.1, hLive]
        using hCompacted

/- Both go on in the same way with further records. -/
theorem Rewrites.absorb
    {maps other : CompactionMaps}
    (hMaps : maps.Rewrites other)
    (record : Record) :
    (maps.absorb record).Rewrites
      (other.absorb record) := by
  constructor
  · unfold CompactionMaps.absorb
    cases record.opType <;> simp [hMaps.payloads_eq]
  · intro id
    have hLatest :
        ∀ found : CompactionMaps,
          (found.absorb record).latestRecords[id]? =
            if record.id = id then
              if record.opType.isTerminal then none
              else some record
            else found.latestRecords[id]? := by
      intro found
      rw [latestRecords_absorb]
      by_cases hId : record.id = id <;> split <;>
        simp [Std.ExtTreeMap.getElem?_erase,
          Std.ExtTreeMap.getElem?_insert, hId]
    by_cases hId : record.id = id
    · left
      simp [hLatest, hId]
    · have hSame :
          ∀ found,
            (maps.absorb record).recordToWrite id found =
              maps.recordToWrite id found := by
        intro found
        apply recordToWrite_congr
        simp [getElem?_createdPayloads_absorb, hId]
      simpa [hLatest, hId, hSame] using hMaps.latest_or id

theorem Rewrites.foldl
    {maps other : CompactionMaps}
    (hMaps : maps.Rewrites other)
    (records : List Record) :
    (records.foldl CompactionMaps.absorb maps).Rewrites
      (records.foldl CompactionMaps.absorb other) := by
  induction records generalizing maps other with
  | nil => exact hMaps
  | cons record records ih =>
      exact ih (hMaps.absorb record)

/- The survivors as values of one map. -/
theorem survivors_eq
    (maps : CompactionMaps) :
    maps.survivors =
      (maps.latestRecords.map
        maps.recordToWrite).toList.map Prod.snd := by
  simp [survivors, Std.ExtTreeMap.toList_map,
    Function.comp_def]

/- Both write the same records. -/
theorem Rewrites.survivors_eq
    {maps other : CompactionMaps}
    (hMaps : maps.Rewrites other) :
    other.survivors = maps.survivors := by
  have hSame :
      ∀ id record,
        other.recordToWrite id record =
          maps.recordToWrite id record := by
    intro id record
    apply recordToWrite_congr
    rw [hMaps.payloads_eq]
  have hValues :
      other.latestRecords.map other.recordToWrite =
        maps.latestRecords.map maps.recordToWrite := by
    apply Std.ExtTreeMap.ext_getElem?
    intro id
    simp only [Std.ExtTreeMap.getElem?_map]
    rcases hMaps.latest_or id with
      hEq | ⟨record, hRecord, hOther, hLong⟩
    · simp [hEq, Option.map_congr (fun _ _ => hSame id _)]
    · simp [hRecord, hOther, hSame,
        maps.recordToWrite_recordToWrite id hLong]
  rw [CompactionMaps.survivors_eq,
    CompactionMaps.survivors_eq, hValues]

end CompactionMaps

/- Compacting in two generations or at once is the same. -/
theorem compacted_compacted_append
    {first : List Record}
    (hLong :
      ∀ record ∈ first, record.opType = .leased →
        13 ≤ record.payload.length)
    (second : List Record) :
    compacted (compacted first ++ second) =
      compacted (first ++ second) := by
  have hMaps :=
    (CompactionMaps.rewrites_compacted hLong).foldl second
  simpa [compacted, CompactionMaps.ofRecords] using
    hMaps.survivors_eq

end Nesso

------------------------------------------------------------
-- Generations on Disk
------------------------------------------------------------

namespace Nesso

/-
  Compacting the first segments, swapping the result in and
  compacting it together with the second ones writes the file
  that a single compaction of all of them writes.
-/
theorem Wal.compaction_generations_compose [Hasher]
    {disk : Disk}
    {first second later : List Segment}
    (hSegments :
      SegmentsOn disk (first ++ (second ++ later)))
    (hFirst : first ≠ [])
    (hLong :
      ∀ record ∈ first.flatMap Prod.snd,
        record.opType = .leased →
          13 ≤ record.payload.length)
    (hFits :
      ∀ record ∈ compacted (first.flatMap Prod.snd),
        record.Fits) :
    ∃ written swapped once twice,
      ∃ firstResult : CompactionStats × _,
      ∃ onceStats twiceStats offsets bytes,
        executeCompactionPhase1 disk (first.map Prod.fst) =
            (.ok firstResult, written) ∧
          executeCompactionPhase2 written
              (first.map Prod.fst) = (.ok (), swapped) ∧
          executeCompactionPhase1 swapped
              (1 :: second.map Prod.fst) =
            (.ok (twiceStats, offsets), twice) ∧
          executeCompactionPhase1 disk
              ((first ++ second).map Prod.fst) =
            (.ok (onceStats, offsets), once) ∧
          twice.read .compacting = some bytes ∧
          once.read .compacting = some bytes := by
  have hAll :
      SegmentsOn disk ((first ++ second) ++ later) := by
    simpa using hSegments
  rcases executeCompactionPhase1_spec hSegments with
    ⟨written, hPhase1, hWritten, hTemp, _, _⟩
  rcases executeCompactionPhase2_spec hWritten hFirst hTemp
    hFits with ⟨swapped, hPhase2, hSwapped, _, _⟩
  have hAgain :
      SegmentsOn swapped
        (((1, compacted (first.flatMap Prod.snd)) ::
          second) ++ later) := by
    simpa using hSwapped
  rcases executeCompactionPhase1_spec hAgain with
    ⟨twice, hTwice, _, hTwiceTemp, _, _⟩
  rcases executeCompactionPhase1_spec hAll with
    ⟨once, hOnce, _, hOnceTemp, _, _⟩
  have hSame :
      compacted
          (((1, compacted (first.flatMap Prod.snd)) ::
            second).flatMap Prod.snd) =
        compacted ((first ++ second).flatMap Prod.snd) := by
    simpa using
      compacted_compacted_append hLong
        (second.flatMap Prod.snd)
  rw [hSame] at hTwice hTwiceTemp
  exact ⟨written, swapped, once, twice, _, _, _, _, _,
    hPhase1, hPhase2, hTwice, hOnce, hTwiceTemp, hOnceTemp⟩

/- Task 1 is nacked in segment 1 and leased in segment 2. -/
def nackedThenLeased : List Segment :=
  [(1, [⟨1, .created, 5, [7, 8]⟩, ⟨1, .nacked, 5, [1]⟩,
      ⟨2, .created, 9, [9]⟩]),
    (2, [⟨1, .leased, 5, List.replicate 13 1⟩,
      ⟨2, .acked, 9, []⟩])]

theorem Wal.compaction_generations_compose_leased :
    ∃ written swapped once twice,
      ∃ firstResult : CompactionStats × _,
      ∃ onceStats twiceStats offsets bytes,
        executeCompactionPhase1
            (Disk.ofSegments nackedThenLeased) [1] =
            (.ok firstResult, written) ∧
          executeCompactionPhase2 written [1] =
            (.ok (), swapped) ∧
          executeCompactionPhase1 swapped [1, 2] =
            (.ok (twiceStats, offsets), twice) ∧
          executeCompactionPhase1
              (Disk.ofSegments nackedThenLeased) [1, 2] =
            (.ok (onceStats, offsets), once) ∧
          twice.read .compacting = some bytes ∧
          once.read .compacting = some bytes := by
  have hSegments :
      SegmentsOn (Disk.ofSegments nackedThenLeased)
        nackedThenLeased := by
    apply SegmentsOn.ofSegments
    · decide
    · decide
    · decide
  have hSplit :
      SegmentsOn (Disk.ofSegments nackedThenLeased)
        (nackedThenLeased.take 1 ++
          (nackedThenLeased.drop 1 ++ [])) := hSegments
  exact Wal.compaction_generations_compose hSplit
    (by simp [nackedThenLeased]) (by decide) (by decide)

end Nesso
