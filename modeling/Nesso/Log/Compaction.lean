import Nesso.Library.KeyedLog
import Nesso.Log.Opening

/-
  What compaction computes from the closed segments, and what
  its two phases do to the directory.

  Key definitions include:
    * `CompactionMaps.ofRecords`
    * `compacted`
    * `Wal.recordsIn`

  The compaction theorems are:
    * `latest_compacted`
    * `Wal.collectClosed_of_present`
    * `Wal.executeCompactionPhase1_spec`
    * `Wal.executeCompactionPhase2_spec`
-/

------------------------------------------------------------
-- Surviving Records
------------------------------------------------------------

namespace Nesso

namespace CompactionMaps

/- The maps after all records of the closed segments. -/
def ofRecords (records : List Record) : CompactionMaps :=
  records.foldl absorb empty

theorem ofRecords_append_singleton
    (records : List Record)
    (record : Record) :
    ofRecords (records ++ [record]) =
      (ofRecords records).absorb record := by
  simp [ofRecords]

/- Absorbing a record keeps it, or drops a finished task. -/
theorem latestRecords_absorb
    (maps : CompactionMaps)
    (record : Record) :
    (maps.absorb record).latestRecords =
      if record.opType.isTerminal then
        maps.latestRecords.erase record.id
      else
        maps.latestRecords.insert record.id record := by
  unfold absorb
  cases record.opType <;> simp [OpType.isTerminal]

/- A task survives with its latest record, if it is live. -/
theorem getElem?_latestRecords
    (records : List Record)
    (id : UInt64) :
    (ofRecords records).latestRecords[id]? =
      (KeyedLog.latest Record.id records id).filter
        (fun record => !record.opType.isTerminal) := by
  induction records using List.reverseRecOn with
  | nil => simp [ofRecords, empty]
  | append_singleton records record ih =>
      rw [ofRecords_append_singleton, latestRecords_absorb,
        KeyedLog.latest_append_singleton]
      cases hTerminal : record.opType.isTerminal with
      | true =>
          rw [if_pos rfl, Std.ExtTreeMap.getElem?_erase, ih]
          by_cases hId : record.id = id
          · simp [hId, Option.filter, hTerminal]
          · simp [hId]
      | false =>
          rw [if_neg (by simp),
            Std.ExtTreeMap.getElem?_insert, ih]
          by_cases hId : record.id = id
          · simp [hId, Option.filter, hTerminal]
          · simp [hId]

/- A surviving record belongs to the task it is kept for. -/
theorem id_of_getElem?_latestRecords
    {records : List Record}
    {id : UInt64}
    {record : Record}
    (hRecord :
      (ofRecords records).latestRecords[id]? =
        some record) :
    record.id = id ∧ record ∈ records ∧
      record.opType.isTerminal = false := by
  rw [getElem?_latestRecords,
    Option.filter_eq_some_iff] at hRecord
  have hMem := KeyedLog.latest_mem hRecord.1
  exact ⟨hMem.2, hMem.1, by simpa using hRecord.2⟩

/- The written record keeps everything but the payload. -/
theorem recordToWrite_fields
    (maps : CompactionMaps)
    {id : UInt64}
    {record : Record}
    (hId : record.id = id) :
    (maps.recordToWrite id record).id = id ∧
      (maps.recordToWrite id record).opType =
        record.opType ∧
      (maps.recordToWrite id record).priority =
        record.priority := by
  unfold recordToWrite
  split
  · exact ⟨hId, rfl, rfl⟩
  · split
    · exact ⟨hId, rfl, rfl⟩
    · split
      · exact ⟨rfl, rfl, rfl⟩
      · exact ⟨rfl, rfl, rfl⟩
      · exact ⟨rfl, rfl, rfl⟩
      · exact ⟨hId, rfl, rfl⟩

end CompactionMaps

/- The records phase 1 writes from the given ones. -/
def compacted (records : List Record) : List Record :=
  (CompactionMaps.ofRecords records).survivors

/- The compacted records are sorted by id. -/
theorem map_id_compacted
    (records : List Record) :
    (compacted records).map Record.id =
      (CompactionMaps.ofRecords
        records).latestRecords.keys := by
  rw [compacted, CompactionMaps.survivors, List.map_map,
    ← Std.ExtTreeMap.map_fst_toList_eq_keys]
  apply List.map_congr_left
  rintro ⟨id, record⟩ hMem
  rw [Std.ExtTreeMap.mem_toList_iff_getElem?_eq_some]
    at hMem
  exact
    (CompactionMaps.recordToWrite_fields _
      (CompactionMaps.id_of_getElem?_latestRecords
        hMem).1).1

theorem compacted_ids_nodup
    (records : List Record) :
    ((compacted records).map Record.id).Nodup := by
  rw [map_id_compacted]
  exact Std.ExtTreeMap.nodup_keys

theorem mem_compacted_iff
    {records : List Record}
    {record : Record} :
    record ∈ compacted records ↔
      ∃ id last,
        (CompactionMaps.ofRecords
            records).latestRecords[id]? = some last ∧
          record =
            (CompactionMaps.ofRecords
              records).recordToWrite id last := by
  rw [compacted, CompactionMaps.survivors, List.mem_map]
  constructor
  · rintro ⟨⟨id, last⟩, hMem, rfl⟩
    rw [Std.ExtTreeMap.mem_toList_iff_getElem?_eq_some]
      at hMem
    exact ⟨id, last, hMem, rfl⟩
  · rintro ⟨id, last, hLast, rfl⟩
    exact ⟨(id, last),
      Std.ExtTreeMap.mem_toList_iff_getElem?_eq_some.mpr
        hLast, rfl⟩

/- Each live task has exactly one compacted record. -/
theorem latest_compacted
    (records : List Record)
    (id : UInt64) :
    KeyedLog.latest Record.id (compacted records) id =
      ((KeyedLog.latest Record.id records id).filter
        (fun record => !record.opType.isTerminal)).map
          ((CompactionMaps.ofRecords
            records).recordToWrite id) := by
  rw [← CompactionMaps.getElem?_latestRecords]
  ext record
  rw [KeyedLog.latest_eq_some_iff_of_nodup
      (compacted_ids_nodup records),
    mem_compacted_iff, Option.map_eq_some_iff]
  constructor
  · rintro ⟨⟨found, last, hLast, rfl⟩, hId⟩
    have hFound :=
      CompactionMaps.id_of_getElem?_latestRecords hLast
    rw [(CompactionMaps.recordToWrite_fields _
      hFound.1).1] at hId
    subst hId
    exact ⟨last, hLast, rfl⟩
  · rintro ⟨last, hLast, rfl⟩
    have hFound :=
      CompactionMaps.id_of_getElem?_latestRecords hLast
    exact ⟨⟨id, last, hLast, rfl⟩,
      (CompactionMaps.recordToWrite_fields _ hFound.1).1⟩

end Nesso

------------------------------------------------------------
-- The Two Phases on Disk
------------------------------------------------------------

namespace Nesso

namespace Wal

variable [Hasher]
variable {disk : Disk} {segments closed later : List Segment}

/- The records that some of the segments yield, in order. -/
def recordsIn
    (disk : Disk)
    (ids : List Nat) : List Record :=
  ids.flatMap (fun segmentId =>
    (segmentRecords
      ((disk.read (.wal segmentId)).getD [])).map Prod.snd)

/- Reading existing segments absorbs all their records. -/
theorem collectClosed_of_present
    {ids : List Nat}
    (hPresent :
      ∀ segmentId ∈ ids,
        ∃ content,
          disk.read (.wal segmentId) = some content)
    (maps : CompactionMaps) :
    collectClosed disk maps ids =
      .ok ((recordsIn disk ids).foldl
        CompactionMaps.absorb maps) := by
  induction ids generalizing maps with
  | nil => rfl
  | cons segmentId ids ih =>
      rcases hPresent segmentId (by simp) with
        ⟨content, hRead⟩
      rw [collectClosed, hRead]
      simp only
      rw [ih (fun other hOther =>
        hPresent other (by simp [hOther]))]
      simp [recordsIn, hRead, List.foldl_map]

/- Whole segments yield exactly their records. -/
theorem recordsIn_eq
    (hSegments : SegmentsOn disk segments)
    (hClosed : ∀ segment ∈ closed, segment ∈ segments) :
    recordsIn disk (closed.map Prod.fst) =
      closed.flatMap Prod.snd := by
  simp only [recordsIn, List.flatMap_map]
  apply List.flatMap_congr
  intro segment hSegment
  have hMem := hClosed segment hSegment
  simp [hSegments.read_of_mem hMem,
    segmentRecords_encodeRecords (hSegments.fits _ hMem)]

/- Phase 1 on any directory that has the segments. -/
theorem executeCompactionPhase1_of_present
    {ids : List Nat}
    (hPresent :
      ∀ segmentId ∈ ids,
        ∃ content,
          disk.read (.wal segmentId) = some content) :
    executeCompactionPhase1 disk ids =
      (.ok
        ({ closedSegmentsCompacted := ids.length
           survivingRecords :=
            (compacted (recordsIn disk ids)).length
           newSegmentId := 1 },
          newOffsets (compacted (recordsIn disk ids))),
        disk.execAll
          (phase1Steps ids
            (compacted (recordsIn disk ids)))) := by
  rw [executeCompactionPhase1,
    collectClosed_of_present hPresent]
  rfl

omit [Hasher] in
/- Writing the plan replaces the plan file. -/
theorem read_planSteps
    (disk : Disk)
    (ids : List Nat)
    (name : FileName) :
    (disk.execAll (planSteps ids)).read name =
      if name = .compactionPlan then
        some (CompactionPlan.content ids)
      else disk.read name := by
  change (FileSystem.Step.exec _
    (.write .compactionPlan _)).read name = _
  rw [FileSystem.read_exec_write,
    FileSystem.read_exec_createTruncate,
    FileSystem.read_exec_createTruncate]
  by_cases hName : name = .compactionPlan
  · simp [hName]
  · simp [hName]

/- The files that phase 1 writes. -/
theorem read_phase1
    (disk : Disk)
    (ids : List Nat)
    (records : List Record)
    (name : FileName) :
    (disk.execAll (phase1Steps ids records)).read name =
      if name = .compacting then
        some (encodeRecords records)
      else if name = .compactionPlan then
        some (CompactionPlan.content ids)
      else disk.read name := by
  have hPieces :
      records.map
          (fun record =>
            (FileSystem.Step.write .compacting
              record.encode : DiskStep)) =
        (records.map Record.encode).map
          (fun piece => .write .compacting piece) := by
    rw [List.map_map]
    rfl
  rw [phase1Steps, FileSystem.execAll_cons,
    FileSystem.execAll_append, FileSystem.execAll_cons,
    read_planSteps, hPieces]
  change (if name = .compactionPlan then _ else
    (FileSystem.execAll _ _).read name) = _
  by_cases hTemp : name = .compacting
  · subst hTemp
    rw [if_neg (by simp), if_pos rfl,
      FileSystem.read_execAll_writes,
      FileSystem.read_exec_createTruncate, if_pos rfl]
    simp [encodeRecords, Framing.encodeAll,
      List.flatMap_def]
  · have hFrame :
        ((FileSystem.Step.exec disk
            (.createTruncate .compacting)).execAll
          ((records.map Record.encode).map
            (fun piece =>
              .write .compacting piece))).read name =
          disk.read name := by
      rw [FileSystem.read_execAll_of_not_target,
        FileSystem.read_exec_of_not_target]
      · simpa [FileSystem.Step.targets] using hTemp
      · intro step hStep
        rcases List.mem_map.mp hStep with ⟨piece, _, rfl⟩
        simpa [FileSystem.Step.targets] using hTemp
    rw [hFrame, if_neg hTemp]

omit [Hasher] in
theorem mem_planSteps_targets
    {ids : List Nat}
    {step : DiskStep}
    (hStep : step ∈ planSteps ids)
    {name : FileName}
    (hName : name ∈ step.targets) :
    name = .compactionPlan := by
  simp only [planSteps, List.mem_cons, List.not_mem_nil,
    or_false] at hStep
  rcases hStep with rfl | rfl | rfl
  · simpa [FileSystem.Step.targets] using hName
  · simpa [FileSystem.Step.targets] using hName
  · simp [FileSystem.Step.targets] at hName

/- Segments keep their inodes in phase 1. -/
theorem lookup_phase1
    (disk : Disk)
    (ids : List Nat)
    (records : List Record)
    (segmentId : Nat) :
    (disk.execAll (phase1Steps ids records)).lookup
        (.wal segmentId) =
      disk.lookup (.wal segmentId) := by
  apply FileSystem.lookup_execAll_of_not_target
  intro step hStep hName
  simp only [phase1Steps, List.mem_cons,
    List.mem_append, List.mem_map] at hStep
  rcases hStep with rfl | ⟨record, _, rfl⟩ | rfl | hPlan
  · simp [FileSystem.Step.targets] at hName
  · simp [FileSystem.Step.targets] at hName
  · simp [FileSystem.Step.targets] at hName
  · have hPlanName := mem_planSteps_targets hPlan hName
    simp at hPlanName

/- The names that phase 2 unlinks. -/
def unlinkedNames (ids : List Nat) : List FileName :=
  (ids.filter (1 < ·)).map .wal ++
    [.compactionPlan, .compactionSwap]

omit [Hasher] in
theorem phase2Steps_eq
    (disk : Disk)
    (ids : List Nat) :
    phase2Steps disk ids =
      (if disk.contains .compactionPlan then []
        else planSteps ids) ++
        (.rename .compacting (.wal 1) ::
          (unlinkedNames ids).map
            (fun name => .remove name)) := by
  simp [phase2Steps, unlinkedNames]

omit [Hasher] in
/- The files after the swap and some unlinks. -/
theorem read_swap
    {content : Bytes}
    (hTemp : disk.read .compacting = some content)
    (ids : List Nat)
    {names : List FileName}
    (hPlan : .compactionPlan ∈ names)
    (name : FileName) :
    (disk.execAll
        ((if disk.contains .compactionPlan then []
            else planSteps ids) ++
          (.rename .compacting (.wal 1) ::
            names.map (fun name => .remove name)))).read
              name =
      if name ∈ names then none
      else if name = .wal 1 then some content
      else if name = .compacting then none
      else disk.read name := by
  rw [FileSystem.execAll_append, FileSystem.execAll_cons,
    FileSystem.read_execAll_removes]
  by_cases hUnlinked : name ∈ names
  · rw [if_pos hUnlinked, if_pos hUnlinked]
  · rw [if_neg hUnlinked, if_neg hUnlinked]
    have hPlanned :
        ∀ other, other ≠ .compactionPlan →
          (disk.execAll
            (if disk.contains .compactionPlan then []
              else planSteps ids)).read other =
            disk.read other := by
      intro other hOther
      split
      · rfl
      · rw [read_planSteps, if_neg hOther]
    have hSource := hPlanned .compacting (by simp)
    rw [hTemp] at hSource
    rw [FileSystem.Step.exec,
      FileSystem.read_rename hSource]
    have hName : name ≠ .compactionPlan := by
      rintro rfl
      exact hUnlinked hPlan
    rw [hPlanned name hName]

omit [Hasher] in
theorem read_phase2
    {content : Bytes}
    (hTemp : disk.read .compacting = some content)
    (ids : List Nat)
    (name : FileName) :
    (disk.execAll (phase2Steps disk ids)).read name =
      if name ∈ unlinkedNames ids then none
      else if name = .wal 1 then some content
      else if name = .compacting then none
      else disk.read name := by
  rw [phase2Steps_eq]
  exact read_swap hTemp ids (by simp [unlinkedNames]) name

omit [Hasher] in
/- The files when some unlinks fail. -/
theorem read_phase2Failing
    (fails : Nat → Bool)
    {content : Bytes}
    (hTemp : disk.read .compacting = some content)
    (ids : List Nat)
    (name : FileName) :
    (disk.execAll
        (phase2StepsFailing fails disk ids)).read name =
      if name ∈ unlinkedNames
          (ids.filter (fun segmentId =>
            ¬ fails segmentId)) then none
      else if name = .wal 1 then some content
      else if name = .compacting then none
      else disk.read name := by
  have hSteps :
      phase2StepsFailing fails disk ids =
        (if disk.contains .compactionPlan then []
          else planSteps ids) ++
          (.rename .compacting (.wal 1) ::
            (unlinkedNames
              (ids.filter (fun segmentId =>
                ¬ fails segmentId))).map
                  (fun name => .remove name)) := by
    simp [phase2StepsFailing, unlinkedNames,
      List.filter_filter]
  rw [hSteps]
  exact read_swap hTemp ids (by simp [unlinkedNames]) name

omit [Hasher] in
/- Segments that are not compacted keep their inodes. -/
theorem lookup_phase2
    (disk : Disk)
    {ids : List Nat}
    {segmentId : Nat}
    (hKept : segmentId ∉ ids)
    (hOne : segmentId ≠ 1) :
    (disk.execAll (phase2Steps disk ids)).lookup
        (.wal segmentId) =
      disk.lookup (.wal segmentId) := by
  apply FileSystem.lookup_execAll_of_not_target
  intro step hStep hName
  rw [phase2Steps_eq, List.mem_append, List.mem_cons,
    List.mem_map] at hStep
  rcases hStep with hPlan | rfl | ⟨name, hUnlinked, rfl⟩
  · split at hPlan
    · simp at hPlan
    · have hPlanName := mem_planSteps_targets hPlan hName
      simp at hPlanName
  · simp [FileSystem.Step.targets, hOne] at hName
  · simp only [FileSystem.Step.targets,
      List.mem_singleton] at hName
    subst hName
    simp [unlinkedNames, hKept] at hUnlinked

end Wal

end Nesso

------------------------------------------------------------
-- The Two Phases on Segments
------------------------------------------------------------

namespace Nesso

namespace SegmentsOn

variable [Hasher]
variable {disk next : Disk}
variable {segments closed later : List Segment}

/- Only the segment files matter. -/
theorem of_read_eq
    (hSegments : SegmentsOn disk segments)
    (hRead :
      ∀ segmentId,
        next.read (.wal segmentId) =
          disk.read (.wal segmentId)) :
    SegmentsOn next segments :=
  { sorted := hSegments.sorted
    one_le := hSegments.one_le
    fits := hSegments.fits
    read_iff := by
      intro segmentId content
      rw [hRead]
      exact hSegments.read_iff segmentId content }

/- Later segments lie above the closed ones. -/
theorem closed_lt_later
    (hSegments : SegmentsOn disk (closed ++ later))
    {left right : Segment}
    (hLeft : left ∈ closed)
    (hRight : right ∈ later) :
    left.1 < right.1 :=
  (List.pairwise_append.mp hSegments.sorted).2.2
    left hLeft right hRight

/- Later segments lie above segment 1. -/
theorem one_lt_later
    (hSegments : SegmentsOn disk (closed ++ later))
    (hClosed : closed ≠ [])
    {segment : Segment}
    (hSegment : segment ∈ later) :
    1 < segment.1 := by
  rcases List.exists_mem_of_ne_nil closed hClosed with
    ⟨first, hFirst⟩
  have hOne :=
    hSegments.one_le first (List.mem_append_left _ hFirst)
  have hLt := hSegments.closed_lt_later hFirst hSegment
  omega

end SegmentsOn

namespace Wal

variable [Hasher]
variable {disk : Disk} {closed later : List Segment}

/-
  Phase 1 writes the compacted records of the closed segments
  next to them and changes no segment.
-/
theorem executeCompactionPhase1_spec
    (hSegments : SegmentsOn disk (closed ++ later)) :
    ∃ next,
      executeCompactionPhase1 disk (closed.map Prod.fst) =
          (.ok
            ({ closedSegmentsCompacted := closed.length
               survivingRecords :=
                (compacted
                  (closed.flatMap Prod.snd)).length
               newSegmentId := 1 },
              newOffsets
                (compacted (closed.flatMap Prod.snd))),
            next) ∧
        SegmentsOn next (closed ++ later) ∧
        next.read .compacting =
          some (encodeRecords
            (compacted (closed.flatMap Prod.snd))) ∧
        next.read .compactionPlan =
          some (CompactionPlan.content
            (closed.map Prod.fst)) ∧
        ∀ segmentId,
          next.lookup (.wal segmentId) =
            disk.lookup (.wal segmentId) := by
  have hPresent :
      ∀ segmentId ∈ closed.map Prod.fst,
        ∃ content,
          disk.read (.wal segmentId) = some content := by
    intro segmentId hId
    rcases List.mem_map.mp hId with ⟨segment, hMem, rfl⟩
    exact ⟨_, hSegments.read_of_mem
      (List.mem_append_left _ hMem)⟩
  have hRecords :
      recordsIn disk (closed.map Prod.fst) =
        closed.flatMap Prod.snd :=
    recordsIn_eq hSegments (fun segment hSegment =>
      List.mem_append_left _ hSegment)
  have hRead :=
    read_phase1 disk (closed.map Prod.fst)
      (compacted (closed.flatMap Prod.snd))
  have hLookup :=
    lookup_phase1 disk (closed.map Prod.fst)
      (compacted (closed.flatMap Prod.snd))
  refine
    ⟨disk.execAll
      (phase1Steps (closed.map Prod.fst)
        (compacted (closed.flatMap Prod.snd))),
      ?_, ?_, ?_, ?_, hLookup⟩
  · rw [executeCompactionPhase1_of_present hPresent,
      hRecords, List.length_map]
  · apply hSegments.of_read_eq
    intro segmentId
    rw [hRead]
    simp
  · rw [hRead, if_pos rfl]
  · rw [hRead, if_neg (by simp), if_pos rfl]

/-
  Phase 2 replaces the closed segments by the compacted one
  and leaves no compaction file behind.
-/
theorem executeCompactionPhase2_spec
    (hSegments : SegmentsOn disk (closed ++ later))
    (hClosed : closed ≠ [])
    {records : List Record}
    (hTemp :
      disk.read .compacting = some (encodeRecords records))
    (hFits : ∀ record ∈ records, record.Fits) :
    ∃ next,
      executeCompactionPhase2 disk (closed.map Prod.fst) =
          (.ok (), next) ∧
        SegmentsOn next ((1, records) :: later) ∧
        next.Clean ∧
        ∀ segment ∈ later,
          next.lookup (.wal segment.1) =
            disk.lookup (.wal segment.1) := by
  have hContains : disk.contains .compacting = true := by
    rw [Disk.contains_eq, hTemp]
    rfl
  have hRead :=
    read_phase2 hTemp (closed.map Prod.fst)
  have hLater :
      ∀ segment ∈ later,
        segment.1 ∉ closed.map Prod.fst := by
    intro segment hSegment hId
    rcases List.mem_map.mp hId with
      ⟨other, hOther, hEq⟩
    have hLt := hSegments.closed_lt_later hOther hSegment
    omega
  refine
    ⟨disk.execAll (phase2Steps disk (closed.map Prod.fst)),
      ?_, ?_, ?_, ?_⟩
  · rw [executeCompactionPhase2, if_pos hContains]
  · constructor
    · rw [List.pairwise_cons]
      refine ⟨?_, ?_⟩
      · intro segment hSegment
        exact hSegments.one_lt_later hClosed hSegment
      · exact (List.pairwise_append.mp
          hSegments.sorted).2.1
    · intro segment hMem
      rcases List.mem_cons.mp hMem with rfl | hMem
      · exact le_refl _
      · exact hSegments.one_le segment
          (List.mem_append_right _ hMem)
    · intro segment hMem
      rcases List.mem_cons.mp hMem with rfl | hMem
      · exact hFits
      · exact hSegments.fits segment
          (List.mem_append_right _ hMem)
    · intro segmentId content
      rw [hRead]
      by_cases hOne : segmentId = 1
      · subst hOne
        rw [if_neg (by simp [unlinkedNames]), if_pos rfl,
          Option.some.injEq]
        constructor
        · intro hContent
          exact ⟨records, by simp, hContent.symm⟩
        · rintro ⟨found, hFound, rfl⟩
          rcases List.mem_cons.mp hFound with hEq | hMem
          · rw [Prod.mk.injEq] at hEq
            rw [hEq.2]
          · have hLt :=
              hSegments.one_lt_later hClosed hMem
            simp at hLt
      · by_cases hId : segmentId ∈ closed.map Prod.fst
        · -- An unlinked segment.
          have hLe : 1 ≤ segmentId := by
            rcases List.mem_map.mp hId with
              ⟨segment, hSegment, rfl⟩
            exact hSegments.one_le segment
              (List.mem_append_left _ hSegment)
          rw [if_pos]
          · constructor
            · intro hNone
              simp at hNone
            · rintro ⟨found, hFound, _⟩
              rcases List.mem_cons.mp hFound with
                hEq | hMem
              · rw [Prod.mk.injEq] at hEq
                exact (hOne hEq.1).elim
              · exact (hLater _ hMem hId).elim
          · simp only [unlinkedNames, List.mem_append,
              List.mem_map, List.mem_filter]
            exact .inl ⟨segmentId,
              ⟨List.mem_map.mp hId, by simp; omega⟩, rfl⟩
        · rw [if_neg (by simp_all [unlinkedNames]),
            if_neg (by simp [hOne]), if_neg (by simp),
            hSegments.read_iff]
          constructor
          · rintro ⟨found, hFound, hContent⟩
            rcases List.mem_append.mp hFound with
              hMem | hMem
            · exact (hId
                (List.mem_map.mpr ⟨_, hMem, rfl⟩)).elim
            · exact ⟨found, List.mem_cons_of_mem _ hMem,
                hContent⟩
          · rintro ⟨found, hFound, hContent⟩
            rcases List.mem_cons.mp hFound with hEq | hMem
            · rw [Prod.mk.injEq] at hEq
              exact (hOne hEq.1).elim
            · exact ⟨found, List.mem_append_right _ hMem,
                hContent⟩
  · intro name hName
    rw [hRead]
    cases name with
    | wal segmentId =>
        simp [FileName.segmentId?] at hName
    | _ => simp [unlinkedNames]
  · intro segment hSegment
    apply lookup_phase2
    · exact hLater segment hSegment
    · have hLt :=
        hSegments.one_lt_later hClosed hSegment
      omega

/- The recorded offset of a compacted record. -/
theorem newOffsets_of_mem_located
    {records : List Record}
    (hNodup : (records.map Record.id).Nodup)
    {offset : Nat}
    {record : Record}
    (hMem :
      (offset, record) ∈
        Framing.located Record.encode 0 records) :
    (newOffsets records)[record.id]? = some offset := by
  let key : Nat × Record → UInt64 := fun entry => entry.2.id
  have hKeys :
      ((Framing.located Record.encode 0 records).map
        key).Nodup := by
    have hMap :
        (Framing.located Record.encode 0 records).map key =
          records.map Record.id := by
      rw [← Framing.map_snd_located Record.encode 0 records,
        List.map_map, Framing.map_snd_located]
      rfl
    rw [hMap]
    exact hNodup
  have hLatest :
      KeyedLog.latest key
          (Framing.located Record.encode 0 records)
          record.id = some (offset, record) :=
    (KeyedLog.latest_eq_some_iff_of_nodup hKeys).mpr
      ⟨hMem, rfl⟩
  change (KeyedLog.lastWriter key Prod.fst
    (Framing.located Record.encode 0 records))[record.id]? =
      some offset
  rw [KeyedLog.getElem?_lastWriter, hLatest]
  rfl

end Wal

end Nesso
