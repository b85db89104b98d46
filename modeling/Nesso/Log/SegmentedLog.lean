import Nesso.Log.Frames

/-
  The log as lists of records per segment, and the relation
  between such a log and a queue directory.

  Key definitions include:
    * `SegmentedLog`
    * `SegmentedLog.entries`
    * `SegmentedLog.append`
    * `SegmentsOn`
    * `Wal.Tracks`

  The refinement theorems are:
    * `SegmentsOn.segmentIds_eq`
    * `SegmentsOn.entries_eq`
    * `SegmentsOn.readAt_of_mem_entries`
    * `Wal.Tracks.append`
-/

------------------------------------------------------------
-- Segmented Logs
------------------------------------------------------------

namespace Nesso

/- A segment number and the records of that segment. -/
abbrev Segment :=
  Nat × List Record

/- Closed segments in order, and the one being appended to. -/
structure SegmentedLog where
  closed : List Segment
  activeId : Nat
  active : List Record

variable [Hasher]

/- The records of one segment with their locations. -/
def Segment.entries
    (segment : Segment) : List (Loc × Record) :=
  (Framing.located Record.encode 0 segment.2).map
    (fun entry => (toLex (segment.1, entry.1), entry.2))

/- The records of several segments with their locations. -/
def entriesOf
    (segments : List Segment) : List (Loc × Record) :=
  segments.flatMap Segment.entries

namespace SegmentedLog

omit [Hasher] in
def segments (log : SegmentedLog) : List Segment :=
  log.closed ++ [(log.activeId, log.active)]

def entries (log : SegmentedLog) : List (Loc × Record) :=
  entriesOf log.segments

omit [Hasher] in
/- Append to the active segment, or to a fresh one. -/
def append
    (log : SegmentedLog)
    (rotates : Bool)
    (record : Record) : SegmentedLog :=
  if rotates then
    { closed := log.segments
      activeId := log.activeId + 1
      active := [record] }
  else
    { log with active := log.active ++ [record] }

end SegmentedLog

theorem entriesOf_append
    (left right : List Segment) :
    entriesOf (left ++ right) =
      entriesOf left ++ entriesOf right := by
  simp [entriesOf]

/- Membership in a log is membership in one segment. -/
theorem mem_entriesOf_iff
    {segments : List Segment}
    {entry : Loc × Record} :
    entry ∈ entriesOf segments ↔
      ∃ segmentId offset records,
        (segmentId, records) ∈ segments ∧
          entry.1 = toLex (segmentId, offset) ∧
          (offset, entry.2) ∈
            Framing.located Record.encode 0 records := by
  constructor
  · intro hEntry
    rcases List.mem_flatMap.mp hEntry with
      ⟨⟨segmentId, records⟩, hSegment, hIn⟩
    rcases List.mem_map.mp hIn with
      ⟨⟨offset, record⟩, hLocated, rfl⟩
    exact ⟨segmentId, offset, records, hSegment, rfl,
      hLocated⟩
  · rintro ⟨segmentId, offset, records, hSegment, hLoc,
      hLocated⟩
    apply List.mem_flatMap.mpr
    refine ⟨(segmentId, records), hSegment, ?_⟩
    apply List.mem_map.mpr
    refine ⟨(offset, entry.2), hLocated, ?_⟩
    rw [← hLoc]

/- An entry lies in the segment its location names. -/
theorem segment_of_mem_entriesOf
    {segments : List Segment}
    {entry : Loc × Record}
    (hEntry : entry ∈ entriesOf segments) :
    ∃ records,
      ((ofLex entry.1).1, records) ∈ segments ∧
        entry.2 ∈ records := by
  rcases mem_entriesOf_iff.mp hEntry with
    ⟨segmentId, offset, records, hSegment, hLoc, hLocated⟩
  refine ⟨records, ?_, ?_⟩
  · rw [hLoc]
    exact hSegment
  · have hMem :=
      List.mem_map_of_mem (f := Prod.snd) hLocated
    rwa [Framing.map_snd_located] at hMem

/- The records of a log, without their locations. -/
theorem map_snd_entriesOf
    (segments : List Segment) :
    (entriesOf segments).map Prod.snd =
      segments.flatMap Prod.snd := by
  induction segments with
  | nil => rfl
  | cons segment segments ih =>
      have hHead :
          segment.entries.map Prod.snd = segment.2 := by
        rw [Segment.entries, List.map_map]
        exact Framing.map_snd_located _ _ _
      rw [entriesOf, List.flatMap_cons, List.map_append,
        List.flatMap_cons, hHead]
      exact congrArg _ ih

/- Locations increase along a log with sorted segments. -/
theorem entriesOf_pairwise_lt
    {segments : List Segment}
    (hSorted :
      segments.Pairwise
        (fun left right => left.1 < right.1)) :
    (entriesOf segments).Pairwise
      (fun left right => left.1 < right.1) := by
  induction segments with
  | nil => simp [entriesOf]
  | cons segment segments ih =>
      rw [List.pairwise_cons] at hSorted
      rw [entriesOf, List.flatMap_cons,
        List.pairwise_append]
      refine ⟨?_, ih hSorted.2, ?_⟩
      · rw [Segment.entries, List.pairwise_map]
        refine
          (Framing.located_pairwise_lt
            Record.encode_length_pos 0 segment.2).imp ?_
        intro left right hLt
        rw [Prod.Lex.toLex_lt_toLex]
        exact .inr ⟨rfl, hLt⟩
      · intro left hLeft right hRight
        rcases List.mem_map.mp hLeft with ⟨entry, _, rfl⟩
        rcases segment_of_mem_entriesOf hRight with
          ⟨records, hSegment, _⟩
        rw [Prod.Lex.lt_iff]
        exact .inl (hSorted.1 _ hSegment)

/- Appending extends the log by one located record. -/
theorem SegmentedLog.entries_append
    (log : SegmentedLog)
    (rotates : Bool)
    (record : Record) :
    (log.append rotates record).entries =
      log.entries ++
        [(toLex
          (if rotates then (log.activeId + 1, 0)
            else (log.activeId,
              (encodeRecords log.active).length)),
          record)] := by
  unfold SegmentedLog.append
  cases rotates with
  | true =>
      simp [entries, segments, entriesOf, Segment.entries,
        Framing.located]
  | false =>
      simp [entries, segments, entriesOf, Segment.entries,
        Framing.located, Framing.located_append,
        encodeRecords]

end Nesso

------------------------------------------------------------
-- Segments of a Directory
------------------------------------------------------------

namespace Nesso

namespace Disk

theorem mem_segmentIds_iff
    {disk : Disk}
    {segmentId : Nat} :
    segmentId ∈ disk.segmentIds ↔
      ∃ content, disk.read (.wal segmentId) = some content
      := by
  rw [segmentIds, List.mem_insertionSort,
    List.mem_filterMap]
  constructor
  · rintro ⟨name, hName, hSegment⟩
    cases name with
    | wal found =>
        simp only [FileName.segmentId?,
          Option.some.injEq] at hSegment
        subst hSegment
        rw [Std.ExtTreeMap.mem_keys] at hName
        have hSome :=
          Std.ExtTreeMap.isSome_getElem?_iff_mem.mpr hName
        rcases Option.isSome_iff_exists.mp hSome with
          ⟨inode, hInode⟩
        exact ⟨_, FileSystem.read_eq_some_iff.mpr
          ⟨inode, hInode, rfl⟩⟩
    | _ => simp [FileName.segmentId?] at hSegment
  · rintro ⟨content, hRead⟩
    rcases FileSystem.read_eq_some_iff.mp hRead with
      ⟨inode, hLookup, _⟩
    refine ⟨.wal segmentId, ?_, rfl⟩
    rw [Std.ExtTreeMap.mem_keys,
      ← Std.ExtTreeMap.isSome_getElem?_iff_mem]
    exact Option.isSome_iff_exists.mpr ⟨inode, hLookup⟩

theorem segmentIds_pairwise_lt
    (disk : Disk) :
    disk.segmentIds.Pairwise (· < ·) := by
  have hSorted :
      disk.segmentIds.Pairwise (· ≤ ·) :=
    List.pairwise_insertionSort _ _
  have hNodup : disk.segmentIds.Nodup := by
    rw [segmentIds,
      (List.perm_insertionSort _ _).nodup_iff]
    refine List.Nodup.filterMap ?_
      Std.ExtTreeMap.nodup_keys
    intro left right segmentId hLeft hRight
    cases left <;> cases right <;>
      simp_all [FileName.segmentId?]
  exact (hSorted.and hNodup).imp
    (fun hBoth => lt_of_le_of_ne hBoth.1 hBoth.2)

/- The sorted segment list is determined by its members. -/
theorem segmentIds_eq_of_mem_iff
    {disk : Disk}
    {expected : List Nat}
    (hSorted : expected.Pairwise (· < ·))
    (hMem :
      ∀ segmentId,
        (∃ content,
          disk.read (.wal segmentId) = some content) ↔
          segmentId ∈ expected) :
    disk.segmentIds = expected := by
  apply (segmentIds_pairwise_lt disk).eq_of_mem_iff hSorted
  intro segmentId
  rw [mem_segmentIds_iff]
  exact hMem segmentId

end Disk

namespace Wal

variable [Hasher]

/- An entry is a record of the segment it is located in. -/
theorem mem_entries_iff
    {disk : Disk}
    {entry : Loc × Record} :
    entry ∈ Wal.entries disk ↔
      ∃ content,
        disk.read (.wal (ofLex entry.1).1) = some content ∧
          ((ofLex entry.1).2, entry.2) ∈
            segmentRecords content := by
  simp only [Wal.entries, Wal.segmentEntries,
    List.mem_flatMap, List.mem_map,
    Disk.mem_segmentIds_iff]
  constructor
  · rintro ⟨segmentId, ⟨content, hRead⟩, found, hFound, rfl⟩
    refine ⟨content, hRead, ?_⟩
    simpa [hRead] using hFound
  · rintro ⟨content, hRead, hFound⟩
    exact ⟨(ofLex entry.1).1, ⟨content, hRead⟩, _,
      by simpa [hRead] using hFound, rfl⟩

/- Only the segment files matter. -/
theorem entries_congr
    {disk next : Disk}
    (hRead :
      ∀ segmentId,
        next.read (.wal segmentId) =
          disk.read (.wal segmentId)) :
    Wal.entries next = Wal.entries disk := by
  have hIds : next.segmentIds = disk.segmentIds := by
    apply Disk.segmentIds_eq_of_mem_iff
      (Disk.segmentIds_pairwise_lt disk)
    intro segmentId
    rw [hRead, Disk.mem_segmentIds_iff]
  simp only [Wal.entries, hIds, hRead]

/- Every yielded record can be read at its location. -/
theorem readAt_of_mem_entries
    {disk : Disk}
    {reader : WalReader}
    (hCoherent : reader.Coherent disk)
    {entry : Loc × Record}
    (hEntry : entry ∈ Wal.entries disk) :
    (reader.readAt disk
        (ofLex entry.1).1 (ofLex entry.1).2).1 =
      .ok (some entry.2) := by
  rcases mem_entries_iff.mp hEntry with
    ⟨content, hRead, hFound⟩
  exact hCoherent.readAt_of_mem_scan hRead hFound

/- Locations increase along the log. -/
theorem entries_pairwise_lt
    (disk : Disk) :
    (Wal.entries disk).Pairwise
      (fun left right => left.1 < right.1) := by
  simp only [Wal.entries, Wal.segmentEntries,
    List.pairwise_flatMap]
  constructor
  · intro segmentId _
    apply List.pairwise_map.mpr
    refine (Framing.scan_pairwise_lt _ _ _).imp ?_
    intro left right hLt
    exact Prod.Lex.toLex_lt_toLex.mpr (.inr ⟨rfl, hLt⟩)
  · refine (Disk.segmentIds_pairwise_lt disk).imp ?_
    intro left right hLt first hFirst second hSecond
    rcases List.mem_map.mp hFirst with ⟨_, _, rfl⟩
    rcases List.mem_map.mp hSecond with ⟨_, _, rfl⟩
    exact Prod.Lex.toLex_lt_toLex.mpr (.inl hLt)

end Wal

/- The directory holds exactly these segments, whole. -/
structure SegmentsOn [Hasher]
    (disk : Disk)
    (segments : List Segment) : Prop where
  sorted :
    segments.Pairwise
      (fun left right => left.1 < right.1)
  one_le : ∀ segment ∈ segments, 1 ≤ segment.1
  fits :
    ∀ segment ∈ segments,
      ∀ record ∈ segment.2, record.Fits
  read_iff :
    ∀ segmentId content,
      disk.read (.wal segmentId) = some content ↔
        ∃ records,
          (segmentId, records) ∈ segments ∧
            content = encodeRecords records

namespace SegmentsOn

variable [Hasher]
variable {disk : Disk} {segments : List Segment}

theorem read_of_mem
    (hSegments : SegmentsOn disk segments)
    {segmentId : Nat}
    {records : List Record}
    (hMem : (segmentId, records) ∈ segments) :
    disk.read (.wal segmentId) =
      some (encodeRecords records) :=
  (hSegments.read_iff _ _).mpr ⟨records, hMem, rfl⟩

theorem segmentIds_eq
    (hSegments : SegmentsOn disk segments) :
    disk.segmentIds = segments.map Prod.fst := by
  apply Disk.segmentIds_eq_of_mem_iff
  · rw [List.pairwise_map]
    exact hSegments.sorted
  · intro segmentId
    constructor
    · rintro ⟨content, hRead⟩
      rcases (hSegments.read_iff _ _).mp hRead with
        ⟨records, hMem, _⟩
      exact List.mem_map.mpr ⟨_, hMem, rfl⟩
    · intro hMem
      rcases List.mem_map.mp hMem with
        ⟨⟨found, records⟩, hFound, rfl⟩
      exact ⟨_, hSegments.read_of_mem hFound⟩

/- Iterating over the directory yields the whole log. -/
theorem entries_eq
    (hSegments : SegmentsOn disk segments) :
    Wal.entries disk = entriesOf segments := by
  rw [Wal.entries, hSegments.segmentIds_eq,
    List.flatMap_map, entriesOf]
  apply List.flatMap_congr
  rintro ⟨segmentId, records⟩ hMem
  rw [hSegments.read_of_mem hMem, Option.getD_some,
    Wal.segmentEntries,
    segmentRecords_encodeRecords (hSegments.fits _ hMem)]
  rfl

theorem entries_pairwise_lt
    (hSegments : SegmentsOn disk segments) :
    (entriesOf segments).Pairwise
      (fun left right => left.1 < right.1) :=
  entriesOf_pairwise_lt hSegments.sorted

/- Every record of the log can be read at its location. -/
theorem readAt_of_mem_entries
    (hSegments : SegmentsOn disk segments)
    {reader : WalReader}
    (hCoherent : reader.Coherent disk)
    {entry : Loc × Record}
    (hEntry : entry ∈ entriesOf segments) :
    (reader.readAt disk
        (ofLex entry.1).1 (ofLex entry.1).2).1 =
      .ok (some entry.2) := by
  rw [← hSegments.entries_eq] at hEntry
  exact Wal.readAt_of_mem_entries hCoherent hEntry

end SegmentsOn

end Nesso

------------------------------------------------------------
-- Appending to a Tracked Log
------------------------------------------------------------

namespace Nesso

/- Names and the other files survive an append. -/
structure Disk.Extends (disk next : Disk) : Prop where
  lookup_of_lookup :
    ∀ {name inode},
      disk.lookup name = some inode →
        next.lookup name = some inode
  read_other :
    ∀ {name}, FileName.segmentId? name = none →
      next.read name = disk.read name

theorem Disk.Extends.coherent
    {disk next : Disk}
    (hExtends : disk.Extends next)
    {reader : WalReader}
    (hCoherent : reader.Coherent disk) :
    reader.Coherent next := by
  intro entry hEntry
  exact hExtends.lookup_of_lookup (hCoherent entry hEntry)

namespace Wal

variable [Hasher]

/- Whether the next append starts a new segment. -/
def rotates (wal : Wal) : Bool :=
  decide (wal.maxSegmentSize ≤ wal.currentSize)

/- The location the next append writes to. -/
def nextLoc (wal : Wal) : Loc :=
  toLex
    (if wal.rotates then (wal.activeSegmentId + 1, 0)
      else (wal.activeSegmentId, wal.currentSize))

/- The writing side agrees with a log on disk. -/
structure Tracks
    (disk : Disk)
    (wal : Wal)
    (log : SegmentedLog) : Prop where
  segmentsOn : SegmentsOn disk log.segments
  activeSegmentId_eq : wal.activeSegmentId = log.activeId
  activeFile_eq :
    disk.lookup (.wal log.activeId) = some wal.activeFile
  currentSize_eq :
    wal.currentSize = (encodeRecords log.active).length

end Wal

namespace SegmentsOn

variable [Hasher]
variable {disk : Disk} {log : SegmentedLog}

/- A closed segment lies below the active one. -/
theorem closed_lt_activeId
    (hSegments : SegmentsOn disk log.segments)
    {segment : Segment}
    (hMem : segment ∈ log.closed) :
    segment.1 < log.activeId := by
  have hSorted := hSegments.sorted
  rw [SegmentedLog.segments, List.pairwise_append]
    at hSorted
  exact hSorted.2.2 segment hMem
    (log.activeId, log.active) (List.mem_singleton_self _)

/- No segment lies above the active one. -/
theorem le_activeId
    (hSegments : SegmentsOn disk log.segments)
    {segment : Segment}
    (hMem : segment ∈ log.segments) :
    segment.1 ≤ log.activeId := by
  rw [SegmentedLog.segments, List.mem_append,
    List.mem_singleton] at hMem
  rcases hMem with hMem | rfl
  · exact le_of_lt (hSegments.closed_lt_activeId hMem)
  · exact le_refl _

/- Rewriting the active file rewrites the active records. -/
theorem replaceActive
    (hSegments : SegmentsOn disk log.segments)
    {next : Disk}
    {records : List Record}
    (hFits : ∀ record ∈ records, record.Fits)
    (hRead :
      ∀ name,
        next.read name =
          if name = .wal log.activeId then
            some (encodeRecords records)
          else disk.read name) :
    SegmentsOn next
      ({ log with active := records } :
        SegmentedLog).segments := by
  constructor
  · have hSorted := hSegments.sorted
    rw [SegmentedLog.segments, List.pairwise_append]
      at hSorted ⊢
    refine ⟨hSorted.1, by simp, ?_⟩
    intro segment hMem other hOther
    rw [List.mem_singleton] at hOther
    rw [hOther]
    exact hSegments.closed_lt_activeId hMem
  · intro segment hMem
    rw [SegmentedLog.segments, List.mem_append,
      List.mem_singleton] at hMem
    rcases hMem with hMem | rfl
    · exact hSegments.one_le segment
        (List.mem_append_left _ hMem)
    · exact hSegments.one_le (log.activeId, log.active)
        (by simp [SegmentedLog.segments])
  · intro segment hMem
    rw [SegmentedLog.segments, List.mem_append,
      List.mem_singleton] at hMem
    rcases hMem with hMem | rfl
    · exact hSegments.fits segment
        (List.mem_append_left _ hMem)
    · exact hFits
  · intro segmentId content
    simp only [hRead, FileName.wal.injEq]
    by_cases hActive : segmentId = log.activeId
    · rw [if_pos hActive, Option.some.injEq]
      constructor
      · intro hContent
        exact ⟨records,
          by simp [SegmentedLog.segments, hActive],
          hContent.symm⟩
      · rintro ⟨found, hFound, rfl⟩
        rw [SegmentedLog.segments, List.mem_append,
          List.mem_singleton] at hFound
        rcases hFound with hFound | hFound
        · have hLt := hSegments.closed_lt_activeId hFound
          simp only [hActive, lt_irrefl] at hLt
        · rw [Prod.mk.injEq] at hFound
          rw [hFound.2]
    · rw [if_neg hActive, hSegments.read_iff]
      simp [SegmentedLog.segments, hActive]

/- A fresh segment behind the active one starts empty. -/
theorem startSegment
    (hSegments : SegmentsOn disk log.segments)
    {next : Disk}
    (hRead :
      ∀ name,
        next.read name =
          if name = .wal (log.activeId + 1) then
            some ((disk.read
              (.wal (log.activeId + 1))).getD [])
          else disk.read name) :
    SegmentsOn next
      ({ closed := log.segments
         activeId := log.activeId + 1
         active := [] } : SegmentedLog).segments := by
  have hAbsent :
      disk.read (.wal (log.activeId + 1)) = none := by
    by_contra hSome
    rcases Option.ne_none_iff_exists'.mp hSome with
      ⟨content, hContent⟩
    rcases (hSegments.read_iff _ _).mp hContent with
      ⟨records, hMem, _⟩
    have hLe := hSegments.le_activeId hMem
    simp only at hLe
    omega
  have hLast :
      ∀ segment ∈ log.segments,
        segment.1 < log.activeId + 1 := by
    intro segment hMem
    have hLe := hSegments.le_activeId hMem
    omega
  constructor
  · rw [SegmentedLog.segments, List.pairwise_append]
    refine ⟨hSegments.sorted, by simp, ?_⟩
    intro segment hMem other hOther
    rw [List.mem_singleton] at hOther
    rw [hOther]
    exact hLast segment hMem
  · intro segment hMem
    rw [SegmentedLog.segments, List.mem_append,
      List.mem_singleton] at hMem
    rcases hMem with hMem | rfl
    · exact hSegments.one_le segment hMem
    · exact Nat.le_add_left 1 _
  · intro segment hMem
    rw [SegmentedLog.segments, List.mem_append,
      List.mem_singleton] at hMem
    rcases hMem with hMem | rfl
    · exact hSegments.fits segment hMem
    · simp
  · intro segmentId content
    simp only [hRead, FileName.wal.injEq]
    by_cases hActive : segmentId = log.activeId + 1
    · rw [if_pos hActive, hAbsent, Option.getD_none,
        Option.some.injEq]
      constructor
      · rintro rfl
        exact ⟨[], by simp [SegmentedLog.segments, hActive],
          rfl⟩
      · rintro ⟨records, hMem, rfl⟩
        rw [SegmentedLog.segments, List.mem_append,
          List.mem_singleton] at hMem
        rcases hMem with hMem | hMem
        · have hLt := hLast _ hMem
          simp only [hActive, lt_irrefl] at hLt
        · rw [Prod.mk.injEq] at hMem
          rw [hMem.2]
          rfl
    · rw [if_neg hActive, hSegments.read_iff]
      simp [SegmentedLog.segments, hActive]

end SegmentsOn

end Nesso

namespace Nesso

namespace Wal

namespace Tracks

variable [Hasher]
variable {disk : Disk} {wal : Wal} {log : SegmentedLog}

/- Rotating starts an empty active segment. -/
theorem rotate
    (hTracks : wal.Tracks disk log) :
    ∃ next nextWal,
      Wal.rotate none disk wal = (.ok (), next, nextWal) ∧
        nextWal.Tracks next
          { closed := log.segments
            activeId := log.activeId + 1
            active := [] } ∧
        disk.Extends next ∧
        nextWal.maxSegmentSize = wal.maxSegmentSize := by
  refine
    ⟨(disk.create (.wal (wal.activeSegmentId + 1))).1,
      { wal with
        activeSegmentId := wal.activeSegmentId + 1
        activeFile :=
          (disk.create (.wal (wal.activeSegmentId + 1))).2
        currentSize := 0 }, rfl, ?_, ?_, rfl⟩
  · constructor
    · apply hTracks.segmentsOn.startSegment
      intro name
      rw [FileSystem.read_create, hTracks.activeSegmentId_eq]
    · rw [hTracks.activeSegmentId_eq]
    · rw [hTracks.activeSegmentId_eq]
      exact FileSystem.lookup_create_self disk _
    · rfl
  · constructor
    · intro name inode hLookup
      exact FileSystem.lookup_create_of_lookup hLookup _
    · intro name hName
      rw [FileSystem.read_create, if_neg]
      rintro rfl
      simp [FileName.segmentId?] at hName

/- Writing a frame extends the active segment. -/
theorem writeFrame
    (hTracks : wal.Tracks disk log)
    {record : Record}
    (hFits : record.Fits) :
    ∃ next nextWal,
      Wal.writeFrame none disk wal record =
          (.ok (toLex (wal.activeSegmentId,
            wal.currentSize)), next, nextWal) ∧
        nextWal.Tracks next
          { log with active := log.active ++ [record] } ∧
        disk.Extends next ∧
        nextWal.maxSegmentSize = wal.maxSegmentSize := by
  have hRead :
      ∀ name,
        (disk.append wal.activeFile record.encode).read
            name =
          if name = .wal log.activeId then
            some (encodeRecords (log.active ++ [record]))
          else disk.read name := by
    intro name
    have hActive :
        disk.read (.wal log.activeId) =
          some (encodeRecords log.active) :=
      hTracks.segmentsOn.read_of_mem
        (by simp [SegmentedLog.segments])
    rw [FileSystem.read_append hTracks.activeFile_eq,
      hActive]
    simp [encodeRecords]
  refine ⟨_, _, rfl, ?_, ?_, rfl⟩
  · constructor
    · refine hTracks.segmentsOn.replaceActive ?_ hRead
      intro other hOther
      rw [List.mem_append, List.mem_singleton] at hOther
      rcases hOther with hOther | rfl
      · exact hTracks.segmentsOn.fits
          (log.activeId, log.active)
          (by simp [SegmentedLog.segments]) other hOther
      · exact hFits
    · exact hTracks.activeSegmentId_eq
    · exact hTracks.activeFile_eq
    · simp [hTracks.currentSize_eq, encodeRecords]
  · constructor
    · intro name inode hLookup
      exact hLookup
    · intro name hName
      rw [hRead, if_neg]
      rintro rfl
      simp [FileName.segmentId?] at hName

/-
  A successful append returns the next location and extends
  the log by the record there.
-/
theorem append
    (hTracks : wal.Tracks disk log)
    {record : Record}
    (hFits : record.Fits) :
    ∃ next nextWal,
      Wal.append none disk wal record =
          (.ok wal.nextLoc, next, nextWal) ∧
        nextWal.Tracks next
          (log.append wal.rotates record) ∧
        disk.Extends next ∧
        nextWal.maxSegmentSize = wal.maxSegmentSize := by
  unfold Wal.append rotateIfFull
  by_cases hFull : wal.maxSegmentSize ≤ wal.currentSize
  · rcases hTracks.rotate with
      ⟨rotated, rotatedWal, hRotate, hRotated, hFirst, hMax⟩
    rcases hRotated.writeFrame hFits with
      ⟨next, nextWal, hWrite, hNext, hSecond, hMaxNext⟩
    refine ⟨next, nextWal, ?_, ?_, ?_, ?_⟩
    · rw [if_pos hFull, hRotate]
      simp only [hWrite, nextLoc, rotates, hFull,
        decide_true, if_true, hRotated.activeSegmentId_eq,
        hRotated.currentSize_eq, hTracks.activeSegmentId_eq]
      rfl
    · simpa [SegmentedLog.append, rotates, hFull] using hNext
    · constructor
      · intro name inode hLookup
        exact hSecond.lookup_of_lookup
          (hFirst.lookup_of_lookup hLookup)
      · intro name hName
        rw [hSecond.read_other hName,
          hFirst.read_other hName]
    · rw [hMaxNext, hMax]
  · rcases hTracks.writeFrame hFits with
      ⟨next, nextWal, hWrite, hNext, hExtends, hMax⟩
    refine ⟨next, nextWal, ?_, ?_, hExtends, hMax⟩
    · rw [if_neg hFull]
      simp only [hWrite, nextLoc, rotates, hFull,
        decide_false, Bool.false_eq_true, if_false]
    · simpa [SegmentedLog.append, rotates, hFull] using hNext

/- The appended record sits at the returned location. -/
theorem entries_append
    (hTracks : wal.Tracks disk log)
    (record : Record) :
    (log.append wal.rotates record).entries =
      log.entries ++ [(wal.nextLoc, record)] := by
  rw [SegmentedLog.entries_append, nextLoc,
    hTracks.activeSegmentId_eq, hTracks.currentSize_eq]

end Tracks

end Wal

end Nesso
